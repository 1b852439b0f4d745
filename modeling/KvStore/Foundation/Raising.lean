import KvStore.Foundation.Program

/-! # Computations that raise

A method that raises leaves its object in the state it had reached. `Raising S ε α` is the type of such
computations on states `S`, and `Prog.raise` runs a program over an interface whose operations may raise
themselves: the exception ends the program.

If no operation raises, the program does what `Prog.run` makes of it. A machine is compared with one whose
operations never raise through a `view` of its states:

* **`Raising.Mirrors`** — a computation does not raise, and does what a total function does;
* **`Raising.Agrees`** — a computation does what a function that can fail does, the state kept.

**`Prog.raise_agrees`** carries this from the operations to every program, and **`Prog.raise_keeps`** an
invariant. -/

namespace KvStore

/-- **A computation that may raise**, keeping the state it has reached. -/
structure Raising (S ε α : Type) where
  /-- The result or the exception, and the state. -/
  run : S → Except ε α × S

namespace Raising

variable {S T ε α β : Type}

instance instMonadRaising : Monad (Raising S ε) where
  pure a := ⟨fun s => (.ok a, s)⟩
  bind x f := ⟨fun s =>
    match x.run s with
    | (.ok a, s) => (f a).run s
    | (.error e, s) => (.error e, s)⟩

/-- Raise an exception. -/
def raise (e : ε) : Raising S ε α := ⟨fun s => (.error e, s)⟩

/-- A computation that does not raise. -/
def act (f : S → α × S) : Raising S ε α := ⟨fun s => (.ok (f s).1, (f s).2)⟩

/-- A computation that depends on the state. -/
def look (f : S → Raising S ε α) : Raising S ε α := ⟨fun s => (f s).run s⟩

theorem look_run (f : S → Raising S ε α) (s : S) : (look f).run s = (f s).run s := rfl

/-- `try … finally`: the state is changed in any case. -/
def ensure (x : Raising S ε α) (f : S → S) : Raising S ε α := ⟨fun s => ((x.run s).1, f (x.run s).2)⟩

variable {x : Raising S ε α}

theorem bind_ok {f : α → Raising S ε β} {s s' : S} {a : α} (h : x.run s = (.ok a, s')) :
    (x >>= f).run s = (f a).run s' := by
  change (match x.run s with
    | (.ok a, s) => (f a).run s
    | (.error e, s) => (.error e, s)) = _
  rw [h]

theorem bind_error {f : α → Raising S ε β} {s s' : S} {e : ε} (h : x.run s = (.error e, s')) :
    (x >>= f).run s = (.error e, s') := by
  change (match x.run s with
    | (.ok a, s) => (f a).run s
    | (.error e, s) => (.error e, s)) = _
  rw [h]

/-- **The computation does not raise and does what a total function does**, from states that satisfy an
invariant and seen through a view. -/
def Mirrors (I : S → Prop) (view : S → T) (x : Raising S ε α) (g : T → α × T) : Prop :=
  ∀ s, I s → ∃ a s', x.run s = (.ok a, s') ∧ I s' ∧ g (view s) = (a, view s')

/-- **The computation does what a function that can fail does.** -/
def Agrees (I : S → Prop) (view : S → T) (x : Raising S ε α) (f : T → Except ε α × T) : Prop :=
  ∀ s, I s → I (x.run s).2 ∧ f (view s) = ((x.run s).1, view (x.run s).2)

/-- **The computation keeps an invariant**, also if it raises. -/
def Keeps (R : S → Prop) (x : Raising S ε α) : Prop := ∀ s, R s → R (x.run s).2

section Keeps

variable {R : S → Prop}

theorem keeps_pure (a : α) : Keeps R (pure a : Raising S ε α) := fun _ hs => hs

theorem keeps_raise (e : ε) : Keeps R (raise e : Raising S ε α) := fun _ hs => hs

/-- A computation that reads the state first. -/
theorem Keeps.look {f : S → Raising S ε α} (h : ∀ s, Keeps R (f s)) : Keeps R (Raising.look f) :=
  fun s hs => h s s hs

/-- **Computations one after the other.** -/
theorem Keeps.bind {β : Type} {x : Raising S ε α} {f : α → Raising S ε β} (hx : Keeps R x)
    (hf : ∀ a, Keeps R (f a)) : Keeps R (x >>= f) := by
  intro s hs
  have hR := hx s hs
  cases hrun : x.run s with
  | mk result s' =>
    rw [hrun] at hR
    cases result with
    | error e =>
      rw [bind_error hrun]
      exact hR
    | ok a =>
      rw [bind_ok hrun]
      exact hf a s' hR

end Keeps

variable {I : S → Prop} {view : S → T}

theorem mirrors_pure (a : α) : Mirrors I view (pure a : Raising S ε α) fun t => (a, t) :=
  fun s hs => ⟨a, s, rfl, hs, rfl⟩

/-- **Computations one after the other**: the second goes on from what the first has left. -/
theorem Mirrors.bind {k : α → Raising S ε β} {g : T → α × T} {f : T → β × T}
    (hx : Mirrors I view x g) (hk : ∀ t a s, I s → g t = (a, view s) →
      ∃ b s', (k a).run s = (.ok b, s') ∧ I s' ∧ f t = (b, view s')) :
    Mirrors I view (x >>= k) f := by
  intro s hs
  obtain ⟨a, s', hrun, hs', hview⟩ := hx s hs
  rw [bind_ok hrun]
  exact hk (view s) a s' hs' hview

/-- Another result. -/
theorem Mirrors.map {g : T → α × T} (hx : Mirrors I view x g) (f : α → β) :
    Mirrors I view (do let a ← x; return f a) fun t => (f (g t).1, (g t).2) :=
  hx.bind fun _ a s hs hview => ⟨f a, s, rfl, hs, by rw [hview]⟩

/-- The state is changed at the end, on either side. -/
theorem Agrees.ensure {f : T → Except ε α × T} (h : Agrees I view x f) {g : S → S} {g' : T → T}
    (hI : ∀ s, I s → I (g s)) (hg : ∀ s, g' (view s) = view (g s)) :
    Agrees I view (x.ensure g) fun t => ((f t).1, g' (f t).2) := by
  intro s hs
  obtain ⟨hI', heq⟩ := h s hs
  refine ⟨hI _ hI', ?_⟩
  simp only [heq, hg]
  rfl

end Raising

namespace Prog

variable {Op : Type} {Resp : Op → Type} {ε α S T : Type}

/-- **Execution** of a program on a machine whose operations may raise. -/
def raise (exec : (o : Op) → Raising S ε (Resp o)) : Prog Op Resp ε α → Raising S ε α
  | ret a => pure a
  | fail e => .raise e
  | op o next => exec o >>= fun r => (next r).raise exec

/-- **If no operation raises, programs run as on the machine whose operations cannot.** -/
theorem raise_agrees {I : S → Prop} {view : S → T} {raising : (o : Op) → Raising S ε (Resp o)}
    {exec : (o : Op) → T → Resp o × T} (h : ∀ o, (raising o).Mirrors I view (exec o))
    (p : Prog Op Resp ε α) : (p.raise raising).Agrees I view (p.run exec) := by
  induction p with
  | ret | fail => exact fun _ hs => ⟨hs, rfl⟩
  | op o next ih =>
    intro s hs
    obtain ⟨a, s', hraising, hs', hexec⟩ := h o s hs
    rw [run_op, raise, Raising.bind_ok hraising, hexec]
    exact ih a s' hs'

/-- **An invariant of the operations a program uses is one of the program.** -/
theorem raise_keeps {P : Op → Prop} {R : S → Prop} {raising : (o : Op) → Raising S ε (Resp o)}
    (h : ∀ o, P o → (raising o).Keeps R) {p : Prog Op Resp ε α} (hp : p.Uses P) :
    (p.raise raising).Keeps R := by
  induction p with
  | ret a => exact Raising.keeps_pure a
  | fail e => exact Raising.keeps_raise e
  | op o next ih => exact (h o hp.1).bind fun r => ih r (hp.2 r)

end Prog

end KvStore
