import Mathlib.Logic.Function.Basic

/-! # Programs over an interface of operations

A handler that receives an object and calls its methods is a *program over an interface*: at each
point it returns, fails, or performs one operation and continues with the answer. `Prog Op Resp ε α`
is the type of such programs, `Op` being the operations and `Resp o` the type of the answer to `o`.
Nothing in a program says what an operation does; `Prog.run` executes it against a machine, that is
a function `exec : (o : Op) → S → Resp o × S` on states. A failure keeps the state reached so far, as
an exception does.

What holds of every operation of a machine then holds of every program:

* **`Prog.run_invariant`** — an invariant of the operations a program uses is an invariant of the
  program;
* **`Prog.run_related`** — two machines that answer alike and stay related give the same result.

`Prog.Uses P p` says that `p` performs only operations that satisfy `P`, whatever the answers. -/

namespace KvStore

/-- **Programs** that perform operations `o : Op`, receive answers in `Resp o`, fail with an `ε` and
return an `α`. -/
inductive Prog (Op : Type) (Resp : Op → Type) (ε α : Type) : Type
  /-- Return a result. -/
  | ret (a : α) : Prog Op Resp ε α
  /-- Raise an error. -/
  | fail (e : ε) : Prog Op Resp ε α
  /-- Perform an operation and continue with its answer. -/
  | op (o : Op) (next : Resp o → Prog Op Resp ε α) : Prog Op Resp ε α

namespace Prog

variable {Op : Type} {Resp : Op → Type} {ε α β : Type}

/-- Sequencing: a failure ends the whole program. -/
def bind : Prog Op Resp ε α → (α → Prog Op Resp ε β) → Prog Op Resp ε β
  | ret a, f => f a
  | fail e, _ => fail e
  | op o next, f => op o fun r => (next r).bind f

instance : Monad (Prog Op Resp ε) where
  pure := ret
  bind := bind

/-- One operation as a program. -/
def perform (o : Op) : Prog Op Resp ε (Resp o) := op o ret

/-- A pure computation that may fail. -/
def ofExcept : Except ε α → Prog Op Resp ε α
  | .ok a => ret a
  | .error e => fail e

@[simp] theorem pure_eq (a : α) : (pure a : Prog Op Resp ε α) = ret a := rfl

@[simp] theorem bind_eq (p : Prog Op Resp ε α) (f : α → Prog Op Resp ε β) :
    p >>= f = p.bind f := rfl

@[simp] theorem ret_bind (a : α) (f : α → Prog Op Resp ε β) : (ret a).bind f = f a := rfl

@[simp] theorem fail_bind (e : ε) (f : α → Prog Op Resp ε β) :
    (fail e : Prog Op Resp ε α).bind f = fail e := rfl

@[simp] theorem op_bind (o : Op) (next : Resp o → Prog Op Resp ε α) (f : α → Prog Op Resp ε β) :
    (op o next).bind f = op o fun r => (next r).bind f := rfl

@[simp] theorem perform_bind (o : Op) (f : Resp o → Prog Op Resp ε β) :
    (perform o).bind f = op o f := rfl

@[simp] theorem map_eq (f : α → β) (p : Prog Op Resp ε α) :
    f <$> p = p.bind fun a => ret (f a) := rfl

@[simp] theorem ofExcept_ok (a : α) : (ofExcept (.ok a) : Prog Op Resp ε α) = ret a := rfl

@[simp] theorem ofExcept_error (e : ε) : (ofExcept (.error e) : Prog Op Resp ε α) = fail e := rfl

@[simp] theorem ite_bind (c : Prop) [Decidable c] (p q : Prog Op Resp ε α)
    (f : α → Prog Op Resp ε β) :
    (if c then p else q).bind f = if c then p.bind f else q.bind f := by
  split <;> rfl

theorem bind_assoc {γ : Type} (p : Prog Op Resp ε α) (f : α → Prog Op Resp ε β)
    (g : β → Prog Op Resp ε γ) : (p.bind f).bind g = p.bind fun a => (f a).bind g := by
  induction p with
  | ret | fail => rfl
  | op o next ih => simp only [op_bind, ih]

/-! ## Execution -/

variable {S T : Type}

/-- **Execution** of a program on a machine: its outcome and the state it leaves. -/
def run (exec : (o : Op) → S → Resp o × S) : Prog Op Resp ε α → S → Except ε α × S
  | ret a, s => (.ok a, s)
  | fail e, s => (.error e, s)
  | op o next, s => (next (exec o s).1).run exec (exec o s).2

@[simp] theorem run_ret (exec : (o : Op) → S → Resp o × S) (a : α) (s : S) :
    (ret a : Prog Op Resp ε α).run exec s = (.ok a, s) := rfl

@[simp] theorem run_fail (exec : (o : Op) → S → Resp o × S) (e : ε) (s : S) :
    (fail e : Prog Op Resp ε α).run exec s = (.error e, s) := rfl

theorem run_op (exec : (o : Op) → S → Resp o × S) (o : Op) (next : Resp o → Prog Op Resp ε α)
    (s : S) : (op o next).run exec s = (next (exec o s).1).run exec (exec o s).2 := rfl

/-- A sequence runs its first part, and its second part unless the first fails. -/
theorem run_bind (exec : (o : Op) → S → Resp o × S) (p : Prog Op Resp ε α)
    (f : α → Prog Op Resp ε β) (s : S) :
    (p.bind f).run exec s = match p.run exec s with
      | (.ok a, s') => (f a).run exec s'
      | (.error e, s') => (.error e, s') := by
  induction p generalizing s with
  | ret | fail => rfl
  | op o next ih => exact ih (exec o s).1 (exec o s).2

variable {p : Prog Op Resp ε α}

/-- A sequence that fails does so in its first part or in its second. -/
theorem run_bind_eq_error {exec : (o : Op) → S → Resp o × S} {f : α → Prog Op Resp ε β} {s s' : S}
    {e : ε} (h : (p.bind f).run exec s = (.error e, s')) :
    p.run exec s = (.error e, s') ∨
      ∃ a s₁, p.run exec s = (.ok a, s₁) ∧ (f a).run exec s₁ = (.error e, s') := by
  rw [run_bind] at h
  split at h
  case h_1 a s₁ heq => exact .inr ⟨a, s₁, heq, h⟩
  case h_2 e₁ s₁ heq =>
    obtain ⟨he, rfl⟩ := Prod.mk.inj h
    obtain rfl := Except.error.inj he
    exact .inl heq

theorem run_ite (exec : (o : Op) → S → Resp o × S) (c : Prop) [Decidable c] (p q : Prog Op Resp ε α)
    (s : S) : (if c then p else q).run exec s = if c then p.run exec s else q.run exec s := by
  split <;> rfl

/-- What is made of the result does not change the state reached. -/
theorem run_map_snd (exec : (o : Op) → S → Resp o × S) (p : Prog Op Resp ε α) (f : α → β) (s : S) :
    ((p.bind fun a => ret (f a)).run exec s).2 = (p.run exec s).2 := by
  rw [run_bind]
  split <;> simp_all

/-! ## The operations a program uses -/

/-- Every operation `p` can come to perform satisfies `P`. -/
def Uses (P : Op → Prop) : Prog Op Resp ε α → Prop
  | ret _ => True
  | fail _ => True
  | op o next => P o ∧ ∀ r, (next r).Uses P

@[simp] theorem uses_ret (P : Op → Prop) (a : α) : (ret a : Prog Op Resp ε α).Uses P := trivial

@[simp] theorem uses_fail (P : Op → Prop) (e : ε) : (fail e : Prog Op Resp ε α).Uses P := trivial

@[simp] theorem uses_op (P : Op → Prop) (o : Op) (next : Resp o → Prog Op Resp ε α) :
    (op o next).Uses P ↔ P o ∧ ∀ r, (next r).Uses P := Iff.rfl

/-- A choice uses what the branch taken uses. -/
@[simp] theorem uses_ite (P : Op → Prop) (c : Prop) [Decidable c] (p q : Prog Op Resp ε α) :
    (if c then p else q).Uses P ↔ (c → p.Uses P) ∧ (¬ c → q.Uses P) := by
  split <;> simp_all

/-- What follows a pure computation is reached only if it succeeds. -/
@[simp] theorem uses_ofExcept_bind (P : Op → Prop) (x : Except ε α) (f : α → Prog Op Resp ε β) :
    ((ofExcept x).bind f).Uses P ↔ ∀ a, x = .ok a → (f a).Uses P := by
  cases x <;> simp

/-- A sequence uses what its parts use. -/
theorem Uses.bind {P : Op → Prop} {f : α → Prog Op Resp ε β} (hp : p.Uses P)
    (hf : ∀ a, (f a).Uses P) : (p.bind f).Uses P := by
  induction p with
  | ret a => exact hf a
  | fail e => trivial
  | op o next ih => exact ⟨hp.1, fun r => ih r (hp.2 r)⟩

/-- Every program uses only operations. -/
theorem uses_true (p : Prog Op Resp ε α) : p.Uses fun _ => True := by
  induction p with
  | ret | fail => trivial
  | op o next ih => exact ⟨trivial, ih⟩

/-- A weaker condition on the operations is met too. -/
theorem Uses.mono {P Q : Op → Prop} (hPQ : ∀ o, P o → Q o) (hp : p.Uses P) : p.Uses Q := by
  induction p with
  | ret | fail => trivial
  | op o next ih => exact ⟨hPQ o hp.1, fun r => ih r (hp.2 r)⟩

/-! ## How a program fails -/

/-- Every error of a pure computation satisfies `P`. -/
def FailsBy (P : ε → Prop) (x : Except ε α) : Prop := ∀ e, x = .error e → P e

@[simp] theorem failsBy_ok (P : ε → Prop) (a : α) : FailsBy P (.ok a : Except ε α) := nofun

@[simp] theorem failsBy_error (P : ε → Prop) (e : ε) :
    FailsBy P (.error e : Except ε α) ↔ P e := by
  constructor
  · intro h
    exact h e rfl
  · rintro h _ ⟨⟩
    exact h

@[simp] theorem failsBy_ite (P : ε → Prop) (c : Prop) [Decidable c] (x y : Except ε α) :
    FailsBy P (if c then x else y) ↔ (c → FailsBy P x) ∧ (¬ c → FailsBy P y) := by
  split <;> simp_all

@[simp] theorem failsBy_true (x : Except ε α) : FailsBy (fun _ => True) x := fun _ _ => trivial

/-- **`p` performs operations in `P` only, raises errors in `E` only, and fails only while all it has
performed is in `Q`**: after another operation it does not fail. -/
def Obeys (P Q : Op → Prop) : Prog Op Resp ε α → (ε → Prop) → Prop
  | ret _, _ => True
  | fail e, E => E e
  | op o next, E => P o ∧ ∀ r, (next r).Obeys P Q fun e => Q o ∧ E e

section Obeys

variable {P P' Q Q' : Op → Prop} {E E' : ε → Prop}

@[simp] theorem obeys_ret (a : α) : (ret a : Prog Op Resp ε α).Obeys P Q E := trivial

@[simp] theorem obeys_fail (e : ε) : (fail e : Prog Op Resp ε α).Obeys P Q E ↔ E e := Iff.rfl

@[simp] theorem obeys_op (o : Op) (next : Resp o → Prog Op Resp ε α) :
    (op o next).Obeys P Q E ↔ P o ∧ ∀ r, (next r).Obeys P Q fun e => Q o ∧ E e := Iff.rfl

@[simp] theorem obeys_perform (o : Op) : (perform o : Prog Op Resp ε (Resp o)).Obeys P Q E ↔ P o := by
  simp [perform]

@[simp] theorem obeys_ite (c : Prop) [Decidable c] (p q : Prog Op Resp ε α) :
    (if c then p else q).Obeys P Q E ↔ (c → p.Obeys P Q E) ∧ (¬ c → q.Obeys P Q E) := by
  split <;> simp_all

/-- What follows a pure computation is reached only if it succeeds. -/
@[simp] theorem obeys_ofExcept_bind (x : Except ε α) (f : α → Prog Op Resp ε β) :
    ((ofExcept x).bind f).Obeys P Q E ↔ FailsBy E x ∧ ∀ a, x = .ok a → (f a).Obeys P Q E := by
  cases x <;> simp

variable {p : Prog Op Resp ε α}

/-- Weaker conditions are obeyed too. -/
theorem Obeys.mono (hP : ∀ o, P o → P' o) (hQ : ∀ o, Q o → Q' o) (hE : ∀ e, E e → E' e)
    (hp : p.Obeys P Q E) : p.Obeys P' Q' E' := by
  induction p generalizing E E' with
  | ret a => trivial
  | fail e => exact hE e hp
  | op o next ih => exact ⟨hP o hp.1, fun r => ih r (fun e h => ⟨hQ o h.1, hE e h.2⟩) (hp.2 r)⟩

/-- The operations it performs. -/
theorem Obeys.uses (hp : p.Obeys P Q E) : p.Uses P := by
  induction p generalizing E with
  | ret | fail => trivial
  | op o next ih => exact ⟨hp.1, fun r => ih r (hp.2 r)⟩

/-- First a part that performs operations in `Q` only. -/
theorem Obeys.bind (hP : ∀ o, P' o → P o ∧ Q o) (hp : p.Obeys P' Q E) {f : α → Prog Op Resp ε β}
    (hf : ∀ a, (f a).Obeys P Q E) : (p.bind f).Obeys P Q E := by
  induction p generalizing E with
  | ret a => exact hf a
  | fail e => exact hp
  | op o next ih =>
    have hQ := (hP o hp.1).2
    exact ⟨(hP o hp.1).1, fun r => ih r (hp.2 r) fun a => (hf a).mono (fun _ => id) (fun _ => id)
      fun _ => .intro hQ⟩

/-- Afterwards a part that does not fail. -/
theorem Obeys.andThen (hp : p.Obeys P Q E) {f : α → Prog Op Resp ε β}
    (hf : ∀ a, (f a).Obeys P Q fun _ => False) : (p.bind f).Obeys P Q E := by
  induction p generalizing E with
  | ret a => exact (hf a).mono (fun _ => id) (fun _ => id) fun _ => False.elim
  | fail e => exact hp
  | op o next ih => exact ⟨hp.1, fun r => ih r (hp.2 r)⟩

/-- **The error of a run** is one that the program can raise. -/
theorem Obeys.of_run (hp : p.Obeys P Q E) {f : (o : Op) → S → Resp o × S} {s : S} {e : ε}
    (h : (p.run f s).1 = .error e) : E e := by
  induction p generalizing s E with
  | ret a => cases h
  | fail e' =>
    cases h
    exact hp
  | op o next ih => exact (ih _ (hp.2 _) h).2

/-- **Failing runs**: what the operations in `Q` preserve holds when the program has failed. -/
theorem Obeys.run_invariant {f : (o : Op) → S → Resp o × S} {I : S → Prop}
    (hop : ∀ o s, Q o → I s → I (f o s).2) (hp : p.Obeys P Q E) {s : S} (hs : I s) {e : ε}
    (h : (p.run f s).1 = .error e) : I (p.run f s).2 := by
  induction p generalizing s E with
  | ret a => cases h
  | fail e' => exact hs
  | op o next ih =>
    -- it has failed, so the operation was in `Q`
    have hQ : Q o := ((hp.2 _).of_run h).1
    exact ih _ (hp.2 _) (hop o s hQ hs) h

end Obeys

/-! ## Rules -/

/-- **Invariant rule**: what every operation used preserves, the program preserves, also when it
fails. -/
theorem run_invariant {P : Op → Prop} {f : (o : Op) → S → Resp o × S} {I : S → Prop}
    (hop : ∀ o s, P o → I s → I (f o s).2) (hp : p.Uses P) {s : S} (hs : I s) : I (p.run f s).2 := by
  induction p generalizing s with
  | ret | fail => exact hs
  | op o next ih => exact ih _ (hp.2 _) (hop o s hp.1 hs)

/-- **Simulation rule**: if related states answer every operation used alike and stay related, then
the two executions have the same outcome and end in related states. -/
theorem run_related {P : Op → Prop} {f : (o : Op) → S → Resp o × S} {g : (o : Op) → T → Resp o × T}
    {R : S → T → Prop} (hop : ∀ o s t, P o → R s t → (f o s).1 = (g o t).1 ∧ R (f o s).2 (g o t).2)
    (hp : p.Uses P) {s : S} {t : T} (hst : R s t) :
    (p.run f s).1 = (p.run g t).1 ∧ R (p.run f s).2 (p.run g t).2 := by
  induction p generalizing s t with
  | ret | fail => exact ⟨rfl, hst⟩
  | op o next ih =>
    obtain ⟨hresp, hnext⟩ := hop o s t hp.1 hst
    have h := ih (f o s).1 (hp.2 _) hnext
    simp only [run_op]
    rw [← hresp]
    exact h

end Prog

end KvStore
