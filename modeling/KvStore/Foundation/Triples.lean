import KvStore.Foundation.Program

/-! # Preconditions of programs

`Prog.wp spec p Q s` is the weakest precondition of a program: from the logical state `s`, every way
`p` can go ends in an outcome and a logical state that satisfy `Q`. What an operation may assume and
what it gives is said by a monotone predicate transformer (`Spec`); the logical state `T` is chosen by
the user and need not be the state of any machine.

* **`Prog.wp.mono`** — a weaker postcondition is established too;
* **`Prog.wp_bind`**, **`Prog.wp.bind`** — a sequence establishes what its second part asks for;
* **`Prog.attempt`** — a program run inside a handler that catches every error, and
  **`Prog.wp_attempt`** for it;
* **`Prog.wp_forEach`** — a loop over a list keeps an invariant that its body keeps. -/

namespace KvStore

/-- **What each operation requires and gives**: what must hold before it for a postcondition on its
answer and on the logical state. -/
structure Spec (Op : Type) (Resp : Op → Type) (T : Type) where
  pre : (o : Op) → (Resp o → T → Prop) → T → Prop
  /-- What gives more requires more. -/
  mono : ∀ o {P P' : Resp o → T → Prop}, (∀ r s, P r s → P' r s) → ∀ s, pre o P s → pre o P' s

namespace Prog

variable {Op : Type} {Resp : Op → Type} {ε α β T : Type}

/-- The program with its outcome returned as a value: `try … except` around all of it. -/
def attempt : Prog Op Resp ε α → Prog Op Resp ε (Except ε α)
  | ret a => ret (.ok a)
  | fail e => ret (.error e)
  | op o next => op o fun r => (next r).attempt

@[simp] theorem attempt_ret (a : α) :
    (ret a : Prog Op Resp ε α).attempt = ret (.ok a) := rfl

@[simp] theorem attempt_fail (e : ε) :
    (fail e : Prog Op Resp ε α).attempt = ret (.error e) := rfl

@[simp] theorem attempt_op (o : Op) (next : Resp o → Prog Op Resp ε α) :
    (op o next).attempt = op o fun r => (next r).attempt := rfl

/-- **The weakest precondition** of a program for a postcondition on its outcome and on the logical
state it ends in. -/
def wp (spec : Spec Op Resp T) : Prog Op Resp ε α → (Except ε α → T → Prop) → T → Prop
  | ret a, Q, s => Q (.ok a) s
  | fail e, Q, s => Q (.error e) s
  | op o next, Q, s => spec.pre o (fun r s' => (next r).wp spec Q s') s

variable {spec : Spec Op Resp T}

@[simp] theorem wp_ret (a : α) (Q : Except ε α → T → Prop) (s : T) :
    (ret a : Prog Op Resp ε α).wp spec Q s ↔ Q (.ok a) s := Iff.rfl

@[simp] theorem wp_fail (e : ε) (Q : Except ε α → T → Prop) (s : T) :
    (fail e : Prog Op Resp ε α).wp spec Q s ↔ Q (.error e) s := Iff.rfl

theorem wp_op (o : Op) (next : Resp o → Prog Op Resp ε α) (Q : Except ε α → T → Prop) (s : T) :
    (op o next).wp spec Q s ↔ spec.pre o (fun r s' => (next r).wp spec Q s') s := Iff.rfl

/-- What is to follow a first part: the second part's precondition, or the postcondition at the
error. -/
def After (spec : Spec Op Resp T) (f : α → Prog Op Resp ε β) (Q : Except ε β → T → Prop) :
    Except ε α → T → Prop
  | .ok a, s => (f a).wp spec Q s
  | .error e, s => Q (.error e) s

@[simp] theorem after_ok (f : α → Prog Op Resp ε β) (Q : Except ε β → T → Prop) (a : α) (s : T) :
    After spec f Q (.ok a) s ↔ (f a).wp spec Q s := Iff.rfl

@[simp] theorem after_error (f : α → Prog Op Resp ε β) (Q : Except ε β → T → Prop) (e : ε) (s : T) :
    After spec f Q (.error e) s ↔ Q (.error e) s := Iff.rfl

/-- **Sequencing.** -/
theorem wp_bind (p : Prog Op Resp ε α) (f : α → Prog Op Resp ε β) (Q : Except ε β → T → Prop)
    (s : T) : (p.bind f).wp spec Q s ↔ p.wp spec (After spec f Q) s := by
  induction p generalizing s with
  | ret | fail => exact Iff.rfl
  | op o next ih =>
    have hnext : (fun r s' => ((next r).bind f).wp spec Q s') =
        fun r s' => (next r).wp spec (After spec f Q) s' := by
      funext r s'
      exact propext (ih r s')
    rw [op_bind, wp_op, wp_op, hnext]

/-- The outcome of a program run inside a handler is that of the program. -/
theorem wp_attempt (p : Prog Op Resp ε α) (Q : Except ε (Except ε α) → T → Prop) (s : T) :
    p.attempt.wp spec Q s ↔ p.wp spec (fun r s' => Q (.ok r) s') s := by
  induction p generalizing s with
  | ret | fail => exact Iff.rfl
  | op o next ih =>
    have hnext : (fun r s' => (next r).attempt.wp spec Q s') =
        fun r s' => (next r).wp spec (fun r s' => Q (.ok r) s') s' := by
      funext r s'
      exact propext (ih r s')
    rw [attempt_op, wp_op, wp_op, hnext]

/-- **Consequence.** -/
theorem wp.mono {Q Q' : Except ε α → T → Prop} {p : Prog Op Resp ε α} {s : T} (h : p.wp spec Q s)
    (hQ : ∀ r s, Q r s → Q' r s) : p.wp spec Q' s := by
  induction p generalizing s with
  | ret | fail => exact hQ _ _ h
  | op o next ih => exact spec.mono o (fun r s' hr => ih r hr) s h

/-- **Sequencing**, by a condition in the middle. -/
theorem wp.bind {Q : Except ε α → T → Prop} {p : Prog Op Resp ε β} {f : β → Prog Op Resp ε α}
    {R : Except ε β → T → Prop} {s : T} (hp : p.wp spec R s)
    (hok : ∀ b s', R (.ok b) s' → (f b).wp spec Q s')
    (herror : ∀ e s', R (.error e) s' → Q (.error e) s') : (p.bind f).wp spec Q s := by
  refine (wp_bind _ _ _ _).mpr (hp.mono ?_)
  intro r s' hR
  cases r with
  | ok b => exact hok b s' hR
  | error e => exact herror e s' hR

/-- A loop over a list: the body once for each element, in order. -/
def forEach (body : α → Prog Op Resp ε PUnit) : List α → Prog Op Resp ε PUnit
  | [] => ret ⟨⟩
  | a :: rest => (body a).bind fun _ => forEach body rest

/-- **Loop rule**: an invariant of the elements still to come, which each round carries on unless it
ends the loop by an error. -/
theorem wp_forEach {body : α → Prog Op Resp ε PUnit} {I : List α → T → Prop} {E : T → Prop}
    (hbody : ∀ a rest s, I (a :: rest) s →
      (body a).wp spec (fun r s' => (∀ u, r = .ok u → I rest s') ∧ (∀ e, r = .error e → E s')) s)
    {l : List α} {s : T} (hs : I l s) :
    (forEach body l).wp spec
      (fun r s' => (∀ u, r = .ok u → I [] s') ∧ (∀ e, r = .error e → E s')) s := by
  induction l generalizing s with
  | nil => exact ⟨fun _ _ => hs, nofun⟩
  | cons a rest ih =>
    refine (hbody a rest s hs).bind (fun u s' h => ih (h.1 u rfl)) fun e s' h => ?_
    exact ⟨nofun, fun _ _ => h.2 e rfl⟩

end Prog

end KvStore
