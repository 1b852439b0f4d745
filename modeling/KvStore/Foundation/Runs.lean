import Mathlib.Logic.Basic

/-! # Labelled runs

`Runs step labels s s'` says that a system whose transitions are `step : L → S → S → Prop` can go
from `s` to `s'` by transitions with exactly these labels, in order.

* **`Runs.append`**, **`Runs.single`** — runs compose.
* **`Runs.invariant`** — what every transition preserves, a run preserves.
* **`Runs.lift`** — a run of one system is a run of another one that matches its transitions. -/

namespace KvStore

open List

/-- The first part of a list made of two ends in the first of them or in the second. -/
theorem prefix_append_cases {α : Type*} {l l₁ l₂ : List α} (h : l <+: l₁ ++ l₂) :
    l <+: l₁ ∨ ∃ l₃, l = l₁ ++ l₃ ∧ l₃ <+: l₂ := by
  obtain ⟨t, ht⟩ := h
  rcases append_eq_append_iff.mp ht with ⟨rest, hrest, -⟩ | ⟨l₃, hl, hl₂⟩
  · exact .inl ⟨rest, hrest.symm⟩
  · exact .inr ⟨l₃, hl, t, hl₂.symm⟩

/-- **Runs** of a labelled transition system. -/
inductive Runs {L S : Type*} (step : L → S → S → Prop) : List L → S → S → Prop
  | nil (s : S) : Runs step [] s s
  | cons {l : L} {ls : List L} {s t u : S} : step l s t → Runs step ls t u →
      Runs step (l :: ls) s u

namespace Runs

variable {L S T : Type*} {step : L → S → S → Prop} {ls ls' : List L} {s t u : S}

theorem single {l : L} (h : step l s t) : Runs step [l] s t := cons h (nil t)

@[simp] theorem nil_iff : Runs step [] s t ↔ s = t :=
  ⟨fun h => by cases h; rfl, fun h => h ▸ nil s⟩

theorem cons_iff {l : L} : Runs step (l :: ls) s u ↔ ∃ t, step l s t ∧ Runs step ls t u :=
  ⟨fun h => by cases h with | cons hstep hrest => exact ⟨_, hstep, hrest⟩,
    fun ⟨_, hstep, hrest⟩ => cons hstep hrest⟩

/-- **Runs compose.** -/
theorem append (h : Runs step ls s t) (h' : Runs step ls' t u) : Runs step (ls ++ ls') s u := by
  induction h with
  | nil s => exact h'
  | cons hstep _ ih => exact cons hstep (ih h')

theorem append_iff : Runs step (ls ++ ls') s u ↔ ∃ t, Runs step ls s t ∧ Runs step ls' t u := by
  constructor
  · intro h
    induction ls generalizing s with
    | nil => exact ⟨s, nil s, h⟩
    | cons l rest ih =>
      obtain ⟨t, hstep, hrest⟩ := cons_iff.mp h
      obtain ⟨t', hleft, hright⟩ := ih hrest
      exact ⟨t', cons hstep hleft, hright⟩
  · rintro ⟨t, hleft, hright⟩
    exact hleft.append hright

/-- What every transition says of its label holds of all labels. -/
theorem forall_labels {P : L → Prop} (hstep : ∀ {l s t}, step l s t → P l) (h : Runs step ls s t) :
    ∀ l ∈ ls, P l := by
  induction h with
  | nil => simp
  | cons hl _ ih => exact forall_mem_cons.mpr ⟨hstep hl, ih⟩

/-- Transitions that do as much for the labels at hand. -/
theorem imp {step' : L → S → S → Prop} (h : Runs step ls s t)
    (hstep : ∀ l ∈ ls, ∀ {s t}, step l s t → step' l s t) : Runs step' ls s t := by
  induction h with
  | nil s => exact nil s
  | cons hl _ ih =>
    exact cons (hstep _ mem_cons_self hl) (ih fun l hmem => hstep l (mem_cons_of_mem _ hmem))

/-- **A run that is executed**, for transitions that are computed. -/
theorem of_foldlM {next : L → S → Option S} (h : ls.foldlM (fun s l => next l s) s = some t) :
    Runs (fun l s t => next l s = some t) ls s t := by
  induction ls generalizing s with
  | nil =>
    cases h
    exact nil _
  | cons l rest ih =>
    obtain ⟨u, hnext, hrest⟩ := Option.bind_eq_some_iff.mp h
    exact cons hnext (ih hrest)

/-- **Invariant rule**, for a condition on the labels that the invariant may depend on. -/
theorem invariant {P : L → Prop} {I : S → Prop}
    (hstep : ∀ {l s t}, P l → I s → step l s t → I t) (h : Runs step ls s t)
    (hP : ∀ l ∈ ls, P l) (hs : I s) : I t := by
  induction h with
  | nil s => exact hs
  | cons hl _ ih =>
    exact ih (fun l hmem => hP l (mem_cons_of_mem _ hmem))
      (hstep (hP _ mem_cons_self) hs hl)

/-- **Simulation rule**: a system that matches every transition along a relation matches every
run. -/
theorem lift {step' : L → T → T → Prop} {R : S → T → Prop}
    (hstep : ∀ {l s s' t}, R s t → step l s s' → ∃ t', step' l t t' ∧ R s' t')
    (h : Runs step ls s u) {t : T} (hst : R s t) : ∃ t', Runs step' ls t t' ∧ R u t' := by
  induction h generalizing t with
  | nil s => exact ⟨t, nil t, hst⟩
  | cons hl _ ih =>
    obtain ⟨t₁, hl', hR⟩ := hstep hst hl
    obtain ⟨t₂, hrest, hR'⟩ := ih hR
    exact ⟨t₂, cons hl' hrest, hR'⟩

end Runs

/-! ## Folds -/

/-- **What no step of a fold changes, the fold does not change.** -/
theorem foldl_same {α β γ : Type} {step : β → α → β} (view : β → γ)
    (hstep : ∀ b a, view (step b a) = view b) (l : List α) (b : β) :
    view (l.foldl step b) = view b := by
  induction l generalizing b with
  | nil => rfl
  | cons a rest ih => exact (ih _).trans (hstep b a)

end KvStore
