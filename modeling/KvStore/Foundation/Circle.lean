import Mathlib.Data.List.GetD
import Mathlib.Data.Prod.Lex
import Mathlib.Data.Set.Basic

/-! # The next point on a circle

A linear order is bent to a circle: going up from a place, one comes back to the least element. The points of
a set are then met in an order that depends on the place.

* **`turn`** — how late a point is met. Points behind the place come first.
* **`IsNext`** — the point of a set that is met first. There is only one (`IsNext.unique`), and it stays the
  first in every part of the set that it belongs to (`IsNext.mono`).
* **`isNext_bisect`** — the first point of a sorted list is found by counting those that are not behind the
  place, and beginning anew at the end. -/

namespace KvStore

open List

namespace Circle

variable {α : Type*} [LinearOrder α] {S T : Set α} {h p q : α}

/-- How late a point is met on the way up from `h`: one round later if it is not behind `h`. -/
def turn (h p : α) : Bool ×ₗ α := toLex (decide (p ≤ h), p)

theorem turn_injective (h : α) : Function.Injective (turn h) := by
  intro p q heq
  exact congrArg Prod.snd (toLex.injective heq)

/-- In the same round the lesser point is met first. -/
theorem turn_le_of_le (hround : p ≤ h ↔ q ≤ h) (hle : p ≤ q) : turn h p ≤ turn h q := by
  refine Prod.Lex.toLex_le_toLex.mpr (.inr ⟨?_, hle⟩)
  exact decide_eq_decide.mpr hround

/-- A point behind `h` is met before one that is not. -/
theorem turn_le_of_round (hp : h < p) (hq : q ≤ h) : turn h p ≤ turn h q := by
  refine Prod.Lex.toLex_le_toLex.mpr (.inl ?_)
  rw [decide_eq_true hq, decide_eq_false (not_le.mpr hp)]
  exact Bool.false_lt_true

/-- **The point of a set that is met first.** -/
structure IsNext (S : Set α) (h p : α) : Prop where
  mem : p ∈ S
  le : ∀ q ∈ S, turn h p ≤ turn h q

theorem IsNext.unique (hp : IsNext S h p) (hq : IsNext S h q) : p = q :=
  turn_injective h (le_antisymm (hp.le q hq.mem) (hq.le p hp.mem))

/-- **The first of a set is the first of a part it belongs to.** -/
theorem IsNext.mono (hp : IsNext T h p) (hsub : S ⊆ T) (hmem : p ∈ S) : IsNext S h p :=
  ⟨hmem, fun q hq => hp.le q (hsub hq)⟩

/-- **Finding the first point of a sorted list.** -/
theorem isNext_bisect {first : α} {rest : List α} (hsorted : (first :: rest).Pairwise (· ≤ ·)) (h : α) :
    IsNext {p | p ∈ first :: rest} h
      ((first :: rest).getD ((first :: rest).findIdx (h < ·)) first) := by
  by_cases hlt : (first :: rest).findIdx (h < ·) < (first :: rest).length
  · -- a point is behind `h`; those before it in the list are not
    rw [getD_eq_getElem _ _ hlt]
    have hbehind : h < (first :: rest)[(first :: rest).findIdx (h < ·)] := by
      simpa using findIdx_getElem (w := hlt)
    refine ⟨getElem_mem hlt, fun q hq => ?_⟩
    obtain ⟨j, hj, rfl⟩ := mem_iff_getElem.mp hq
    by_cases hround : (first :: rest)[j] ≤ h
    · exact turn_le_of_round hbehind hround
    · refine turn_le_of_le (iff_of_false (not_le.mpr hbehind) hround) ?_
      have hindex : (first :: rest).findIdx (h < ·) ≤ j := by
        refine not_lt.mp fun hbefore => hround ?_
        simpa using not_of_lt_findIdx hbefore
      rcases hindex.lt_or_eq with hbefore | rfl
      · exact pairwise_iff_getElem.mp hsorted _ j hlt hj hbefore
      · exact le_rfl
  · -- none is: the first of all is met after a round
    rw [getD_eq_default _ _ (not_lt.mp hlt)]
    have hnone : ∀ q ∈ first :: rest, q ≤ h := by
      intro q hq
      refine not_lt.mp fun hbehind => hlt (findIdx_lt_length.mpr ⟨q, hq, ?_⟩)
      exact decide_eq_true hbehind
    refine ⟨mem_cons_self, fun q hq => ?_⟩
    refine turn_le_of_le (iff_of_true (hnone _ mem_cons_self) (hnone q hq)) ?_
    rcases mem_cons.mp hq with rfl | hq
    · exact le_rfl
    · exact (pairwise_cons.mp hsorted).1 q hq

end Circle

end KvStore
