import Mathlib.Data.List.Nodup
import Mathlib.Order.Nat

/-! # Searches through levels

A list of cells, each of a height. A search starts on a high level at the first cell, goes on to the next cell
that is higher than the level while a test holds of it, and continues one level below from where it had to
stop. The test is arbitrary.

* **`advance`**, **`descent`** — how far a walk along one level and a whole search come. A search for the end of
  a front part of the list finds it (`descent_eq`).
* **`ahead`** — the next cell of a level, and how far away it is. -/

namespace KvStore

open List

namespace Towers

/-! ## Searches in a list -/

section Lists

variable {β : Type*}

/-- **A walk along one level**: how many cells it goes on, when it may enter those that satisfy `go`
and those that are not `tall` have no link of the level. `k` is the position of the first cell of the
list. -/
def advance (tall : β → Bool) (go : Nat → β → Bool) : Nat → List β → Nat
  | _, [] => 0
  | k, y :: rest =>
    if tall y then
      if go k y then advance tall go (k + 1) rest + 1 else 0
    else match advance tall go (k + 1) rest with
      | 0 => 0
      | n + 1 => n + 2

variable {tall : β → Bool} {go : Nat → β → Bool}

variable {l : List β}

/-- Without tall cells there is nowhere to go. -/
theorem advance_of_not_tall (hl : ∀ y ∈ l, tall y = false) (k : Nat) : advance tall go k l = 0 := by
  induction l generalizing k with
  | nil => rfl
  | cons y rest ih =>
    have hy : tall y = false := hl y mem_cons_self
    rw [advance, hy, ih (fun z hz => hl z (mem_cons_of_mem _ hz))]
    simp

variable {y : β}

theorem advance_append_cons {mid : List β} (hmid : ∀ y ∈ mid, tall y = false) (hy : tall y = true)
    (rest : List β) (k : Nat) :
    advance tall go k (mid ++ y :: rest) =
      if go (k + mid.length) y then
        mid.length + 1 + advance tall go (k + mid.length + 1) rest
      else 0 := by
  induction mid generalizing k with
  | nil => simp [advance, hy, Nat.add_comm]
  | cons z mid ih =>
    have hz : tall z = false := hmid z mem_cons_self
    rw [cons_append, advance, hz, ih (fun w hw => hmid w (mem_cons_of_mem _ hw)),
      length_cons, show k + 1 + mid.length = k + (mid.length + 1) by omega]
    cases go (k + (mid.length + 1)) y with
    | false => simp
    | true =>
      simp only [Bool.false_eq_true, if_false, if_true]
      rw [show mid.length + 1 + advance tall go (k + (mid.length + 1) + 1) rest =
        (mid.length + advance tall go (k + (mid.length + 1) + 1) rest) + 1 by omega]
      simp only
      omega

theorem advance_le_length (k : Nat) (l : List β) : advance tall go k l ≤ l.length := by
  induction l generalizing k with
  | nil => exact le_rfl
  | cons y rest ih =>
    have hrest := ih (k + 1)
    rw [advance, length_cons]
    split
    · split <;> omega
    · split <;> omega

variable {k : Nat}

/-- A walk that goes on ends at a cell that it was allowed to enter. -/
theorem advance_accepted {a : Nat} (h : advance tall go k l = a + 1) :
    ∃ y, l[a]? = some y ∧ go (k + a) y = true := by
  induction l generalizing k a with
  | nil => simp [advance] at h
  | cons y rest ih =>
    rw [advance] at h
    split at h
    · split at h
      · rename_i hgo
        rcases a with _ | a
        · exact ⟨y, rfl, hgo⟩
        · obtain ⟨z, hz, hok⟩ := ih (Nat.add_right_cancel h)
          exact ⟨z, by simpa using hz, by rwa [show k + (a + 1) = k + 1 + a by omega]⟩
      · simp at h
    · split at h
      · simp at h
      · rename_i n hn
        obtain ⟨z, hz, hok⟩ := ih hn
        obtain rfl : a = n + 1 := by omega
        exact ⟨z, by simpa using hz, by rwa [show k + (n + 1) = k + 1 + n by omega]⟩

variable {j : Nat}

/-- A tall cell that may not be entered is not passed. -/
theorem advance_le_of_refused (hy : l[j]? = some y) (htall : tall y = true)
    (hgo : go (k + j) y = false) : advance tall go k l ≤ j := by
  induction l generalizing k j with
  | nil => simp at hy
  | cons z rest ih =>
    rcases j with _ | j
    · obtain rfl : z = y := by simpa using hy
      have hno : ¬ go k z = true := by simpa using hgo
      exact le_of_eq (by rw [advance, if_pos htall, if_neg hno])
    · have hrest : advance tall go (k + 1) rest ≤ j :=
        ih (by simpa using hy) (by rwa [show k + 1 + j = k + (j + 1) by omega])
      rw [advance]
      split
      · split <;> omega
      · split <;> omega

/-- If there are tall cells behind the place where a walk ends, the first of them was refused. -/
theorem exists_refused (hy : l[j]? = some y) (htall : tall y = true) (hj : advance tall go k l ≤ j) :
    ∃ j' y', advance tall go k l ≤ j' ∧ j' ≤ j ∧ l[j']? = some y' ∧ tall y' = true ∧
      go (k + j') y' = false := by
  induction l generalizing k j with
  | nil => simp at hy
  | cons z rest ih =>
    -- what is left to prove when the walk goes on behind `z`
    have hlater : ∀ j, rest[j]? = some y → advance tall go (k + 1) rest ≤ j →
        ∃ j' y', advance tall go (k + 1) rest + 1 ≤ j' ∧ j' ≤ j + 1 ∧
          (z :: rest)[j']? = some y' ∧ tall y' = true ∧ go (k + j') y' = false := by
      intro j hy hj
      obtain ⟨j', y', hle, hle', hy', ht', hr'⟩ := ih hy hj
      refine ⟨j' + 1, y', by omega, by omega, by simpa using hy', ht', ?_⟩
      rwa [show k + (j' + 1) = k + 1 + j' by omega]
    rw [advance] at hj ⊢
    split at hj
    · rename_i hz
      rw [if_pos hz]
      split at hj
      · rename_i hgo
        rw [if_pos hgo]
        rcases j with _ | j
        · omega
        · exact hlater j (by simpa using hy) (by omega)
      · rename_i hgo
        rw [if_neg hgo]
        exact ⟨0, z, le_rfl, Nat.zero_le j, rfl, hz, by simpa using hgo⟩
    · rename_i hz
      rw [if_neg hz]
      have hjpos : j ≠ 0 := by
        rintro rfl
        obtain rfl : z = y := by simpa using hy
        exact hz htall
      obtain ⟨j, rfl⟩ := Nat.exists_eq_succ_of_ne_zero hjpos
      obtain ⟨j', y', hle, hle', hrest⟩ := hlater j (by simpa using hy) (by split at hj <;> omega)
      refine ⟨j', y', ?_, hle', hrest⟩
      split <;> omega

/-- **A search** through `n` levels, from the cell at position `k`: the position where it ends. -/
def descent (height : β → Nat) (go : Nat → β → Bool) (cells : List β) : Nat → Nat → Nat
  | 0, k => k
  | i + 1, k => descent height go cells i
      (k + advance (fun y => decide (i < height y)) go (k + 1) (cells.drop (k + 1)))

variable {height : β → Nat} {cells : List β}

theorem le_descent (n k : Nat) : k ≤ descent height go cells n k := by
  induction n generalizing k with
  | zero => exact le_rfl
  | succ i ih => exact le_trans (Nat.le_add_right _ _) (ih _)

theorem descent_lt (n : Nat) (hk : k < cells.length) :
    descent height go cells n k < cells.length := by
  induction n generalizing k with
  | zero => exact hk
  | succ i ih =>
    refine ih ?_
    have hle : advance (fun y => decide (i < height y)) go (k + 1) (cells.drop (k + 1)) ≤
        (cells.drop (k + 1)).length := advance_le_length _ _
    rw [length_drop] at hle
    omega

/-- A search that goes on ends at a cell it was allowed to enter. -/
theorem descent_accepted (n k : Nat) : descent height go cells n k = k ∨
    ∃ y, cells[descent height go cells n k]? = some y ∧ go (descent height go cells n k) y = true := by
  induction n generalizing k with
  | zero => exact .inl rfl
  | succ i ih =>
    rw [descent]
    generalize ha : advance (fun y => decide (i < height y)) go (k + 1) (cells.drop (k + 1)) = a
    rcases ih (k + a) with heq | hfound
    · rcases a with _ | a
      · exact .inl heq
      · obtain ⟨y, hy, hgo⟩ := advance_accepted ha
        rw [getElem?_drop] at hy
        refine .inr ⟨y, ?_, ?_⟩
        · rwa [heq, show k + (a + 1) = k + 1 + a by omega]
        · rwa [heq, show k + (a + 1) = k + 1 + a by omega]
    · exact .inr hfound

/-- A cell of all the levels that may not be entered is not passed. -/
theorem descent_lt_of_refused {n : Nat} (hy : cells[j]? = some y) (hj : k < j) (hn : n ≤ height y)
    (hgo : go j y = false) : descent height go cells n k < j := by
  induction n generalizing k with
  | zero => exact hj
  | succ i ih =>
    refine ih ?_ (by omega)
    obtain ⟨d, rfl⟩ : ∃ d, j = k + 1 + d := ⟨j - (k + 1), by omega⟩
    have hle : advance (fun y => decide (i < height y)) go (k + 1) (cells.drop (k + 1)) ≤ d :=
      advance_le_of_refused (by rwa [getElem?_drop]) (decide_eq_true hn) hgo
    omega

/-- The cell behind the place where a search ends was refused. -/
theorem descent_refused {n : Nat} (hn : 0 < n)
    (hy : cells[descent height go cells n k + 1]? = some y) (hheight : 0 < height y) :
    go (descent height go cells n k + 1) y = false := by
  induction n generalizing k with
  | zero => omega
  | succ i ih =>
    rcases i with _ | i
    · simp only [descent] at hy ⊢
      generalize ha : advance (fun y => decide (0 < height y)) go (k + 1) (cells.drop (k + 1)) = a
        at hy ⊢
      have hget : (cells.drop (k + 1))[a]? = some y := by
        rwa [getElem?_drop, show k + 1 + a = k + a + 1 by omega]
      obtain ⟨j, z, hle, hle', hz, -, hgo⟩ := exists_refused hget
        (decide_eq_true hheight) (le_of_eq ha)
      obtain rfl : j = a := by omega
      obtain rfl : y = z := by simpa using hget.symm.trans hz
      rwa [show k + j + 1 = k + 1 + j by omega]
    · exact ih (by omega) hy

/-- Between the place where a search stops on a level and its end there is no cell of the level. -/
theorem height_le_of_le_descent {i : Nat} (hy : cells[j]? = some y)
    (hlt : k + advance (fun y => decide (i < height y)) go (k + 1) (cells.drop (k + 1)) < j)
    (hle : j ≤ descent height go cells (i + 1) k) : height y ≤ i := by
  refine not_lt.mp fun htall => ?_
  obtain ⟨d, rfl⟩ : ∃ d, j = k + 1 + d := ⟨j - (k + 1), by omega⟩
  have hget : (cells.drop (k + 1))[d]? = some y := by rwa [getElem?_drop]
  -- the first of them was refused, and what is refused is not passed on a lower level
  obtain ⟨d', z, hstop, hle', hz, hztall, hgo⟩ := exists_refused hget (decide_eq_true htall)
    (show advance (fun y => decide (i < height y)) go (k + 1) (cells.drop (k + 1)) ≤ d by omega)
  rw [getElem?_drop] at hz
  have hbefore : descent height go cells i
      (k + advance (fun y => decide (i < height y)) go (k + 1) (cells.drop (k + 1))) < k + 1 + d' :=
    descent_lt_of_refused hz (by omega) (le_of_lt (of_decide_eq_true hztall)) hgo
  rw [descent] at hle
  omega

/-- **A search for the end of a front part finds it**, whatever the heights. -/
theorem descent_eq {n t : Nat} (hn : 0 < n) (ht : t < cells.length)
    (hheight : ∀ y ∈ cells.tail, 0 < height y)
    (hgo : ∀ j y, 0 < j → cells[j]? = some y → (go j y = true ↔ j ≤ t)) :
    descent height go cells n 0 = t := by
  have hlt : descent height go cells n 0 < cells.length := descent_lt n (by omega)
  refine le_antisymm ?_ ?_
  · have haccepted : descent height go cells n 0 = 0 ∨ ∃ y, cells[descent height go cells n 0]? = some y ∧
        go (descent height go cells n 0) y = true := descent_accepted n 0
    rcases haccepted with hzero | ⟨y, hy, hok⟩
    · omega
    · by_cases hpos : 0 < descent height go cells n 0
      · exact (hgo _ y hpos hy).mp hok
      · omega
  · refine not_lt.mp fun hbefore => ?_
    have hget : cells[descent height go cells n 0 + 1]? =
        some (cells.get ⟨descent height go cells n 0 + 1, by omega⟩) :=
      getElem?_eq_getElem (by omega)
    have hmem : cells.get ⟨descent height go cells n 0 + 1, by omega⟩ ∈ cells.tail := by
      refine mem_iff_getElem?.mpr ⟨descent height go cells n 0, ?_⟩
      rwa [getElem?_tail]
    have hrefused := descent_refused hn hget (hheight _ hmem)
    rw [(hgo _ _ (Nat.succ_pos _) hget).mpr (by omega)] at hrefused
    exact absurd hrefused (by simp)

/-! ### The next tall cell -/

variable (tall) in
/-- The first tall cell of a list, and how many cells one moves on to come to it, or to the end of the
list if there is none. -/
def ahead : List β → Option β × Nat
  | [] => (none, 0)
  | y :: rest => if tall y then (some y, 1) else ((ahead rest).1, (ahead rest).2 + 1)

theorem ahead_cons_of_tall (hy : tall y = true) (rest : List β) :
    ahead tall (y :: rest) = (some y, 1) := by
  rw [ahead, if_pos hy]

theorem ahead_append_of_not_tall {mid : List β} (hmid : ∀ y ∈ mid, tall y = false) (post : List β) :
    ahead tall (mid ++ post) = ((ahead tall post).1, mid.length + (ahead tall post).2) := by
  induction mid with
  | nil => simp
  | cons y mid ih =>
    have hy : ¬ tall y = true := by simpa using hmid y mem_cons_self
    rw [cons_append, ahead, if_neg hy, ih fun z hz => hmid z (mem_cons_of_mem _ hz)]
    simp only [length_cons, Prod.mk.injEq, true_and]
    omega

theorem ahead_of_not_tall (hl : ∀ y ∈ l, tall y = false) : ahead tall l = (none, l.length) := by
  simpa [ahead] using ahead_append_of_not_tall hl []

/-- What stands behind a tall cell does not matter. -/
theorem ahead_append_of_tall {mid : List β} (hmem : y ∈ mid) (hy : tall y = true) (post : List β) :
    ahead tall (mid ++ post) = ahead tall mid := by
  induction mid with
  | nil => simp at hmem
  | cons z mid ih =>
    rw [cons_append, ahead, ahead]
    by_cases hz : tall z = true
    · rw [if_pos hz, if_pos hz]
    · rw [if_neg hz, if_neg hz]
      rcases mem_cons.mp hmem with rfl | hmem
      · exact absurd hy hz
      · rw [ih hmem]

theorem ahead_congr {tall' : β → Bool} (h : ∀ y ∈ l, tall y = tall' y) :
    ahead tall l = ahead tall' l := by
  induction l with
  | nil => rfl
  | cons y rest ih =>
    rw [ahead, ahead, h y mem_cons_self, ih fun z hz => h z (mem_cons_of_mem _ hz)]

/-- The cell found is a tall one of the list. -/
theorem mem_of_ahead (h : (ahead tall l).1 = some y) : y ∈ l ∧ tall y = true := by
  induction l with
  | nil => simp [ahead] at h
  | cons z rest ih =>
    rw [ahead] at h
    split at h
    · rename_i hz
      obtain rfl : z = y := Option.some.inj h
      exact ⟨mem_cons_self, hz⟩
    · exact ⟨mem_cons_of_mem z (ih h).1, (ih h).2⟩

/-- Either there is a first tall cell, with only others before it, or there is none. -/
theorem ahead_cases (tall : β → Bool) (l : List β) :
    (∃ mid y rest, l = mid ++ y :: rest ∧ (∀ z ∈ mid, tall z = false) ∧ tall y = true ∧
        ahead tall l = (some y, mid.length + 1)) ∨
      (∀ z ∈ l, tall z = false) ∧ ahead tall l = (none, l.length) := by
  by_cases h : ∀ z ∈ l, tall z = false
  · exact .inr ⟨h, ahead_of_not_tall h⟩
  · refine .inl ?_
    have hsome : ∃ z ∈ l, tall z = true := by simpa using h
    obtain ⟨y, mid, rest, hnone, hy, rfl⟩ : ∃ y mid rest, (∀ z ∈ mid, tall z = false) ∧
        tall y = true ∧ l = mid ++ y :: rest := by
      obtain ⟨y, hfind⟩ := Option.isSome_iff_exists.mp (find?_isSome.mpr hsome)
      obtain ⟨hy, mid, rest, heq, hnone⟩ := find?_eq_some_iff_append.mp hfind
      exact ⟨y, mid, rest, by simpa using hnone, hy, heq⟩
    refine ⟨mid, y, rest, rfl, hnone, hy, ?_⟩
    rw [ahead_append_of_not_tall hnone, ahead_cons_of_tall hy]

/-- What holds of each position of a list and the element there, for a list in two parts. -/
theorem forall_getElem?_append {P : Nat → β → Prop} (front back : List β) :
    (∀ k x, (front ++ back)[k]? = some x → P k x) ↔
      (∀ k x, front[k]? = some x → P k x) ∧ ∀ k x, back[k]? = some x → P (front.length + k) x := by
  have hback : ∀ k, (front ++ back)[front.length + k]? = back[k]? := by
    intro k
    rw [getElem?_append_right (Nat.le_add_right _ _), Nat.add_sub_cancel_left]
  constructor
  · refine fun hall => ⟨fun k x hx => ?_, fun k x hx => hall _ x ((hback k).trans hx)⟩
    have hk := (List.getElem?_eq_some_iff.mp hx).1
    exact hall k x (by rwa [getElem?_append_left hk])
  · rintro ⟨hin, hbehind⟩ k x hx
    by_cases hk : k < front.length
    · exact hin k x (by rwa [getElem?_append_left hk] at hx)
    · obtain ⟨d, rfl⟩ := Nat.exists_eq_add_of_le (not_lt.mp hk)
      exact hbehind d x ((hback d).symm.trans hx)

/-- What holds of each element of a list and those behind it, for a list in two parts. -/
theorem forall_behind_append {P : β → List β → Prop} (front back : List β) :
    (∀ k x, (front ++ back)[k]? = some x → P x ((front ++ back).drop (k + 1))) ↔
      (∀ k x, front[k]? = some x → P x (front.drop (k + 1) ++ back)) ∧
        ∀ k x, back[k]? = some x → P x (back.drop (k + 1)) := by
  rw [forall_getElem?_append]
  refine and_congr (forall₂_congr fun k x => imp_congr_right fun hx => ?_)
    (forall₂_congr fun k x => imp_congr_right fun _ => ?_)
  · rw [drop_append_of_le_length (List.getElem?_eq_some_iff.mp hx).1]
  · rw [Nat.add_assoc, ← drop_drop, drop_left]

/-- What holds of each element of a list and those before it, for a list in two parts. -/
theorem forall_before_append {P : β → List β → Prop} (front back : List β) :
    (∀ k x, (front ++ back)[k]? = some x → P x ((front ++ back).take k)) ↔
      (∀ k x, front[k]? = some x → P x (front.take k)) ∧
        ∀ k x, back[k]? = some x → P x (front ++ back.take k) := by
  rw [forall_getElem?_append]
  refine and_congr (forall₂_congr fun k x => imp_congr_right fun hx => ?_)
    (forall₂_congr fun k x => imp_congr_right fun _ => ?_)
  · rw [take_append_of_le_length (le_of_lt (List.getElem?_eq_some_iff.mp hx).1)]
  · rw [take_length_add_append]

end Lists

end Towers

end KvStore
