import KvStore.Engine.SkipList

/-! # Queries of the skip list

The searches of `engine/datatypes/skiplist.py` that change nothing: `rank`, `by_rank` and the two ends of a
range of scores. They sum up spans on the way, or walk as long as a bound is not reached.

With scores from a linear order, and the elements ascending by score and member (`Ascending`), every
search ends between the elements that satisfy its test and the others (`Holds.place_append`), and so each
query is what it is of the list of elements: `Holds.rank`, `Holds.byRank`, `Holds.firstInRange`,
`Holds.lastInRange`. The order itself is kept up by `insert` and `delete`
(`Holds.insert_ascending`, `Holds.delete_ascending`). -/

namespace KvStore

open Towers List

namespace Linked

namespace SkipList

variable {M S : Type}

section Definitions

variable [LinearOrder M] [Comparable S] (l : SkipList M S)

/-- **`rank`**: the position of an element, counted from 1, or 0. -/
def rank (score : S) (member : M) : Option Int :=
  (seek l.heap
    (fun _ e => Comparable.lt e.2 score || (Comparable.eq e.2 score && decide (e.1 ≤ member)))
    (fun stop => stop.1 ≠ header ∧ (l.heap stop.1).value.1 = member)
    l.fresh l.level (header, 0)).map fun found => (found.map Prod.snd).getD 0

/-- **`by_rank`**: the element at a position, counted from 1. -/
def byRank (rank : Int) : Option (Option Nat) :=
  (seek l.heap (fun pos _ => pos ≤ rank) (fun stop => stop.2 = rank)
    l.fresh l.level (header, 0)).map fun found => found.map Prod.fst

def gteMin (score lo : S) (exclusive : Bool) : Bool :=
  if exclusive then Comparable.lt lo score else Comparable.le lo score

def lteMax (score hi : S) (exclusive : Bool) : Bool :=
  if exclusive then Comparable.lt score hi else Comparable.le score hi

/-- The bounds of a range of scores. -/
structure Range (S : Type) where
  lo : S
  hi : S
  loEx : Bool
  hiEx : Bool

/-- A score is in a range. -/
def Range.contains (r : Range S) (score : S) : Bool :=
  gteMin score r.lo r.loEx && lteMax score r.hi r.hiEx

def rangeMayOverlap (r : Range S) : Option Bool :=
  if Comparable.lt r.hi r.lo || (Comparable.eq r.lo r.hi && (r.loEx || r.hiEx)) then some false
  else (l.heap.next header 0).map fun first => match first, l.tail with
    | some first, some last =>
      gteMin (l.heap last).value.2 r.lo r.loEx && lteMax (l.heap first).value.2 r.hi r.hiEx
    | _, _ => false

def firstInRange (r : Range S) : Option (Option Nat) := do
  if !(← l.rangeMayOverlap r) then return none
  let stops ← l.search fun _ e => !gteMin e.2 r.lo r.loEx
  match ← l.heap.next (update stops 0) 0 with
  | none => return none
  | some candidate =>
    return if lteMax (l.heap candidate).value.2 r.hi r.hiEx then some candidate else none

def lastInRange (r : Range S) : Option (Option Nat) := do
  if !(← l.rangeMayOverlap r) then return none
  let stops ← l.search fun _ e => lteMax e.2 r.hi r.hiEx
  let x := update stops 0
  return if x = header ∨ !gteMin (l.heap x).value.2 r.lo r.loEx then none else some x


end Definitions

/-! ## Searches for a stop -/

variable {l : SkipList M S} {xs : List Nat} {t : Nat} {stops : List (Nat × Int)}

theorem Found.mem (hf : Found l xs t stops) (hmax : l.level ≤ maxLevel) {stop : Nat × Int}
    (hstop : stop ∈ stops) :
    ∃ k : Nat, stop.2 = k ∧ k ≤ t ∧ (header :: xs)[k]? = some stop.1 := by
  obtain ⟨i, hi⟩ := mem_iff_getElem?.mp hstop
  have hlt : i < stops.length := (List.getElem?_eq_some_iff.mp hi).1
  have hget : update stops i = stop.1 ∧ rankAt stops i = stop.2 := by
    rw [update, rankAt, hi]
    exact ⟨rfl, rfl⟩
  obtain ⟨hs, hnonneg⟩ := hf.stop i (by rw [hf.length] at hlt; omega)
  rw [hget.1, hget.2] at hs
  rw [hget.2] at hnonneg
  have hk : stop.2.toNat < t + 1 := by
    have := hs.lt
    rwa [length_cons, length_take, min_eq_left hf.le] at this
  refine ⟨stop.2.toNat, (Int.toNat_of_nonneg hnonneg).symm, Nat.le_of_lt_succ hk, ?_⟩
  have hhere := hs.here
  rwa [← take_succ_cons, getElem?_take_of_lt hk] at hhere

/-- **Looking for the place itself**: if only the stop there is the one looked for, it is found. -/
theorem Holds.seek (hl : l.Holds xs) (go : Int → M × S → Bool) (found : Nat × Int → Bool) {x : Nat}
    (hx : (header :: xs)[l.place xs go]? = some x) (hfound : found (x, (l.place xs go : Int)) = true)
    (honly : ∀ k y, k ≤ l.place xs go → (header :: xs)[k]? = some y → found (y, (k : Int)) = true →
      k = l.place xs go) :
    Towers.seek l.heap go found l.fresh l.level (header, 0) = some (some (x, (l.place xs go : Int))) := by
  obtain ⟨stops, hsearch, hf⟩ := hl.search go
  rw [seek_of_descend hsearch]
  have hmax : l.level ≤ maxLevel := hl.top ▸ hl.chain.level_le
  have hall : ∀ stop ∈ stops, found stop = true → stop = (x, (l.place xs go : Int)) := by
    intro stop hstop hok
    obtain ⟨k, hk, hle, hget⟩ := hf.mem hmax hstop
    obtain rfl := honly k stop.1 hle hget (by rw [← hk]; exact hok)
    exact Prod.ext (Option.some.inj (hget.symm.trans hx)) hk
  -- the search stops there on the lowest level at the latest
  have hmem : (x, (l.place xs go : Int)) ∈ stops := by
    have hzero : 0 < stops.length := hf.length ▸ hl.chain.pos
    have hget : stops[0]? = some (update stops 0, rankAt stops 0) := by
      rw [update, rankAt, getElem?_eq_getElem hzero]
      rfl
    have hnode : update stops 0 = x := Option.some.inj (hf.node.symm.trans hx)
    rw [hnode, hf.rank_zero] at hget
    exact mem_of_getElem? hget
  cases hfind : stops.reverse.find? found with
  | none =>
    have := find?_eq_none.mp hfind _ (mem_reverse.mpr hmem)
    exact absurd hfound this
  | some stop =>
    rw [hall stop (mem_reverse.mp (mem_of_find?_eq_some hfind))
      (find?_some hfind)]

/-- **A search ends between the elements that satisfy its test and the others.** -/
theorem Holds.place_append {front back : List Nat} (hl : l.Holds (front ++ back))
    {go : Int → M × S → Bool} (hfront : ∀ j, ∀ x ∈ front, go j (l.heap x).value = true)
    (hback : ∀ j, ∀ x ∈ back, go j (l.heap x).value = false) :
    l.place (front ++ back) go = front.length := by
  refine Towers.descent_eq hl.chain.pos (by simp) (fun y hy => (hl.chain.heights y hy).1) ?_
  intro j y hj hy
  obtain ⟨j, rfl⟩ := Nat.exists_eq_succ_of_ne_zero (Nat.ne_of_gt hj)
  rw [getElem?_cons_succ] at hy
  by_cases hlt : j < front.length
  · rw [getElem?_append_left hlt] at hy
    exact iff_of_true (hfront _ y (mem_of_getElem? hy)) hlt
  · rw [getElem?_append_right (not_lt.mp hlt)] at hy
    refine iff_of_false ?_ (by omega)
    rw [hback _ y (mem_of_getElem? hy)]
    simp

/-- **`by_rank` of a position in the list.** -/
theorem Holds.byRank (hl : l.Holds xs) {r : Nat} (hr : r < xs.length) :
    l.byRank ((r : Int) + 1) = some xs[r]? := by
  have hplace : l.place xs (fun pos _ => pos ≤ (r : Int) + 1) = r + 1 := by
    refine Towers.descent_eq hl.chain.pos (by simpa using hr) (fun y hy => (hl.chain.heights y hy).1) ?_
    intro j y _ _
    rw [decide_eq_true_eq]
    omega
  have hget : xs[r]? = some (xs.get ⟨r, hr⟩) := getElem?_eq_getElem hr
  have hseek := hl.seek (fun pos _ => pos ≤ (r : Int) + 1) (fun stop => stop.2 = (r : Int) + 1)
    (x := xs.get ⟨r, hr⟩) (by rw [hplace, getElem?_cons_succ, hget]) (by rw [hplace]; simp)
    (fun k y _ _ hk => by rw [hplace]; simp only [decide_eq_true_eq] at hk; omega)
  rw [SkipList.byRank, hseek, hget]
  rfl

/-! ## Scores in order -/

/-- The comparisons of a linear order. -/
@[reducible] def orderComparable [LinearOrder S] : Comparable S :=
  ⟨fun x y => decide (x < y), fun x y => decide (x ≤ y), fun x y => decide (x = y)⟩

section Ordered

variable [LinearOrder M] [LinearOrder S]

attribute [local instance] orderComparable

section

omit [LinearOrder M]

theorem comparable_lt (x y : S) : Comparable.lt x y = decide (x < y) := rfl

theorem comparable_le (x y : S) : Comparable.le x y = decide (x ≤ y) := rfl

theorem comparable_eq (x y : S) : Comparable.eq x y = decide (x = y) := rfl

end

/-- The key by which elements are ordered: the score, then the member. -/
def keyOf (e : M × S) : S ×ₗ M := toLex (e.2, e.1)

theorem keyOf_lt {e e' : M × S} : keyOf e < keyOf e' ↔ e.2 < e'.2 ∨ e.2 = e'.2 ∧ e.1 < e'.1 :=
  Prod.Lex.toLex_lt_toLex

theorem keyOf_le {e e' : M × S} : keyOf e ≤ keyOf e' ↔ e.2 < e'.2 ∨ e.2 = e'.2 ∧ e.1 ≤ e'.1 :=
  Prod.Lex.toLex_le_toLex

/-- Earlier elements do not have higher scores. -/
theorem score_le_of_keyOf_le {e e' : M × S} (h : keyOf e ≤ keyOf e') : e.2 ≤ e'.2 := by
  rcases keyOf_le.mp h with h | h
  · exact le_of_lt h
  · exact le_of_eq h.1

omit [LinearOrder M] [LinearOrder S] in
theorem keyOf_injective : Function.Injective (keyOf : M × S → S ×ₗ M) := by
  intro e e' h
  have := toLex.injective h
  simp only [Prod.mk.injEq] at this
  exact Prod.ext this.2 this.1

/-- **Strictly ascending by score and member.** -/
def Ascending (es : List (M × S)) : Prop := es.Pairwise fun e e' => keyOf e < keyOf e'

variable (l) in
/-- The elements at some addresses. -/
def elements (xs : List Nat) : List (M × S) := xs.map fun x => (l.heap x).value

theorem before_eq (score : S) (member : M) (j : Int) (e : M × S) :
    before score member j e = decide (keyOf e < keyOf (member, score)) := by
  rw [Bool.eq_iff_iff, decide_eq_true_eq, keyOf_lt]
  simp [before, comparable_lt, comparable_eq]

/-- An ascending list, parted at a test that holds of lower elements first. -/
theorem Ascending.split {xs : List Nat} (hasc : Ascending (l.elements xs)) (p : M × S → Bool)
    (hp : ∀ e e', keyOf e < keyOf e' → p e' = true → p e = true) :
    ∃ front back, xs = front ++ back ∧ (∀ x ∈ front, p (l.heap x).value = true) ∧
      ∀ x ∈ back, p (l.heap x).value = false := by
  induction xs with
  | nil => exact ⟨[], [], rfl, by simp, by simp⟩
  | cons x xs ih =>
    obtain ⟨hfirst, hrest⟩ := pairwise_cons.mp hasc
    by_cases hx : p (l.heap x).value = true
    · obtain ⟨front, back, rfl, hfront, hback⟩ := ih hrest
      refine ⟨x :: front, back, rfl, ?_, hback⟩
      intro y hy
      rcases mem_cons.mp hy with rfl | hy
      · exact hx
      · exact hfront y hy
    · refine ⟨[], x :: xs, rfl, by simp, ?_⟩
      intro y hy
      rcases mem_cons.mp hy with rfl | hy
      · simpa using hx
      · rw [Bool.eq_false_iff]
        exact fun hy' => hx (hp _ _ (hfirst _ (mem_map_of_mem hy)) hy')

/-- **A search for an element** ends between the lower elements and the others. -/
theorem Holds.split (hl : l.Holds xs) (hasc : Ascending (l.elements xs)) (member : M) (score : S) :
    ∃ front back, xs = front ++ back ∧ l.place xs (before score member) = front.length ∧
      (∀ x ∈ front, keyOf (l.heap x).value < keyOf (member, score)) ∧
      ∀ x ∈ back, keyOf (member, score) ≤ keyOf (l.heap x).value := by
  obtain ⟨front, back, rfl, hfront, hback⟩ := hasc.split (fun e => decide (keyOf e < keyOf (member, score)))
    fun e e' hlt he => by
      rw [decide_eq_true_eq] at he ⊢
      exact lt_trans hlt he
  refine ⟨front, back, rfl, hl.place_append ?_ ?_, fun x hx => by simpa using hfront x hx,
    fun x hx => by simpa using hback x hx⟩
  · intro j x hx
    rw [before_eq]
    exact hfront x hx
  · intro j x hx
    rw [before_eq]
    exact hback x hx

omit [LinearOrder M] [LinearOrder S] in
theorem Keeps.elements {l' : SkipList M S} (hk : Keeps l l' xs) {ys : List Nat} (hsub : ys ⊆ xs) :
    l'.elements ys = l.elements ys :=
  map_congr_left fun y hy => (hk y (hsub hy)).1

/-- **`insert` of a new element**: it is put in where it belongs. -/
theorem Holds.insert_ascending (hl : l.Holds xs) (hasc : Ascending (l.elements xs)) {member : M} {score : S}
    (hnew : (member, score) ∉ l.elements xs) (top : Fin maxLevel) :
    ∃ l' xs', l.insert score member top = some (l', l.fresh) ∧ l'.Holds xs' ∧
      Ascending (l'.elements xs') ∧ (l'.elements xs').Perm ((member, score) :: l.elements xs) := by
  obtain ⟨l', hinsert, hholds, hkeeps, hvalue, -⟩ := hl.insert score member top
  obtain ⟨front, back, rfl, hplace, hfront, hback⟩ := hl.split hasc member score
  rw [hplace, take_left, drop_left] at hholds
  have helems : l'.elements (front ++ l.fresh :: back) =
      l.elements front ++ (member, score) :: l.elements back := by
    rw [SkipList.elements, map_append, map_cons, hvalue]
    congr 1
    · exact hkeeps.elements (subset_append_left _ _)
    · congr 1
      exact hkeeps.elements (subset_append_right _ _)
  have hold : l.elements (front ++ back) = l.elements front ++ l.elements back := map_append
  refine ⟨l', _, hinsert, hholds, ?_, ?_⟩
  · rw [hold] at hasc hnew
    obtain ⟨hascf, hascb, hcross⟩ := pairwise_append.mp hasc
    rw [helems, Ascending, pairwise_append]
    refine ⟨hascf, pairwise_cons.mpr ⟨?_, hascb⟩, ?_⟩
    · intro e he
      obtain ⟨x, hx, rfl⟩ := mem_map.mp he
      refine lt_of_le_of_ne (hback x hx) fun heq => ?_
      exact hnew (mem_append_right _ (keyOf_injective heq ▸ he))
    · intro e he e' he'
      rcases mem_cons.mp he' with rfl | he'
      · obtain ⟨x, hx, rfl⟩ := mem_map.mp he
        exact hfront x hx
      · exact hcross e he e' he'
  · rw [helems, hold]
    exact perm_middle

/-- **`delete` of an element**: it is taken out. -/
theorem Holds.delete_ascending (hl : l.Holds xs) (hasc : Ascending (l.elements xs)) {member : M} {score : S}
    (hmem : (member, score) ∈ l.elements xs) :
    ∃ l' xs', l.delete score member = some (true, l') ∧ l'.Holds xs' ∧
      Ascending (l'.elements xs') ∧ (l.elements xs).Perm ((member, score) :: l'.elements xs') := by
  obtain ⟨front, back, rfl, hplace, hfront, hback⟩ := hl.split hasc member score
  have hold : l.elements (front ++ back) = l.elements front ++ l.elements back := map_append
  -- the element is the first that is not lower
  obtain ⟨node, rest, rfl, hnode⟩ : ∃ node rest, back = node :: rest ∧
      (l.heap node).value = (member, score) := by
    rw [hold, mem_append] at hmem
    rcases hmem with hmem | hmem
    · obtain ⟨x, hx, heq⟩ := mem_map.mp hmem
      have := hfront x hx
      rw [heq] at this
      exact absurd this (lt_irrefl _)
    · obtain ⟨x, hx, heq⟩ := mem_map.mp hmem
      rcases back with _ | ⟨node, rest⟩
      · simp at hx
      · refine ⟨node, rest, rfl, ?_⟩
        rcases mem_cons.mp hx with rfl | hx
        · exact heq
        · rw [hold] at hasc
          have hlt := (pairwise_cons.mp (pairwise_append.mp hasc).2.1).1 _ (mem_map_of_mem hx)
          rw [heq] at hlt
          exact absurd (hback node mem_cons_self) (not_le.mpr hlt)
  have hget : (front ++ node :: rest)[front.length]? = some node := by simp
  rcases hl.delete score member with
    ⟨node', hnode', -, -, l', hdelete, hholds, hkeeps⟩ | ⟨hnone, -⟩
  · rw [hplace] at hholds
    have hdrop : (front ++ node :: rest).drop (front.length + 1) = rest := by simp
    rw [take_left, hdrop] at hholds
    have hsub : front ++ rest ⊆ front ++ node :: rest :=
      ((sublist_cons_self node rest).append_left front).subset
    have helems : l'.elements (front ++ rest) = l.elements front ++ l.elements rest := by
      rw [hkeeps.elements hsub]
      exact map_append
    refine ⟨l', _, hdelete, hholds, ?_, ?_⟩
    · rw [helems]
      rw [hold] at hasc
      exact hasc.sublist (List.Sublist.append_left (sublist_cons_self _ _) _)
    · rw [helems, hold]
      have : l.elements (node :: rest) = (member, score) :: l.elements rest := by
        rw [SkipList.elements, map_cons, hnode]
        rfl
      rw [this]
      exact perm_middle
  · refine absurd ⟨node, by rw [hplace, hget], ?_, ?_⟩ hnone
    · rw [hnode, comparable_eq]
      simp
    · rw [hnode]

/-- **`rank` of an element** is its position, if no member occurs twice. -/
theorem Holds.rank (hl : l.Holds xs) (hasc : Ascending (l.elements xs))
    (hnd : ((l.elements xs).map Prod.fst).Nodup) {r : Nat} {member : M} {score : S}
    (hr : (l.elements xs)[r]? = some (member, score)) : l.rank score member = some ((r : Int) + 1) := by
  obtain ⟨x, hx, hvalue⟩ : ∃ x, xs[r]? = some x ∧ (l.heap x).value = (member, score) := by
    rw [SkipList.elements, getElem?_map] at hr
    exact Option.map_eq_some_iff.mp hr
  -- a search past the element ends right behind it
  have hplace : l.place xs (fun _ e =>
      Comparable.lt e.2 score || (Comparable.eq e.2 score && decide (e.1 ≤ member))) = r + 1 := by
    have hlt : r < xs.length := (List.getElem?_eq_some_iff.mp hx).1
    refine Towers.descent_eq hl.chain.pos (by simpa using hlt) (fun y hy => (hl.chain.heights y hy).1) ?_
    intro j y hj hy
    obtain ⟨j, rfl⟩ := Nat.exists_eq_succ_of_ne_zero (Nat.ne_of_gt hj)
    rw [getElem?_cons_succ] at hy
    have hle : (Comparable.lt (l.heap y).value.2 score ||
        (Comparable.eq (l.heap y).value.2 score && decide ((l.heap y).value.1 ≤ member))) = true ↔
        keyOf (l.heap y).value ≤ keyOf (member, score) := by
      rw [keyOf_le]
      simp [comparable_lt, comparable_eq]
    rw [hle]
    have hey : (l.elements xs)[j]? = some (l.heap y).value := by
      rw [SkipList.elements, getElem?_map, hy]
      rfl
    obtain ⟨hjlt, hjget⟩ := List.getElem?_eq_some_iff.mp hey
    obtain ⟨hrlt, hrget⟩ := List.getElem?_eq_some_iff.mp hr
    rw [← hjget, ← hrget, Nat.succ_le_succ_iff]
    constructor
    · intro hkey
      refine not_lt.mp fun hbefore => ?_
      exact absurd hkey (not_le.mpr (pairwise_iff_getElem.mp hasc r j hrlt hjlt hbefore))
    · intro hjr
      rcases Nat.eq_or_lt_of_le hjr with rfl | hbefore
      · exact le_rfl
      · exact le_of_lt (pairwise_iff_getElem.mp hasc j r hjlt hrlt hbefore)
  have hxh : x ≠ header := fun e =>
    (nodup_cons.mp hl.chain.nodup).1 (e ▸ mem_of_getElem? hx)
  have hseek := hl.seek
    (fun _ e => Comparable.lt e.2 score || (Comparable.eq e.2 score && decide (e.1 ≤ member)))
    (fun stop => stop.1 ≠ header ∧ (l.heap stop.1).value.1 = member) (x := x)
    (by rw [hplace, getElem?_cons_succ, hx]) (by simp [hxh, hvalue]) ?_
  · rw [SkipList.rank, hseek, hplace]
    simp
  · intro k y hk hy hfound
    obtain ⟨hyh, hmember⟩ := of_decide_eq_true hfound
    rw [hplace]
    rcases k with _ | k
    · exact absurd (by simpa using hy.symm) hyh
    · rw [getElem?_cons_succ] at hy
      have hat : ∀ j z, xs[j]? = some z →
          ((l.elements xs).map Prod.fst)[j]? = some (l.heap z).value.1 := fun j z hz => by
        rw [SkipList.elements, map_map, getElem?_map, hz]
        rfl
      have hky := hat k y hy
      have hrx := hat r x hx
      rw [hmember] at hky
      rw [hvalue] at hrx
      rw [(getElem?_inj (List.getElem?_eq_some_iff.mp hky).1 hnd).mp (hky.trans hrx.symm)]

/-! ### Ranges of scores -/

section

omit [LinearOrder M]

variable {exclusive : Bool} {score : S}

theorem gteMin_iff {lo : S}  :
    gteMin score lo exclusive = true ↔ if exclusive then lo < score else lo ≤ score := by
  cases exclusive <;> simp [gteMin, comparable_lt, comparable_le]

theorem lteMax_iff {hi : S}  :
    lteMax score hi exclusive = true ↔ if exclusive then score < hi else score ≤ hi := by
  cases exclusive <;> simp [lteMax, comparable_lt, comparable_le]

/-- Higher scores pass a lower bound as well. -/
theorem gteMin_mono {score' lo : S} (hle : score ≤ score') (h : gteMin score lo exclusive = true) :
    gteMin score' lo exclusive = true := by
  rw [gteMin_iff] at h ⊢
  split at h
  · rw [if_pos ‹_›]
    exact lt_of_lt_of_le h hle
  · rw [if_neg ‹_›]
    exact le_trans h hle

/-- Lower scores pass an upper bound as well. -/
theorem lteMax_mono {score' hi : S} (hle : score ≤ score') (h : lteMax score' hi exclusive = true) :
    lteMax score hi exclusive = true := by
  rw [lteMax_iff] at h ⊢
  split at h
  · rw [if_pos ‹_›]
    exact lt_of_le_of_lt hle h
  · rw [if_neg ‹_›]
    exact le_trans hle h

/-- A range with a score in it has its bounds in order. -/
theorem Range.bounds_of_contains {r : Range S} (h : r.contains score = true) :
    (Comparable.lt r.hi r.lo || (Comparable.eq r.lo r.hi && (r.loEx || r.hiEx))) = false := by
  obtain ⟨hlo, hhi⟩ := Bool.and_eq_true_iff.mp h
  rw [gteMin_iff] at hlo
  rw [lteMax_iff] at hhi
  have hle : r.lo ≤ score := by split at hlo; exacts [le_of_lt hlo, hlo]
  have hle' : score ≤ r.hi := by split at hhi; exacts [le_of_lt hhi, hhi]
  rw [Bool.or_eq_false_iff, comparable_lt, comparable_eq]
  refine ⟨decide_eq_false (not_lt.mpr (le_trans hle hle')), ?_⟩
  rw [Bool.and_eq_false_imp, decide_eq_true_eq]
  intro heq
  rw [Bool.or_eq_false_iff]
  constructor
  · refine Bool.eq_false_iff.mpr fun hex => ?_
    rw [if_pos hex] at hlo
    exact absurd (lt_of_lt_of_le hlo hle') (heq ▸ lt_irrefl _)
  · refine Bool.eq_false_iff.mpr fun hex => ?_
    rw [if_pos hex] at hhi
    exact absurd (lt_of_le_of_lt hle hhi) (heq ▸ lt_irrefl _)

end

/-- The scores of an ascending list do not fall. -/
theorem score_le {xs : List Nat} (hasc : Ascending (l.elements xs)) (front back : List Nat)
    (hxs : xs = front ++ back) {x y : Nat} (hx : x ∈ front) (hy : y ∈ back) :
    (l.heap x).value.2 ≤ (l.heap y).value.2 := by
  subst hxs
  rw [SkipList.elements, map_append] at hasc
  exact score_le_of_keyOf_le (le_of_lt ((pairwise_append.mp hasc).2.2 _ (mem_map_of_mem hx) _
    (mem_map_of_mem hy)))

/-- **`_range_may_overlap`** does not fail, and if it answers no, no element is in the range. -/
theorem Holds.rangeMayOverlap (hl : l.Holds xs) (hasc : Ascending (l.elements xs)) (r : Range S) :
    ∃ b, l.rangeMayOverlap r = some b ∧
      (b = false → ∀ x ∈ xs, r.contains (l.heap x).value.2 = false) := by
  by_cases hout : (Comparable.lt r.hi r.lo || (Comparable.eq r.lo r.hi && (r.loEx || r.hiEx))) = true
  · refine ⟨false, by rw [SkipList.rangeMayOverlap, if_pos hout], fun _ x _ => ?_⟩
    refine Bool.eq_false_iff.mpr fun hin => ?_
    rw [Range.bounds_of_contains hin] at hout
    exact absurd hout (by simp)
  · have hfirst : l.heap.next header 0 = some xs.head? := by
      rw [hl.chain.next_zero hl.chain.zero_eq, getElem?_cons_succ, head?_eq_getElem?]
    rw [SkipList.rangeMayOverlap, if_neg hout, hfirst, hl.mirror.last]
    refine ⟨_, rfl, fun hfalse x hx => Bool.eq_false_iff.mpr fun hin => ?_⟩
    obtain ⟨hlo, hhi⟩ := Bool.and_eq_true_iff.mp hin
    obtain ⟨first, rest, hcons⟩ : ∃ first rest, xs = first :: rest := exists_cons_of_ne_nil
      (ne_nil_of_mem hx)
    obtain ⟨init, last, hconcat⟩ : ∃ init last, xs = init ++ [last] :=
      ⟨xs.dropLast, xs.getLast (ne_nil_of_mem hx), (dropLast_append_getLast _).symm⟩
    have hheadx : xs.head? = some first := by rw [hcons]; rfl
    have hlastx : xs.getLast? = some last := by rw [hconcat]; simp
    have hle : (l.heap first).value.2 ≤ (l.heap x).value.2 := by
      rw [hcons] at hx
      rcases mem_cons.mp hx with rfl | hx
      · exact le_rfl
      · exact score_le hasc [first] rest hcons mem_cons_self hx
    have hle' : (l.heap x).value.2 ≤ (l.heap last).value.2 := by
      rw [hconcat] at hx
      rcases mem_append.mp hx with hx | hx
      · exact score_le hasc init [last] hconcat hx mem_cons_self
      · rw [mem_singleton.mp hx]
    rw [hheadx, hlastx] at hfalse
    simp only [gteMin_mono hle' hlo, lteMax_mono hle hhi, Bool.and_self] at hfalse
    exact absurd hfalse (by simp)

/-- **`first_in_range`** is the first element in the range. -/
theorem Holds.firstInRange (hl : l.Holds xs) (hasc : Ascending (l.elements xs)) (r : Range S) :
    l.firstInRange r = some (xs.find? fun x => r.contains (l.heap x).value.2) := by
  obtain ⟨b, hb, hnone⟩ := hl.rangeMayOverlap hasc r
  cases b with
  | false =>
    have hfind : xs.find? (fun x => r.contains (l.heap x).value.2) = none :=
      find?_eq_none.mpr fun x hx => by simp [hnone rfl x hx]
    simp [SkipList.firstInRange, hb, hfind]
  | true =>
    -- the elements below the range, and the others
    obtain ⟨front, back, rfl, hfront, hback⟩ := hasc.split (fun e => !gteMin e.2 r.lo r.loEx)
      fun e e' hlt he => by
        rw [Bool.not_eq_true', Bool.eq_false_iff] at he ⊢
        exact fun h => he (gteMin_mono (score_le_of_keyOf_le (le_of_lt hlt)) h)
    obtain ⟨stops, hsearch, hf⟩ := hl.search fun _ e => !gteMin e.2 r.lo r.loEx
    rw [hl.place_append (fun _ => hfront) fun _ => hback] at hf
    have hnext : l.heap.next (update stops 0) 0 = some back.head? := by
      rw [hl.chain.next_zero hf.node, getElem?_cons_succ,
        getElem?_append_right (le_refl _), Nat.sub_self, head?_eq_getElem?]
    have hskip : front.find? (fun x => r.contains (l.heap x).value.2) = none := by
      refine find?_eq_none.mpr fun x hx => ?_
      have := hfront x hx
      rw [Bool.not_eq_true'] at this
      simp [Range.contains, this]
    rw [find?_append, hskip, Option.none_or]
    simp only [SkipList.firstInRange, hb, hsearch, hnext, Option.bind_eq_bind, Option.bind_some]
    cases back with
    | nil => rfl
    | cons candidate rest =>
      have hlo : gteMin (l.heap candidate).value.2 r.lo r.loEx = true := by
        simpa using hback candidate mem_cons_self
      by_cases hhi : lteMax (l.heap candidate).value.2 r.hi r.hiEx = true
      · have hin : r.contains (l.heap candidate).value.2 = true := by simp [Range.contains, hlo, hhi]
        simp [hhi, hin]
      · -- what comes later is higher still
        have hrest : (candidate :: rest).find? (fun x => r.contains (l.heap x).value.2) = none := by
          refine find?_eq_none.mpr fun x hx hin => hhi ?_
          refine lteMax_mono ?_ (Bool.and_eq_true_iff.mp hin).2
          rcases mem_cons.mp hx with rfl | hx
          · exact le_rfl
          · exact score_le hasc (front ++ [candidate]) rest (by simp) (by simp) hx
        rw [hrest]
        simp [hhi]

/-- **`last_in_range`** is the last element in the range. -/
theorem Holds.lastInRange (hl : l.Holds xs) (hasc : Ascending (l.elements xs)) (r : Range S) :
    l.lastInRange r = some (xs.reverse.find? fun x => r.contains (l.heap x).value.2) := by
  obtain ⟨b, hb, hnone⟩ := hl.rangeMayOverlap hasc r
  cases b with
  | false =>
    have hfind : xs.reverse.find? (fun x => r.contains (l.heap x).value.2) = none :=
      find?_eq_none.mpr fun x hx => by simp [hnone rfl x (mem_reverse.mp hx)]
    simp [SkipList.lastInRange, hb, hfind]
  | true =>
    -- the elements that are not above the range, and the others
    obtain ⟨front, back, rfl, hfront, hback⟩ := hasc.split (fun e => lteMax e.2 r.hi r.hiEx)
      fun e e' hlt he => lteMax_mono (score_le_of_keyOf_le (le_of_lt hlt)) he
    obtain ⟨stops, hsearch, hf⟩ := hl.search fun _ e => lteMax e.2 r.hi r.hiEx
    rw [hl.place_append (fun _ => hfront) fun _ => hback] at hf
    have hskip : back.reverse.find? (fun x => r.contains (l.heap x).value.2) = none := by
      refine find?_eq_none.mpr fun x hx => ?_
      have := hback x (mem_reverse.mp hx)
      simp [Range.contains, this]
    rw [reverse_append, find?_append, hskip, Option.none_or]
    simp only [SkipList.lastInRange, hb, hsearch, Option.bind_eq_bind, Option.bind_some]
    have hnode := hf.node
    rcases eq_nil_or_concat front with rfl | ⟨init, last, rfl⟩
    · have hheader : update stops 0 = header := by simpa using hnode.symm
      simp [hheader]
    · rw [concat_eq_append] at *
      have hlast : update stops 0 = last := by
        rw [length_append, length_singleton, getElem?_cons_succ, append_assoc,
          getElem?_append_right (le_refl _), Nat.sub_self] at hnode
        simpa using hnode.symm
      have hmem : last ∈ init ++ [last] := by simp
      have hnot : last ≠ header := fun e =>
        (nodup_cons.mp hl.chain.nodup).1 (e ▸ mem_append_left _ hmem)
      have hhi := hfront last hmem
      rw [hlast, reverse_append, reverse_singleton, singleton_append]
      by_cases hlo : gteMin (l.heap last).value.2 r.lo r.loEx = true
      · have hin : r.contains (l.heap last).value.2 = true := by simp [Range.contains, hlo, hhi]
        simp [hnot, hlo, hin]
      · -- what comes earlier is lower still
        have hrest : (last :: init.reverse).find? (fun x => r.contains (l.heap x).value.2) = none := by
          refine find?_eq_none.mpr fun x hx hin => hlo ?_
          refine gteMin_mono ?_ (Bool.and_eq_true_iff.mp hin).1
          rcases mem_cons.mp hx with rfl | hx
          · exact le_rfl
          · exact score_le hasc init (last :: back) (by simp) (mem_reverse.mp hx)
              mem_cons_self
        rw [hrest]
        simp [hlo]

end Ordered

end SkipList

end Linked

end KvStore
