import KvStore.Foundation.Dict
import KvStore.Foundation.Text
import Mathlib.Data.List.Perm.Basic
import Mathlib.Tactic.Ring

/-! # Key sets and list values

The plain containers of the data store (`engine/keyset.py`, `engine/datatypes/containers.py`):

* **`KeySet`** — a set of texts kept in a dense array. Removal moves the last element into the hole,
  so the order of the array is part of what a client sees.
* **`ListValue`** — the operations of a list value, on the plain list of its elements: indices count
  from the end when negative, ranges are inclusive and clamped.

A hash value is a `Dict` and needs nothing more. -/

namespace KvStore

open List

/-! ## Key sets -/

/-- **A set of keys in a dense array** (`SampleableKeySet`). The index of the source is the position
in `items`. -/
structure KeySet where
  items : List Str
  nodup : items.Nodup
  deriving DecidableEq

namespace KeySet

@[ext] theorem ext {s t : KeySet} (h : s.items = t.items) : s = t := by
  cases s; cases t; simp_all

/-- The empty set. -/
def empty : KeySet := ⟨[], nodup_nil⟩

/-- Membership, as a test. -/
def contains (s : KeySet) (key : Str) : Bool := key ∈ s.items

/-- The number of keys. -/
def size (s : KeySet) : Nat := s.items.length

/-- `add`: append unless present. -/
def add (s : KeySet) (key : Str) : KeySet :=
  if h : key ∈ s.items then s
  else ⟨s.items ++ [key], by
    rw [nodup_append]
    refine ⟨s.nodup, nodup_singleton key, ?_⟩
    intro a ha b hb
    rw [mem_singleton] at hb
    rintro rfl
    exact h (hb ▸ ha)⟩

/-- Remove the element at a position, the last one taking its place. -/
def swapRemove (items : List Str) (idx : Nat) : List Str :=
  match items.getLast? with
  | none => []
  | some last => if idx < items.length - 1 then items.dropLast.set idx last else items.dropLast

/-- Overwriting a position by the last element removes what stood there. -/
theorem perm_set_getLast (l : List Str) (a : Str) (i : Nat) (hi : i < l.length) :
    (l.set i a).Perm ((l ++ [a]).eraseIdx i) := by
  induction l generalizing i with
  | nil => simp at hi
  | cons b rest ih =>
    cases i with
    | zero =>
      simp only [set_cons_zero, cons_append, eraseIdx_cons_zero]
      exact (perm_append_singleton a rest).symm
    | succ i =>
      simp only [set_cons_succ, cons_append, eraseIdx_cons_succ]
      exact (ih i (by simpa using hi)).cons b

/-- Up to order, a swap removal removes the element at the position. -/
theorem swapRemove_perm (items : List Str) (i : Nat) (hi : i < items.length) :
    (swapRemove items i).Perm (items.eraseIdx i) := by
  have hne : items ≠ [] := by
    rintro rfl
    simp at hi
  have hsplit : items.dropLast ++ [items.getLast hne] = items := dropLast_append_getLast hne
  have hlen : items.dropLast.length = items.length - 1 := length_dropLast
  rw [swapRemove, getLast?_eq_some_getLast hne]
  simp only
  split
  · rename_i hlt
    have h := perm_set_getLast items.dropLast (items.getLast hne) i (by omega)
    rwa [hsplit] at h
  · rename_i hge
    have hi' : i = items.dropLast.length := by omega
    have herase : items.eraseIdx i = items.dropLast := by
      conv_lhs => rw [← hsplit, hi']
      rw [eraseIdx_append_of_length_le le_rfl]
      simp
    rw [herase]

/-- `discard`: remove a key if it is present. -/
def discard (s : KeySet) (key : Str) : KeySet :=
  if h : key ∈ s.items then
    ⟨swapRemove s.items (s.items.idxOf key),
      ((swapRemove_perm _ _ (idxOf_lt_length_iff.mpr h)).nodup_iff).mpr
        (s.nodup.sublist (eraseIdx_sublist _ _))⟩
  else s

/-- A discarded key is gone, and no other. -/
@[simp] theorem mem_discard (s : KeySet) (key k : Str) :
    k ∈ (s.discard key).items ↔ k ∈ s.items ∧ k ≠ key := by
  unfold discard
  split
  · rename_i h
    have hperm := swapRemove_perm s.items _ (idxOf_lt_length_iff.mpr h)
    have herase : s.items.eraseIdx (s.items.idxOf key) = s.items.erase key :=
      (erase_eq_eraseIdx_of_idxOf rfl).symm
    rw [hperm.mem_iff, herase, s.nodup.mem_erase_iff]
    exact And.comm
  · rename_i h
    constructor
    · intro hk
      exact ⟨hk, fun e => h (e ▸ hk)⟩
    · exact And.left

/-- An added key is there, with all the others. -/
@[simp] theorem mem_add (s : KeySet) (key k : Str) :
    k ∈ (s.add key).items ↔ k ∈ s.items ∨ k = key := by
  unfold add
  split
  · rename_i h
    constructor
    · exact Or.inl
    · rintro (hk | rfl)
      · exact hk
      · exact h
  · simp

/-- Adding a key that is present changes nothing. -/
theorem add_of_mem {s : KeySet} {key : Str} (h : key ∈ s.items) : s.add key = s := by
  rw [add, dif_pos h]

/-- Discarding a key that is absent changes nothing. -/
theorem discard_of_not_mem {s : KeySet} {key : Str} (h : key ∉ s.items) : s.discard key = s := by
  rw [discard, dif_neg h]

/-- Up to order, a key set is one of its keys and the rest. -/
theorem items_perm {s : KeySet} {key : Str} (h : key ∈ s.items) :
    s.items.Perm (key :: (s.discard key).items) := by
  have hnd : (key :: (s.discard key).items).Nodup := by
    simp [(s.discard key).nodup]
  rw [perm_ext_iff_of_nodup s.nodup hnd]
  intro k
  by_cases hk : k = key
  · simp [hk, h]
  · simp [hk]

end KeySet

/-! ## List values -/

namespace ListValue

/-- `push_left`: each value goes to the front in turn. -/
def pushLeft (items values : List Str) : List Str := values.reverse ++ items

def pushRight (items values : List Str) : List Str := items ++ values

/-- `pop`: up to `count` elements from one end, in the order they leave, and what remains. -/
def pop (items : List Str) (count : Nat) (left : Bool) : List Str × List Str :=
  if left then (items.take count, items.drop count)
  else (items.reverse.take count, (items.reverse.drop count).reverse)

/-- `normalize`: a position for a possibly negative index, if there is one. -/
def normalize (items : List Str) (index : Int) : Option Nat :=
  let index := if index < 0 then index + items.length else index
  if 0 ≤ index ∧ index < items.length then some index.toNat else none

def get (items : List Str) (index : Int) : Option Str :=
  (normalize items index).bind fun pos => items[pos]?

/-- `set`: `none` when the index is out of range. -/
def set (items : List Str) (index : Int) (value : Str) : Option (List Str) :=
  (normalize items index).map fun pos => items.set pos value

/-- `_clamp`: the inclusive bounds of a range within a sequence of the given length. -/
def clamp (start stop : Int) (length : Nat) : Option (Nat × Nat) :=
  let start := if start < 0 then max 0 (length + start) else start
  let stop := if stop < 0 then stop + length else stop
  let stop := min stop (length - 1)
  if start > stop ∨ start ≥ length then none else some (start.toNat, stop.toNat)

/-- `range`: the elements between two inclusive bounds, walking in from whichever end is closer. -/
def range (items : List Str) (start stop : Int) : List Str :=
  match clamp start stop items.length with
  | none => []
  | some (lo, hi) =>
    let length := items.length
    if lo > length - 1 - hi then
      ((items.reverse.drop (length - 1 - hi)).take (length - lo - (length - 1 - hi))).reverse
    else (items.drop lo).take (hi + 1 - lo)

/-- `trim`: keep only a range. -/
def trim (items : List Str) (start stop : Int) : List Str := range items start stop

/-- The loop of `remove`: the kept elements and the number removed, of which there may be `limit`
(`none`: any number). -/
def removeLoop (limit : Option Nat) (value : Str) (removed : Nat) : List Str → List Str × Nat
  | [] => ([], removed)
  | item :: rest =>
    if item = value ∧ (limit = none ∨ ∃ n ∈ limit, removed < n) then
      removeLoop limit value (removed + 1) rest
    else
      let (kept, total) := removeLoop limit value removed rest
      (item :: kept, total)

/-- `remove` (LREM): with `count > 0` from the head, with `count < 0` from the tail, with `0` every
occurrence. The elements left and the number removed. -/
def remove (items : List Str) (count : Int) (value : Str) : List Str × Nat :=
  let limit := if count = 0 then none else some count.natAbs
  let (kept, removed) := removeLoop limit value 0 (if count < 0 then items.reverse else items)
  (if count < 0 then kept.reverse else kept, removed)

/-- At most as many elements leave as there are, and a second removal of as many leaves the same. -/
theorem pop_length (items : List Str) (count : Nat) (left : Bool) :
    pop items (pop items count left).1.length left = pop items count left := by
  cases left
  · simp only [pop, Bool.false_eq_true, if_false, length_take, length_reverse]
    rcases le_total count items.length with h | h
    · simp [min_eq_left h]
    · have h' : items.reverse.length ≤ count := by simpa using h
      simp [min_eq_right h, take_of_length_le h', drop_of_length_le h']
  · simp only [pop, if_true, length_take]
    rcases le_total count items.length with h | h
    · simp [min_eq_left h]
    · simp [min_eq_right h, take_of_length_le h, drop_of_length_le h]

/-- When nothing leaves, nothing changes. -/
theorem pop_eq_nil {items : List Str} {count : Nat} {left : Bool}
    (h : (pop items count left).1 = []) : (pop items count left).2 = items := by
  have hlen := pop_length items count left
  rw [h] at hlen
  rw [← hlen]
  cases left <;> simp [pop]

end ListValue

end KvStore
