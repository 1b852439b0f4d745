import KvStore.Engine.Reference
import KvStore.Engine.Sizes
import Mathlib.Data.List.GetD
import Mathlib.Logic.Function.Iterate

/-! # List values are lists

A list value (`engine/datatypes/containers.py`) is a deque and the number of its bytes. The deque cannot be
sliced: a range walks in from the end that is closer, and a removal from the tail works on a reversed copy.
The number of bytes is adjusted call by call.

* **`ListObject`** — the object, with its loops; **`ListObject.edit_apply`** — it does what the engine's model
  of a list value does (`Edit.apply`, `Edit.count`).
* **`segment`** — the elements of a list between two positions. **`lrange`**, **`lrem`**, **`position`** —
  what the calls mean on a plain list.
* **`range_eq_lrange`** — both walks give the elements between the bounds (`tailWalk_eq_headWalk`).
* **`remove_eq_lrem`** — a removal takes the first, the last or all of the equal elements.
* **`list_value_is_list`** — every sequence of calls gives the answers, the contents and the number of bytes
  that it gives on a plain list. -/

namespace KvStore

open List

/-! ## Parts of lists -/

section Segments

variable {α : Type}

/-- **The elements at the positions from `lo` to `hi`**, both included, as far as there are any. -/
def segment (lo hi : Int) (items : List α) : List α :=
  (items.zipIdx.filter fun p => decide (lo ≤ p.2 ∧ p.2 ≤ hi)).map Prod.fst

@[simp] theorem segment_nil (lo hi : Int) : segment lo hi ([] : List α) = [] := rfl

theorem segment_cons (lo hi : Int) (x : α) (items : List α) :
    segment lo hi (x :: items) =
      (if lo ≤ 0 ∧ 0 ≤ hi then [x] else []) ++ segment (lo - 1) (hi - 1) items := by
  -- the positions of the rest are one further
  have hshift : (items.zipIdx 1).filter (fun p => decide (lo ≤ p.2 ∧ p.2 ≤ hi)) =
      ((items.zipIdx).filter fun p => decide (lo - 1 ≤ p.2 ∧ p.2 ≤ hi - 1)).map
        (Prod.map id (· + 1)) := by
    rw [zipIdx_succ, filter_map]
    congr 1
    refine filter_congr fun p _ => ?_
    simp only [Function.comp_apply, Nat.cast_add, Nat.cast_one, decide_eq_decide]
    omega
  rw [segment, zipIdx_cons, filter_cons, Nat.zero_add, hshift, segment]
  simp only [Nat.cast_zero, decide_eq_true_eq]
  split <;> simp [Function.comp_def]

/-- **A segment is taken by dropping and taking.** -/
theorem segment_eq (lo hi : Int) (items : List α) :
    segment lo hi items = (items.drop lo.toNat).take ((hi + 1).toNat - lo.toNat) := by
  induction items generalizing lo hi with
  | nil => simp
  | cons x items ih =>
    rw [segment_cons, ih]
    rcases lt_or_ge 0 lo with hlo | hlo
    · -- the first element is dropped
      obtain ⟨n, hn⟩ : ∃ n : Nat, lo.toNat = n + 1 := ⟨lo.toNat - 1, by omega⟩
      rw [if_neg (by omega), nil_append, hn, drop_succ_cons, show (lo - 1).toNat = n by omega,
        show (hi - 1 + 1).toNat - n = (hi + 1).toNat - (n + 1) by omega]
    · rw [show lo.toNat = 0 by omega, show (lo - 1).toNat = 0 by omega, drop_zero, drop_zero]
      rcases lt_or_ge hi 0 with hhi | hhi
      · rw [if_neg (by omega), show (hi + 1).toNat = 0 by omega, show (hi - 1 + 1).toNat = 0 by omega]
        rfl
      · rw [if_pos ⟨hlo, hhi⟩, show (hi + 1).toNat - 0 = (hi - 1 + 1).toNat - 0 + 1 by omega,
          take_succ_cons]
        rfl

variable [BEq α] [LawfulBEq α]

theorem iterate_erase_of_not_mem {value : α} {items : List α} (h : value ∉ items) (n : Nat) :
    (List.erase · value)^[n] items = items :=
  Function.iterate_fixed (erase_of_not_mem h) n

theorem iterate_erase_cons_of_ne {x value : α} (h : x ≠ value) (n : Nat) (items : List α) :
    (List.erase · value)^[n] (x :: items) = x :: (List.erase · value)^[n] items := by
  induction n generalizing items with
  | zero => rfl
  | succ n ih =>
    rw [Function.iterate_succ_apply, Function.iterate_succ_apply,
      erase_cons_tail (by simpa using h), ih]

end Segments

/-! ## What the calls mean -/

/-- The position of an index: from the end if it is negative, and refused outside. -/
def position (length : Nat) (index : Int) : Option Nat :=
  if 0 ≤ index ∧ index < length then some index.toNat
  else if -length ≤ index ∧ index < 0 then some (length + index).toNat
  else none

/-- **LRANGE**: the elements between two bounds, which count from the end if they are negative. -/
def lrange (items : List Str) (start stop : Int) : List Str :=
  segment (if start < 0 then items.length + start else start)
    (if stop < 0 then items.length + stop else stop) items

/-- **LREM**: the first `count` elements that are equal to a value go, or the last, or all of them. -/
def lrem (items : List Str) (count : Int) (value : Str) : List Str × Nat :=
  if count = 0 then (items.filter (· ≠ value), items.count value)
  else if 0 < count then
    ((List.erase · value)^[count.natAbs] items, min count.natAbs (items.count value))
  else
    (((List.erase · value)^[count.natAbs] items.reverse).reverse, min count.natAbs (items.count value))

/-! ## The walks -/

namespace ListValue

/-- `islice(self._items, lo, hi + 1)`. -/
def headWalk (items : List Str) (lo hi : Nat) : List Str := (items.drop lo).take (hi + 1 - lo)

/-- `islice(reversed(self._items), length - 1 - hi, length - lo)`, reversed. -/
def tailWalk (items : List Str) (lo hi : Nat) : List Str :=
  ((items.reverse.drop (items.length - 1 - hi)).take
    (items.length - lo - (items.length - 1 - hi))).reverse

/-- A range walks in from the end that is closer. -/
theorem range_eq_walk (items : List Str) (start stop : Int) :
    range items start stop =
      match clamp start stop items.length with
      | none => []
      | some (lo, hi) =>
        if lo > items.length - 1 - hi then tailWalk items lo hi else headWalk items lo hi := rfl

theorem clamp_eq_some {start stop : Int} {length lo hi : Nat} (h : clamp start stop length = some (lo, hi)) :
    lo ≤ hi ∧ hi < length ∧ (lo : Int) = (if start < 0 then max 0 (length + start) else start) ∧
      (hi : Int) = min (if stop < 0 then length + stop else stop) (length - 1) := by
  unfold clamp at h
  dsimp only at h
  rw [Option.ite_none_left_eq_some, Option.some.injEq, Prod.mk.injEq] at h
  obtain ⟨hnot, hlo, hhi⟩ := h
  rw [add_comm stop] at hnot hhi
  omega

theorem clamp_eq_none {start stop : Int} {length : Nat} (h : clamp start stop length = none) :
    min (if stop < 0 then length + stop else stop) (length - 1) <
        (if start < 0 then max 0 (length + start) else start) ∨
      (length : Int) ≤ if start < 0 then max 0 (length + start) else start := by
  unfold clamp at h
  dsimp only at h
  rw [add_comm stop] at h
  by_contra hnot
  rw [if_neg (by omega)] at h
  cases h

/-- **Both walks give the same elements.** -/
theorem tailWalk_eq_headWalk {items : List Str} {lo hi : Nat} (hle : lo ≤ hi) (hlt : hi < items.length) :
    tailWalk items lo hi = headWalk items lo hi := by
  refine ext_getElem ?_ fun i h h' => ?_
  · simp only [tailWalk, headWalk, length_reverse, length_take, length_drop]
    omega
  · simp only [tailWalk, length_reverse, length_take, length_drop] at h
    simp only [tailWalk, headWalk, getElem_reverse, getElem_take, getElem_drop,
      length_reverse, length_take, length_drop]
    congr 1
    omega

/-- **A range is what LRANGE means.** -/
theorem range_eq_lrange (items : List Str) (start stop : Int) :
    range items start stop = lrange items start stop := by
  rw [lrange, segment_eq]
  cases hclamp : clamp start stop items.length with
  | none =>
    have hnone := clamp_eq_none hclamp
    rw [range_eq_walk, hclamp]
    refine (eq_nil_of_length_eq_zero ?_).symm
    rw [length_take, length_drop]
    omega
  | some bounds =>
    obtain ⟨lo, hi⟩ := bounds
    obtain ⟨hle, hlt, hlo, hhi⟩ := clamp_eq_some hclamp
    have hwalk : range items start stop = headWalk items lo hi := by
      rw [range_eq_walk, hclamp]
      dsimp only
      split
      · exact tailWalk_eq_headWalk hle hlt
      · rfl
    rw [hwalk, headWalk]
    have hfirst : (if start < 0 then items.length + start else start).toNat = lo := by omega
    rw [hfirst, take_eq_take_iff, length_drop]
    omega

/-! ## Indexes and removals -/

/-- **An index is a position**, or refused. -/
theorem normalize_eq_position (items : List Str) (index : Int) :
    normalize items index = position items.length index := by
  unfold normalize position
  dsimp only
  split_ifs <;> first | omega | rfl | (congr 1; omega)

/-- The loop that removes every equal element. -/
theorem removeLoop_none (value : Str) (removed : Nat) (items : List Str) :
    removeLoop none value removed items = (items.filter (· ≠ value), removed + items.count value) := by
  induction items generalizing removed with
  | nil => rfl
  | cons item items ih =>
    unfold removeLoop
    by_cases hitem : item = value
    · rw [if_pos ⟨hitem, .inl rfl⟩, ih, hitem, count_cons_self, filter_cons_of_neg (by simp)]
      congr 1
      omega
    · rw [if_neg (fun h => hitem h.1), ih, count_cons_of_ne (by simpa using hitem),
        filter_cons_of_pos (by simpa using hitem)]

/-- The loop that removes some of the equal elements: as many as are still to go. -/
theorem removeLoop_some {limit removed : Nat} (value : Str) (hle : removed ≤ limit) (items : List Str) :
    removeLoop (some limit) value removed items =
      ((List.erase · value)^[limit - removed] items,
        removed + min (limit - removed) (items.count value)) := by
  induction items generalizing removed with
  | nil =>
    rw [iterate_erase_of_not_mem (not_mem_nil)]
    simp [removeLoop]
  | cons item items ih =>
    unfold removeLoop
    by_cases hitem : item = value
    · subst hitem
      rcases hle.lt_or_eq with hlt | rfl
      · obtain ⟨n, hn⟩ : ∃ n, limit - removed = n + 1 := ⟨limit - removed - 1, by omega⟩
        rw [if_pos ⟨rfl, .inr ⟨limit, rfl, hlt⟩⟩, ih hlt, hn, Function.iterate_succ_apply,
          erase_cons_head, count_cons_self, show limit - (removed + 1) = n by omega]
        congr 1
        omega
      · -- none is left to go
        rw [if_neg (by simp), ih le_rfl, Nat.sub_self]
        simp
    · rw [if_neg (fun h => hitem h.1), ih hle, iterate_erase_cons_of_ne hitem,
        count_cons_of_ne (by simpa using hitem)]

/-- **A removal is what LREM means.** -/
theorem remove_eq_lrem (items : List Str) (count : Int) (value : Str) :
    remove items count value = lrem items count value := by
  unfold remove lrem
  rcases lt_trichotomy count 0 with hneg | rfl | hpos
  · simp only [hneg.ne, hneg, if_true, if_false, not_lt_of_gt hneg,
      removeLoop_some value (Nat.zero_le count.natAbs), Nat.sub_zero, Nat.zero_add, count_reverse]
  · simp only [lt_irrefl, if_true, if_false, removeLoop_none, Nat.zero_add]
  · simp only [hpos.ne', hpos, if_true, if_false, not_lt_of_gt hpos,
      removeLoop_some value (Nat.zero_le count.natAbs), Nat.sub_zero, Nat.zero_add]

/-- A removal that removes nothing keeps everything. -/
theorem remove_eq_self {items : List Str} {count : Int} {value : Str}
    (h : (remove items count value).2 = 0) : (remove items count value).1 = items := by
  rw [remove_eq_lrem] at h ⊢
  unfold lrem at h ⊢
  -- in each case no element is equal to the value
  split at h
  case isTrue hcount =>
    rw [if_pos hcount]
    have hmem : value ∉ items := count_eq_zero.mp h
    exact filter_eq_self.mpr fun item hitem => decide_eq_true fun heq => hmem (heq ▸ hitem)
  case isFalse hcount =>
    have hmem : value ∉ items := by
      refine count_eq_zero.mp ?_
      split at h <;> (dsimp only at h; omega)
    rw [if_neg hcount, iterate_erase_of_not_mem hmem,
      iterate_erase_of_not_mem (by simpa using hmem), reverse_reverse]
    split <;> rfl

end ListValue

/-! ## The object -/

/-- **A list value**: `_items` and `nbytes`. -/
structure ListObject where
  items : List Str
  nbytes : Int

namespace ListObject

open Edit

variable [CPython]

def pushLeft : List Str → ListObject → ListObject
  | [], v => v
  | value :: values, v => pushLeft values ⟨value :: v.items, v.nbytes + itemBytes value⟩

def pushRight : List Str → ListObject → ListObject
  | [], v => v
  | value :: values, v => pushRight values ⟨v.items ++ [value], v.nbytes + itemBytes value⟩

/-- `ListValue(items)`. -/
def new (items : List Str) : ListObject := pushRight items ⟨[], emptyContainer⟩

/-- One turn of the loop of `pop`: the element that leaves, and what remains. -/
def popOne (left : Bool) (v : ListObject) : Option (Str × ListObject) :=
  if left then
    match v.items with
    | [] => none
    | value :: rest => some (value, ⟨rest, v.nbytes - itemBytes value⟩)
  else v.items.getLast?.map fun value => (value, ⟨v.items.dropLast, v.nbytes - itemBytes value⟩)

def popLoop (left : Bool) : Nat → ListObject → List Str × ListObject
  | 0, v => ([], v)
  | n + 1, v =>
    match v.popOne left with
    | none => ([], v)
    | some (value, v) =>
      let (popped, v) := popLoop left n v
      (value :: popped, v)

def pop (count : Int) (left : Bool) (v : ListObject) : List Str × ListObject :=
  popLoop left (min count v.items.length).toNat v

def set (index : Int) (value : Str) (v : ListObject) : Bool × ListObject :=
  match ListValue.normalize v.items index with
  | none => (false, v)
  | some pos =>
    (true, ⟨v.items.set pos value, v.nbytes + (strSize value - strSize (v.items.getD pos []))⟩)

def trim (start stop : Int) (v : ListObject) : ListObject :=
  pushRight (ListValue.range v.items start stop) ⟨[], emptyContainer⟩

def remove (count : Int) (value : Str) (v : ListObject) : Nat × ListObject :=
  let (kept, removed) := ListValue.remove v.items count value
  (removed, if removed = 0 then v else ⟨kept, v.nbytes - removed * itemBytes value⟩)

theorem pushLeft_eq (values : List Str) (v : ListObject) :
    v.pushLeft values = ⟨ListValue.pushLeft v.items values,
      values.foldl (fun n value => n + itemBytes value) v.nbytes⟩ := by
  induction values generalizing v with
  | nil => rfl
  | cons value values ih =>
    rw [pushLeft, ih]
    simp [ListValue.pushLeft]

theorem pushRight_eq (values : List Str) (v : ListObject) :
    v.pushRight values = ⟨ListValue.pushRight v.items values,
      values.foldl (fun n value => n + itemBytes value) v.nbytes⟩ := by
  induction values generalizing v with
  | nil => simp [pushRight, ListValue.pushRight]
  | cons value values ih =>
    rw [pushRight, ih]
    simp [ListValue.pushRight]

theorem popLoop_eq (left : Bool) (n : Nat) (v : ListObject) :
    v.popLoop left n = ((ListValue.pop v.items n left).1, ⟨(ListValue.pop v.items n left).2,
      (ListValue.pop v.items n left).1.foldl (fun n value => n - itemBytes value) v.nbytes⟩) := by
  induction n generalizing v with
  | zero => cases left <;> simp [popLoop, ListValue.pop]
  | succ n ih =>
    obtain ⟨items, nbytes⟩ := v
    cases left with
    | true =>
      cases items with
      | nil => rfl
      | cons value rest =>
        simp only [popLoop, popOne, if_true, ih]
        rfl
    | false =>
      rcases eq_nil_or_concat items with rfl | ⟨rest, value, rfl⟩
      · rfl
      · simp only [popLoop, popOne, Bool.false_eq_true, if_false, ih]
        simp [ListValue.pop]

end ListObject

/-! ## Calls -/

/-- A call that changes a list value. -/
inductive ListCall
  | pushLeft (values : List Str)
  | pushRight (values : List Str)
  | pop (count : Int) (left : Bool)
  | set (index : Int) (value : Str)
  | trim (start stop : Int)
  | remove (count : Int) (value : Str)

/-- What a call returns. -/
inductive ListAnswer
  /-- `None`. -/
  | nothing
  /-- The elements that left. -/
  | popped (values : List Str)
  /-- Whether there was such a position. -/
  | found (ok : Bool)
  /-- How many elements went. -/
  | removed (n : Nat)

namespace ListCall

open ListObject

/-- **A call on the object.** -/
def onObject [CPython] (v : ListObject) : ListCall → ListAnswer × ListObject
  | pushLeft values => (.nothing, v.pushLeft values)
  | pushRight values => (.nothing, v.pushRight values)
  | pop count left => (.popped (v.pop count left).1, (v.pop count left).2)
  | set index value => (.found (v.set index value).1, (v.set index value).2)
  | trim start stop => (.nothing, v.trim start stop)
  | remove count value => (.removed (v.remove count value).1, (v.remove count value).2)

/-- **A call on a plain list.** -/
def onList (items : List Str) : ListCall → ListAnswer × List Str
  | pushLeft values => (.nothing, values.reverse ++ items)
  | pushRight values => (.nothing, items ++ values)
  | pop count true => (.popped (items.take count.toNat), items.drop count.toNat)
  | pop count false =>
    (.popped (items.reverse.take count.toNat), items.take (items.length - count.toNat))
  | set index value =>
    match position items.length index with
    | none => (.found false, items)
    | some pos => (.found true, items.set pos value)
  | trim start stop => (.nothing, lrange items start stop)
  | remove count value => (.removed (lrem items count value).2, (lrem items count value).1)

/-- The call as the engine's model has it. -/
def edit : ListCall → Edit
  | pushLeft values => .pushLeft values
  | pushRight values => .pushRight values
  | pop count left => .pop count.toNat left
  | set index value => .setIndex index value
  | trim start stop => .trim start stop
  | remove count value => .removeValue count value

/-- Several calls on the object, with their answers. -/
def runObject [CPython] : List ListCall → ListObject → List ListAnswer × ListObject
  | [], v => ([], v)
  | call :: calls, v =>
    let (answer, v) := call.onObject v
    let (answers, v) := runObject calls v
    (answer :: answers, v)

/-- Several calls on a plain list. -/
def runList : List ListCall → List Str → List ListAnswer × List Str
  | [], items => ([], items)
  | call :: calls, items =>
    let (answer, items) := call.onList items
    let (answers, items) := runList calls items
    (answer :: answers, items)

/-- At most as many elements leave as there are. -/
theorem pop_min (items : List Str) (count : Int) (left : Bool) :
    ListValue.pop items (min count items.length).toNat left = ListValue.pop items count.toNat left := by
  rcases le_total count items.length with hle | hge
  · rw [min_eq_left hle]
  · rw [min_eq_right hge, Int.toNat_natCast]
    have hlength : items.length ≤ count.toNat := by omega
    cases left <;> simp [ListValue.pop, take_of_length_le, drop_of_length_le, hlength]

variable [CPython]

/-- **The object does what the engine's model does**, to the elements and to the number of bytes. -/
theorem onObject_edit (call : ListCall) (v : ListObject) :
    (Value.list (call.onObject v).2.items : Value SortedSet) = call.edit.apply (.list v.items) ∧
      (call.onObject v).2.nbytes = call.edit.count (.list v.items : Value SortedSet) v.nbytes := by
  cases call with
  | pushLeft values =>
    simp only [onObject, pushLeft_eq]
    exact ⟨rfl, rfl⟩
  | pushRight values =>
    simp only [onObject, pushRight_eq]
    exact ⟨rfl, rfl⟩
  | pop count left =>
    simp only [onObject, ListObject.pop, popLoop_eq, pop_min]
    exact ⟨rfl, rfl⟩
  | set index value =>
    simp only [onObject, ListObject.set, edit, Edit.apply, Edit.count, ListValue.set]
    cases hpos : ListValue.normalize v.items index with
    | none => exact ⟨rfl, rfl⟩
    | some pos =>
      obtain ⟨old, hold⟩ := exists_of_normalize hpos
      simp [hold, getD_eq_getElem?_getD]
  | trim start stop =>
    simp only [onObject, ListObject.trim, pushRight_eq]
    exact ⟨rfl, rfl⟩
  | remove count value =>
    simp only [onObject, ListObject.remove, edit, Edit.apply, Edit.count]
    split
    case isTrue hnone => simp [ListValue.remove_eq_self hnone, hnone]
    case isFalse => exact ⟨rfl, rfl⟩

/-- **One call**: the answer and the elements are those of the call on a plain list. -/
theorem onObject_onList (call : ListCall) (v : ListObject) :
    (call.onObject v).1 = (call.onList v.items).1 ∧
      (call.onObject v).2.items = (call.onList v.items).2 := by
  cases call with
  | pushLeft values =>
    simp only [onObject, pushLeft_eq]
    exact ⟨rfl, rfl⟩
  | pushRight values =>
    simp only [onObject, pushRight_eq]
    exact ⟨rfl, rfl⟩
  | pop count left =>
    simp only [onObject, ListObject.pop, popLoop_eq, pop_min]
    cases left with
    | true => exact ⟨rfl, rfl⟩
    | false =>
      refine ⟨rfl, ?_⟩
      simp [ListValue.pop, onList, drop_reverse]
  | set index value =>
    simp only [onObject, ListObject.set, onList, ListValue.normalize_eq_position]
    cases position v.items.length index <;> exact ⟨rfl, rfl⟩
  | trim start stop =>
    refine ⟨rfl, ?_⟩
    simp only [onObject, ListObject.trim, pushRight_eq, onList, ListValue.range_eq_lrange]
    rfl
  | remove count value =>
    rw [onList, ← ListValue.remove_eq_lrem]
    refine ⟨rfl, ?_⟩
    simp only [onObject, ListObject.remove]
    split
    case isTrue hnone => exact (ListValue.remove_eq_self hnone).symm
    case isFalse => rfl

/-- The number of bytes, counted from the elements. -/
def Measured (v : ListObject) : Prop :=
  v.nbytes = emptyContainer + (v.items.map Edit.itemBytes).sum

/-- **One call keeps the number of bytes right.** -/
theorem Measured.onObject {v : ListObject} (h : Measured v) (call : ListCall) :
    Measured (call.onObject v).2 := by
  obtain ⟨hitems, hnbytes⟩ := onObject_edit call v
  have hsize : valueSize (.list v.items : Value SortedSet) v.nbytes = scratchSize (.list v.items) := h
  have hafter := Edit.valueSize_count hsize call.edit
  rw [← hitems, ← hnbytes] at hafter
  exact hafter

theorem measured_new (items : List Str) : Measured (ListObject.new items) := by
  unfold ListObject.new Measured
  rw [pushRight_eq, foldl_add_eq]
  rfl

/-- **Every sequence of calls.** -/
theorem runObject_runList (calls : List ListCall) {v : ListObject} (h : Measured v) :
    (runObject calls v).1 = (runList calls v.items).1 ∧
      (runObject calls v).2.items = (runList calls v.items).2 ∧ Measured (runObject calls v).2 := by
  induction calls generalizing v with
  | nil => exact ⟨rfl, rfl, h⟩
  | cons call calls ih =>
    obtain ⟨hanswer, hitems⟩ := onObject_onList call v
    obtain ⟨hanswers, hrest, hmeasured⟩ := ih (h.onObject call)
    rw [hitems] at hanswers hrest
    refine ⟨?_, hrest, hmeasured⟩
    show (call.onObject v).1 :: (runObject calls (call.onObject v).2).1 =
      (call.onList v.items).1 :: (runList calls (call.onList v.items).2).1
    rw [hanswer, hanswers]

end ListCall

/-- **A list value is a list.** After every sequence of calls, with any integers, the answers and the contents
are those of the same calls on a plain list, and the number of bytes is that of the contents. A range is
what LRANGE means, and the walk from the tail gives the same as the walk from the head; an index is a
position counted from the end if it is negative, and is refused outside. -/
theorem list_value_is_list [CPython] (items : List Str) (calls : List ListCall) :
    (ListCall.runObject calls (.new items)).1 = (ListCall.runList calls items).1 ∧
    (ListCall.runObject calls (.new items)).2.items = (ListCall.runList calls items).2 ∧
    (ListCall.runObject calls (.new items)).2.nbytes =
      emptyContainer + ((ListCall.runList calls items).2.map Edit.itemBytes).sum ∧
    (∀ start stop, ListValue.range (ListCall.runObject calls (.new items)).2.items start stop =
      lrange (ListCall.runList calls items).2 start stop) ∧
    (∀ start stop lo hi,
      ListValue.clamp start stop (ListCall.runList calls items).2.length = some (lo, hi) →
      ListValue.tailWalk (ListCall.runObject calls (.new items)).2.items lo hi =
        ListValue.headWalk (ListCall.runObject calls (.new items)).2.items lo hi) ∧
    (∀ index, ListValue.get (ListCall.runObject calls (.new items)).2.items index =
      (position (ListCall.runList calls items).2.length index).bind fun pos =>
        (ListCall.runList calls items).2[pos]?) := by
  have hnew : (ListObject.new items).items = items := by
    rw [ListObject.new, ListObject.pushRight_eq]
    exact nil_append items
  obtain ⟨hanswers, hitems, hmeasured⟩ :=
    ListCall.runObject_runList calls (ListCall.measured_new items)
  rw [hnew] at hanswers hitems
  unfold ListCall.Measured at hmeasured
  rw [hitems] at hmeasured
  refine ⟨hanswers, hitems, hmeasured, fun start stop => ?_, fun start stop lo hi hclamp => ?_,
    fun index => ?_⟩
  · rw [hitems, ListValue.range_eq_lrange]
  · obtain ⟨hle, hlt, -⟩ := ListValue.clamp_eq_some hclamp
    rw [hitems]
    exact ListValue.tailWalk_eq_headWalk hle hlt
  · rw [hitems, ListValue.get, ListValue.normalize_eq_position]

/-- A list of five from which the last of two equal elements goes; its middle lies closer to the tail. -/
theorem list_value_is_list_remove :
    letI := referencePython
    (ListCall.runObject [.remove (-1) [1]] (.new [[0], [1], [2], [1], [3], [4]])).2.items =
        [[0], [1], [2], [3], [4]] ∧
      ListValue.clamp (-2) 3 5 = some (3, 3) ∧
      ListValue.tailWalk (ListCall.runObject [.remove (-1) [1]]
        (.new [[0], [1], [2], [1], [3], [4]])).2.items 3 3 = [[3]] := by
  let := referencePython
  obtain ⟨-, hitems, -, -, hwalk, -⟩ :=
    list_value_is_list [[0], [1], [2], [1], [3], [4]] [.remove (-1) [1]]
  refine ⟨hitems.trans (by decide), by decide, (hwalk (-2) 3 3 3 (by decide)).trans ?_⟩
  rw [hitems]
  decide

end KvStore
