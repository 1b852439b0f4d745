import KvStore.Engine.Command
import KvStore.Engine.SkipListQueries

/-! # Sorted sets, link by link

`engine/datatypes/zset.py` over the linked skip list: the dictionary of scores, and the list that is
walked for every query. `none` stands for an index out of range, a failed assertion or a loop without
end.

* **`Linked.SortedSet`** — the operations of the source.
* **`Linked.SortedSet.Trail`** — the nodes in the order in which a walk meets them; what each loop of the
  source makes of them (`Trail.walk`, `Trail.skip`, `Trail.collect`, `Trail.iterate`). -/

namespace KvStore

open Towers List

namespace Linked

/-- **A sorted set**: the dictionary of scores and the skip list. -/
structure SortedSet (M S : Type) where
  scores : Dict M S
  list : SkipList M S

/-- A list, from the other end if asked. -/
def view {α : Type*} (reverse : Bool) (l : List α) : List α := if reverse then l.reverse else l

@[simp] theorem view_false {α : Type*} (l : List α) : view false l = l := rfl

@[simp] theorem view_true {α : Type*} (l : List α) : view true l = l.reverse := rfl

/-- `count` elements of a list, or all if it is negative. -/
def limit {α : Type*} (count : Int) (l : List α) : List α := if count < 0 then l else l.take count.toNat

/-- **An inclusive slice**: negative indices count from the end, and both ends are clamped to the list. -/
def slice {α : Type*} (l : List α) (start stop : Int) : List α :=
  let start := if start < 0 then max 0 (l.length + start) else start
  let stop := min (if stop < 0 then stop + l.length else stop) (l.length - 1)
  (l.drop start.toNat).take (stop - start + 1).toNat

namespace SortedSet

variable {M S : Type}

/-! ## The operations -/

/-- `SortedSet()`. -/
def new [Inhabited M] [Zero S] : SortedSet M S := ⟨.empty, .new⟩

section Definitions

variable [LinearOrder M] [Comparable S] (z : SortedSet M S)

def length : Nat := z.scores.size

/-- **`add`**: whether the member is new, and the set after. -/
def add (member : M) (score : S) (top : Fin maxLevel) : Option (Bool × SortedSet M S) :=
  match z.scores.get? member with
  | none => (z.list.insert score member top).map fun inserted =>
    (true, ⟨z.scores.set member score, inserted.1⟩)
  | some old =>
    if Comparable.eq old score then some (false, z)
    else (z.list.delete old member).bind fun deleted =>
      (deleted.2.insert score member top).map fun inserted =>
        (false, ⟨z.scores.set member score, inserted.1⟩)

/-- **`incr`**. A NaN is the only score that does not equal itself. -/
def incr [Add S] [Zero S] (member : M) (delta : S) (top : Fin maxLevel) :
    Option (Except KvError S × SortedSet M S) :=
  let new := (z.scores.get? member).getD 0 + delta
  if Comparable.eq new new then (z.add member new top).map fun added => (.ok new, added.2)
  else some (.error (.invalidArgument "resulting score is not a number (NaN)"), z)

def remove (member : M) : Option (Bool × SortedSet M S) :=
  match z.scores.get? member with
  | none => some (false, z)
  | some score => (z.list.delete score member).map fun deleted =>
    (true, ⟨z.scores.erase member, deleted.2⟩)

/-- **`rank`**, counted from 0. -/
def rank (member : M) (reverse : Bool) : Option (Option Int) :=
  match z.scores.get? member with
  | none => some none
  | some score => (z.list.rank score member).map fun r =>
    some (if reverse then z.length - 1 - (r - 1) else r - 1)

/-- `node.backward if reverse else node.forward[0]`. -/
def step (backward : Bool) (x : Nat) : Option (Option Nat) :=
  if backward then some (z.list.heap x).backward else z.list.heap.next x 0

def walk (backward : Bool) : Nat → Option Nat → Option (List Nat)
  | 0, _ => some []
  | _ + 1, none => some []
  | count + 1, some x => (z.step backward x).bind fun next =>
    (walk backward count next).map fun rest => x :: rest

def rangeByRank (start stop : Int) (reverse : Bool) : Option (List Nat) :=
  let start := if start < 0 then max 0 (z.length + start) else start
  let stop := if stop < 0 then stop + z.length else stop
  let stop := min stop (z.length - 1)
  if start > stop ∨ start ≥ z.length then some []
  else
    let count := stop - start + 1
    let rank := if reverse then z.length - start else start + 1
    (z.list.byRank rank).bind fun node => z.walk reverse count.toNat node

/-- `range_by_score`, the elements passed over. -/
def skip (reverse : Bool) : Nat → Option Nat → Option (Option Nat)
  | 0, node => some node
  | _ + 1, none => some none
  | offset + 1, some x => (z.step reverse x).bind fun next => skip reverse offset next

/-- `range_by_score`, the elements collected. -/
def collect (reverse : Bool) (r : SkipList.Range S) : Nat → Int → Option Nat → Option (List Nat)
  | _, _, none => some []
  | fuel, count, some x =>
    if count = 0 then some []
    else match fuel with
      | 0 => none
      | fuel + 1 =>
        if r.contains (z.list.heap x).value.2 then
          (z.step reverse x).bind fun next =>
            (collect reverse r fuel (count - 1) next).map fun rest => x :: rest
        else some []

def rangeByScore (r : SkipList.Range S) (reverse : Bool) (offset count : Int) : Option (List Nat) :=
  (if reverse then z.list.lastInRange r else z.list.firstInRange r).bind fun node =>
    (z.skip reverse offset.toNat node).bind fun node => z.collect reverse r z.list.fresh count node

def countInRange (r : SkipList.Range S) : Option Int :=
  (z.list.firstInRange r).bind fun first => match first with
    | none => some 0
    | some first => (z.list.lastInRange r).bind fun last => last.bind fun last =>
      let e := (z.list.heap last).value
      let e' := (z.list.heap first).value
      (z.list.rank e.2 e.1).bind fun rank => (z.list.rank e'.2 e'.1).map fun rank' => rank - rank' + 1

def popLoop (fromMax : Bool) : Nat → SortedSet M S → Option (List (M × S) × SortedSet M S)
  | 0, z => some ([], z)
  | count + 1, z =>
    if z.scores.size = 0 then some ([], z)
    else
      (if fromMax then some z.list.tail else z.list.heap.next header 0).bind fun node =>
        node.bind fun x =>
          let e := (z.list.heap x).value
          (z.remove e.1).bind fun removed =>
            (popLoop fromMax count removed.2).map fun popped => (e :: popped.1, popped.2)

def pop (count : Int) (fromMax : Bool) : Option (List (M × S) × SortedSet M S) :=
  popLoop fromMax count.toNat z

/-- `__iter__` of the skip list. -/
def iterate : Nat → Option Nat → Option (List Nat)
  | _, none => some []
  | 0, some _ => none
  | fuel + 1, some x => (z.step false x).bind fun next =>
    (iterate fuel next).map fun rest => x :: rest

def items : Option (List (M × S)) :=
  (z.list.heap.next header 0).bind fun first =>
    (z.iterate z.list.fresh first).map z.list.elements

end Definitions

/-! ## Walks along the nodes -/

variable {z : SortedSet M S} {xs : List Nat}

/-- The nodes in the order in which a walk meets them. -/
def Trail (z : SortedSet M S) (backward : Bool) (ys : List Nat) : Prop :=
  ∀ k x, ys[k]? = some x → z.step backward x = some ys[k + 1]?

/-- Forward along the list, or backward. -/
theorem trail (hl : z.list.Holds xs) (backward : Bool) : z.Trail backward (view backward xs) := by
  intro k x hx
  cases backward with
  | false =>
    have hx' : (header :: xs)[k + 1]? = some x := by rwa [getElem?_cons_succ]
    exact hl.chain.next_zero hx'
  | true =>
    -- the node before is the next one from the other end
    have hlt : k < xs.length := by
      have := (List.getElem?_eq_some_iff.mp hx).1
      simpa [view] using this
    have hx' : xs[xs.length - 1 - k]? = some x := by
      rwa [view, if_pos rfl, getElem?_reverse hlt] at hx
    have hback : (z.list.heap x).backward = (xs.take (xs.length - 1 - k)).getLast? :=
      hl.mirror.backward _ x hx'
    rw [step, if_pos rfl, hback, view, if_pos rfl, List.getLast?_take]
    by_cases hend : xs.length - 1 - k = 0
    · rw [if_pos hend, getElem?_eq_none (by simp; omega)]
    · rw [if_neg hend, getElem?_reverse (by omega), getElem?_eq_getElem (by omega),
        getElem?_eq_getElem (by omega)]
      congr 2

variable {backward : Bool} {ys : List Nat}

theorem Trail.walk (ht : z.Trail backward ys) (count k : Nat) :
    z.walk backward count ys[k]? = some ((ys.drop k).take count) := by
  induction count generalizing k with
  | zero => rw [SortedSet.walk, take_zero]
  | succ count ih =>
    cases hk : ys[k]? with
    | none => rw [SortedSet.walk, drop_eq_nil_of_le (List.getElem?_eq_none_iff.mp hk), take_nil]
    | some x =>
      obtain ⟨hlt, hget⟩ := List.getElem?_eq_some_iff.mp hk
      rw [SortedSet.walk, ht k x hk, Option.bind_some, ih, drop_eq_getElem_cons hlt, hget]
      rfl

theorem Trail.skip (ht : z.Trail backward ys) (offset k : Nat) :
    z.skip backward offset ys[k]? = some ys[k + offset]? := by
  induction offset generalizing k with
  | zero => rfl
  | succ offset ih =>
    cases hk : ys[k]? with
    | none =>
      have := List.getElem?_eq_none_iff.mp hk
      rw [SortedSet.skip, getElem?_eq_none (by omega)]
    | some x =>
      rw [SortedSet.skip, ht k x hk, Option.bind_some, ih]
      congr 2
      omega

theorem Trail.iterate (ht : z.Trail false ys) {fuel k : Nat} (hfuel : ys.length ≤ k + fuel) :
    z.iterate fuel ys[k]? = some (ys.drop k) := by
  induction fuel generalizing k with
  | zero =>
    rw [getElem?_eq_none (by omega), drop_eq_nil_of_le (by omega)]
    rfl
  | succ fuel ih =>
    cases hk : ys[k]? with
    | none =>
      rw [drop_eq_nil_of_le (List.getElem?_eq_none_iff.mp hk)]
      rfl
    | some x =>
      obtain ⟨hlt, hget⟩ := List.getElem?_eq_some_iff.mp hk
      rw [SortedSet.iterate, ht k x hk, Option.bind_some, ih (by omega),
        drop_eq_getElem_cons hlt, hget]
      rfl

theorem Trail.collect [Comparable S] (ht : z.Trail backward ys) (r : SkipList.Range S) {fuel k : Nat}
    (hfuel : ys.length ≤ k + fuel) (count : Int) :
    z.collect backward r fuel count ys[k]? =
      some (limit count ((ys.drop k).takeWhile fun x => r.contains (z.list.heap x).value.2)) := by
  induction fuel generalizing k count with
  | zero =>
    rw [getElem?_eq_none (by omega), drop_eq_nil_of_le (by omega)]
    simp [SortedSet.collect, limit]
  | succ fuel ih =>
    cases hk : ys[k]? with
    | none =>
      rw [drop_eq_nil_of_le (List.getElem?_eq_none_iff.mp hk)]
      simp [SortedSet.collect, limit]
    | some x =>
      obtain ⟨hlt, hget⟩ := List.getElem?_eq_some_iff.mp hk
      rw [SortedSet.collect, drop_eq_getElem_cons hlt, hget]
      by_cases hzero : count = 0
      · simp [hzero, limit]
      · rw [if_neg hzero]
        by_cases hin : r.contains (z.list.heap x).value.2 = true
        · -- `count` goes down by one, and never reaches 0 if it was negative
          rw [if_pos hin, ht k x hk, Option.bind_some, ih (by omega), takeWhile_cons, if_pos hin]
          simp only [limit, Option.map_some, Option.some.injEq]
          by_cases hneg : count < 0
          · rw [if_pos hneg, if_pos (by omega)]
          · rw [if_neg hneg, if_neg (by omega), show count.toNat = (count - 1).toNat + 1 by omega,
              take_succ_cons]
        · rw [if_neg hin, takeWhile_cons, if_neg hin]
          simp [limit]

end SortedSet

end Linked

end KvStore
