import KvStore.Engine.Commands.Registry
import KvStore.Engine.Store
import Mathlib.Algebra.BigOperators.Group.List.Basic
import Mathlib.Tactic.Abel

/-! # Sizes counted from scratch

A collection keeps a running estimate `nbytes` of its size, which every call that changes it adjusts.
`scratchSize` is the size counted from the elements. **`Edit.counted`**, `counted_zadd`,
`counted_zrem` and `counted_buildValue` say that no call lets the two drift apart. -/

namespace KvStore

open List

/-! ## Sums -/

section Sums

variable {α : Type}

theorem foldl_add_eq (f : α → Int) (l : List α) (n : Int) :
    l.foldl (fun n x => n + f x) n = n + (l.map f).sum := by
  induction l generalizing n with
  | nil => simp
  | cons x rest ih => rw [foldl_cons, ih, map_cons, sum_cons, add_assoc]

theorem foldl_sub_eq (f : α → Int) (l : List α) (n : Int) :
    l.foldl (fun n x => n - f x) n = n - (l.map f).sum := by
  induction l generalizing n with
  | nil => simp
  | cons x rest ih => rw [foldl_cons, ih, map_cons, sum_cons, sub_sub]

theorem sum_map_set (f : α → Int) {l : List α} {i : Nat} {old : α} (h : l[i]? = some old)
    (new : α) : ((l.set i new).map f).sum = (l.map f).sum + (f new - f old) := by
  induction l generalizing i with
  | nil => simp at h
  | cons x rest ih =>
    cases i with
    | zero =>
      obtain rfl : x = old := by simpa using h
      simp only [set_cons_zero, map_cons, sum_cons]
      abel
    | succ i =>
      simp only [set_cons_succ, map_cons, sum_cons, ih (by simpa using h)]
      abel

variable {κ ν : Type} [DecidableEq κ]

theorem Dict.sum_erase (f : κ × ν → Int) {d : Dict κ ν} {k : κ} {v : ν} (h : d.get? k = some v) :
    ((d.erase k).entries.map f).sum = (d.entries.map f).sum - f (k, v) := by
  rw [((entries_perm h).map f).sum_eq, map_cons, sum_cons]
  abel

theorem Dict.sum_set_of_some (f : κ × ν → Int) {d : Dict κ ν} {k : κ} {v : ν}
    (h : d.get? k = some v) (v' : ν) :
    ((d.set k v').entries.map f).sum = (d.entries.map f).sum - f (k, v) + f (k, v') := by
  rw [((d.entries_set_perm k v').map f).sum_eq, map_cons, sum_cons, sum_erase f h]
  abel

theorem Dict.sum_set_of_none (f : κ × ν → Int) {d : Dict κ ν} {k : κ} (h : d.get? k = none)
    (v : ν) : ((d.set k v).entries.map f).sum = (d.entries.map f).sum + f (k, v) := by
  rw [((d.entries_set_perm k v).map f).sum_eq, map_cons, sum_cons, erase_of_get?_eq_none h]
  abel

end Sums

/-! ## Values -/

variable [CPython]

open Edit

/-- What a sorted set adds for a member. -/
def rankedBytes (member : Str) : Int := strSize member + zsetItemOverhead

/-- **The size of a value, counted from its elements.** -/
def scratchSize : Value SortedSet → Int
  | .str s => strSize s
  | .list items => emptyContainer + (items.map itemBytes).sum
  | .hash fields => emptyContainer + (fields.entries.map fun p => fieldBytes p.1 p.2).sum
  | .set members => emptyContainer + (members.items.map memberBytes).sum
  | .zset z => emptyContainer + (z.scores.entries.map fun p => rankedBytes p.1).sum

/-- **A value is counted**: its running estimate is the size of its elements, and every member of a
sorted set has a node. (A NaN among the scores can leave more nodes than members.) -/
structure Counted (value : Value SortedSet) (nbytes : Int) : Prop where
  size : valueSize value nbytes = scratchSize value
  nodes : ∀ z, value = .zset z → z.length ≤ z.nodes.length

theorem counted_empty (kind : Kind) :
    Counted (kind.emptyValue.map fun _ => SortedSet.empty) emptyContainer where
  size := by
    cases kind <;>
      simp [Kind.emptyValue, Value.map, valueSize, scratchSize, Dict.empty, KeySet.empty,
        SortedSet.empty]
  nodes z h := by
    cases kind <;> simp [Kind.emptyValue, Value.map] at h
    subst h
    rfl

theorem counted_str (s : Str) (nbytes : Int) : Counted (.str s) nbytes := ⟨rfl, nofun⟩

/-! ## Lists -/

section

omit [CPython]

/-- The elements popped and the elements left are those there were. -/
theorem sum_pop (f : Str → Int) (items : List Str) (count : Nat) (left : Bool) :
    ((ListValue.pop items count left).1.map f).sum +
      ((ListValue.pop items count left).2.map f).sum = (items.map f).sum := by
  cases left
  · simp only [ListValue.pop, Bool.false_eq_true, if_false, map_reverse, sum_reverse,
      ← sum_append, ← map_append, take_append_drop]
  · simp only [ListValue.pop, if_true, ← sum_append, ← map_append, take_append_drop]

/-- The loop of LREM takes off the value once for each removal. -/
theorem sum_removeLoop (f : Str → Int) (limit : Option Nat) (value : Str) (removed : Nat)
    (items : List Str) :
    ((ListValue.removeLoop limit value removed items).1.map f).sum +
      ((ListValue.removeLoop limit value removed items).2 - removed : Int) * f value =
      (items.map f).sum := by
  induction items generalizing removed with
  | nil => simp [ListValue.removeLoop]
  | cons item rest ih =>
    unfold ListValue.removeLoop
    split
    case isTrue hitem =>
      have h := ih (removed + 1)
      push_cast at h
      rw [map_cons, sum_cons, hitem.1, ← h]
      ring
    case isFalse =>
      simp only [map_cons, sum_cons, ← ih removed]
      ring

theorem sum_remove (f : Str → Int) (items : List Str) (count : Int) (value : Str) :
    ((ListValue.remove items count value).1.map f).sum =
      (items.map f).sum - (ListValue.remove items count value).2 * f value := by
  simp only [ListValue.remove]
  split
  · have h := sum_removeLoop f (if count = 0 then none else some count.natAbs) value 0 items.reverse
    simp only [map_reverse, sum_reverse] at h ⊢
    rw [← h]
    push_cast
    ring
  · have h := sum_removeLoop f (if count = 0 then none else some count.natAbs) value 0 items
    rw [← h]
    push_cast
    ring

/-- A position that exists holds an element. -/
theorem exists_of_normalize {items : List Str} {index : Int} {pos : Nat}
    (h : ListValue.normalize items index = some pos) : ∃ old, items[pos]? = some old := by
  have hlt : pos < items.length := by
    simp only [ListValue.normalize] at h
    split at h <;> simp only [Option.ite_none_right_eq_some, Option.some.injEq] at h
    all_goals omega
  exact ⟨items[pos], getElem?_eq_getElem hlt⟩

end

/-! ## Calls -/

variable {nbytes : Int} {value : Value SortedSet}

theorem Edit.valueSize_count (h : valueSize value nbytes = scratchSize value) (edit : Edit) :
    valueSize (edit.apply value) (edit.count value nbytes) = scratchSize (edit.apply value) := by
  cases value with
  | str | zset => cases edit <;> exact h
  | list items =>
    have hn : nbytes = emptyContainer + (items.map itemBytes).sum := h
    cases edit <;> try exact h
    case pushLeft values =>
      simp only [Edit.apply, Edit.count, valueSize, scratchSize, ListValue.pushLeft,
        foldl_add_eq, hn, map_append, sum_append, map_reverse, sum_reverse]
      ring
    case pushRight values =>
      simp only [Edit.apply, Edit.count, valueSize, scratchSize, ListValue.pushRight,
        foldl_add_eq, hn, map_append, sum_append]
      ring
    case pop count left =>
      simp only [Edit.apply, Edit.count, valueSize, scratchSize, foldl_sub_eq, hn,
        ← sum_pop itemBytes items count left]
      ring
    case setIndex index value =>
      simp only [Edit.apply, Edit.count, valueSize, scratchSize, ListValue.set]
      cases hpos : ListValue.normalize items index with
      | none => exact h
      | some pos =>
        obtain ⟨old, hold⟩ := exists_of_normalize hpos
        simp only [Option.bind_some, hold, Option.map_some, Option.getD_some,
          sum_map_set itemBytes hold value, hn, itemBytes]
        ring
    case trim start stop =>
      simp only [Edit.apply, Edit.count, valueSize, scratchSize, foldl_add_eq]
    case removeValue count value =>
      simp only [Edit.apply, Edit.count, valueSize, scratchSize, hn,
        sum_remove itemBytes items count value]
      ring
  | hash fields =>
    have hn : nbytes = emptyContainer + (fields.entries.map fun p => fieldBytes p.1 p.2).sum := h
    cases edit <;> try exact h
    case setField field value =>
      simp only [Edit.apply, Edit.count, valueSize, scratchSize]
      cases hget : fields.get? field with
      | none =>
        rw [Dict.sum_set_of_none _ hget, hn]
        ring
      | some old =>
        simp only [Dict.sum_set_of_some _ hget, hn, fieldBytes]
        ring
    case deleteField field =>
      simp only [Edit.apply, Edit.count, valueSize, scratchSize]
      cases hget : fields.get? field with
      | none => rw [Dict.erase_of_get?_eq_none hget, hn]
      | some old =>
        rw [Dict.sum_erase _ hget, hn]
        ring
  | set members =>
    have hn : nbytes = emptyContainer + (members.items.map memberBytes).sum := h
    cases edit <;> try exact h
    case addMember member =>
      simp only [Edit.apply, Edit.count, valueSize, scratchSize, KeySet.contains, decide_eq_true_eq]
      by_cases hmem : member ∈ members.items
      · rw [if_pos hmem, KeySet.add_of_mem hmem, hn]
      · rw [if_neg hmem, KeySet.add, dif_neg hmem, hn]
        simp only [map_append, sum_append, map_cons, map_nil, sum_cons, sum_nil]
        ring
    case removeMember member =>
      simp only [Edit.apply, Edit.count, valueSize, scratchSize, KeySet.contains, decide_eq_true_eq]
      by_cases hmem : member ∈ members.items
      · rw [if_pos hmem, hn, ((KeySet.items_perm hmem).map memberBytes).sum_eq, map_cons, sum_cons]
        ring
      · rw [if_neg hmem, KeySet.discard_of_not_mem hmem, hn]

variable {z : SortedSet}

omit [CPython] in
/-- No call on a list, a hash or a set makes or changes a sorted set. -/
theorem Edit.apply_eq_zset {edit : Edit} (h : edit.apply value = .zset z) : value = .zset z := by
  cases value <;> cases edit <;> simp_all [Edit.apply]

/-- **No call on a list, a hash or a set lets its estimate drift.** -/
theorem Edit.counted (h : Counted value nbytes) (edit : Edit) :
    Counted (edit.apply value) (edit.count value nbytes) where
  size := edit.valueSize_count h.size
  nodes z hz := h.nodes z (Edit.apply_eq_zset hz)

/-- Several calls, one after the other. -/
theorem counted_edits (h : Counted value nbytes) (edits : List Edit) :
    Counted
      (edits.foldl (fun (p : Value SortedSet × Int) edit =>
        (edit.apply p.1, edit.count p.1 p.2)) (value, nbytes)).1
      (edits.foldl (fun (p : Value SortedSet × Int) edit =>
        (edit.apply p.1, edit.count p.1 p.2)) (value, nbytes)).2 := by
  induction edits generalizing value nbytes with
  | nil => exact h
  | cons edit rest ih => exact ih (edit.counted h)

/-! ## Sorted sets -/

section SkipLists

omit [CPython]

theorem SkipList.position_le (nodes : List Node) (score : Double) (member : Str) :
    position nodes score member ≤ nodes.length := by
  have hadvance : ∀ (i : Nat) (p : Node → Bool) (nodes : List Node), advance i p nodes ≤ nodes.length :=
    fun i p nodes => by simpa using advance_le i p nodes [] nofun
  have hdescend : ∀ (p : Node → Bool) (i : Nat) (nodes : List Node), descend p i nodes ≤ nodes.length := by
    intro p i
    induction i with
    | zero => exact fun _ => Nat.zero_le _
    | succ i ih =>
      intro nodes
      have h := ih (nodes.drop (advance i p nodes))
      have hi := hadvance i p nodes
      rw [length_drop] at h
      simp only [descend]
      omega
  exact hdescend _ _ nodes

theorem SkipList.length_insert (nodes : List Node) (score : Double) (member : Str)
    (top : Fin maxLevel) : (insert nodes score member top).length = nodes.length + 1 := by
  rw [insert, length_insertIdx, if_pos (position_le nodes score member)]

theorem SkipList.length_delete (nodes : List Node) (score : Double) (member : Str) :
    nodes.length ≤ (delete nodes score member).length + 1 := by
  simp only [delete]
  split
  · omega
  · split
    · rw [length_eraseIdx]
      split <;> omega
    · omega

/-- Removal takes the member off the dictionary. -/
theorem SortedSet.scores_remove (z : SortedSet) (member : Str) :
    (z.remove member).scores = z.scores.erase member := by
  unfold SortedSet.remove
  split
  case h_1 hget => exact (Dict.erase_of_get?_eq_none hget).symm
  case h_2 => rfl

theorem SortedSet.length_add_le {z : SortedSet} (h : z.length ≤ z.nodes.length) (member : Str)
    (score : Double) (top : Fin maxLevel) :
    (z.add member score top).length ≤ (z.add member score top).nodes.length := by
  have hset := (z.scores.entries_set_perm member score).length_eq
  unfold SortedSet.length Dict.size at h ⊢
  unfold SortedSet.add
  cases hget : z.scores.get? member with
  | none =>
    rw [Dict.erase_of_get?_eq_none hget] at hset
    simp only [SkipList.length_insert, hset, length_cons]
    omega
  | some old =>
    have hold := (Dict.entries_perm hget).length_eq
    have hdelete := SkipList.length_delete z.nodes old member
    simp only
    split
    · exact h
    · simp only [SkipList.length_insert, hset, length_cons] at hold ⊢
      omega

theorem SortedSet.length_remove_le {z : SortedSet} (h : z.length ≤ z.nodes.length) (member : Str) :
    (z.remove member).length ≤ (z.remove member).nodes.length := by
  unfold SortedSet.length Dict.size at h ⊢
  unfold SortedSet.remove
  cases hget : z.scores.get? member with
  | none => exact h
  | some old =>
    have hold := (Dict.entries_perm hget).length_eq
    have hdelete := SkipList.length_delete z.nodes old member
    simp only [length_cons] at hold ⊢
    omega

end SkipLists

theorem counted_zadd (h : Counted (.zset z) nbytes) (member : Str) (score : Double)
    (top : Fin maxLevel) :
    Counted (.zset (z.add member score top)) (Store.zaddBytes z member nbytes) where
  size := by
    have hn : nbytes = emptyContainer + (z.scores.entries.map fun p => rankedBytes p.1).sum := h.size
    cases hget : z.scores.get? member with
    | none =>
      simp only [valueSize, scratchSize, SortedSet.add, Store.zaddBytes, SortedSet.score,
        hget, Option.isNone_none, if_true, Dict.sum_set_of_none _ hget, hn, rankedBytes]
      ring
    | some old =>
      simp only [valueSize, scratchSize, SortedSet.add, Store.zaddBytes, SortedSet.score,
        hget, Option.isNone_some, Bool.false_eq_true, if_false]
      split
      · exact hn
      · simp only [Dict.sum_set_of_some _ hget, hn]
        ring
  nodes := by
    rintro _ ⟨⟩
    exact SortedSet.length_add_le (h.nodes z rfl) member score top

theorem counted_zrem (h : Counted (.zset z) nbytes) (member : Str) :
    Counted (.zset (z.remove member)) (Store.zremBytes z member nbytes) where
  size := by
    have hn : nbytes = emptyContainer + (z.scores.entries.map fun p => rankedBytes p.1).sum := h.size
    cases hget : z.scores.get? member with
    | none =>
      simp only [valueSize, scratchSize, SortedSet.scores_remove, Store.zremBytes,
        SortedSet.score, hget, Option.isNone_none, if_true, Dict.erase_of_get?_eq_none hget]
      exact hn
    | some old =>
      simp only [valueSize, scratchSize, SortedSet.scores_remove, Store.zremBytes,
        SortedSet.score, hget, Option.isNone_some, Bool.false_eq_true, if_false,
        Dict.sum_erase _ hget, hn, rankedBytes]
      ring
  nodes := by
    rintro _ ⟨⟩
    exact SortedSet.length_remove_le (h.nodes z rfl) member

/-! ## Copies -/

theorem counted_buildZset (h : Counted (.zset z) nbytes) (levels : Levels)
    (pairs : List (Str × Nat)) :
    Counted (.zset (Store.buildZset z nbytes levels pairs).1)
      (Store.buildZset z nbytes levels pairs).2.1 := by
  induction pairs generalizing z nbytes levels with
  | nil => exact h
  | cons p rest ih => exact ih (counted_zadd h p.1 _ _) _

/-- **The value built from a copy.** -/
theorem counted_buildValue (levels : Levels) (payload : Payload) :
    Counted (Store.buildValue levels payload).1 (Store.buildValue levels payload).2.1 := by
  cases payload with
  | str s => exact counted_str s 0
  | list items => exact (Edit.pushRight items).counted (counted_empty .list)
  | hash pairs =>
    have hfold : ∀ (ps : List (Str × Str)) (d : Dict Str Str) (n : Int), Counted (.hash d) n →
        Counted
          (.hash (ps.foldl (fun (q : Dict Str Str × Int) p => (q.1.set p.1 p.2,
            (Edit.setField p.1 p.2).count (.hash q.1 : Value SortedSet) q.2)) (d, n)).1)
          (ps.foldl (fun (q : Dict Str Str × Int) p => (q.1.set p.1 p.2,
            (Edit.setField p.1 p.2).count (.hash q.1 : Value SortedSet) q.2)) (d, n)).2 := by
      intro ps
      induction ps with
      | nil => exact fun _ _ h => h
      | cons p rest ih => exact fun _ _ h => ih _ _ ((Edit.setField p.1 p.2).counted h)
    exact hfold pairs _ _ (counted_empty .hash)
  | set members =>
    have hfold : ∀ (ms : List Str) (s : KeySet) (n : Int), Counted (.set s) n →
        Counted
          (.set (ms.foldl (fun (q : KeySet × Int) m => (q.1.add m,
            (Edit.addMember m).count (.set q.1 : Value SortedSet) q.2)) (s, n)).1)
          (ms.foldl (fun (q : KeySet × Int) m => (q.1.add m,
            (Edit.addMember m).count (.set q.1 : Value SortedSet) q.2)) (s, n)).2 := by
      intro ms
      induction ms with
      | nil => exact fun _ _ h => h
      | cons m rest ih => exact fun _ _ h => ih _ _ ((Edit.addMember m).counted h)
    exact hfold members _ _ (counted_empty .set)
  | zset pairs => exact counted_buildZset (counted_empty .zset) levels pairs

/-! ## Empty collections -/

omit [CPython] in
/-- Whether a copy is of an empty collection. -/
def Payload.isEmpty : Payload → Bool
  | .str _ => false
  | .list items => items.isEmpty
  | .hash pairs => pairs.isEmpty
  | .set members => members.isEmpty
  | .zset pairs => pairs.isEmpty

/-- A copy of a collection that is not empty is not empty either. -/
theorem Counted.payload_isEmpty (h : Counted value nbytes)
    (hne : value.isEmpty SortedSet.length = false) :
    (value.payload SortedSet.items).isEmpty = false := by
  cases value with
  | zset z =>
    have hnodes := h.nodes z rfl
    simp only [Value.isEmpty, decide_eq_false_iff_not] at hne
    have hpos : z.nodes ≠ [] := by
      rintro hnil
      rw [hnil, length_nil] at hnodes
      omega
    simpa [Value.payload, Payload.isEmpty, SortedSet.items] using hpos
  | _ => exact hne

/-- The value built from a copy that is not empty. -/
theorem isEmpty_buildValue (levels : Levels) {payload : Payload} (h : payload.isEmpty = false) :
    (Store.buildValue levels payload).1.isEmpty SortedSet.length = false := by
  have hset : ∀ {ν : Type} (d : Dict Str ν) (k : Str) (v : ν), (d.set k v).entries ≠ [] := by
    intro ν d k v hnil
    have := (d.set k v).mem_entries_iff k v
    simp [hnil] at this
  cases payload with
  | str s => rfl
  | list items => exact h
  | hash pairs =>
    have hfold : ∀ (ps : List (Str × Str)) (d : Dict Str Str) (n : Int),
        (ps ≠ [] ∨ d.entries ≠ []) →
        (ps.foldl (fun (q : Dict Str Str × Int) p => (q.1.set p.1 p.2,
          (Edit.setField p.1 p.2).count (.hash q.1 : Value SortedSet) q.2)) (d, n)).1.entries ≠ [] := by
      intro ps
      induction ps with
      | nil => exact fun _ _ h => h.resolve_left fun h => h rfl
      | cons p rest ih => exact fun d n _ => ih _ _ (.inr (hset d p.1 p.2))
    exact isEmpty_eq_false_iff.mpr
      (hfold pairs _ _ (.inl (isEmpty_eq_false_iff.mp h)))
  | set members =>
    have hadd : ∀ (s : KeySet) (m : Str), (s.add m).items ≠ [] :=
      fun s m => ne_nil_of_mem ((s.mem_add m m).mpr (.inr rfl))
    have hfold : ∀ (ms : List Str) (s : KeySet) (n : Int), (ms ≠ [] ∨ s.items ≠ []) →
        (ms.foldl (fun (q : KeySet × Int) m => (q.1.add m,
          (Edit.addMember m).count (.set q.1 : Value SortedSet) q.2)) (s, n)).1.items ≠ [] := by
      intro ms
      induction ms with
      | nil => exact fun _ _ h => h.resolve_left fun h => h rfl
      | cons m rest ih => exact fun s n _ => ih _ _ (.inr (hadd s m))
    exact isEmpty_eq_false_iff.mpr
      (hfold members _ _ (.inl (isEmpty_eq_false_iff.mp h)))
  | zset pairs =>
    have hadd : ∀ (z : SortedSet) (m : Str) (score : Double) (top : Fin maxLevel),
        (z.add m score top).scores.entries ≠ [] := by
      intro z m score top
      unfold SortedSet.add
      split
      · exact hset _ _ _
      case h_2 old hget =>
        split
        · exact ne_nil_of_mem ((z.scores.mem_entries_iff m old).mpr hget)
        · exact hset _ _ _
    have hfold : ∀ (ps : List (Str × Nat)) (z : SortedSet) (n : Int) (levels : Levels),
        (ps ≠ [] ∨ z.scores.entries ≠ []) →
        (Store.buildZset z n levels ps).1.scores.entries ≠ [] := by
      intro ps
      induction ps with
      | nil => exact fun _ _ _ h => h.resolve_left fun h => h rfl
      | cons p rest ih => exact fun z n levels _ => ih _ _ _ (.inr (hadd z p.1 _ _))
    have h := hfold pairs SortedSet.empty emptyContainer levels
      (.inl (isEmpty_eq_false_iff.mp h))
    simpa [Store.buildValue, Value.isEmpty, SortedSet.length, Dict.size] using h

end KvStore
