import KvStore.Engine.Store
import Mathlib.Logic.Function.Basic

/-! # What a store means

The abstract keyspace, and the relation between a store and the keyspace it holds.

* **`Keyspace`** — a partial map from keys to items: a value whose sorted sets are rankings, and a
  deadline.
* **`Store.Shows s K`** — the store `s` holds exactly the keyspace `K`, and its set of volatile keys
  covers the keys with a deadline. Every primitive change of the store is a change of the keyspace at
  one key (`Shows.insert`, `Shows.remove`, `Shows.replace`, …).
* **`Store.keyspace`** — the plain content of a store: for each key its type, elements in order,
  scores and deadline. It is what two engines are compared by; a keyspace determines it and is
  determined by it (`Keyspace.plain_injective`). -/

namespace KvStore

open List

/-! ## Keyspaces -/

/-- **A key's content**: its value and its deadline in milliseconds. -/
structure Item where
  value : Value Ranking
  /-- The deadline. -/
  expiresAt : Option Int
  deriving DecidableEq

/-- **A keyspace.** -/
abbrev Keyspace := Str → Option Item

/-- The plain content of an item. -/
def Item.plain (item : Item) : Payload × Option Int :=
  (item.value.payload Ranking.items, item.expiresAt)

/-- The plain content of a keyspace. -/
def Keyspace.plain (K : Keyspace) : Str → Option (Payload × Option Int) :=
  fun key => (K key).map Item.plain

theorem payload_injective : Function.Injective (Value.payload Ranking.items) := by
  intro v w h
  cases v <;> cases w <;> simp only [Value.payload, reduceCtorEq, Payload.str.injEq,
    Payload.list.injEq, Payload.hash.injEq, Payload.set.injEq, Payload.zset.injEq] at h
  case str.str | list.list => rw [h]
  case hash.hash s t => rw [Dict.ext h]
  case set.set s t => rw [KeySet.ext h]
  case zset.zset s t =>
    have hinj : Function.Injective fun e : Str × Double => (e.1, e.2.bits) := by
      rintro ⟨m, x⟩ ⟨m', x'⟩ he
      obtain ⟨hm, hx⟩ := Prod.mk.inj he
      have hxx : x = x' := by rw [← Double.ofBits_bits x, ← Double.ofBits_bits x', hx]
      rw [Prod.mk.injEq]
      exact ⟨hm, hxx⟩
    rw [Ranking.ext (map_injective_iff.mpr hinj h)]

/-- The plain content determines the item. -/
theorem Item.plain_injective : Function.Injective Item.plain := by
  rintro ⟨v, d⟩ ⟨w, d'⟩ h
  obtain ⟨hv, hd⟩ := Prod.mk.inj h
  rw [Item.mk.injEq]
  exact ⟨payload_injective hv, hd⟩

/-- **The plain content determines the keyspace.** -/
theorem Keyspace.plain_injective : Function.Injective Keyspace.plain := by
  intro K K' h
  funext key
  exact Option.map_injective Item.plain_injective (congrFun h key)

/-! ## Values and what they mean -/

/-- A value represents another one, its sorted set being a skip list for the ranking. -/
def Value.Models : Value SortedSet → Value Ranking → Prop
  | .str s, .str t => s = t
  | .list s, .list t => s = t
  | .hash s, .hash t => s = t
  | .set s, .set t => s = t
  | .zset z, .zset r => z.Models r
  | _, _ => False

namespace Value.Models

variable {v : Value SortedSet} {w : Value Ranking}

theorem map_unit (h : v.Models w) : (v.map fun _ => ()) = w.map fun _ => () := by
  cases v <;> cases w <;> simp_all [Value.Models, Value.map]

theorem payload_eq (h : v.Models w) :
    v.payload SortedSet.items = w.payload Ranking.items := by
  cases v <;> cases w <;> simp_all [Value.Models, Value.payload]
  rw [h.items_eq]

theorem isEmpty_eq (h : v.Models w) :
    v.isEmpty SortedSet.length = w.isEmpty fun r => r.items.length := by
  cases v <;> cases w <;> simp_all [Value.Models, Value.isEmpty]
  rw [h.length_eq]
  simp

/-- Calls that change a list, a hash or a set do so alike. -/
theorem apply (h : v.Models w) (edit : Edit) : (edit.apply v).Models (edit.apply w) := by
  cases v <;> cases w <;> simp only [Value.Models] at h <;> cases edit <;>
    simp_all [Value.Models, Edit.apply]

theorem editAll (h : v.Models w) (edits : List Edit) :
    (v.editAll edits).Models (w.editAll edits) := by
  induction edits generalizing v w with
  | nil => exact h
  | cons edit rest ih => exact ih (h.apply edit)

end Value.Models

/-! ## Copies -/

namespace Payload

/-- The elements of a copied sorted set, added one by one. -/
def addAll (r : Ranking) (pairs : List (Str × Nat)) : Ranking :=
  pairs.foldl (fun r (m, bits) => r.add m (Double.ofBits bits)) r

/-- **The value a copy stands for.** -/
def value : Payload → Value Ranking
  | str s => .str s
  | list items => .list items
  | hash pairs => .hash (pairs.foldl (fun d (f, v) => d.set f v) Dict.empty)
  | set members => .set (members.foldl KeySet.add KeySet.empty)
  | zset pairs => .zset (addAll Ranking.empty pairs)

/-- A sorted set built from a copy without NaN represents the ranking, whatever the levels. -/
theorem models_buildZset [CPython] {z : SortedSet} {r : Ranking} (h : z.Models r) (nbytes : Int)
    (levels : Levels) {pairs : List (Str × Nat)}
    (hreal : ∀ p ∈ pairs, (Double.ofBits p.2).isNan = false) :
    (Store.buildZset z nbytes levels pairs).1.Models (addAll r pairs) := by
  induction pairs generalizing z r nbytes levels with
  | nil => exact h
  | cons p rest ih =>
    obtain ⟨member, bits⟩ := p
    have hbits : (Double.ofBits bits).isNan = false := hreal (member, bits) (by simp)
    rw [Store.buildZset, addAll, foldl_cons]
    exact ih (h.add member hbits (levels 0)) _ levels.rest fun q hq => hreal q (by simp [hq])

/-- **Loading a copy without NaN** gives the value it stands for. -/
theorem models_buildValue [CPython] {p : Payload} (hreal : p.Real) (levels : Levels) :
    (Store.buildValue levels p).1.Models p.value := by
  -- the counter that is carried along does not change the elements
  have hfst : ∀ {α β : Type} (f : α → β → α) (g : α → Int → β → Int) (xs : List β) (a : α) (n : Int),
      (xs.foldl (fun (a, n) x => (f a x, g a n x)) (a, n)).1 = xs.foldl f a := by
    intro α β f g xs
    induction xs with
    | nil => exact fun _ _ => rfl
    | cons x rest ih => exact fun a n => ih (f a x) (g a n x)
  cases p with
  | str | list => exact rfl
  | hash pairs =>
    exact hfst (fun d p => d.set p.1 p.2)
      (fun d n p => (Edit.setField p.1 p.2).count (.hash d : Value SortedSet) n) pairs Dict.empty _
  | set members =>
    exact hfst KeySet.add (fun s n m => (Edit.addMember m).count (.set s : Value SortedSet) n)
      members KeySet.empty _
  | zset pairs => exact models_buildZset SortedSet.models_empty _ levels hreal

/-- Assigning distinct new keys appends them. -/
theorem foldl_set_entries (d : Dict Str Str) (pairs : List (Str × Str))
    (hnd : ((d.entries ++ pairs).map Prod.fst).Nodup) :
    (pairs.foldl (fun d (f, v) => d.set f v) d).entries = d.entries ++ pairs := by
  induction pairs generalizing d with
  | nil => simp
  | cons p rest ih =>
    obtain ⟨f, v⟩ := p
    have hnew : f ∉ d.entries.map Prod.fst := by
      rw [map_append, nodup_append] at hnd
      intro hf
      exact hnd.2.2 f hf f (by simp) rfl
    have hset : (d.set f v).entries = d.entries ++ [(f, v)] := by
      rw [Dict.set]
      exact assocSet_of_not_mem hnew
    have hnd' : (((d.set f v).entries ++ rest).map Prod.fst).Nodup := by
      rw [hset, append_assoc]
      exact hnd
    rw [foldl_cons, ih _ hnd', hset, append_assoc]
    rfl

/-- Adding distinct new members appends them. -/
theorem foldl_add_items (s : KeySet) (members : List Str) (hnd : (s.items ++ members).Nodup) :
    (members.foldl KeySet.add s).items = s.items ++ members := by
  induction members generalizing s with
  | nil => simp
  | cons m rest ih =>
    have hnew : m ∉ s.items := by
      intro hm
      exact (nodup_append.mp hnd).2.2 m hm m (by simp) rfl
    have hadd : (s.add m).items = s.items ++ [m] := by
      rw [KeySet.add, dif_neg hnew]
    have hnd' : ((s.add m).items ++ rest).Nodup := by
      rw [hadd, append_assoc]
      exact hnd
    rw [foldl_cons, ih _ hnd', hadd, append_assoc]
    rfl

/-- Adding elements in ascending order appends them. -/
theorem addAll_items (r : Ranking) (items : List (Str × Double))
    (hreal : ∀ e ∈ items, e.2.isNan = false) (hsorted : (r.items ++ items).Pairwise entryLe)
    (hnd : ((r.items ++ items).map Prod.fst).Nodup) :
    (addAll r (items.map fun (m, s) => (m, s.bits))).items = r.items ++ items := by
  induction items generalizing r with
  | nil => simp [addAll]
  | cons e rest ih =>
    obtain ⟨m, s⟩ := e
    have hs : s.isNan = false := hreal (m, s) (by simp)
    have hnew : r.score m = none := by
      rw [Ranking.score_eq_none_iff]
      intro hm
      rw [map_append, nodup_append] at hnd
      exact hnd.2.2 m hm m (by simp) rfl
    have hadd : (r.add m s).items = r.items ++ [(m, s)] := by
      have hbefore : ∀ x ∈ r.items, entryLe x (m, s) := fun x hx =>
        (pairwise_append.mp hsorted).2.2 x hx (m, s) (by simp)
      exact Ranking.items_add_last hs hnew hbefore
    have hstep : addAll r (((m, s) :: rest).map fun (m, s) => (m, s.bits)) =
        addAll (r.add m s) (rest.map fun (m, s) => (m, s.bits)) := by
      simp [addAll, Double.ofBits_bits]
    have hrest := ih (r.add m s) (fun x hx => hreal x (by simp [hx]))
      (by rw [hadd, append_assoc]; exact hsorted)
      (by rw [hadd, append_assoc]; exact hnd)
    rw [hstep, hrest, hadd, append_assoc]
    rfl

/-- **A copy of a value stands for that value.** -/
theorem value_payload (v : Value Ranking) : (v.payload Ranking.items).value = v := by
  cases v with
  | str | list => rfl
  | hash fields =>
    have h := foldl_set_entries Dict.empty fields.entries (by simpa [Dict.empty] using fields.nodup)
    exact congrArg Value.hash (Dict.ext (by simpa [Dict.empty] using h))
  | set members =>
    have h := foldl_add_items KeySet.empty members.items (by simpa [KeySet.empty] using members.nodup)
    exact congrArg Value.set (KeySet.ext (by simpa [KeySet.empty] using h))
  | zset r =>
    have h := addAll_items Ranking.empty r.items r.real (by simpa [Ranking.empty] using r.sorted)
      (by simpa [Ranking.empty] using r.nodup)
    exact congrArg Value.zset (Ranking.ext (by simpa [Ranking.empty] using h))

theorem real_payload (v : Value Ranking) : (v.payload Ranking.items).Real := by
  cases v with
  | zset r =>
    intro p hp
    obtain ⟨e, he, rfl⟩ := mem_map.mp hp
    simpa [Double.ofBits_bits] using r.real e he
  | str | list | hash | set => trivial

end Payload

/-- A value a handler hands over, as it is meant: a new sorted set is empty. -/
def Value.ofSeen (value : Value Unit) : Value Ranking := value.map fun _ => Ranking.empty

/-- The value the engine makes of it represents it. -/
theorem Value.models_ofSeen (value : Value Unit) :
    Value.Models (value.map fun _ => SortedSet.empty) value.ofSeen := by
  cases value <;> simp [Value.ofSeen, Value.map, Value.Models, SortedSet.models_empty]

/-- Whether an item is an empty collection. -/
def Item.isEmpty (item : Item) : Bool := item.value.isEmpty fun r => r.items.length

/-- An entry represents an item. -/
def Entry.Models (entry : Entry) (item : Item) : Prop :=
  entry.value.Models item.value ∧ entry.expiresAt = item.expiresAt

/-! ## Stores and keyspaces -/

namespace Store

variable {σ : Type}

/-- The plain content of a store. -/
def keyspace (s : Store σ) : Str → Option (Payload × Option Int) := fun key =>
  (s.data.get? key).map fun entry => (entry.value.payload SortedSet.items, entry.expiresAt)

/-- **A store holds a keyspace**: the same keys, with entries that represent the items, and every key
with a deadline is known to be volatile. -/
structure Shows (s : Store σ) (K : Keyspace) : Prop where
  absent : ∀ {key}, s.data.get? key = none → K key = none
  present : ∀ {key entry}, s.data.get? key = some entry → ∃ item, K key = some item ∧
    entry.Models item
  volatile : ∀ {key item}, K key = some item → item.expiresAt ≠ none → key ∈ s.volatile.items

namespace Shows

variable {s s' : Store σ} {K : Keyspace}

/-- An item of the keyspace is in the store. -/
theorem exists_entry (h : s.Shows K) {key : Str} {item : Item} (hK : K key = some item) :
    ∃ entry, s.data.get? key = some entry ∧ entry.Models item := by
  cases hget : s.data.get? key with
  | none => simp [h.absent hget] at hK
  | some entry =>
    obtain ⟨item', hK', hmodels⟩ := h.present hget
    rw [hK, Option.some.injEq] at hK'
    exact ⟨entry, rfl, hK' ▸ hmodels⟩

/-- A key without an item is not in the store. -/
theorem get?_eq_none (h : s.Shows K) {key : Str} (hK : K key = none) :
    s.data.get? key = none := by
  cases hget : s.data.get? key with
  | none => rfl
  | some entry =>
    obtain ⟨item, hK', -⟩ := h.present hget
    simp [hK] at hK'

/-- The plain content of the store is that of the keyspace. -/
theorem keyspace_eq (h : s.Shows K) : s.keyspace = K.plain := by
  funext key
  cases hget : s.data.get? key with
  | none => simp [keyspace, Keyspace.plain, hget, h.absent hget]
  | some entry =>
    obtain ⟨item, hK, hvalue, hdeadline⟩ := h.present hget
    simp [keyspace, Keyspace.plain, hget, hK, Item.plain, hvalue.payload_eq, hdeadline]

/-- A store holds at most one keyspace. -/
theorem unique {K' : Keyspace} (h : s.Shows K) (h' : s.Shows K') : K = K' :=
  Keyspace.plain_injective (h.keyspace_eq.symm.trans h'.keyspace_eq)

/-- Stores of the same plain content hold the same keyspace. -/
theorem transfer {τ : Type} {s' : Store τ} {K' : Keyspace} (h : s.Shows K) (h' : s'.Shows K')
    (hsame : s'.keyspace = s.keyspace) : s'.Shows K := by
  obtain rfl : K' = K :=
    Keyspace.plain_injective (h'.keyspace_eq.symm.trans (hsame.trans h.keyspace_eq))
  exact h'

/-- Only the entries and the volatile keys matter. -/
theorem of_eq (h : s.Shows K) (hdata : s'.data = s.data) (hvol : s'.volatile = s.volatile) :
    s'.Shows K where
  absent hget := h.absent (hdata ▸ hget)
  present hget := h.present (hdata ▸ hget)
  volatile hK hd := hvol ▸ h.volatile hK hd

/-- **Writing one entry**: the keyspace changes at its key. -/
theorem set_entry (h : s.Shows K) {key : Str} {entry : Entry} {item : Item}
    (hdata : s'.data = s.data.set key entry) (hmodels : entry.Models item)
    (hvol : ∀ k, k ∈ s.volatile.items → k ≠ key → k ∈ s'.volatile.items)
    (hkey : item.expiresAt ≠ none → key ∈ s'.volatile.items) :
    s'.Shows (Function.update K key (some item)) where
  absent := by
    intro k hget
    rw [hdata, Dict.get?_set] at hget
    by_cases hk : k = key
    · simp [hk] at hget
    · rw [Function.update_of_ne hk]
      exact h.absent (by simpa [hk] using hget)
  present := by
    intro k entry' hget
    rw [hdata, Dict.get?_set] at hget
    by_cases hk : k = key
    · subst hk
      simp only [if_true, Option.some.injEq] at hget
      exact ⟨item, by simp, hget ▸ hmodels⟩
    · rw [Function.update_of_ne hk]
      exact h.present (by simpa [hk] using hget)
  volatile := by
    intro k item' hK hd
    by_cases hk : k = key
    · subst hk
      simp only [Function.update_self, Option.some.injEq] at hK
      exact hkey (hK ▸ hd)
    · rw [Function.update_of_ne hk] at hK
      exact hvol k (h.volatile hK hd) hk

variable [CPython] [EvictionPolicy σ]

theorem insert (h : s.Shows K) (now : Nat) (key : Str) {value : Value SortedSet}
    {v : Value Ranking} (hv : value.Models v) (nbytes : Int) :
    (s.insert now key value nbytes).Shows (Function.update K key (some ⟨v, none⟩)) :=
  h.set_entry rfl ⟨hv, rfl⟩ (fun _ hk _ => hk) (by simp)

section

omit [CPython] [EvictionPolicy σ]

theorem stamp (h : s.Shows K) {key : Str} {entry : Entry} (hget : s.data.get? key = some entry)
    {epoch : Nat} (hdata : s'.data = s.data.set key { entry with copied := epoch })
    (hvol : s'.volatile = s.volatile) : s'.Shows K := by
  obtain ⟨item, hK, hmodels⟩ := h.present hget
  have hsame : Function.update K key (some item) = K := by
    rw [Function.update_eq_self_iff, hK]
  rw [← hsame]
  exact h.set_entry hdata hmodels (fun _ hk _ => hvol ▸ hk) fun hd => hvol ▸ h.volatile hK hd

theorem snapshotBarrier (h : s.Shows K) (key : Str) : (s.snapshotBarrier key).Shows K := by
  unfold Store.snapshotBarrier
  split
  · exact h
  · split
    · exact h
    · rename_i entry hget
      split
      · exact h
      · exact h.stamp hget rfl rfl

theorem barrierAll (h : s.Shows K) (keys : List Str) :
    Shows (keys.foldl (fun s key => s.snapshotBarrier key) s) K := by
  induction keys generalizing s with
  | nil => exact h
  | cons key rest ih => exact ih (h.snapshotBarrier key)

theorem stepSnapshot (h : s.Shows K) (n : Nat) : (s.stepSnapshot n).Shows K := by
  unfold Store.stepSnapshot
  split
  · exact h
  · simp only
    split
    · exact h.barrierAll _
    · split <;> exact (h.barrierAll _).of_eq rfl rfl

end

omit [CPython] in
/-- The part of `_remove` after the barrier. -/
theorem drop (h : s.Shows K) (key : Str) :
    (s.drop key).Shows (Function.update K key none) := by
  cases hget : s.data.get? key with
  | none =>
    have hK : Function.update K key none = K := by
      rw [Function.update_eq_self_iff]
      exact (h.absent hget).symm
    rw [hK, Store.drop, hget]
    exact h
  | some entry =>
    rw [Store.drop, hget]
    refine ⟨?_, ?_, ?_⟩
    · intro k hk
      by_cases hkey : k = key
      · simp [hkey]
      · rw [Function.update_of_ne hkey]
        exact h.absent (by simpa [hkey] using hk)
    · intro k entry' hk
      by_cases hkey : k = key
      · simp [hkey] at hk
      · rw [Function.update_of_ne hkey]
        exact h.present (by simpa [hkey] using hk)
    · intro k item hK hd
      by_cases hkey : k = key
      · simp [hkey] at hK
      · rw [Function.update_of_ne hkey] at hK
        exact (KeySet.mem_discard _ _ _).mpr ⟨h.volatile hK hd, hkey⟩

omit [CPython] in
theorem remove (h : s.Shows K) (key : Str) :
    (s.remove key).Shows (Function.update K key none) := (h.snapshotBarrier key).drop key

/-- `set`, when the old entry was found or not. -/
theorem replace (h : s.Shows K) (now : Nat) (key : Str) {value : Value SortedSet}
    {v : Value Ranking} (hv : value.Models v) (nbytes : Int) (keepTtl : Bool) :
    (s.replace now key value nbytes keepTtl (s.data.get? key)).Shows
      (Function.update K key
        (some ⟨v, if keepTtl then (K key).bind Item.expiresAt else none⟩)) := by
  cases hget : s.data.get? key with
  | none =>
    have hK := h.absent hget
    have hdeadline : (if keepTtl then (K key).bind Item.expiresAt else none) = none := by
      simp [hK]
    rw [hdeadline]
    exact h.insert now key hv nbytes
  | some entry =>
    obtain ⟨item, hK, -, hdeadline⟩ := h.present hget
    have hnew : (if keepTtl then (K key).bind Item.expiresAt else none) =
        if keepTtl then entry.expiresAt else none := by
      simp [hK, hdeadline]
    rw [hnew]
    refine h.set_entry rfl ⟨hv, rfl⟩ ?_ ?_
    · intro k hk hne
      simp only [Store.replace]
      by_cases hd : (if keepTtl = true then entry.expiresAt else none) = none
      · rw [if_pos hd]
        exact (KeySet.mem_discard _ _ _).mpr ⟨hk, hne⟩
      · rw [if_neg hd]
        exact hk
    · intro hd
      simp only at hd
      simp only [Store.replace, hd, if_false]
      refine h.volatile hK ?_
      rw [← hdeadline]
      intro hnone
      exact hd (by simp [hnone])

omit [CPython] [EvictionPolicy σ] in
theorem mutate (h : s.Shows K) {key : Str} {value : Value SortedSet} {v : Value Ranking}
    (hv : value.Models v) (nbytes : Int) :
    (s.mutate key value nbytes).Shows
      (Function.update K key ((K key).map fun item => { item with value := v })) := by
  cases hget : s.data.get? key with
  | none =>
    have hK := h.absent hget
    have hsame : Function.update K key ((K key).map fun item => { item with value := v }) = K := by
      rw [Function.update_eq_self_iff, hK]
      rfl
    rw [hsame, Store.mutate, hget]
    exact h
  | some entry =>
    obtain ⟨item, hK, -, hdeadline⟩ := h.present hget
    rw [Store.mutate, hget, hK]
    refine h.set_entry rfl ⟨hv, hdeadline⟩ (fun _ hk _ => hk) ?_
    exact fun hd => h.volatile hK hd

omit [EvictionPolicy σ] in
/-- The counter that is carried along does not change the elements. -/
theorem fst_foldl_edits (edits : List Edit) (v : Value SortedSet) (n : Int) :
    (edits.foldl (fun (value, nbytes) edit => (edit.apply value, edit.count value nbytes))
      (v, n)).1 = v.editAll edits := by
  induction edits generalizing v n with
  | nil => rfl
  | cons edit rest ih => exact ih (edit.apply v) (edit.count v n)

omit [EvictionPolicy σ] in
theorem edit (h : s.Shows K) (key : Str) (edits : List Edit) :
    (s.edit key edits).Shows (Function.update K key
      ((K key).map fun item => { item with value := item.value.editAll edits })) := by
  cases hget : s.data.get? key with
  | none =>
    have hK := h.absent hget
    have hsame : Function.update K key
        ((K key).map fun item => { item with value := item.value.editAll edits }) = K := by
      rw [Function.update_eq_self_iff, hK]
      rfl
    rw [hsame, Store.edit, hget]
    exact h
  | some entry =>
    obtain ⟨item, hK, hvalue, -⟩ := h.present hget
    have hmutate : ∀ nbytes, (s.mutate key _ nbytes).Shows _ := h.mutate (hvalue.editAll edits)
    simp only [Store.edit, hget, fst_foldl_edits]
    rw [hK] at hmutate ⊢
    exact hmutate _

omit [CPython] [EvictionPolicy σ] in
theorem setDeadline (h : s.Shows K) {key : Str} {entry : Entry} {item : Item}
    (hmodels : entry.Models item) (deadline : Option Int) :
    (s.setDeadline key entry deadline).Shows
      (Function.update K key (some { item with expiresAt := deadline })) := by
  refine h.set_entry rfl ⟨hmodels.1, rfl⟩ ?_ ?_
  · intro k hk hne
    simp only [Store.setDeadline]
    split
    · exact (KeySet.mem_discard _ _ _).mpr ⟨hk, hne⟩
    · exact (KeySet.mem_add _ _ _).mpr (Or.inl hk)
  · intro hd
    simp only at hd
    simp only [Store.setDeadline, hd, if_false]
    exact (KeySet.mem_add _ _ _).mpr (Or.inr rfl)

/-- `refresh` drops an empty collection and changes nothing else of the content. -/
theorem refresh (h : s.Shows K) (key : Str) :
    (s.refresh key).Shows
      (Function.update K key ((K key).filter fun item => !item.isEmpty)) := by
  cases hget : s.data.get? key with
  | none =>
    have hK := h.absent hget
    have hsame : Function.update K key ((K key).filter fun item => !item.isEmpty) = K := by
      rw [Function.update_eq_self_iff, hK]
      rfl
    rw [hsame, Store.refresh, hget]
    exact h
  | some entry =>
    obtain ⟨item, hK, hmodels⟩ := h.present hget
    have hempty : entry.value.isEmpty SortedSet.length = item.isEmpty := hmodels.1.isEmpty_eq
    rw [Store.refresh, hget]
    simp only [hempty, hK]
    cases hitem : item.isEmpty with
    | true =>
      simp only [if_true, Option.filter, hitem, Bool.not_true, Bool.false_eq_true, if_false]
      exact h.remove key
    | false =>
      simp only [Bool.false_eq_true, if_false, Option.filter, hitem, Bool.not_false, if_true]
      exact h.set_entry rfl hmodels (fun _ hk _ => hk) fun hd => h.volatile hK hd

omit [CPython] in
theorem clear (s : Store σ) : s.clear.Shows fun _ => none where
  absent _ := rfl
  present hget := by simp [Store.clear] at hget
  volatile hK := by simp at hK

end Shows

end Store

end KvStore
