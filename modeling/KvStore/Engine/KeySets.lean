import KvStore.Engine.Limits

/-! # Key sets with an index

`SampleableKeySet` (`engine/keyset.py`) keeps its keys in a dense array, from which `random.sample` can
draw, and in a dictionary the position of each key in the array. A key that is discarded leaves a hole, into
which the last key moves, and the dictionary has to follow.

* **`SampleableKeySet`** — the array and the index, with the methods of the source. What raises an exception
  in the source is `none`.
* **`SampleableKeySet.Indexes`** — the array is that of a `KeySet`, and the index holds its positions. Every
  call keeps it, so the index can be left out elsewhere (`Indexes.add`, `Indexes.discard`).
* **`Engine.walkCycle`** — `expire_cycle`, which removes keys while it walks over a sample of them, with the
  `KeyError` that a missing key would raise.
* **`SampleableKeySet.is_a_set`** — after any calls the keys are those of the mathematical set, and no walk
  meets a missing key. -/

namespace KvStore

open List

/-- **`SampleableKeySet`**, as the source holds it. -/
structure SampleableKeySet where
  items : List Str
  index : Dict Str Nat

namespace SampleableKeySet

/-- A new set. -/
def new : SampleableKeySet := ⟨[], .empty⟩

def contains (s : SampleableKeySet) (key : Str) : Bool := (s.index.get? key).isSome

def length (s : SampleableKeySet) : Nat := s.items.length

def add (s : SampleableKeySet) (key : Str) : SampleableKeySet :=
  if s.contains key then s else ⟨s.items ++ [key], s.index.set key s.items.length⟩

/-- **`discard`**: the last key moves into the hole, unless it is the hole. There may be no last key. -/
def discard (s : SampleableKeySet) (key : Str) : Option SampleableKeySet :=
  match s.index.get? key with
  | none => some s
  | some idx =>
    match s.items.getLast? with
    | none => none
    | some last =>
      if idx < s.items.dropLast.length then
        some ⟨s.items.dropLast.set idx last, (s.index.erase key).set last idx⟩
      else some ⟨s.items.dropLast, s.index.erase key⟩

/-- **`sample`**; `random.sample` refuses a negative number. -/
def sample (s : SampleableKeySet) (k : Int) (rng : Sampler) : Option (List Str) :=
  if min k s.items.length < 0 then none else some (rng.pick s.items (min k s.items.length).toNat)

/-! ## The index -/

/-- **The array is that of a key set, and the index holds its positions.** -/
structure Indexes (s : SampleableKeySet) (keys : KeySet) : Prop where
  items : s.items = keys.items
  index : ∀ key i, s.index.get? key = some i ↔ s.items[i]? = some key

variable {s : SampleableKeySet} {keys : KeySet}

theorem indexes_new : new.Indexes .empty := ⟨rfl, fun key i => by simp [new]⟩

theorem Indexes.nodup (h : s.Indexes keys) : s.items.Nodup := h.items ▸ keys.nodup

theorem Indexes.position_unique (h : s.Indexes keys) {key : Str} {i j : Nat} (hi : s.items[i]? = some key)
    (hj : s.items[j]? = some key) : i = j :=
  (getElem?_inj (List.getElem?_eq_some_iff.mp hi).1 h.nodup).mp (hi.trans hj.symm)

theorem Indexes.contains_iff (h : s.Indexes keys) (key : Str) :
    s.contains key = true ↔ key ∈ s.items := by
  rw [contains, Option.isSome_iff_exists, mem_iff_getElem?]
  exact exists_congr (h.index key)

/-- What is left of the array when the last key leaves. -/
theorem Indexes.getElem?_dropLast (h : s.Indexes keys) {last : Str} (hlast : s.items.getLast? = some last)
    (key : Str) (i : Nat) :
    s.items.dropLast[i]? = some key ↔ s.items[i]? = some key ∧ key ≠ last := by
  rw [getLast?_eq_getElem?] at hlast
  rw [List.getElem?_dropLast]
  constructor
  · intro hi
    split at hi
    · refine ⟨hi, fun hkey => ?_⟩
      have hsame := h.position_unique hi (hkey ▸ hlast)
      omega
    · cases hi
  · rintro ⟨hi, hne⟩
    have hlt : i < s.items.length := (List.getElem?_eq_some_iff.mp hi).1
    have hnot : i ≠ s.items.length - 1 := by
      rintro rfl
      exact hne (Option.some.inj (hi.symm.trans hlast))
    rwa [if_pos (by omega)]

/-- **A key that is added.** -/
theorem Indexes.add (h : s.Indexes keys) (key : Str) : (s.add key).Indexes (keys.add key) := by
  unfold SampleableKeySet.add
  split
  case isTrue hmem =>
    rw [h.contains_iff, h.items] at hmem
    rwa [KeySet.add_of_mem hmem]
  case isFalse hnew =>
    have hout : key ∉ s.items := fun hmem => hnew ((h.contains_iff key).mpr hmem)
    refine ⟨?_, fun k i => ?_⟩
    · rw [KeySet.add, dif_neg (h.items ▸ hout)]
      exact congrArg (· ++ [key]) h.items
    · rw [Dict.get?_set, getElem?_append]
      split
      case isTrue hk =>
        -- it stands at the end, and nowhere else
        subst hk
        split
        case isTrue hi =>
          refine iff_of_false (fun he => ?_) fun he => hout (mem_of_getElem? he)
          have hend := Option.some.inj he
          omega
        case isFalse hi =>
          rw [getElem?_singleton, Option.some.injEq]
          split <;> simp <;> omega
      case isFalse hk =>
        rw [h.index]
        split
        · rfl
        case isFalse hi =>
          rw [getElem?_eq_none (not_lt.mp hi), getElem?_singleton]
          split <;> simp [Ne.symm hk]

/-- **A key that is discarded**: the index follows the key that moves, and nothing raises. -/
theorem Indexes.discard (h : s.Indexes keys) (key : Str) :
    ∃ s', s.discard key = some s' ∧ s'.Indexes (keys.discard key) := by
  unfold SampleableKeySet.discard
  cases hidx : s.index.get? key with
  | none =>
    have hout : key ∉ keys.items := by
      rw [← h.items, ← h.contains_iff, contains, hidx]
      simp
    exact ⟨s, rfl, by rwa [KeySet.discard_of_not_mem hout]⟩
  | some idx =>
    have hkey : s.items[idx]? = some key := (h.index key idx).mp hidx
    have hlt : idx < s.items.length := (List.getElem?_eq_some_iff.mp hkey).1
    have hmem : key ∈ keys.items := h.items ▸ mem_of_getElem? hkey
    have hne : s.items ≠ [] := ne_nil_of_length_pos (by omega)
    have hpos : keys.items.idxOf key = idx := by
      have hfirst := getElem?_idxOf hmem
      rw [← h.items] at hfirst
      rw [← h.items]
      exact h.position_unique hfirst hkey
    have hlast := getLast?_eq_some_getLast hne
    have hdrop := h.getElem?_dropLast hlast
    have hitems : (keys.discard key).items = KeySet.swapRemove s.items idx := by
      rw [KeySet.discard, dif_pos hmem]
      change KeySet.swapRemove keys.items (keys.items.idxOf key) = _
      rw [hpos, h.items]
    rw [KeySet.swapRemove, hlast] at hitems
    generalize s.items.getLast hne = last at hlast hdrop hitems
    rw [hlast]
    simp only [length_dropLast] at hitems ⊢
    split at hitems
    case isTrue hinner =>
      rw [if_pos hinner]
      refine ⟨_, rfl, hitems.symm, fun k i => ?_⟩
      rw [Dict.get?_set, Dict.get?_erase, getElem?_set, length_dropLast, if_pos hinner]
      by_cases hi : idx = i
      · -- here stands the key that moved
        subst hi
        rw [if_pos rfl]
        split
        case isTrue hk => simp [hk]
        case isFalse hk =>
          refine iff_of_false (fun he => ?_) fun he => hk (Option.some.inj he).symm
          split at he
          · cases he
          case isFalse hother =>
            exact hother (Option.some.inj (((h.index k idx).mp he).symm.trans hkey))
      · rw [if_neg hi, hdrop]
        split
        case isTrue hk => simp [hk, hi]
        case isFalse hk =>
          split
          case isTrue hgone =>
            refine iff_of_false (by simp) fun he => hi ?_
            exact h.position_unique hkey (hgone ▸ he.1)
          case isFalse => rw [h.index, and_iff_left hk]
    case isFalse houter =>
      rw [if_neg houter]
      refine ⟨_, rfl, hitems.symm, fun k i => ?_⟩
      have hend : key = last := by
        rw [getLast?_eq_getElem?, show s.items.length - 1 = idx by omega] at hlast
        exact Option.some.inj (hkey.symm.trans hlast)
      rw [Dict.get?_erase, hdrop, hend]
      split
      case isTrue hk => simp [hk]
      case isFalse hk => rw [h.index, and_iff_left hk]

/-- **A sample** has as many keys as asked for, if there are enough, and no key twice. -/
theorem Indexes.sample (h : s.Indexes keys) (k : Nat) (rng : Sampler) :
    ∃ picked, s.sample k rng = some picked ∧ picked.length = min k s.length ∧ picked.Nodup ∧
      ∀ key ∈ picked, s.contains key = true := by
  have hnat : min (k : Int) s.items.length = ((min k s.items.length : Nat) : Int) := by omega
  refine ⟨rng.pick s.items (min k s.items.length), ?_, ?_, ?_, fun key hkey => ?_⟩
  · rw [SampleableKeySet.sample, hnat, if_neg (by omega), Int.toNat_natCast]
  · rw [rng.length_eq, length, min_assoc, min_self]
  · obtain ⟨l, hperm, hsub⟩ := rng.subperm s.items (min k s.items.length)
    exact hperm.nodup_iff.mp (h.nodup.sublist hsub)
  · exact (h.contains_iff key).mpr ((rng.subperm _ _).subset hkey)

end SampleableKeySet

/-! ## Calls -/

/-- **A call of a method.** -/
inductive KeySetCall
  | add (key : Str)
  | discard (key : Str)
  | sample (k : Nat) (rng : Sampler)

namespace KeySetCall

/-- The set after a call. -/
def run (s : SampleableKeySet) : KeySetCall → Option SampleableKeySet
  | .add key => some (s.add key)
  | .discard key => s.discard key
  | .sample k rng => (s.sample k rng).map fun _ => s

/-- What a call does to a mathematical set. -/
def meaning (keys : Finset Str) : KeySetCall → Finset Str
  | .add key => insert key keys
  | .discard key => keys.erase key
  | .sample _ _ => keys

open SampleableKeySet in
/-- **Any calls** leave an array with its index, whose keys are those of the mathematical set. -/
theorem indexes_foldlM {s : SampleableKeySet} {keys : KeySet} {X : Finset Str} (h : s.Indexes keys)
    (hX : ∀ key, key ∈ keys.items ↔ key ∈ X) (calls : List KeySetCall) :
    ∃ s' keys', calls.foldlM run s = some s' ∧ s'.Indexes keys' ∧
      ∀ key, key ∈ keys'.items ↔ key ∈ calls.foldl meaning X := by
  induction calls generalizing s keys X with
  | nil => exact ⟨s, keys, rfl, h, hX⟩
  | cons call rest ih =>
    rw [foldlM_cons, foldl_cons]
    cases call with
    | add key =>
      refine ih (h.add key) fun k => ?_
      rw [KeySet.mem_add, hX, meaning, Finset.mem_insert, or_comm]
    | discard key =>
      obtain ⟨s₁, heq, h₁⟩ := h.discard key
      rw [run, heq]
      refine ih h₁ fun k => ?_
      rw [KeySet.mem_discard, hX, meaning, Finset.mem_erase, and_comm]
    | sample k rng =>
      obtain ⟨picked, heq, -⟩ := h.sample k rng
      rw [run, heq]
      exact ih h hX

end KeySetCall

/-! ## The walk over a sample -/

namespace Engine

variable {σ : Type} [EvictionPolicy σ]

/-- The loop of `expire_cycle` over a sample. `self._data[key]` raises if the key is missing. -/
def walkSample (now : Nat) : List Str → Engine σ → Option (Nat × Engine σ)
  | [], e => some (0, e)
  | key :: rest, e =>
    match e.store.data.get? key with
    | none => none
    | some entry =>
      if entry.isExpired now then
        (walkSample now rest (e.expire key)).map fun walked => (walked.1 + 1, walked.2)
      else walkSample now rest e

/-- The rounds of `expire_cycle`. -/
def walkRounds (env : Env) (sampleSize : Nat) : Nat → Nat → Engine σ → Option (Nat × Engine σ)
  | 0, _, e => some (0, e)
  | fuel + 1, round, e =>
    let population := e.store.volatile.items
    let sample := (env.sampler round).pick population (min sampleSize population.length)
    if sample = [] then some (0, e)
    else
      (walkSample env.now sample e).bind fun walked =>
        if walked.1 * 4 ≤ sample.length then some walked
        else (walkRounds env sampleSize fuel (round + 1) walked.2).map fun more =>
          (walked.1 + more.1, more.2)

/-- **`expire_cycle`, with the exception for a missing key.** -/
def walkCycle (env : Env) (sampleSize : Nat) (e : Engine σ) : Option (Nat × Engine σ) :=
  if e.store.expiryDeletes then walkRounds env sampleSize maxExpiryRounds 0 e else some (0, e)

variable [LawfulPolicy σ]

/-- The accounts after a key has expired. -/
theorem balanced_expire {e : Engine σ} (h : e.store.Balanced) (key : Str) :
    (e.expire key).store.Balanced := by
  have hremoved := h.remove key
  rw [expire, store_propagate]
  exact hremoved.of_eq rfl rfl hremoved.tracks rfl

/-- A walk over different keys that are there meets each of them: only the key itself is removed. -/
theorem walkSample_eq (now : Nat) {sample : List Str} (hnodup : sample.Nodup) {e : Engine σ}
    (h : e.store.Balanced) (hkeys : ∀ key ∈ sample, key ∈ e.store.keySet) :
    walkSample now sample e = some (e.expireSample now sample) ∧
      (e.expireSample now sample).2.store.Balanced := by
  induction sample generalizing e with
  | nil => exact ⟨rfl, h⟩
  | cons key rest ih =>
    obtain ⟨hnew, hrest⟩ := nodup_cons.mp hnodup
    obtain ⟨entry, hget⟩ := (e.store.mem_keySet key).mp (hkeys key mem_cons_self)
    have hlater : ∀ k ∈ rest, k ∈ e.store.keySet := fun k hk => hkeys k (mem_cons_of_mem _ hk)
    rw [walkSample, expireSample, hget]
    simp only
    split
    · have hstay : ∀ k ∈ rest, k ∈ (e.expire key).store.keySet := by
        intro k hk
        have hne : k ≠ key := fun he => hnew (he ▸ hk)
        rw [expire, store_propagate]
        change k ∈ (e.store.remove key).keySet
        rw [Store.keySet_remove]
        exact Finset.mem_erase.mpr ⟨hne, hlater k hk⟩
      obtain ⟨hwalk, hbalanced⟩ := ih hrest (balanced_expire h key) hstay
      rw [hwalk]
      exact ⟨rfl, hbalanced⟩
    · exact ih hrest h hlater

/-- The rounds never meet a missing key. -/
theorem walkRounds_eq (env : Env) (sampleSize fuel round : Nat) {e : Engine σ}
    (h : e.store.Balanced) :
    walkRounds env sampleSize fuel round e = some (e.expireRounds env sampleSize fuel round) := by
  induction fuel generalizing round e with
  | zero => rfl
  | succ fuel ih =>
    simp only [walkRounds, expireRounds]
    split
    · rfl
    · have hsub := (env.sampler round).subperm e.store.volatile.items
        (min sampleSize e.store.volatile.items.length)
      have hkeys : ∀ key ∈ (env.sampler round).pick e.store.volatile.items
          (min sampleSize e.store.volatile.items.length), key ∈ e.store.keySet := by
        intro key hkey
        have hdeadline := (h.volatile key).mp (hsub.subset hkey)
        rw [Store.deadline] at hdeadline
        rw [Store.mem_keySet, ← Option.isSome_iff_exists]
        exact Option.isSome_of_isSome_bind hdeadline
      have hnodup : ((env.sampler round).pick e.store.volatile.items
          (min sampleSize e.store.volatile.items.length)).Nodup := by
        obtain ⟨l, hperm, hsublist⟩ := hsub
        exact hperm.nodup_iff.mp (e.store.volatile.nodup.sublist hsublist)
      obtain ⟨hwalk, hbalanced⟩ := walkSample_eq env.now hnodup h hkeys
      rw [hwalk, Option.bind_some]
      split
      · rfl
      · rw [ih _ hbalanced]
        rfl

end Engine

/-- **`SampleableKeySet` is a set.** After any calls, none of which raises: the array has no duplicates, the
index holds exactly the positions of its keys, the keys are those of the mathematical set under the same
calls, and a sample has `min(k, size)` different keys of the set. And an expiry cycle, which removes keys
while it walks over its sample, never meets a missing key, from any state an engine can be in. -/
theorem SampleableKeySet.is_a_set [CPython] :
    (∀ calls : List KeySetCall, ∃ s, calls.foldlM KeySetCall.run .new = some s ∧ s.items.Nodup ∧
      (∀ key i, s.index.get? key = some i ↔ s.items[i]? = some key) ∧
      (∀ key, s.contains key = true ↔ key ∈ calls.foldl KeySetCall.meaning ∅) ∧
      s.length = (calls.foldl KeySetCall.meaning ∅).card ∧
      ∀ (k : Nat) (rng : Sampler), ∃ picked, s.sample k rng = some picked ∧
        picked.length = min k s.length ∧ picked.Nodup ∧ ∀ key ∈ picked, s.contains key = true) ∧
    ∀ e : Engine Policy, e.Arises True → ∀ (env : Env) (sampleSize : Nat),
      e.walkCycle env sampleSize = some (e.expireCycle env sampleSize) := by
  constructor
  · intro calls
    obtain ⟨s, keys, hrun, h, hkeys⟩ :=
      KeySetCall.indexes_foldlM (X := ∅) indexes_new (by simp [KeySet.empty]) calls
    have hmem : ∀ key, key ∈ s.items ↔ key ∈ calls.foldl KeySetCall.meaning ∅ := by
      intro key
      rw [h.items, hkeys]
    refine ⟨s, hrun, h.nodup, h.index, fun key => (h.contains_iff key).trans (hmem key), ?_, h.sample⟩
    have hset : s.items.toFinset = calls.foldl KeySetCall.meaning ∅ := by
      ext key
      rw [mem_toFinset, hmem]
    rw [length, ← hset, toFinset_card_of_nodup h.nodup]
  · intro e he env sampleSize
    unfold Engine.walkCycle Engine.expireCycle
    split
    · exact Engine.walkRounds_eq env sampleSize _ _ he.balanced
    · rfl

end KvStore

/-! ## A key with a deadline -/

namespace KvStore.SampleableKeySet

noncomputable local instance keySetsPython : CPython := referencePython

/-- The key that is moved into a hole is still there, and no key of the sample is missing. -/
theorem is_a_set_lru :
    (∃ s, [.add (text "a"), .add (text "b"), .discard (text "a")].foldlM KeySetCall.run .new = some s ∧
      s.items.Nodup ∧ s.contains (text "b") = true ∧ s.length = 1) ∧
    ∀ env sampleSize, Engine.lruKey.walkCycle env sampleSize =
      some (Engine.lruKey.expireCycle env sampleSize) := by
  have harises : Engine.lruKey.Arises True :=
    .execute (.new _ (Env.quiet 0) none ⟨.lru ⟨[], List.nodup_nil⟩, rfl⟩) (Env.quiet 0) .set _
      fun _ _ => rfl
  obtain ⟨hset, hcycle⟩ := is_a_set
  obtain ⟨s, hrun, hnodup, -, hmem, hlength, -⟩ :=
    hset [.add (text "a"), .add (text "b"), .discard (text "a")]
  refine ⟨⟨s, hrun, hnodup, (hmem _).mpr (by decide +kernel), ?_⟩, hcycle _ harises⟩
  rw [hlength]
  decide +kernel

end KvStore.SampleableKeySet
