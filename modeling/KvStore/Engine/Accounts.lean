import KvStore.Engine.Eviction
import KvStore.Engine.Invariants
import KvStore.Engine.Reference

/-! # The accounts of a store

The documented invariants of `Store`: the eviction policy tracks exactly the keys of `_data`,
`_volatile` holds exactly the keys with a deadline, and `used_memory` is the sum of all entry sizes.
**`Store.Balanced`** says so; every move keeps it, whatever keys a write has open.

With what `Store.Kept` says of every entry this gives the invariants of every engine that arises
(`Engine.accounts_exact`). -/

namespace KvStore

open Relation

variable [CPython] {σ : Type} [EvictionPolicy σ] [LawfulPolicy σ]

namespace Store

/-- The keys of `_data`. -/
def keySet {σ : Type} (s : Store σ) : Finset Str := s.data.keys.toFinset

/-- The deadline of a key. -/
def deadline {σ : Type} (s : Store σ) (key : Str) : Option Int :=
  (s.data.get? key).bind Entry.expiresAt

/-- The sum of all entry sizes. -/
def totalSize {σ : Type} (s : Store σ) : Int := (s.data.entries.map fun p => p.2.size).sum

/-- **The accounts of a store are in order.** -/
structure Balanced (s : Store σ) : Prop where
  /-- The policy tracks exactly the keys. -/
  tracks : LawfulPolicy.Tracks s.policy s.keySet
  /-- The volatile keys are those with a deadline. -/
  volatile : ∀ key, key ∈ s.volatile.items ↔ (s.deadline key).isSome
  /-- The memory used is that of all entries. -/
  memory : s.usedMemory = s.totalSize

section

omit [CPython] [EvictionPolicy σ] [LawfulPolicy σ]

theorem mem_keySet (s : Store σ) (key : Str) :
    key ∈ s.keySet ↔ ∃ entry, s.data.get? key = some entry := by
  rw [keySet, List.mem_toFinset, Dict.mem_keys_iff]

variable {entry : Entry} {key : Str}

theorem keySet_set_of_some {s s' : Store σ} {old : Entry} (hget : s.data.get? key = some old)
    (hdata : s'.data = s.data.set key entry) : s'.keySet = s.keySet := by
  ext k
  simp only [mem_keySet, hdata, Dict.get?_set]
  split
  case isTrue hk => simp [hk, hget]
  case isFalse => rfl

theorem keySet_set {s s' : Store σ} (hdata : s'.data = s.data.set key entry) :
    s'.keySet = Insert.insert key s.keySet := by
  ext k
  simp only [Finset.mem_insert, mem_keySet, hdata, Dict.get?_set]
  by_cases hk : k = key <;> simp [hk]

/-- A removed entry takes its key away. -/
theorem keySet_erase {s s' : Store σ} (hdata : s'.data = s.data.erase key) :
    s'.keySet = s.keySet.erase key := by
  ext k
  simp only [Finset.mem_erase, mem_keySet, hdata, Dict.get?_erase]
  by_cases hk : k = key <;> simp [hk]

theorem deadline_set {s s' : Store σ} (hdata : s'.data = s.data.set key entry) (k : Str) :
    s'.deadline k = if k = key then entry.expiresAt else s.deadline k := by
  simp only [deadline, hdata, Dict.get?_set]
  split <;> rfl

theorem deadline_erase {s s' : Store σ} (hdata : s'.data = s.data.erase key) (k : Str) :
    s'.deadline k = if k = key then none else s.deadline k := by
  simp only [deadline, hdata, Dict.get?_erase]
  split <;> rfl

theorem deadline_of_get? {s : Store σ} (hget : s.data.get? key = some entry) :
    s.deadline key = entry.expiresAt := by
  rw [deadline, hget, Option.bind_some]

end

namespace Balanced

variable {s s' : Store σ}

omit [CPython]

theorem of_eq (h : Balanced s) (hdata : s'.data = s.data) (hvolatile : s'.volatile = s.volatile)
    (hpolicy : LawfulPolicy.Tracks s'.policy s.keySet) (hmemory : s'.usedMemory = s.usedMemory) :
    Balanced s' where
  tracks := by rwa [keySet, hdata]
  volatile key := by rw [hvolatile, deadline, hdata]; exact h.volatile key
  memory := by rw [hmemory, totalSize, hdata]; exact h.memory

theorem set_of_some (h : Balanced s) {key : Str} {old entry : Entry}
    (hget : s.data.get? key = some old) (hdata : s'.data = s.data.set key entry)
    (hpolicy : LawfulPolicy.Tracks s'.policy s.keySet)
    (hvolatile : ∀ k, k ∈ s'.volatile.items ↔
      if k = key then entry.expiresAt.isSome = true else k ∈ s.volatile.items)
    (hmemory : s'.usedMemory = s.usedMemory - old.size + entry.size) : Balanced s' where
  tracks := by rwa [keySet_set_of_some hget hdata]
  volatile k := by
    rw [hvolatile, deadline_set hdata]
    split
    · exact Iff.rfl
    · exact h.volatile k
  memory := by
    rw [hmemory, h.memory, totalSize, totalSize, hdata,
      Dict.sum_set_of_some (fun p => p.2.size) hget]

/-- An entry changes that keeps its size and its deadline. -/
theorem amend (h : Balanced s) {key : Str} {old entry : Entry} (hget : s.data.get? key = some old)
    (hdata : s'.data = s.data.set key entry) (hpolicy : s'.policy = s.policy)
    (hvolatile : s'.volatile = s.volatile) (hdeadline : entry.expiresAt = old.expiresAt)
    (hmemory : s'.usedMemory = s.usedMemory - old.size + entry.size) : Balanced s' := by
  refine h.set_of_some hget hdata (hpolicy ▸ h.tracks) (fun k => ?_) hmemory
  rw [hvolatile, h.volatile k]
  split
  case isTrue hk => rw [hk, deadline_of_get? hget, hdeadline]
  case isFalse => exact Iff.rfl

omit [EvictionPolicy σ] [LawfulPolicy σ] in
/-- The volatile keys after a key has got a deadline, or has lost it. -/
theorem volatile_changed (s : Store σ) (key : Str) (deadline : Option Int) (k : Str) :
    k ∈ (if deadline = none then s.volatile.discard key else s.volatile.add key).items ↔
      if k = key then deadline.isSome = true else k ∈ s.volatile.items := by
  cases deadline with
  | none | some => by_cases hk : k = key <;> simp [hk]

theorem snapshotBarrier (h : Balanced s) (key : Str) : Balanced (s.snapshotBarrier key) := by
  unfold Store.snapshotBarrier
  split
  · exact h
  · split
    · exact h
    case h_2 entry hget =>
      split
      · exact h
      · exact h.amend hget rfl rfl rfl rfl (by simp)

theorem barrierAll (h : Balanced s) (keys : List Str) :
    Balanced (keys.foldl (fun s key => s.snapshotBarrier key) s) := by
  induction keys generalizing s with
  | nil => exact h
  | cons key rest ih => exact ih (h.snapshotBarrier key)

theorem stepSnapshot (h : Balanced s) (n : Nat) : Balanced (s.stepSnapshot n) := by
  unfold Store.stepSnapshot
  split
  · exact h
  case h_2 job _ =>
    have hall := h.barrierAll (job.pending.take n)
    simp only
    split
    · exact hall
    · split <;> exact hall.of_eq rfl rfl hall.tracks rfl

theorem drop (h : Balanced s) (key : Str) : Balanced (s.drop key) := by
  unfold Store.drop
  split
  · exact h
  case h_2 entry hget =>
    refine ⟨?_, fun k => ?_, ?_⟩
    · rw [keySet_erase (s := s) rfl]
      exact LawfulPolicy.onRemove h.tracks ((s.mem_keySet key).mpr ⟨entry, hget⟩)
    · rw [deadline_erase (s := s) rfl, KeySet.mem_discard, h.volatile k]
      by_cases hk : k = key <;> simp [hk]
    · change s.usedMemory - entry.size = _
      rw [h.memory, totalSize, totalSize, Dict.sum_erase (fun p => p.2.size) hget]

theorem remove (h : Balanced s) (key : Str) : Balanced (s.remove key) :=
  (h.snapshotBarrier key).drop key

theorem clear (s : Store σ) : Balanced s.clear where
  tracks := LawfulPolicy.clear s.policy
  volatile key := by simp [Store.clear, KeySet.empty, deadline]
  memory := rfl

variable [CPython]

theorem refresh (h : Balanced s) (key : Str) : Balanced (s.refresh key) := by
  unfold Store.refresh
  split
  · exact h
  case h_2 entry hget =>
    split
    · exact h.remove key
    · refine h.amend hget rfl rfl rfl rfl ?_
      simp only
      ring

/-- **Every move keeps it**, as long as keys are inserted only where none are. -/
theorem move {ks : List Str} (h : Balanced s) (hmove : Move True ks s s') : Balanced s' := by
  cases hmove with
  | aside hsame =>
    exact h.of_eq hsame.data hsame.volatile (hsame.policy ▸ h.tracks) hsame.usedMemory
  | access now key => exact h.of_eq rfl rfl (LawfulPolicy.onAccess now key h.tracks) rfl
  | victim now protect => exact h.of_eq rfl rfl (LawfulPolicy.victim now protect h.tracks) rfl
  | @insert now key value nbytes _ _ habsent _ =>
    have hnone := habsent trivial
    have hnew : key ∉ s.keySet := by simp [mem_keySet, hnone]
    have hdata : (s.insert now key value nbytes).data = s.data.set key _ := rfl
    refine ⟨?_, fun k => ?_, ?_⟩
    · rw [keySet_set hdata]
      exact LawfulPolicy.onInsert now h.tracks hnew
    · rw [deadline_set hdata]
      change k ∈ s.volatile.items ↔ _
      rw [h.volatile k]
      split
      case isTrue hk => simp [hk, deadline, hnone]
      case isFalse => exact Iff.rfl
    · change s.usedMemory + entrySize key value nbytes = _
      rw [h.memory, totalSize, totalSize, hdata, Dict.sum_set_of_none (fun p => p.2.size) hnone]
  | @replace now key value nbytes keepTtl old _ _ hold _ =>
    refine h.set_of_some hold rfl (LawfulPolicy.onAccess now key h.tracks) (fun k => ?_) rfl
    -- a deadline that is kept leaves the key among the volatile ones
    cases hdeadline : (if keepTtl then old.expiresAt else none) with
    | none =>
      simp only [Store.replace, hdeadline, if_true, KeySet.mem_discard]
      by_cases hk : k = key <;> simp [hk]
    | some ms =>
      have hsame : old.expiresAt = some ms := by
        cases keepTtl <;> simp_all
      simp only [Store.replace, hdeadline, reduceCtorEq, if_false]
      split
      case isTrue hk => simp [hk, h.volatile key, deadline_of_get? hold, hsame]
      case isFalse => exact Iff.rfl
  | @mutate key value nbytes =>
    unfold Store.mutate
    split
    · exact h
    case h_2 entry hget => exact h.amend hget rfl rfl rfl rfl (by simp)
  | @setDeadline key entry deadline _ _ hget =>
    exact h.set_of_some hget rfl h.tracks (volatile_changed s key deadline) (by simp [Store.setDeadline])
  | remove key => exact h.remove key
  | clear => exact clear s
  | barrier key => exact h.snapshotBarrier key
  | stepSnapshot n => exact h.stepSnapshot n

theorem moves {ks : List Str} (h : Balanced s) (hmoves : Moves True ks s s') : Balanced s' := by
  induction hmoves with
  | refl => exact h
  | tail _ hmove ih => exact ih.move hmove

theorem refreshAll (h : Balanced s) (ks : List Str) : Balanced (s.refreshAll ks) := by
  unfold Store.refreshAll
  induction ks generalizing s with
  | nil => exact h
  | cons key rest ih => exact ih (h.refresh key)

/-- **Every step keeps it.** -/
theorem step (h : Balanced s) (hstep : Step True s s') : Balanced s' := by
  cases hstep with
  | quiet hmoves => exact h.moves hmoves
  | begin now receiver => exact h.of_eq rfl rfl h.tracks rfl
  | write ks _ hmoves => exact (h.moves hmoves).refreshAll ks

end Balanced

end Store

namespace Engine

omit [CPython] in
theorem balanced_new (config : Config σ) (env : Env) (p : Option Persistence)
    (hpolicy : ∃ q, config.policy = EvictionPolicy.clear q) :
    (Engine.new config env p).store.Balanced where
  tracks := by
    obtain ⟨q, hq⟩ := hpolicy
    change LawfulPolicy.Tracks config.policy ∅
    rw [hq]
    exact LawfulPolicy.clear q
  volatile key := by simp [Engine.new, KeySet.empty, Store.deadline]
  memory := rfl

/-- It holds of every engine that arises. -/
theorem Arises.balanced {e : Engine σ} (h : e.Arises True) : e.store.Balanced :=
  (h.invariant (I := fun s => s.Kept [] ∧ s.Balanced)
    (fun config env p hpolicy => ⟨kept_new config env p, balanced_new config env p hpolicy⟩)
    (fun hI hstep => ⟨hI.1.step hstep, hI.2.step hstep⟩) (fun hI => hI.1.copies)).2

omit [EvictionPolicy σ] [LawfulPolicy σ] in
/-- **The invariants of the store hold in every state an engine can be in**, under each of the four
policies: the policy tracks exactly the keys, the volatile keys are those with a deadline, no
collection is empty, every size is the one recomputed from the key and the elements, and the memory
used is the sum of the sizes. -/
theorem accounts_exact {e : Engine Policy} (h : e.Arises True) :
    e.store.policy.Tracks e.store.keySet ∧
      (∀ key, key ∈ e.store.volatile.items ↔
        ∃ entry, e.store.data.get? key = some entry ∧ entry.expiresAt.isSome) ∧
      (∀ key entry, e.store.data.get? key = some entry →
        entry.value.isEmpty SortedSet.length = false ∧
          entry.size = strSize key + entryOverhead + scratchSize entry.value) ∧
      e.store.usedMemory = (e.store.data.entries.map fun p => p.2.size).sum := by
  have hbalanced := h.balanced
  refine ⟨hbalanced.tracks, fun key => ?_, fun key entry hget => ?_, hbalanced.memory⟩
  · rw [hbalanced.volatile key, Store.deadline]
    cases e.store.data.get? key <;> simp
  · have hentry := h.kept.entry key entry hget
    refine ⟨hentry.nonempty List.not_mem_nil, ?_⟩
    rw [hentry.size List.not_mem_nil, Store.entrySize, hentry.counted.size]

/-- An engine under `lru` that holds a key with a deadline. -/
def lruKey : Engine Policy :=
  ((new { policy := .lru ⟨[], List.nodup_nil⟩, maxKeys := 0, maxmemory := 0, levels := allLow }
    (Env.quiet 0) none).execute (Env.quiet 0) .set
      [text "k", text "v", text "EX", text "10"]).2

end Engine

end KvStore

/-! ## A key with a deadline -/

namespace KvStore.Engine

noncomputable local instance accountsPython : CPython := referencePython

theorem accounts_exact_lru :
    lruKey.store.policy.Tracks lruKey.store.keySet ∧ lruKey.store.keySet = {text "k"} ∧
      (text "k" ∈ lruKey.store.volatile.items ↔
        ∃ entry, lruKey.store.data.get? (text "k") = some entry ∧ entry.expiresAt.isSome) := by
  have harises : lruKey.Arises True :=
    .execute (.new _ (Env.quiet 0) none ⟨.lru ⟨[], List.nodup_nil⟩, rfl⟩) (Env.quiet 0) .set _
      fun _ _ => rfl
  obtain ⟨htracks, hvolatile, -⟩ := accounts_exact harises
  exact ⟨htracks, by decide +kernel, hvolatile (text "k")⟩

end KvStore.Engine
