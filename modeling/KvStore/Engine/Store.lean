import KvStore.Engine.Values
import KvStore.Foundation.Runs

/-! # The store

The in-memory keyspace (`engine/store.py`): entries with an optional deadline, the set of the keys
that have one, memory accounting, and the eviction policy that is told of every insertion, access and
removal. Lookups, which may expire a key and then report it, are in `Engine`, where the report goes.

A snapshot is a copy of the live keys made at once (`Store.snapshot`) or a slice at a time
(`Store.beginSnapshot`, `Store.stepSnapshot`), in which case a key's value is copied before it
changes (`Store.snapshotBarrier`).

A deadline is the number of milliseconds the source divides by 1000; a clock reading is in
microseconds. -/

namespace KvStore

/-! ## Entries -/

/-- **A stored value with its metadata** (`engine/entry.py`). -/
structure Entry where
  value : Value SortedSet
  /-- The deadline, in milliseconds. -/
  expiresAt : Option Int := none
  /-- The bytes accounted for the entry. -/
  size : Int := 0
  /-- The running estimate of a collection (`value.nbytes`). -/
  nbytes : Int := 0
  /-- The epoch of the last snapshot the entry is accounted for in. -/
  copied : Nat := 0

/-- Whether a deadline has passed. -/
def passed (now : Nat) (deadline : Option Int) : Bool :=
  match deadline with
  | none => false
  | some ms => ms * 1000 ≤ now

def Entry.isExpired (entry : Entry) (now : Nat) : Bool := passed now entry.expiresAt

/-! ## Eviction policies -/

/-- **The interface of an eviction policy** (`eviction/base.py`). The clock reading is that of the
calling command. -/
class EvictionPolicy (σ : Type) where
  /-- Whether the policy evicts at all. -/
  evicts : σ → Bool
  onInsert : Nat → Str → σ → σ
  onAccess : Nat → Str → σ → σ
  onRemove : Str → σ → σ
  /-- `victim(protect)`. -/
  victim : Nat → List Str → σ → Option Str × σ
  clear : σ → σ

/-- `NoEvictionPolicy`: only the number of keys is kept. -/
structure NoEviction where
  count : Int := 0

instance : EvictionPolicy NoEviction where
  evicts _ := false
  onInsert _ _ s := ⟨s.count + 1⟩
  onAccess _ _ s := s
  onRemove _ s := ⟨s.count - 1⟩
  victim _ _ s := (none, s)
  clear _ := ⟨0⟩

/-- The levels the skip lists will draw, one after the other. -/
abbrev Levels := Nat → Fin maxLevel

/-- The levels after the first. -/
def Levels.rest (levels : Levels) : Levels := fun n => levels (n + 1)

/-! ## Snapshots -/

/-- One key in a snapshot: the key, the copy of its value and its deadline. -/
abbrev Record := Str × Payload × Option Int

def Entry.record (entry : Entry) (key : Str) : Record :=
  (key, entry.value.payload SortedSet.items, entry.expiresAt)

/-- Who asked for an incremental snapshot, and so receives it (`on_done`). -/
inductive Receiver
  /-- A rewrite of the files. -/
  | rewrite
  /-- A replica that is being brought up to date. -/
  | replica
  deriving DecidableEq

/-- **A copy of the keyspace taken in slices** (`SnapshotJob`). -/
structure SnapshotJob where
  /-- The keys still to be visited: `_keys` from `_pos` on. -/
  pending : List Str
  epoch : Nat
  startedAt : Nat
  records : List Record := []
  /-- `_on_done`. -/
  receiver : Receiver

/-- `take`: an entry is copied, unless it had expired when the snapshot began. -/
def SnapshotJob.take (key : Str) (entry : Entry) (job : SnapshotJob) : SnapshotJob :=
  if entry.isExpired job.startedAt then job
  else { job with records := job.records ++ [entry.record key] }

/-- Copying an entry leaves the job the same one. -/
@[simp] theorem SnapshotJob.epoch_take (key : Str) (entry : Entry) (job : SnapshotJob) :
    (job.take key entry).epoch = job.epoch := by
  unfold take
  split <;> rfl

@[simp] theorem SnapshotJob.pending_take (key : Str) (entry : Entry) (job : SnapshotJob) :
    (job.take key entry).pending = job.pending := by
  unfold take
  split <;> rfl

@[simp] theorem SnapshotJob.startedAt_take (key : Str) (entry : Entry) (job : SnapshotJob) :
    (job.take key entry).startedAt = job.startedAt := by
  unfold take
  split <;> rfl

@[simp] theorem SnapshotJob.receiver_take (key : Str) (entry : Entry) (job : SnapshotJob) :
    (job.take key entry).receiver = job.receiver := by
  unfold take
  split <;> rfl

/-! ## The store -/

/-- **The store.** -/
structure Store (σ : Type) where
  data : Dict Str Entry := Dict.empty
  /-- `_volatile`: the keys with a deadline. -/
  volatile : KeySet := KeySet.empty
  /-- `_eviction`. -/
  policy : σ
  usedMemory : Int := 0
  /-- `max_keys`, `0` for no limit. -/
  maxKeys : Nat := 0
  /-- `maxmemory`, `0` for no limit. -/
  maxmemory : Nat := 0
  evictionEnabled : Bool := true
  expiryEnabled : Bool := true
  expiryDeletes : Bool := true
  expiredKeys : Nat := 0
  evictedKeys : Nat := 0
  keyspaceHits : Nat := 0
  keyspaceMisses : Nat := 0
  /-- The random levels still to be drawn. -/
  levels : Levels
  snapshotEpoch : Nat := 0
  snapshotJob : Option SnapshotJob := none
  /-- A snapshot that has just been completed, until its receiver takes it. -/
  finished : Option SnapshotJob := none
  /-- Every snapshot that has been completed: the calls of `on_done`, oldest first. -/
  delivered : List SnapshotJob := []

namespace Store

variable [CPython] {σ : Type} [EvictionPolicy σ]

def entrySize (key : Str) (value : Value SortedSet) (nbytes : Int) : Int :=
  strSize key + entryOverhead + valueSize value nbytes

omit [CPython] [EvictionPolicy σ] in
/-- `snapshot_barrier`: copy a key's value into the running snapshot before it changes. -/
def snapshotBarrier (key : Str) (s : Store σ) : Store σ :=
  match s.snapshotJob with
  | none => s
  | some job =>
    match s.data.get? key with
    | none => s
    | some entry =>
      if entry.copied = job.epoch then s
      else
        { s with
          snapshotJob := some (job.take key entry)
          data := s.data.set key { entry with copied := job.epoch } }

/-- `_insert` of a value without a deadline. -/
def insert (now : Nat) (key : Str) (value : Value SortedSet) (nbytes : Int) (s : Store σ) :
    Store σ :=
  let size := entrySize key value nbytes
  { s with
    usedMemory := s.usedMemory + size
    data := s.data.set key
      { value := value, size := size, nbytes := nbytes, copied := s.snapshotEpoch }
    policy := EvictionPolicy.onInsert now key s.policy }

/-- The part of `_remove` after the barrier. (Callers remove only keys that are there; the source
would raise on another one.) -/
def drop (key : Str) (s : Store σ) : Store σ :=
  match s.data.get? key with
  | none => s
  | some entry =>
    { s with
      data := s.data.erase key
      usedMemory := s.usedMemory - entry.size
      volatile := s.volatile.discard key
      policy := EvictionPolicy.onRemove key s.policy }

def remove (key : Str) (s : Store σ) : Store σ := (s.snapshotBarrier key).drop key

/-- The part of `set` after the old entry has been looked up. -/
def replace (now : Nat) (key : Str) (value : Value SortedSet) (nbytes : Int) (keepTtl : Bool)
    (old : Option Entry) (s : Store σ) : Store σ :=
  match old with
  | none => s.insert now key value nbytes
  | some old =>
    let expiresAt := if keepTtl then old.expiresAt else none
    let size := entrySize key value nbytes
    { s with
      usedMemory := s.usedMemory - old.size + size
      volatile := if expiresAt = none then s.volatile.discard key else s.volatile
      data := s.data.set key
        { value := value, expiresAt := expiresAt, size := size, nbytes := nbytes
          copied := s.snapshotEpoch }
      policy := EvictionPolicy.onAccess now key s.policy }

omit [CPython] [EvictionPolicy σ] in
/-- Change the value of an entry in place; its size is accounted later, by `refresh`. -/
def mutate (key : Str) (value : Value SortedSet) (nbytes : Int) (s : Store σ) : Store σ :=
  match s.data.get? key with
  | none => s
  | some entry =>
    { s with data := s.data.set key { entry with value := value, nbytes := nbytes } }

omit [EvictionPolicy σ] in
/-- Calls on the collection at a key, one after the other. -/
def edit (key : Str) (edits : List Edit) (s : Store σ) : Store σ :=
  match s.data.get? key with
  | none => s
  | some entry =>
    let (value, nbytes) := edits.foldl
      (fun (value, nbytes) edit => (edit.apply value, edit.count value nbytes))
      (entry.value, entry.nbytes)
    s.mutate key value nbytes

/-- The part of `set_expiry` and `persist` after the lookup: change the deadline of an entry. -/
def setDeadline (key : Str) (entry : Entry) (deadline : Option Int) (s : Store σ) : Store σ :=
  { s with
    data := s.data.set key { entry with expiresAt := deadline }
    volatile := if deadline = none then s.volatile.discard key else s.volatile.add key }

/-- `refresh`: account a key again after its value changed in place; drop it if it is now empty. -/
def refresh (key : Str) (s : Store σ) : Store σ :=
  match s.data.get? key with
  | none => s
  | some entry =>
    if entry.value.isEmpty SortedSet.length then s.remove key
    else
      let size := entrySize key entry.value entry.nbytes
      { s with
        usedMemory := s.usedMemory + size - entry.size
        data := s.data.set key { entry with size := size } }

omit [CPython] [EvictionPolicy σ] in
/-- `begin_snapshot`: the keys are listed, nothing is copied yet. -/
def beginSnapshot (now : Nat) (receiver : Receiver) (s : Store σ) : Store σ :=
  { s with
    snapshotEpoch := s.snapshotEpoch + 1
    snapshotJob := some
      { pending := s.data.keys, epoch := s.snapshotEpoch + 1, startedAt := now
        receiver := receiver } }

omit [CPython] [EvictionPolicy σ] in
/-- `SnapshotJob.step`: up to `n` more keys are visited; after the last one the job is done. -/
def stepSnapshot (n : Nat) (s : Store σ) : Store σ :=
  match s.snapshotJob with
  | none => s
  | some job =>
    let s := (job.pending.take n).foldl (fun s key => s.snapshotBarrier key) s
    match s.snapshotJob with
    | none => s
    | some copied =>
      let copied := { copied with pending := job.pending.drop n }
      if copied.pending = [] then
        { s with
          snapshotJob := none
          finished := some copied
          delivered := s.delivered ++ [copied] }
      else { s with snapshotJob := some copied }

/-- The number of keys the running snapshot has still to visit (`remaining`). -/
def remaining (s : Store σ) : Nat := (s.snapshotJob.map fun job => job.pending.length).getD 0

/-- `clear`: a running snapshot copies what is left first. -/
def clear (s : Store σ) : Store σ :=
  { s.stepSnapshot s.remaining with
    data := Dict.empty
    volatile := KeySet.empty
    policy := EvictionPolicy.clear s.policy
    usedMemory := 0 }

def overLimit (extraKeys : Nat) (s : Store σ) : Bool :=
  (s.maxKeys ≠ 0 && s.data.size + extraKeys > s.maxKeys) ||
    (s.maxmemory ≠ 0 && s.usedMemory > s.maxmemory)

/-- The loop of `evict_if_needed`: the victims in order. Each round removes one key, so as many
rounds as there are keys are enough. -/
def evictLoop (now : Nat) (protect : List Str) : Nat → Store σ → List Str × Store σ
  | 0, s => ([], s)
  | fuel + 1, s =>
    if s.overLimit 0 then
      match EvictionPolicy.victim now protect s.policy with
      | (none, policy) => ([], { s with policy := policy })
      | (some victim, policy) =>
        let s := { s with policy := policy }
        let s := { s.remove victim with evictedKeys := s.evictedKeys + 1 }
        let (victims, s) := evictLoop now protect fuel s
        (victim :: victims, s)
    else ([], s)

def evictIfNeeded (now : Nat) (protect : List Str) (s : Store σ) : List Str × Store σ :=
  if s.evictionEnabled && EvictionPolicy.evicts s.policy then
    evictLoop now protect s.data.size s
  else ([], s)

/-- `purge_expired`: drop every expired key, reporting none. -/
def purgeExpired (now : Nat) (s : Store σ) : Store σ :=
  let stale := s.volatile.items.filter fun key =>
    match s.data.get? key with
    | none => false
    | some entry => entry.isExpired now
  let s' := stale.foldl (fun s key => s.remove key) s
  { s' with expiredKeys := s'.expiredKeys + stale.length }

/-! ## Sorted sets in the store -/

/-- What a sorted set adds to `nbytes` for a member, if the member is new. -/
def zaddBytes (z : SortedSet) (member : Str) (nbytes : Int) : Int :=
  if (z.score member).isNone then nbytes + (strSize member + zsetItemOverhead) else nbytes

/-- What a sorted set takes off for a member, if it is there. -/
def zremBytes (z : SortedSet) (member : Str) (nbytes : Int) : Int :=
  if (z.score member).isNone then nbytes else nbytes - (strSize member + zsetItemOverhead)

/-- The sorted set of a copy: its elements added one by one. -/
def buildZset (z : SortedSet) (nbytes : Int) (levels : Levels) :
    List (Str × Nat) → SortedSet × Int × Levels
  | [] => (z, nbytes, levels)
  | (member, bits) :: rest =>
    buildZset (z.add member (Double.ofBits bits) (levels 0)) (zaddBytes z member nbytes)
      levels.rest rest

/-- The value a copy stands for, with its `nbytes` (`load_record`). -/
def buildValue (levels : Levels) : Payload → Value SortedSet × Int × Levels
  | .str s => (.str s, 0, levels)
  | .list items =>
    (.list items, (Edit.pushRight items).count (.list [] : Value SortedSet) emptyContainer, levels)
  | .hash pairs =>
    let (fields, nbytes) := pairs.foldl
      (fun (d, n) p =>
        (d.set p.1 p.2, (Edit.setField p.1 p.2).count (.hash d : Value SortedSet) n))
      (Dict.empty, (emptyContainer : Int))
    (.hash fields, nbytes, levels)
  | .set members =>
    let (s, nbytes) := members.foldl
      (fun (s, n) m => (s.add m, (Edit.addMember m).count (.set s : Value SortedSet) n))
      (KeySet.empty, (emptyContainer : Int))
    (.set s, nbytes, levels)
  | .zset pairs =>
    let (z, nbytes, levels) := buildZset SortedSet.empty emptyContainer levels pairs
    (.zset z, nbytes, levels)

/-- The sorted set at a key, if there is one. -/
def zsetAt (key : Str) (s : Store σ) : Option SortedSet :=
  match s.data.get? key with
  | some ⟨.zset z, _, _, _, _⟩ => some z
  | _ => none

/-- `snapshot`: a copy of every live key. -/
def snapshot (now : Nat) (s : Store σ) : List Record :=
  (s.data.entries.filter fun (_, entry) => !entry.isExpired now).map fun (key, entry) =>
    entry.record key

/-! ## What a change of the content leaves alone -/

section Frame

section

omit [CPython] [EvictionPolicy σ]

/-- The limits and switches of a store, which no change of its content touches. -/
def settings (s : Store σ) : Nat × Nat × Bool × Bool × Bool :=
  (s.maxKeys, s.maxmemory, s.expiryEnabled, s.expiryDeletes, s.evictionEnabled)

/-- What the store keeps of snapshots that were completed, and the number of the last one begun. -/
def outbox (s : Store σ) : Nat × Option SnapshotJob × List SnapshotJob :=
  (s.snapshotEpoch, s.finished, s.delivered)

/-- All that the operations on the content leave alone, the slices of a snapshot apart. -/
def frame (s : Store σ) :
    (Nat × Nat × Bool × Bool × Bool) × Nat × Option SnapshotJob × List SnapshotJob :=
  (s.settings, s.outbox)

end

omit [CPython]

section

omit [EvictionPolicy σ]

theorem settings_of_frame {s s' : Store σ} (h : s'.frame = s.frame) : s'.settings = s.settings :=
  congrArg Prod.fst h

theorem frame_snapshotBarrier (key : Str) (s : Store σ) : (s.snapshotBarrier key).frame = s.frame := by
  unfold snapshotBarrier
  split
  · rfl
  · split
    · rfl
    · split <;> rfl

theorem frame_barrierAll (keys : List Str) (s : Store σ) :
    (keys.foldl (fun s key => s.snapshotBarrier key) s).frame = s.frame :=
  foldl_same frame (fun s key => s.frame_snapshotBarrier key) keys s

/-- A slice completes the snapshot, or does not. -/
theorem frame_stepSnapshot (n : Nat) (s : Store σ) :
    (s.stepSnapshot n).settings = s.settings ∧ ((s.stepSnapshot n).outbox = s.outbox ∨
      ∃ job, (s.stepSnapshot n).outbox = (s.snapshotEpoch, some job, s.delivered ++ [job])) := by
  unfold stepSnapshot
  split
  · exact ⟨rfl, .inl rfl⟩
  case h_2 job _ =>
    obtain ⟨hsettings, houtbox⟩ := Prod.ext_iff.mp (s.frame_barrierAll (job.pending.take n))
    simp only
    split
    · exact ⟨hsettings, .inl houtbox⟩
    · split
      · simp only [frame, outbox, Prod.mk.injEq] at houtbox
        exact ⟨hsettings, .inr ⟨_, Prod.ext houtbox.1 (Prod.ext rfl (congrArg (· ++ [_]) houtbox.2.2))⟩⟩
      · exact ⟨hsettings, .inl houtbox⟩

end

theorem frame_remove (key : Str) (s : Store σ) : (s.remove key).frame = s.frame := by
  refine Eq.trans ?_ (s.frame_snapshotBarrier key)
  unfold remove drop
  split <;> rfl

theorem frame_replace [CPython] (now : Nat) (key : Str) (value : Value SortedSet)
    (nbytes : Int) (keepTtl : Bool) (old : Option Entry) (s : Store σ) :
    (s.replace now key value nbytes keepTtl old).frame = s.frame := by
  cases old <;> rfl

omit [EvictionPolicy σ] in
theorem frame_mutate (key : Str) (value : Value SortedSet) (nbytes : Int) (s : Store σ) :
    (s.mutate key value nbytes).frame = s.frame := by
  unfold mutate
  split <;> rfl

omit [EvictionPolicy σ] in
theorem frame_edit [CPython] (key : Str) (edits : List Edit) (s : Store σ) :
    (s.edit key edits).frame = s.frame := by
  unfold edit
  split
  · rfl
  · exact frame_mutate ..

theorem frame_purgeExpired (now : Nat) (s : Store σ) : (s.purgeExpired now).frame = s.frame :=
  foldl_same frame (fun s key => s.frame_remove key) _ s

theorem frame_refreshAll [CPython] (keys : List Str) (s : Store σ) :
    (keys.foldl (fun s key => s.refresh key) s).frame = s.frame := by
  have hone : ∀ (key : Str) (s : Store σ), (s.refresh key).frame = s.frame := by
    intro key s
    unfold refresh
    split
    · rfl
    · split
      · exact s.frame_remove key
      · rfl
  exact foldl_same frame (fun s key => hone key s) keys s

theorem frame_evictIfNeeded (now : Nat) (protect : List Str) (s : Store σ) :
    (s.evictIfNeeded now protect).2.frame = s.frame := by
  have hloop : ∀ (fuel : Nat) (s : Store σ), (s.evictLoop now protect fuel).2.frame = s.frame := by
    intro fuel
    induction fuel with
    | zero => exact fun _ => rfl
    | succ fuel ih =>
      intro s
      rw [evictLoop]
      split
      · split
        · rfl
        case h_2 victim policy _ =>
          exact (ih _).trans (({ s with policy := policy } : Store σ).frame_remove victim)
      · rfl
  unfold evictIfNeeded
  split
  · exact hloop _ s
  · rfl

end Frame

end Store

end KvStore
