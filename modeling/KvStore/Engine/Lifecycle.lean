import KvStore.Engine.Engine
import KvStore.Persistence.Deadlines

/-! # The life of an engine

Opening and closing (`Engine.open`, `Engine.close`), the restart of a process on the same data
directory, and what a node does with its engine when it becomes a replica.

* **`Engine.replay`** — the records of the append-only files, one after the other; every record is
  applied at a clock reading of its own.
* **`Engine.open`** — the snapshot, then the records, with expiry and eviction off; then the keys
  whose deadline has passed are dropped, and the limits enforced.
* **`Engine.restart`** — closing, and opening the files in a new process: a new store, new random
  levels and possibly other limits. The deadlines in the snapshot go through the conversions of
  `Record.filed`.
* **`Engine.loadSnapshot`** — the full resynchronisation of a replica.
* **`Engine.Arises`** — the engines these calls lead to. -/

namespace KvStore

/-! ## Closing -/

/-- `close`: a background rewrite is waited for. -/
def Persistence.close (env : Env) (p : Persistence) : Persistence :=
  { p.finish env.now env.saved with isOpen := false }

/-- The snapshot as it is read: a deadline was written in milliseconds, and is in seconds in memory. -/
def Persistence.filed (p : Persistence) : Persistence := { p with base := p.base.map Record.filed }

/-- The files as a new process finds them. -/
def Persistence.reload (env : Env) (p : Persistence) : Persistence :=
  { p with
    copying := false
    job := none
    lastRewriteOk := true
    lastSaveTime := (env.now / 1000000 : Nat)
    calls := [] }

namespace Engine

variable [CPython] {σ : Type} [EvictionPolicy σ]

/-- `close`: a copy that is not complete is abandoned. -/
def close (env : Env) (e : Engine σ) : Engine σ :=
  let e :=
    if e.store.snapshotJob.isSome then
      { e with
        store := { e.store with snapshotJob := none }
        persistence := e.persistence.map Persistence.abandonCopy }
    else e
  { e with persistence := e.persistence.map (Persistence.close env) }

/-! ## Opening -/

/-- The parameters of a new process. -/
structure Config (σ : Type) where
  /-- The eviction policy, without keys. -/
  policy : σ
  maxKeys : Nat
  maxmemory : Nat
  /-- The random levels the process will draw. -/
  levels : Levels
  incrementalSnapshots : Bool := false

/-- A new engine over the files of a data directory. -/
def new (config : Config σ) (env : Env) (persistence : Option Persistence) : Engine σ where
  store :=
    { policy := config.policy, maxKeys := config.maxKeys, maxmemory := config.maxmemory
      levels := config.levels }
  persistence := persistence
  startedWall := (env.now / 1000000 : Nat)
  incrementalSnapshots := config.incrementalSnapshots

/-- The records of the append-only files, each at its own clock reading. -/
def replay (envs : Nat → Env) : List Effect → Engine σ → Except KvError (Engine σ)
  | [], e => .ok e
  | x :: rest, e =>
    match e.apply (envs 0) x with
    | .error err => .error err
    | .ok e => replay (fun n => envs (n + 1)) rest e

/-- The records of a snapshot. -/
def loadRecords (now : Nat) (records : List Record) (e : Engine σ) : Engine σ :=
  records.foldl (fun e (key, payload, expiresAt) => e.loadRecord now key payload expiresAt) e

/-- The switches while the files are read: the files alone decide what exists. -/
def beginLoad (e : Engine σ) : Engine σ :=
  { e with
    replaying := true
    store := { e.store with evictionEnabled := false, expiryEnabled := false } }

/-- The switches afterwards. -/
def endLoad (e : Engine σ) : Engine σ :=
  { e with
    replaying := false
    store := { e.store with evictionEnabled := true, expiryEnabled := true }
    persistence := e.persistence.map fun p => { p with isOpen := true } }

/-- **`open`**. -/
def «open» (envs : Nat → Env) (env : Env) (e : Engine σ) : Except KvError (Engine σ) :=
  match e.persistence with
  | none => .ok e
  | some p =>
    if p.isOpen then .ok e
    else
      match (e.beginLoad.loadRecords env.now p.base).replay envs (p.older ++ p.current) with
      | .error err => .error err
      | .ok e => .ok ((e.endLoad.onStore (Store.purgeExpired env.now)).evict env [])

/-- **A restart**: the engine is closed, and a new process opens the files. -/
def restart (config : Config σ) (envs : Nat → Env) (closing opening : Env) (e : Engine σ) :
    Except KvError (Engine σ) :=
  (new config opening ((e.close closing).persistence.map fun p => p.filed.reload opening)).open envs
    opening

/-! ## Replicas -/

/-- A node becomes a primary, which deletes expired keys, or a replica, which only hides them. -/
def setRole (primary : Bool) (e : Engine σ) : Engine σ :=
  e.onStore fun s => { s with expiryDeletes := primary }

/-- `load_snapshot`: the whole keyspace is replaced, and saved at once. -/
def loadSnapshot (env : Env) (records : List Record) (e : Engine σ) : Engine σ :=
  let expiry := e.store.expiryEnabled
  let e := e.flushAll.onStore fun s => { s with expiryEnabled := false }
  let e := e.loadRecords env.now records
  let e := e.onStore fun s => { s with expiryEnabled := expiry }
  if ∃ p ∈ e.persistence, p.isOpen = true then (e.save env).2 else e

/-! ## The engines that arise -/

/-- **The engines that arise** in processes: a new one with an empty keyspace, or opened on files that
hold copies of keys of engines that arise and logged writes, and then any calls, at any clock readings.
If `sure`, a node that only hides expired keys (a replica) is given no write by a client. -/
inductive Arises (sure : Prop) : Engine σ → Prop
  | new (config : Config σ) (env : Env) (p : Option Persistence)
      (hpolicy : ∃ q, config.policy = EvictionPolicy.clear q) : Arises sure (new config env p)
  | opened (config : Config σ) (env : Env) (p : Persistence)
      (hpolicy : ∃ q, config.policy = EvictionPolicy.clear q) (source : Record → Engine σ)
      (hsource : ∀ r ∈ p.base, Arises sure (source r))
      (hbase : ∀ r ∈ p.base, ∃ now, r ∈ (source r).store.snapshot now)
      (hlog : ∀ x ∈ p.older ++ p.current, x.command.spec.write = true)
      (envs : Nat → Env) (opening : Env) {e' : Engine σ}
      (h : (Engine.new config env (some p)).open envs opening = .ok e') : Arises sure e'
  | execute {e : Engine σ} (h : Arises sure e) (env : Env) (c : Command) (args : List Str)
      (hrole : sure → c.spec.write = true → e.store.expiryDeletes = true) :
      Arises sure (e.execute env c args).2
  | applyReplicated {e : Engine σ} (h : Arises sure e) (env : Env) (x : Effect) :
      Arises sure (e.applyReplicated env x).2
  | loadSnapshot {e : Engine σ} (h : Arises sure e) (env : Env) (records : List Record)
      (source : Record → Engine σ) (hsource : ∀ r ∈ records, Arises sure (source r))
      (hrecords : ∀ r ∈ records, ∃ now, r ∈ (source r).store.snapshot now) :
      Arises sure (e.loadSnapshot env records)
  | cron {e : Engine σ} (h : Arises sure e) (env : Env) (sampleSize : Nat) (auto : Bool) :
      Arises sure (e.cron env sampleSize auto)
  | setRole {e : Engine σ} (h : Arises sure e) (primary : Bool) : Arises sure (e.setRole primary)
  | beginSnapshot {e : Engine σ} (h : Arises sure e) (now : Nat) (receiver : Receiver) :
      Arises sure (e.beginSnapshot now receiver)
  | stepSnapshot {e : Engine σ} (h : Arises sure e) (n : Nat) : Arises sure (e.stepSnapshot n)

end Engine

end KvStore
