import KvStore.Engine.Commands.Table
import KvStore.Engine.Store
import Mathlib.Data.List.Perm.Subperm

/-! # The engine

The dispatcher (`engine/engine.py`): it implements the context a handler runs in, and around the
handler checks arity and memory, re-accounts the keys, evicts and logs.

* **`Engine.exec`** — what every operation of a handler does to the engine.
* **`Engine.execute`** — a client's command.
* **`Engine.apply`** — one record of the append-only file, replayed while loading.
* **`Engine.applyReplicated`** — one command of the primary's stream.
* **`Engine.cron`** — active expiry.
* **`Engine.startRewrite`** — a rewrite of the files, from a copy of the keyspace made at once or, with
  incremental snapshots, a slice at a time (`Engine.stepSnapshot`).

The clock is read once for each call: `Env` holds that reading, the random choices made during the
call and what the outside answers. `propagated` keeps every effect in order; the files get the same
effects through `Persistence`. Failing writes to the files are not part of this model. -/

namespace KvStore

/-! ## The environment of a call -/

/-- A random choice of `k` distinct positions of a sequence (`random.sample`). -/
structure Sampler where
  /-- The elements chosen. -/
  pick : List Str → Nat → List Str
  /-- They are elements of the sequence, each taken at most once. -/
  subperm : ∀ l k, (pick l k).Subperm l
  /-- As many as asked for, if there are enough. -/
  length_eq : ∀ l k, (pick l k).length = min k l.length

/-- **What the outside contributes to one call.** The source reads the clock at every look-up; one reading
stands for all those of a call, so no deadline passes while a command runs. -/
structure Env where
  /-- The clock, in microseconds. -/
  now : Nat
  /-- The random samples of the call, in order. -/
  sampler : Nat → Sampler
  /-- Repeated independent choices. -/
  choices : List Str → Nat → List Str
  /-- The outcome of a command that reports on the server. -/
  introspect : Command → List Str → Except KvError Unit
  /-- Whether the background write of a snapshot has finished, and how. -/
  written : Option Bool
  /-- How the snapshot write that a SAVE waits for ends. -/
  saved : Bool

/-! ## The files -/

/-- A call that changes the files, or what a rewrite will make of them. -/
inductive FileCall
  /-- `append` of a record. -/
  | append (effect : Effect)
  | beginRewrite
  | finishCopy (records : List Record)
  /-- `_finish`, and whether the snapshot was written. -/
  | finish (now : Nat) (ok : Bool)
  | abandonCopy

/-- **The files of the data directory** as the manifest lists them (`persistence/manager.py`). -/
structure Persistence where
  /-- Whether the append-only file is open. -/
  isOpen : Bool := false
  /-- The snapshot. -/
  base : List Record := []
  /-- The records of the append-only files before the current one. -/
  older : List Effect := []
  /-- The records of the current append-only file. -/
  current : List Effect := []
  /-- A rewrite has begun, and the keyspace is still being copied (`_copying`). -/
  copying : Bool := false
  /-- The copy a background rewrite is writing. -/
  job : Option (List Record) := none
  /-- `last_rewrite_status`. -/
  lastRewriteOk : Bool := true
  /-- `last_save_time`, in seconds. -/
  lastSaveTime : Int := 0
  /-- The calls made in this process, oldest first. -/
  calls : List FileCall := []

namespace Persistence

def append (effect : Effect) (p : Persistence) : Persistence :=
  if p.isOpen then
    { p with current := p.current ++ [effect], calls := p.calls ++ [.append effect] }
  else p

/-- `_finish`: on success the manifest lists the new snapshot and the current file only. -/
def finish (now : Nat) (ok : Bool) (p : Persistence) : Persistence :=
  match p.job with
  | none => p
  | some records =>
    let p := { p with job := none, lastRewriteOk := ok, calls := p.calls ++ [.finish now ok] }
    if ok then
      { p with base := records, older := [], lastSaveTime := (now / 1000000 : Nat) }
    else p

/-- `poll`: finish a background rewrite whose write has ended. -/
def poll (now : Nat) (written : Option Bool) (p : Persistence) : Persistence :=
  match written with
  | none => p
  | some ok => p.finish now ok

/-- `rewrite_in_progress`. -/
def inProgress (p : Persistence) : Bool := p.job.isSome || p.copying

/-- `begin_rewrite`: later records go to a new file. -/
def beginRewrite (p : Persistence) : Persistence :=
  { p with
    older := p.older ++ p.current
    current := []
    copying := true
    calls := p.calls ++ [.beginRewrite] }

/-- `finish_copy`: the copy is written in the background. -/
def finishCopy (records : List Record) (p : Persistence) : Persistence :=
  { p with copying := false, job := some records, calls := p.calls ++ [.finishCopy records] }

/-- `abandon_copy`: the files stay as they are. -/
def abandonCopy (p : Persistence) : Persistence :=
  { p with copying := false, calls := p.calls ++ [.abandonCopy] }

def startRewrite (records : List Record) (p : Persistence) : Persistence :=
  p.beginRewrite.finishCopy records

end Persistence

/-! ## The engine -/

/-- **The engine.** -/
structure Engine (σ : Type) where
  /-- The keyspace. -/
  store : Store σ
  /-- Whether the log is being replayed (`loading`). -/
  replaying : Bool := false
  propagated : List Effect := []
  /-- The files, if the engine has a data directory. -/
  persistence : Option Persistence := none
  commandsProcessed : Nat := 0
  startedWall : Int := 0
  incrementalSnapshots : Bool := false

namespace Engine

variable [CPython] {σ : Type} [EvictionPolicy σ]

/-- `propagate`: nothing while replaying. -/
def propagate (effect : Effect) (e : Engine σ) : Engine σ :=
  if e.replaying then e
  else { e with
    propagated := e.propagated ++ [effect]
    persistence := e.persistence.map (Persistence.append effect) }

/-- Change the store. -/
def onStore (f : Store σ → Store σ) (e : Engine σ) : Engine σ := { e with store := f e.store }

/-- `_expire`: remove a key whose deadline has passed, and report it. -/
def expire (key : Str) (e : Engine σ) : Engine σ :=
  (e.onStore fun s => { s.remove key with expiredKeys := s.expiredKeys + 1 }).propagate (.del key)

/-- `_lookup`: the live entry of a key, which is removed if its deadline has passed. -/
def lookup (now : Nat) (key : Str) (e : Engine σ) : Option Entry × Engine σ :=
  match e.store.data.get? key with
  | none => (none, e)
  | some entry =>
    if e.store.expiryEnabled && entry.isExpired now then
      (none, if e.store.expiryDeletes then e.expire key else e)
    else (some entry, e)

/-- What a handler sees of an entry. -/
def seen (entry : Entry) : Seen := ⟨entry.value.map fun _ => (), entry.expiresAt⟩

/-- `store.get`: a lookup that counts and marks the key as used. -/
def get (now : Nat) (key : Str) (e : Engine σ) : Option Entry × Engine σ :=
  match e.lookup now key with
  | (none, e) => (none, e.onStore fun s => { s with keyspaceMisses := s.keyspaceMisses + 1 })
  | (some entry, e) =>
    (some entry, e.onStore fun s =>
      { s with keyspaceHits := s.keyspaceHits + 1
               policy := EvictionPolicy.onAccess now key s.policy })

/-- `store.set` of any value. -/
def set (now : Nat) (key : Str) (value : Value SortedSet) (nbytes : Int) (keepTtl : Bool)
    (e : Engine σ) : Engine σ :=
  if keepTtl then
    let (old, e) := e.lookup now key
    e.onStore (Store.replace now key value nbytes true old)
  else e.onStore (Store.replace now key value nbytes false (e.store.data.get? key))

def delete (now : Nat) (key : Str) (e : Engine σ) : Bool × Engine σ :=
  match e.lookup now key with
  | (none, e) => (false, e)
  | (some _, e) => (true, e.onStore (Store.remove key))

def setExpiry (now : Nat) (key : Str) (atMs : Int) (e : Engine σ) : Bool × Engine σ :=
  match e.lookup now key with
  | (none, e) => (false, e)
  | (some entry, e) => (true, e.onStore (Store.setDeadline key entry (some atMs)))

def persist (now : Nat) (key : Str) (e : Engine σ) : Bool × Engine σ :=
  match e.lookup now key with
  | (none, e) => (false, e)
  | (some entry, e) =>
    if entry.expiresAt = none then (false, e)
    else (true, e.onStore (Store.setDeadline key entry none))

def loadRecord (now : Nat) (key : Str) (payload : Payload) (expiresAt : Option Int)
    (e : Engine σ) : Engine σ :=
  let (value, nbytes, levels) := Store.buildValue e.store.levels payload
  let e := (e.onStore fun s => { s with levels := levels }).set now key value nbytes false
  match expiresAt with
  | none => e
  | some atMs => (e.setExpiry now key atMs).2

/-- `store.iter_keys`: the live keys, expired ones being removed on the way. -/
def iterKeys (now : Nat) : List Str → Engine σ → List Str × Engine σ
  | [], e => ([], e)
  | key :: rest, e =>
    match e.lookup now key with
    | (none, e) => iterKeys now rest e
    | (some _, e) =>
      let (keys, e) := iterKeys now rest e
      (key :: keys, e)

/-- The estimate `nbytes` of the collection at a key. -/
def nbytesAt (key : Str) (e : Engine σ) : Int :=
  ((e.store.data.get? key).map Entry.nbytes).getD 0

/-- A call on the sorted set at a key. -/
def zsetCall (key : Str) (e : Engine σ) : (call : ZCall) → call.Resp × Engine σ
  | .score member => ((e.store.zsetAt key).bind fun z => z.score member, e)
  | .add member score =>
    match e.store.zsetAt key with
    | none => ((), e)
    | some z =>
      ((), e.onStore fun s =>
        { s.mutate key (.zset (z.add member score (s.levels 0)))
            (Store.zaddBytes z member (e.nbytesAt key)) with
          levels := s.levels.rest })
  | .remove member =>
    match e.store.zsetAt key with
    | none => (false, e)
    | some z =>
      ((z.score member).isSome,
        e.onStore (Store.mutate key (.zset (z.remove member))
          (Store.zremBytes z member (e.nbytesAt key))))
  | .first => ((e.store.zsetAt key).bind fun z => z.items.head?, e)
  | .last => ((e.store.zsetAt key).bind fun z => z.items.getLast?, e)
  | .length => (((e.store.zsetAt key).map SortedSet.length).getD 0, e)
  | .items => (((e.store.zsetAt key).map SortedSet.items).getD [], e)

/-- A snapshot that has been completed goes to its receiver (`on_done`). -/
def handOver (e : Engine σ) : Engine σ :=
  match e.store.finished with
  | none => e
  | some job =>
    { e with
      store := { e.store with finished := none }
      persistence :=
        if job.receiver = .rewrite then e.persistence.map (Persistence.finishCopy job.records)
        else e.persistence }

/-- `begin_snapshot`, which raises if a snapshot is being taken. -/
def beginSnapshot (now : Nat) (receiver : Receiver) (e : Engine σ) : Engine σ :=
  if e.store.snapshotJob.isSome then e else e.onStore (Store.beginSnapshot now receiver)

/-- `step_snapshot`: a slice of `n` keys. -/
def stepSnapshot (n : Nat) (e : Engine σ) : Engine σ :=
  (e.onStore (Store.stepSnapshot n)).handOver

def flushAll (e : Engine σ) : Engine σ := (e.onStore Store.clear).handOver

def startRewrite (env : Env) (e : Engine σ) : Except KvError Unit × Engine σ :=
  match e.persistence with
  | none => (.error (.command "persistence is disabled on this node"), e)
  | some p =>
    let p := p.poll env.now env.written
    if p.inProgress then
      (.error (.command "Background append only file rewriting already in progress"),
        { e with persistence := some p })
    else if e.incrementalSnapshots ∧ e.store.snapshotJob.isNone then
      (.ok (), ({ e with persistence := some p.beginRewrite }).beginSnapshot env.now .rewrite)
    else
      (.ok (), { e with persistence := some (p.startRewrite (e.store.snapshot env.now)) })

/-- `save`: a rewrite that is waited for, the running snapshot being copied to its end. -/
def save (env : Env) (e : Engine σ) : Except KvError Unit × Engine σ :=
  match e.startRewrite env with
  | (.error err, e) => (.error err, e)
  | (.ok (), e) =>
    let e := e.stepSnapshot e.store.remaining
    let e := { e with persistence := e.persistence.map (Persistence.finish env.now env.saved) }
    if env.saved then (.ok (), e)
    else (.error ⟨.persistence, "ERR", "snapshot failed, see server logs"⟩, e)

/-- A value a handler hands over, as the engine keeps it: a new sorted set is empty. -/
def ofSeen (value : Value Unit) : Value SortedSet := value.map fun _ => SortedSet.empty

/-- **What an operation does.** -/
def exec (env : Env) : (o : Op) → Engine σ → o.Resp × Engine σ
  | .now, e => (env.now, e)
  | .loading, e => (e.replaying, e)
  | .peek key, e => let (entry, e) := e.lookup env.now key; (entry.map seen, e)
  | .get key, e => let (entry, e) := e.get env.now key; (entry.map seen, e)
  | .touch key, e =>
    ((), e.onStore fun s => { s with policy := EvictionPolicy.onAccess env.now key s.policy })
  | .insert key value, e =>
    ((), e.onStore (Store.insert env.now key (ofSeen value) emptyContainer))
  | .mutate key edits, e => ((), e.onStore (Store.edit key edits))
  | .zset key call, e => e.zsetCall key call
  | .set key value keepTtl, e => ((), e.set env.now key (.str value) 0 keepTtl)
  | .delete key, e => e.delete env.now key
  | .setExpiry key atMs, e => e.setExpiry env.now key atMs
  | .persist key, e => e.persist env.now key
  | .loadRecord key payload expiresAt, e => ((), e.loadRecord env.now key payload expiresAt)
  | .record key, e =>
    let (entry, e) := e.lookup env.now key
    (entry.map fun entry => entry.value.payload SortedSet.items, e)
  | .flushAll, e => ((), e.flushAll)
  | .iterKeys, e => e.iterKeys env.now e.store.data.keys
  | .size, e => (e.store.data.size, e)
  | .sample population k, e => ((env.sampler 0).pick population (min k population.length), e)
  | .choices population k, e => (env.choices population k, e)
  | .propagate effect, e => ((), e.propagate effect)
  | .startRewrite, e => e.startRewrite env
  | .save, e => e.save env
  | .lastSaveTime, e => ((e.persistence.map Persistence.lastSaveTime).getD e.startedWall, e)
  | .introspect c args, e => (env.introspect c args, e)

/-! ## Commands -/

/-- `_run`: the handler, and for a write the keys accounted again, even if it failed. -/
def run (env : Env) (c : Command) (args : List Str) (e : Engine σ) :
    Except KvError Reply × Engine σ :=
  let (result, e) := (c.handler args).run (exec env) e
  if c.spec.write then
    (result, e.onStore fun s => (c.keyArgs args).foldl (fun s key => s.refresh key) s)
  else (result, e)

/-- How many of the keys do not exist. -/
def countNew : List Str → Cmd Nat
  | [] => return 0
  | key :: rest => do
      let entry ← call (.peek key)
      let n ← countNew rest
      return if entry.isNone then n + 1 else n

/-- The check of a command that may add data, under a policy that does not evict. -/
def checkMemory (env : Env) (c : Command) (args : List Str) (e : Engine σ) :
    Except KvError Unit × Engine σ :=
  if c.spec.denyoom && !EvictionPolicy.evicts e.store.policy then
    match (countNew (c.keyArgs args).dedup).run (exec env) e with
    | (.error err, e) => (.error err, e)
    | (.ok newKeys, e) => if e.store.overLimit newKeys then (.error .outOfMemory, e) else (.ok (), e)
  else (.ok (), e)

/-- Eviction after a write, sparing the keys of the command, each victim logged as a DEL. -/
def evict (env : Env) (protect : List Str) (e : Engine σ) : Engine σ :=
  let (victims, store) := e.store.evictIfNeeded env.now protect
  victims.foldl (fun e victim => e.propagate (.del victim)) { e with store := store }

/-- Copy-on-write for the snapshot that is being taken. -/
def barrier (keys : List Str) (e : Engine σ) : Engine σ :=
  e.onStore fun s => keys.foldl (fun s key => s.snapshotBarrier key) s

def execute (env : Env) (c : Command) (args : List Str) (e : Engine σ) :
    Except KvError Reply × Engine σ :=
  match c.checkArity args with
  | .error err => (.error err, e)
  | .ok () =>
    if c.spec.write ∧ ∃ p ∈ e.persistence, p.isOpen = false then
      (.error ⟨.persistence, "ERR", "engine is not open; call open() before writing"⟩, e)
    else
      let e := if c.spec.write then e.barrier (c.keyArgs args) else e
      match e.checkMemory env c args with
      | (.error err, e) => (.error err, e)
      | (.ok (), e) =>
        match e.run env c args with
        | (.error err, e) => (.error err, e)
        | (.ok reply, e) =>
          let e := if c.spec.write then e.evict env (c.keyArgs args) else e
          (.ok reply, { e with commandsProcessed := e.commandsProcessed + 1 })

/-- `_apply`: one record of the log, while it is being replayed. -/
def apply (env : Env) (effect : Effect) (e : Engine σ) : Except KvError (Engine σ) :=
  match effect.command.checkArity effect.args with
  | .error err => .error err
  | .ok () =>
    match e.run env effect.command effect.args with
    | (.error err, _) => .error err
    | (.ok _, e) => .ok e

/-- **`apply_replicated`**: one command of the stream, with expiry switched off. -/
def applyReplicated (env : Env) (effect : Effect) (e : Engine σ) : Except KvError Unit × Engine σ :=
  match effect.command.checkArity effect.args with
  | .error err => (.error err, e)
  | .ok () =>
    let e := e.barrier (effect.command.keyArgs effect.args)
    let expiry := e.store.expiryEnabled
    let (result, e) := (e.onStore fun s => { s with expiryEnabled := false }).run env
      effect.command effect.args
    (result.map fun _ => (), e.onStore fun s => { s with expiryEnabled := expiry })

/-! ## Active expiry -/

/-- One round of `expire_cycle`: the sampled keys whose deadline has passed are removed. -/
def expireSample (now : Nat) : List Str → Engine σ → Nat × Engine σ
  | [], e => (0, e)
  | key :: rest, e =>
    match e.store.data.get? key with
    | none => expireSample now rest e
    | some entry =>
      if entry.isExpired now then
        let (n, e) := expireSample now rest (e.expire key)
        (n + 1, e)
      else expireSample now rest e

/-- The rounds of `expire_cycle`: another one as long as more than a quarter of a sample had
expired. -/
def expireRounds (env : Env) (sampleSize : Nat) : Nat → Nat → Engine σ → Nat × Engine σ
  | 0, _, e => (0, e)
  | fuel + 1, round, e =>
    let population := e.store.volatile.items
    let sample := (env.sampler round).pick population (min sampleSize population.length)
    if sample = [] then (0, e)
    else
      let (expired, e) := expireSample env.now sample e
      if expired * 4 ≤ sample.length then (expired, e)
      else
        let (more, e) := expireRounds env sampleSize fuel (round + 1) e
        (expired + more, e)

def maxExpiryRounds : Nat := 16

def expireCycle (env : Env) (sampleSize : Nat) (e : Engine σ) : Nat × Engine σ :=
  if e.store.expiryDeletes then expireRounds env sampleSize maxExpiryRounds 0 e else (0, e)

/-- `cron`: active expiry, then the end of a background rewrite, then an automatic one if the file
has grown enough (`auto`). -/
def cron (env : Env) (sampleSize : Nat) (auto : Bool) (e : Engine σ) : Engine σ :=
  let (_, e) := e.expireCycle env sampleSize
  match e.persistence with
  | none => e
  | some p =>
    if p.isOpen then
      let e := { e with persistence := some (p.poll env.now env.written) }
      if auto then (e.startRewrite env).2 else e
    else e

end Engine

end KvStore
