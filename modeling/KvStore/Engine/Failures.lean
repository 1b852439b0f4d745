import KvStore.Engine.Engine
import KvStore.Foundation.Raising

/-! # A disk that fails

What a command does when appending to the log, or committing it, fails (`persistence/manager.py`). The first
failure is remembered, and refuses all later writes; it is raised where it happens, and whatever the command
has done to the keyspace by then stays.

An effect goes to the log first and to the stream of the replicas then. So an effect whose append fails is
not sent, although the keyspace has changed already; a commit that fails comes after the stream was fed.

* **`OnDisk`** — an engine with the state of its log.
* **`OnDisk.propagate`** — one effect, to the log and to the stream.
* **`OnDisk.execute`** — a client's command. The functions before it are those of `Engine`, but for the
  exception that an effect may raise.

That a rewrite commits the file before it, which may fail before anything else is changed, is not modelled. -/

namespace KvStore

open Engine

/-- **An engine with the state of its log.** What `engine.propagated` records is what the stream was fed. -/
structure OnDisk (σ : Type) where
  engine : Engine σ
  writeError : Option String := none
  /-- How many records the log was given. -/
  appends : Nat := 0

/-- `PersistenceWriteError`. -/
def KvError.writeFailed (message : String) : KvError := ⟨.persistence, "MISCONF", message⟩

/-- **What the disk does during a call.** -/
structure DiskFaults where
  /-- Whether an append fails, and the text of the `OSError`. -/
  append : Nat → Option String
  /-- Whether the commit at the end of the call fails, or an `fsync` in the background did before. -/
  commit : Option String

namespace OnDisk

variable {σ : Type}

/-- A computation of the engine that may raise. -/
abbrev Act (σ α : Type) := Raising (OnDisk σ) KvError α

/-- Change the engine. -/
def onEngine {α : Type} (f : Engine σ → α × Engine σ) : Act σ α :=
  .act fun s => ((f s.engine).1, { s with engine := (f s.engine).2 })

/-- Change the store. -/
def onStore (f : Store σ → Store σ) : Act σ Unit := onEngine fun e => ((), e.onStore f)

/-- `_fail`: the failure is remembered and raised. -/
def fail (reason : String) : Act σ Unit where
  run s := (.error (.writeFailed ("Errors writing to the AOF file: " ++ reason)),
    { s with writeError := some reason })

def isOpen (s : OnDisk σ) : Bool := s.engine.persistence.any Persistence.isOpen

/-- **`propagate`**: to the log, if it is open and has not failed, and then to the stream. -/
def propagate (faults : DiskFaults) (effect : Effect) : Act σ Unit where
  run s :=
    if s.engine.replaying then (.ok (), s)
    else if s.isOpen ∧ s.writeError = none then
      match faults.append s.appends with
      | some reason => (fail reason).run s
      | none =>
        (.ok (), { s with engine := s.engine.propagate effect, appends := s.appends + 1 })
    else
      (.ok (), { s with engine :=
        { s.engine with propagated := s.engine.propagated ++ [effect] } })

variable [EvictionPolicy σ]

def expire (faults : DiskFaults) (key : Str) : Act σ Unit := do
  onStore fun s => { s.remove key with expiredKeys := s.expiredKeys + 1 }
  propagate faults (.del key)

def lookup (faults : DiskFaults) (now : Nat) (key : Str) : Act σ (Option Entry) := .look fun s =>
  match s.engine.store.data.get? key with
  | none => return none
  | some entry =>
    if s.engine.store.expiryEnabled && entry.isExpired now then
      if s.engine.store.expiryDeletes then do
        expire faults key
        return none
      else return none
    else return some entry

def get (faults : DiskFaults) (now : Nat) (key : Str) : Act σ (Option Entry) := do
  match ← lookup faults now key with
  | none =>
    onStore fun s => { s with keyspaceMisses := s.keyspaceMisses + 1 }
    return none
  | some entry =>
    onStore fun s => { s with
      keyspaceHits := s.keyspaceHits + 1
      policy := EvictionPolicy.onAccess now key s.policy }
    return some entry

def delete (faults : DiskFaults) (now : Nat) (key : Str) : Act σ Bool := do
  match ← lookup faults now key with
  | none => return false
  | some _ =>
    onStore (Store.remove key)
    return true

def setExpiry (faults : DiskFaults) (now : Nat) (key : Str) (atMs : Int) : Act σ Bool := do
  match ← lookup faults now key with
  | none => return false
  | some entry =>
    onStore (Store.setDeadline key entry (some atMs))
    return true

def persist (faults : DiskFaults) (now : Nat) (key : Str) : Act σ Bool := do
  match ← lookup faults now key with
  | none => return false
  | some entry =>
    if entry.expiresAt = none then return false
    else
      onStore (Store.setDeadline key entry none)
      return true

def iterKeys (faults : DiskFaults) (now : Nat) : List Str → Act σ (List Str)
  | [] => return []
  | key :: rest => do
      match ← lookup faults now key with
      | none => iterKeys faults now rest
      | some _ =>
        let keys ← iterKeys faults now rest
        return key :: keys

variable [CPython]

/-- `store.set` of any value. -/
def set (faults : DiskFaults) (now : Nat) (key : Str) (value : Value SortedSet) (nbytes : Int)
    (keepTtl : Bool) : Act σ Unit :=
  if keepTtl then do
    let old ← lookup faults now key
    onStore (Store.replace now key value nbytes true old)
  else onEngine fun e =>
    ((), e.onStore (Store.replace now key value nbytes false (e.store.data.get? key)))

def loadRecord (faults : DiskFaults) (now : Nat) (key : Str) (payload : Payload)
    (expiresAt : Option Int) : Act σ Unit := do
  let built ← onEngine fun e => (Store.buildValue e.store.levels payload, e)
  onStore fun s => { s with levels := built.2.2 }
  set faults now key built.1 built.2.1 false
  match expiresAt with
  | none => return ()
  | some atMs =>
    let _ ← setExpiry faults now key atMs
    return ()

/-- The error of `check_writable`. -/
def misconf (reason : String) : KvError :=
  .writeFailed ("Errors writing to the AOF file: " ++ reason ++
    ". Writes are disabled until the node is restarted.")

/-- A rewrite, which is refused as well after a failure. -/
def ifWritable (x : Act σ (Except KvError Unit)) : Act σ (Except KvError Unit) := .look fun s =>
  match s.engine.persistence, s.writeError with
  | some _, some reason => return .error (misconf reason)
  | _, _ => x

/-- **What an operation does**: those that do not look a key up, or report an effect, cannot raise. -/
def exec (faults : DiskFaults) (env : Env) : (o : Op) → Act σ o.Resp
  | .peek key => do
      let entry ← lookup faults env.now key
      return entry.map seen
  | .get key => do
      let entry ← get faults env.now key
      return entry.map seen
  | .set key value keepTtl => set faults env.now key (.str value) 0 keepTtl
  | .delete key => delete faults env.now key
  | .setExpiry key atMs => setExpiry faults env.now key atMs
  | .persist key => persist faults env.now key
  | .loadRecord key payload expiresAt => loadRecord faults env.now key payload expiresAt
  | .record key => do
      let entry ← lookup faults env.now key
      return entry.map fun entry => entry.value.payload SortedSet.items
  | .iterKeys => .look fun s => iterKeys faults env.now s.engine.store.data.keys
  | .propagate effect => propagate faults effect
  | .now => onEngine (Engine.exec env .now)
  | .loading => onEngine (Engine.exec env .loading)
  | .touch key => onEngine (Engine.exec env (.touch key))
  | .insert key value => onEngine (Engine.exec env (.insert key value))
  | .mutate key edits => onEngine (Engine.exec env (.mutate key edits))
  | .zset key call => onEngine (Engine.exec env (.zset key call))
  | .flushAll => onEngine (Engine.exec env .flushAll)
  | .size => onEngine (Engine.exec env .size)
  | .sample population k => onEngine (Engine.exec env (.sample population k))
  | .choices population k => onEngine (Engine.exec env (.choices population k))
  | .startRewrite => ifWritable (onEngine (Engine.exec env .startRewrite))
  | .save => ifWritable (onEngine (Engine.exec env .save))
  | .lastSaveTime => onEngine (Engine.exec env .lastSaveTime)
  | .introspect c args => onEngine (Engine.exec env (.introspect c args))

def run (faults : DiskFaults) (env : Env) (c : Command) (args : List Str) : Act σ Reply :=
  if c.spec.write then
    ((c.handler args).raise (exec faults env)).ensure fun s =>
      { s with engine := s.engine.onStore fun s =>
        (c.keyArgs args).foldl (fun s key => s.refresh key) s }
  else (c.handler args).raise (exec faults env)

/-- The check of a command that may add data. -/
def checkMemory (faults : DiskFaults) (env : Env) (c : Command) (args : List Str) : Act σ Unit :=
  .look fun s =>
    if c.spec.denyoom && !EvictionPolicy.evicts s.engine.store.policy then do
      let newKeys ← (countNew (c.keyArgs args).dedup).raise (exec faults env)
      .look fun s => if s.engine.store.overLimit newKeys then .raise .outOfMemory else return ()
    else return ()

/-- The victims are reported one by one. -/
def report (faults : DiskFaults) : List Str → Act σ Unit
  | [] => return ()
  | victim :: victims => do
      propagate faults (.del victim)
      report faults victims

/-- Eviction after a write: the victims are gone before the first of them is reported. -/
def evict (faults : DiskFaults) (env : Env) (protect : List Str) : Act σ Unit := do
  let victims ← onEngine fun e =>
    ((e.store.evictIfNeeded env.now protect).1,
      { e with store := (e.store.evictIfNeeded env.now protect).2 })
  report faults victims

/-- `_commit`, if the command is committed by itself, and not later with others. -/
def commit (faults : DiskFaults) (alone : Bool) : Act σ Unit := .look fun s =>
  if alone ∧ s.isOpen ∧ s.writeError = none then
    match faults.commit with
    | some reason => fail reason
    | none => return ()
  else return ()

def checkWritable : Act σ Unit := .look fun s =>
  match s.writeError with
  | none => return ()
  | some reason => .raise (misconf reason)

/-- What is done for writes only. -/
def onWrite (c : Command) (x : Act σ Unit) : Act σ Unit := if c.spec.write then x else return ()

/-- A client's command that is let in. -/
def perform (faults : DiskFaults) (env : Env) (alone : Bool) (c : Command) (args : List Str) :
    Act σ Reply := do
  onWrite c (onEngine fun e => ((), e.barrier (c.keyArgs args)))
  checkMemory faults env c args
  let reply ← run faults env c args
  onWrite c (evict faults env (c.keyArgs args))
  onEngine fun e => ((), { e with commandsProcessed := e.commandsProcessed + 1 })
  commit faults alone
  return reply

def execute (faults : DiskFaults) (env : Env) (alone : Bool) (c : Command) (args : List Str) :
    Act σ Reply :=
  match c.checkArity args with
  | .error err => .raise err
  | .ok () => .look fun s =>
    if c.spec.write ∧ ∃ p ∈ s.engine.persistence, p.isOpen = false then
      .raise ⟨.persistence, "ERR", "engine is not open; call open() before writing"⟩
    else if c.spec.write ∧ s.engine.persistence.isSome then do
      checkWritable
      perform faults env alone c args
    else perform faults env alone c args

end OnDisk

end KvStore
