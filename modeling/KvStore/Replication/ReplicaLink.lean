import KvStore.Engine.Failures
import KvStore.Engine.Lifecycle
import KvStore.Persistence.Snapshot
import KvStore.Protocol.Resp

/-! # The link of a replica

A replica that cannot continue its primary's stream gets a snapshot of the whole keyspace (`replica.py`,
`Engine.load_snapshot`): it drops what it holds, loads the snapshot record by record, saves it, and only then
takes over the primary's replication id and offset.

* **`ReplicaLink.receive`** — what comes over the link before anything is changed.
* **`OnDisk.loadSnapshot`** — the keyspace is replaced, and saved at once if there are files.
* **`ReplicaLink.fullResync`**, **`ReplicaLink.handshake`** — the answer to PSYNC. -/

namespace KvStore

/-! ## The replication state -/

/-- The last bytes of the stream (`stream.py`). -/
structure Backlog where
  /-- How many bytes are kept. -/
  capacity : Nat
  /-- The bytes. -/
  buf : Str := []
  /-- The offset of the first byte held. -/
  start : Int
  /-- The offset after the last one (`end`). -/
  stop : Int
  deriving DecidableEq

def Backlog.reset (offset : Int) (b : Backlog) : Backlog :=
  { b with buf := [], start := offset, stop := offset }

/-- The node's position in the stream history. -/
structure ReplicationState where
  backlog : Backlog
  /-- The history. -/
  replid : Str
  /-- The history this node continued from when promoted. -/
  replid2 : Str
  secondOffset : Int
  deriving DecidableEq

/-- `"0" * 40`. -/
def noReplid : Str := List.replicate 40 48

namespace ReplicationState

def offset (s : ReplicationState) : Int := s.backlog.stop

/-- The request to continue: PSYNC. -/
def psync (s : ReplicationState) : List Str :=
  if 0 < s.offset ∨ s.replid2 ≠ noReplid then [text "PSYNC", s.replid, showInt s.offset]
  else [text "PSYNC", text "?", text "-1"]

end ReplicationState

/-- Why a session of the link ends. -/
inductive LinkError
  /-- The link dropped, or nothing came in time. -/
  | dropped
  | handshakeRefused (line : Str)
  | psyncRefused (words : List Str)
  /-- "expected the snapshot, got …". -/
  | snapshotExpected (header : Str)
  /-- `ValueError`: a line that does not have three words, or a number that is none. -/
  | value
  | disk (reason : String)
  | engine (e : KvError)
  deriving DecidableEq

/-- **What comes over the link**: the result of each read, or `none` if the link drops or nothing comes in
time. -/
structure Peer where
  /-- The answer to REPLCONF. -/
  greeting : Option Str
  /-- The words of the answer to PSYNC. -/
  psync : List Str → Option (List Str)
  /-- The line before the snapshot. -/
  header : Option Str
  /-- The snapshot, of the length that was announced. -/
  payload : Nat → Option Str

/-- **A replica**: its engine, its position in the stream, and what its link counts. -/
structure Replica (σ : Type) where
  /-- The engine, with the state of its log. -/
  disk : OnDisk σ
  state : ReplicationState
  fullSyncs : Nat := 0
  partialSyncs : Nat := 0

/-! ## Loading a snapshot -/

namespace OnDisk

variable [CPython] {σ : Type} [EvictionPolicy σ]

/-- **`save`**. A rewrite may be refused, and the switch to a new log may fail (`switch`: the old log cannot
be committed, or the new one or the manifest not be written). -/
def save (switch : Option String) (env : Env) : Raising (OnDisk σ) LinkError Unit where
  run s :=
    let saved := s.engine.save env
    let done := (saved.1.mapError LinkError.engine, { s with engine := saved.2 })
    match s.engine.persistence, s.writeError with
    | some _, some reason => (.error (.engine (misconf reason)), s)
    | some p, none =>
      let p := p.poll env.now env.written
      match switch with
      | some reason =>
        if p.inProgress then done
        else (.error (.disk reason), { s with engine := { s.engine with persistence := some p } })
      | none => done
    | none, _ => done

/-- The store is cleared, and the records that the snapshot hands out are loaded, with expiry off. -/
def replaceAll (now : Nat) (records : List Record) (e : Engine σ) : Engine σ :=
  let loaded := (e.flushAll.onStore fun s => { s with expiryEnabled := false }).loadRecords now records
  loaded.onStore fun s => { s with expiryEnabled := e.store.expiryEnabled }

/-- **`load_snapshot`**: the records one by one up to the error that ends them, if there is one; then SAVE. -/
def loadSnapshot (switch : Option String) (env : Env) (snapshot : List Record × Option KvError) :
    Raising (OnDisk σ) LinkError Nat := do
  .act fun s => ((), { s with engine := replaceAll env.now snapshot.1 s.engine })
  match snapshot.2 with
  | some err => .raise (.engine err)
  | none => .look fun s =>
    if s.isOpen then do
      save switch env
      return snapshot.1.length
    else return snapshot.1.length

end OnDisk

/-! ## The link -/

namespace ReplicaLink

/-- **What comes before the keyspace is touched**: the id and the offset that are announced, and the bytes of
the snapshot. -/
def receive (peer : Peer) (words : List Str) : Except LinkError (Str × Str × Str) :=
  match words with
  | [_, replid, start] =>
    match peer.header with
    | none => .error .dropped
    | some header =>
      if header.head? ≠ some 36 then .error (.snapshotExpected (header.take 20))
      else
        match intOfBytes header.tail with
        | none => .error .value
        | some size =>
          if size < 0 then .error .value
          else
            match peer.payload size.toNat with
            | none => .error .dropped
            | some payload => .ok (replid, start, payload)
  | _ => .error .value

variable [CPython] {σ : Type} [EvictionPolicy σ]

/-- A computation of the engine. -/
def onDisk {α : Type} (x : Raising (OnDisk σ) LinkError α) : Raising (Replica σ) LinkError α where
  run r := ((x.run r.disk).1, { r with disk := (x.run r.disk).2 })

/-- The state of a replica that has everything up to an offset. -/
def adopted (replid : Str) (offset : Int) (s : ReplicationState) : ReplicationState where
  backlog := s.backlog.reset offset
  replid := replid
  replid2 := noReplid
  secondOffset := -1

/-- What the snapshot holds. -/
def decoded (payload : Str) : List Record × Option KvError := decodeSnapshot "full resync" payload

/-- The position that was announced is taken over. -/
def takeOver (replid start : Str) : Raising (Replica σ) LinkError Unit :=
  match int start with
  | none => .raise .value
  | some offset => .act fun r => ((), { r with
      state := adopted replid offset r.state
      fullSyncs := r.fullSyncs + 1 })

/-- **A full resynchronisation.** -/
def fullResync (switch : Option String) (env : Env) (peer : Peer) (words : List Str) :
    Raising (Replica σ) LinkError Unit :=
  match receive peer words with
  | .error e => .raise e
  | .ok (replid, start, payload) => do
      let _ ← onDisk (OnDisk.loadSnapshot switch env (decoded payload))
      takeOver replid start

/-- The stream can be continued, under the id that the primary names. -/
def continued (words : List Str) (s : ReplicationState) : ReplicationState :=
  match words[1]? with
  | none => s
  | some replid =>
    if replid = s.replid then s
    else { s with replid2 := s.replid, secondOffset := s.offset, replid := replid }

def handshake (switch : Option String) (env : Env) (peer : Peer) : Raising (Replica σ) LinkError Unit :=
  match peer.greeting with
  | none => .raise .dropped
  | some greeting =>
    if ¬ text "+OK" <+: greeting then .raise (.handshakeRefused greeting)
    else .look fun r =>
      match peer.psync r.state.psync with
      | none => .raise .dropped
      | some words =>
        if text "+FULLRESYNC" <+: words.headD [] then fullResync switch env peer words
        else if text "+CONTINUE" <+: words.headD [] then
          .act fun r => ((), { r with
            state := continued words r.state
            partialSyncs := r.partialSyncs + 1 })
        else .raise (.psyncRefused words)

end ReplicaLink

end KvStore
