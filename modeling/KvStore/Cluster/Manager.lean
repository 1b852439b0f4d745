import KvStore.Foundation.Triples
import KvStore.Cluster.Node
import Mathlib.Data.List.MinMax

/-! # The cluster manager

`ClusterManager` as programs over what it uses of the outside world: its clients to the nodes, its
lock, the clock, `asyncio.sleep`. The operations marked *at once* are the code between two awaits:
nothing happens between them. The others are awaits: `acquire` waits for the lock, `gather` sends
its calls together and waits until each has a reply or has failed, `sleep` waits.

A loop bounded only by the clock asks once how often it goes round (`Op.rounds`); the loop of a
rebalance ends unfinished after as many rounds, which stands for a process that stops while it is
in it. -/

namespace KvStore

namespace Cluster

/-- What the manager thinks of a node. -/
inductive Health
  | healthy
  /-- It has not answered for `suspect_after_s`. -/
  | suspect
  /-- It has not answered for `dead_after_s`. -/
  | dead
  deriving DecidableEq

/-- Two clocks: `time.monotonic()` and `time.time()`, in milliseconds. -/
structure ClusterClock where
  monotonic : Nat
  /-- `time.time()` -/
  wall : Nat

/-- **What is known of a node** (`NodeHealth`). -/
structure NodeHealth where
  address : Address
  state : Health := .healthy
  lastOk : Nat
  /-- Its role as reported, with the primary it follows and whether its link is up. -/
  role : Option NodeRole := none
  /-- Its stream position as reported. -/
  offset : Nat := 0
  epoch : Nat := 0
  error : Option Failure := none
  deriving DecidableEq

/-- A failover that was made. -/
structure FailoverEvent where
  shard : Str
  oldPrimary : Address
  newPrimary : Address
  epoch : Nat
  reason : Str
  /-- Silence of the old primary before the promotion. -/
  detectedAfter : Nat
  promotedAt : Nat
  /-- The offsets the winner was chosen by. -/
  candidateOffsets : List (Address × Nat)
  deriving DecidableEq

structure ManagerSettings where
  suspectAfter : Nat
  deadAfter : Nat
  failoverEnabled : Bool

/-- **The manager's attributes.** -/
structure Manager where
  settings : ManagerSettings
  config : ClusterConfig
  health : Address → Option NodeHealth
  events : List FailoverEvent
  /-- The configurations handed to the router (`_on_change`), the first one included. -/
  adopted : List ClusterConfig

/-- A call of a client: where to, what, and what is noted of the node once it has an outcome. -/
structure Call where
  node : Address
  request : Request
  /-- What the outcome, at that time, makes of the node's health. -/
  note : Nat → Except Failure Reply → NodeHealth → NodeHealth := fun _ _ h => h

namespace Manager

/-- **What the manager's code does** between and at its awaits. -/
inductive Op
  /-- At once: read the attributes. -/
  | read
  /-- At once: change what is known of the nodes. -/
  | health (f : Nat → (Address → Option NodeHealth) → Address → Option NodeHealth)
  /-- At once: `set_config`. -/
  | setConfig (c : ClusterConfig)
  /-- At once: `self.events.append`. -/
  | record (e : FailoverEvent)
  /-- At once: read the clocks. -/
  | clock
  /-- How often a loop goes round. -/
  | rounds
  /-- `async with self._lock`, on the way in. -/
  | acquire
  /-- At once: `async with self._lock`, on the way out. -/
  | release
  /-- `asyncio.gather` of calls. -/
  | gather (calls : List Call)
  /-- `asyncio.sleep`. -/
  | sleep

/-- What each operation answers. -/
@[reducible] def Op.Resp : Op → Type
  | .read => Manager
  | .health _ => Unit
  | .setConfig _ => Unit
  | .record _ => Unit
  | .clock => ClusterClock
  | .rounds => Nat
  | .acquire => Unit
  | .release => Unit
  | .gather _ => List (Except Failure Reply)
  | .sleep => Unit

/-- A program of the manager. -/
abbrev Code (α : Type) := Prog Op Op.Resp Failure α

open Prog

/-- The attributes. -/
def read : Code Manager := perform Op.read

/-- Change what is known of the nodes. -/
def setHealth (f : Nat → (Address → Option NodeHealth) → Address → Option NodeHealth) :
    Code Unit := perform (Op.health f)

def setConfig (c : ClusterConfig) : Code Unit := perform (Op.setConfig c)

def clock : Code ClusterClock := perform Op.clock

/-- How often a loop goes round. -/
def rounds : Code Nat := perform Op.rounds

def sleep : Code Unit := perform Op.sleep

/-- `asyncio.gather` of calls. -/
def gather (calls : List Call) : Code (List (Except Failure Reply)) := perform (Op.gather calls)

/-- `async with self._lock`: the lock is released also when the body raises. -/
def locked {α : Type} (body : Code α) : Code α := do
  perform Op.acquire
  let r ← body.attempt
  perform Op.release
  ofExcept r

/-- `await client.execute(…)` on its own: the call's error is the result. -/
def call (node : Address) (request : Request) : Code (Except Failure Reply) := do
  let outcomes ← gather [⟨node, request, fun _ _ h => h⟩]
  return outcomes.headD (.error .unavailable)

/-- `_command`: an error is logged and forgotten. -/
def command (node : Address) (request : Request) : Code Unit := do
  let _ ← call node request

/-! ## Heartbeats -/

/-- `_probe` when the node did not answer. -/
def silent (settings : ManagerSettings) (now : Nat) (e : Failure) (h : NodeHealth) : NodeHealth :=
  { h with
    error := some e
    state :=
      if settings.deadAfter ≤ now - h.lastOk then .dead
      else if settings.suspectAfter ≤ now - h.lastOk then .suspect
      else h.state }

/-- `_probe` when the node answered. -/
def heard (now : Nat) (info : NodeInfo) (h : NodeHealth) : NodeHealth :=
  { h with
    state := .healthy, lastOk := now, error := none
    role := some info.role, epoch := info.epoch, offset := info.offset }

/-- What the outcome of a heartbeat is noted as. -/
def noted (settings : ManagerSettings) (now : Nat) (outcome : Except Failure Reply)
    (h : NodeHealth) : NodeHealth :=
  match outcome with
  | .ok (.info info) => heard now info h
  | .ok _ => h
  | .error e => silent settings now e h

/-- `self.health.setdefault(address, NodeHealth(address))` for each address. -/
def enrol (addresses : List Address) (now : Nat) (health : Address → Option NodeHealth) :
    Address → Option NodeHealth :=
  fun a => match health a with
    | some h => some h
    | none => if a ∈ addresses then some { address := a, lastOk := now } else none

/-- `asyncio.gather(*(self._probe(a) for a in addresses))`: which nodes answered. -/
def probe (addresses : List Address) : Code (List Bool) := do
  let m ← read
  setHealth (enrol addresses)
  let outcomes ← gather (addresses.map fun a => ⟨a, .info, noted m.settings⟩)
  return outcomes.map Except.isOk

/-! ## Reconciliation -/

/-- A node is a healthy replica, as far as is known. -/
def isReplica (h : NodeHealth) : Bool :=
  h.state = .healthy && match h.role with
    | some (.replica _ _) => true
    | _ => false

/-- A node is healthy but does not follow `primary`, as far as is known. -/
def strays (primary : Address) (h : NodeHealth) : Bool :=
  h.state = .healthy && match h.role with
    | some (.replica of _) => of ≠ primary
    | _ => true

/-- The group's primary, promoted if it still reports that it is a replica. -/
def reconcilePrimary (group : ShardGroup) (epoch : Nat) : Code Unit := do
  let m ← read
  if (m.health group.primary).any isReplica then
    command group.primary (.replicaof none epoch)

/-- The replica at `address`, corrected if need be. -/
def reconcileReplica (group : ShardGroup) (epoch : Nat) (address : Address) : Code Unit := do
  let m ← read
  if (m.health address).any (strays group.primary) then
    command address (.replicaof (some group.primary) epoch)

/-- **`_reconcile`**: every healthy node that does not have the role the configuration gives it is
commanded to take it. -/
def reconcile (group : ShardGroup) : Code Unit := do
  let m ← read
  reconcilePrimary group m.config.epoch
  forEach (reconcileReplica group m.config.epoch) group.replicas

/-! ## Failover -/

/-- The replicas that can be promoted: healthy, and replicas as they report. -/
def candidates (group : ShardGroup) (m : Manager) : List Address :=
  group.replicas.filter fun r => (m.health r).any isReplica

/-- What is known of some nodes. -/
def known (addresses : List Address) (m : Manager) : List (Address × NodeHealth) :=
  addresses.filterMap fun a => (m.health a).map fun h => (a, h)

/-- A replica has every write the primary had, as they report. -/
def caughtUp (group : ShardGroup) (addresses : List Address) (m : Manager) : Bool :=
  match m.health group.primary with
  | none => false
  | some p => (known addresses m).any fun (_, h) => p.offset ≤ h.offset

/-- **`_let_replicas_catch_up`**: probe the group until a replica has caught up, for a bounded number
of rounds. -/
def letReplicasCatchUp (group : ShardGroup) (addresses : List Address) : Nat → Code Unit
  | 0 => return ()
  | n + 1 => do
      let _ ← probe group.members
      let m ← read
      if caughtUp group addresses m then return ()
      else do
        sleep
        letReplicasCatchUp group addresses n

def failoverEvent (group : ShardGroup) (addresses : List Address) (winner : Address) (epoch : Nat)
    (reason : Str) (m : Manager) (now : ClusterClock) : FailoverEvent where
  shard := group.id
  oldPrimary := group.primary
  newPrimary := winner
  epoch := epoch
  reason := reason
  detectedAfter := match m.health group.primary with
    | some old => now.monotonic - old.lastOk
    | none => 0
  promotedAt := now.wall
  candidateOffsets := (known addresses m).map fun (a, h) => (a, h.offset)

/-- What follows an acknowledged promotion: the configuration is published, the failover recorded,
and the other nodes are pointed at the new primary. -/
def publish (group : ShardGroup) (addresses : List Address) (winner : Address) (epoch : Nat)
    (reason : Str) : Code (Option FailoverEvent) := do
  let m ← read
  match m.config.withGroup (group.promote winner) with
  | .error _ => fail .internal
  | .ok c => do
      setConfig c
      let now ← clock
      let event := failoverEvent group addresses winner epoch reason m now
      perform (Op.record event)
      setHealth fun _ health => Function.update health winner
        ((health winner).map fun h => { h with role := some .primary })
      match c.group? group.id with
      | none => fail .internal
      | some g => do
          reconcile g
          return some event

/-- The wait of a requested failover. -/
def waitFor (group : ShardGroup) (addresses : List Address) (graceful : Bool) : Code Unit :=
  if graceful then do
    let n ← rounds
    letReplicasCatchUp group addresses n
  else return ()

/-- Promote the candidate with the highest reported offset under the next epoch. -/
def promoteBest (group : ShardGroup) (addresses : List Address) (reason : Str) :
    Code (Option FailoverEvent) := do
  let m ← read
  match (known addresses m).argmax fun (_, h) => h.offset with
  | none => fail .internal
  | some (winner, _) => do
      match ← call winner (.replicaof none (m.config.epoch + 1)) with
      | .error _ => return none
      | .ok _ => publish group addresses winner (m.config.epoch + 1) reason

/-- **`_failover`**: promote the best replica of the group, if there is one. -/
def failover (group : ShardGroup) (reason : Str) (graceful : Bool) :
    Code (Option FailoverEvent) := do
  let m ← read
  if candidates group m = [] then return none
  else do
    waitFor group (candidates group m) graceful
    promoteBest group (candidates group m) reason

/-- `failover`: a failover asked for by an operator. -/
def failoverRequest (shard : Str) : Code Unit := locked do
  let m ← read
  match m.config.group? shard with
  | none => fail .internal
  | some group => do
      match ← failover group (text "requested") true with
      | none => fail (.cluster (.noReplica shard))
      | some _ => return ()

/-! ## Rounds -/

/-- One group's turn in a round. -/
def tickGroup (group : ShardGroup) : Code Unit := do
  let m ← read
  match m.health group.primary with
  | none => fail .internal
  | some primary =>
    if primary.state = .dead ∧ m.settings.failoverEnabled then do
      let _ ← failover group (text "primary unreachable") false
    else
      match m.config.group? group.id with
      | none => fail .internal
      | some g => reconcile g

/-- **`tick`**: one heartbeat round, then failovers and corrections. -/
def tick : Code Unit := locked do
  let m ← read
  let _ ← probe (m.config.shards.flatMap ShardGroup.members)
  let m ← read
  forEach tickGroup m.config.shards

/-! ## Rebalance -/

/-- What the manager remembers of a rebalance. -/
structure Progress where
  /-- The primary and the targets a shard's migration was started with. -/
  sent : Str → Option (Address × List (Str × Address))
  /-- Keys moved by migrations that were stopped. -/
  base : Str → Nat
  moved : Str → Nat
  /-- Sources that are done in this round. -/
  finished : Nat

/-- Nothing was sent yet. -/
def Progress.none : Progress := ⟨fun _ => .none, fun _ => 0, fun _ => 0, 0⟩

/-- `async with self._lock: self.set_config(self.config.next_epoch(…))`. -/
def adopt (next : ClusterConfig → Except ConfigError ClusterConfig) : Code Unit := locked do
  let m ← read
  match next m.config with
  | .error _ => fail .internal
  | .ok c => setConfig c

/-- The plan's targets: each group of the new ring with its primary. -/
def targetsOf (c : ClusterConfig) (target : List Str) : Option (List (Str × Address)) :=
  target.mapM fun id => (c.group? id).map fun g => (id, g.primary)

/-- Start a source's migration. -/
def startSource (shard : Str) (primary : Address) (virtualNodes : Nat)
    (targets : List (Str × Address)) (p : Progress) : Code Progress := do
  match ← call primary (.rebalanceStart shard virtualNodes targets) with
  | .error _ => return p
  | .ok _ => return { p with sent := Function.update p.sent shard (some (primary, targets)) }

/-- Start a source's migration over, stopping one that runs with another plan. -/
def restartSource (shard : Str) (primary : Address) (virtualNodes : Nat)
    (targets : List (Str × Address)) (state : Str) (count : Nat) (p : Progress) :
    Code Progress := do
  if state = text "idle" then startSource shard primary virtualNodes targets p
  else do
    match ← call primary .rebalanceStop with
    | .error _ => return p
    | .ok _ =>
      startSource shard primary virtualNodes targets
        { p with base := Function.update p.base shard (p.base shard + count) }

/-- One source's turn in a polling round: ask how far it is; (re)start it if it was not sent this
plan. A call that fails is tried again in the next round. -/
def pollSource (target : List Str) (shard : Str) (p : Progress) : Code Progress := do
  let m ← read
  match m.config.group? shard, targetsOf m.config target with
  | some group, some targets => do
      match ← call group.primary .rebalanceStatus with
      | .ok (.status state count error) =>
        if p.sent shard ≠ some (group.primary, targets) then
          restartSource shard group.primary m.config.virtualNodes targets state count p
        else if state = text "failed" then
          fail (.cluster (.moveFailed shard error))
        else
          return { p with
            moved := Function.update p.moved shard (p.base shard + count)
            finished := if state = text "done" then p.finished + 1 else p.finished }
      | _ => return p
  | _, _ => fail .internal

/-- One polling round over the sources. -/
def pollAll (target : List Str) : List Str → Progress → Code Progress
  | [], p => return p
  | shard :: rest, p => do
      let p ← pollSource target shard p
      pollAll target rest p

/-- Poll until every source is done. -/
def pollUntilDone (target sources : List Str) : Nat → Progress → Code Progress
  | 0, _ => fail .internal
  | n + 1, p => do
      let p ← pollAll target sources { p with finished := 0 }
      if p.finished = sources.length then return p
      else do
        sleep
        pollUntilDone target sources n p

/-- Stop the redirects of one source after the ring was switched. -/
def stopSource (kept : List ShardGroup) (p : Progress) (shard : Str) : Code Unit :=
  match kept.find? (·.id = shard), p.sent shard with
  | some g, _ => command g.primary .rebalanceStop
  | none, some (address, _) => command address .rebalanceStop
  | none, none => fail .internal

/-- **`_rebalance`**: route by the old ring while keys move, then switch to `target`. -/
def rebalance (target : List Str) : Code Unit := do
  let m ← read
  if m.config.rebalance.isSome then
    fail (.cluster .inProgress)
  else do
    adopt fun c => c.nextEpoch c.shards (some target) c.ringIds
    let sources := (← read).config.ringIds
    let n ← rounds
    let p ← pollUntilDone target sources n .none
    adopt fun c => c.nextEpoch (c.shards.filter (·.id ∈ target)) none target
    let m ← read
    forEach (stopSource (m.config.shards.filter (·.id ∈ target)) p) sources

/-- `add_group`: the new group is added, then its share of the keys is moved to it. -/
def addGroup (group : ShardGroup) : Code Unit := do
  let m ← read
  if group.id ∈ m.config.shards.map ShardGroup.id then
    fail (.cluster (.groupExists group.id))
  else do
    let answered ← probe [group.primary]
    if answered ≠ [true] then fail (.cluster (.notReachable group.primary))
    else do
      adopt fun c => c.nextEpoch (c.shards ++ [group]) c.rebalance c.ringIds
      let m ← read
      rebalance (m.config.ringIds ++ [group.id])

/-- `remove_group`: every key is moved off the group, then the group is dropped. -/
def removeGroup (shard : Str) : Code Unit := do
  let m ← read
  match m.config.group? shard with
  | none => fail .internal
  | some _ => do
      let remaining := m.config.ringIds.filter (· ≠ shard)
      if remaining = [] then fail (.cluster .lastGroup)
      else rebalance remaining

/-- **What the manager is asked to do**: by its own loop, or by an operator. -/
inductive Job
  | tick
  | failover (shard : Str)
  | addGroup (group : ShardGroup)
  | removeGroup (shard : Str)

/-- The program of a job. -/
def Job.code : Job → Code Unit
  | .tick => Manager.tick
  | .failover shard => failoverRequest shard
  | .addGroup group => Manager.addGroup group
  | .removeGroup shard => Manager.removeGroup shard

end Manager

end Cluster

end KvStore
