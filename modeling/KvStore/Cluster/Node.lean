import KvStore.Cluster.Topology

/-! # A shard node as its cluster manager sees it

The part of `ShardNode` that `REPLICAOF … EPOCH` changes and that `INFO replication` reports: the
node's role, the primary it follows, and the newest epoch it has seen. Requests and replies of the
manager are typed values here; their RESP encoding is not part of this model. -/

namespace KvStore

namespace Cluster

/-- Why a request to the manager is refused (`ClusterError`), with what its text names. -/
inductive ClusterError
  /-- `no healthy replica to promote in {shard!r}` -/
  | noReplica (shard : Str)
  /-- `shard group {id!r} already exists` -/
  | groupExists (id : Str)
  /-- `{primary} is not reachable` -/
  | notReachable (primary : Address)
  /-- `a rebalance is already in progress` -/
  | inProgress
  /-- `cannot remove the last shard group` -/
  | lastGroup
  /-- `moving keys off {shard!r} failed: {error}` -/
  | moveFailed (shard error : Str)
  deriving DecidableEq

/-- Why a call of the manager's client raises a `KVStoreError`. -/
inductive Failure
  /-- No reply: the node could not be reached, or answered too late. -/
  | unavailable
  /-- "stale epoch `epoch`: this node is at epoch `current`" -/
  | staleEpoch (epoch current : Nat)
  /-- Any other error reply. -/
  | refused (message : Str)
  /-- Not an error of a call: an exception in the manager itself (`KeyError`, `ValueError`). -/
  | internal
  | cluster (error : ClusterError)
  deriving DecidableEq

/-- A node's role. A replica has a link to its primary, up or down. -/
inductive NodeRole
  /-- Takes writes. -/
  | primary
  | replica (of : Address) (up : Bool)
  deriving DecidableEq

/-- **A shard node.** -/
structure ShardNode where
  role : NodeRole
  /-- The newest epoch it was commanded under. -/
  epoch : Nat
  /-- Its position in the replication stream. -/
  offset : Nat
  /-- Whether it has a data directory, in which its epoch is saved. -/
  persistent : Bool
  deriving DecidableEq

/-- `INFO replication`, as far as the manager reads it. -/
structure NodeInfo where
  /-- `role`, with `master_host:master_port` and `master_link_status` of a replica. -/
  role : NodeRole
  epoch : Nat
  /-- `slave_repl_offset` or `master_repl_offset`. -/
  offset : Nat
  deriving DecidableEq

/-- What the manager sends. -/
inductive Request
  | info
  /-- `REPLICAOF host port EPOCH epoch`, or `REPLICAOF NO ONE EPOCH epoch`. -/
  | replicaof (target : Option Address) (epoch : Nat)
  | rebalanceStatus
  | rebalanceStop
  /-- `CLUSTER REBALANCE <shard> <virtual-nodes> <id> <address> …`. -/
  | rebalanceStart (shard : Str) (virtualNodes : Nat) (targets : List (Str × Address))
  deriving DecidableEq

/-- What a node replies. -/
inductive Reply
  | ok
  | info (info : NodeInfo)
  /-- The answer to `CLUSTER REBALANCE STATUS`: state, keys moved, error. -/
  | status (state : Str) (moved : Nat) (error : Str)
  deriving DecidableEq

namespace ShardNode

variable {n n' : ShardNode} {target : Option Address} {e : Nat}

/-- `INFO replication`. -/
def info (n : ShardNode) : NodeInfo := ⟨n.role, n.epoch, n.offset⟩

def becomePrimary (n : ShardNode) : ShardNode := { n with role := .primary }

/-- `_become_replica`: a link to that primary is kept, any other is replaced by a new one. -/
def becomeReplica (n : ShardNode) (of : Address) : ShardNode :=
  match n.role with
  | .replica of' _ => if of' = of then n else { n with role := .replica of false }
  | .primary => { n with role := .replica of false }

/-- The role change that `REPLICAOF` asks for. -/
def become (n : ShardNode) : Option Address → ShardNode
  | none => n.becomePrimary
  | some of => n.becomeReplica of

/-- **`REPLICAOF … EPOCH e`**: refused if the node has seen a newer epoch, else the role changes and
the epoch is adopted. -/
def replicaof (n : ShardNode) (target : Option Address) (e : Nat) : Except Failure ShardNode :=
  if e < n.epoch then .error (.staleEpoch e n.epoch)
  else .ok { n.become target with epoch := e }

/-- What a node does with a request. Its answers about a migration are the parameter `answer`. -/
def execute (request : Request) (answer : Except Failure Reply) (n : ShardNode) :
    Except Failure Reply × ShardNode :=
  match request with
  | .info => (.ok (.info n.info), n)
  | .replicaof target e =>
    match n.replicaof target e with
    | .ok n' => (.ok .ok, n')
    | .error f => (.error f, n)
  | .rebalanceStatus | .rebalanceStop | .rebalanceStart _ _ _ => (answer, n)

/-- A process that starts again comes up as a primary, or as a replica if its settings say so, with
the epoch it saved. -/
def restart (n : ShardNode) (replicaof : Option Address) : ShardNode :=
  { n with
    role := match replicaof with
      | none => .primary
      | some of => .replica of false
    epoch := if n.persistent then n.epoch else 0
    offset := 0 }

/-- A node has the role it was commanded to take. -/
theorem role_become_some (n : ShardNode) (of : Address) :
    ∃ up, (n.become (some of)).role = .replica of up := by
  show ∃ up, (n.becomeReplica of).role = .replica of up
  unfold becomeReplica
  split
  · rename_i of' up hrole
    split
    · rename_i heq
      exact ⟨up, by rw [hrole, heq]⟩
    · exact ⟨false, rfl⟩
  · exact ⟨false, rfl⟩

/-- A command under an epoch that is not stale is accepted, and leaves the node at that epoch. -/
theorem replicaof_ok_iff : (n.replicaof target e = .ok n') ↔
    n.epoch ≤ e ∧ n' = { n.become target with epoch := e } := by
  unfold replicaof
  split
  · constructor
    · nofun
    · rintro ⟨hle, -⟩
      omega
  · constructor
    · intro h
      exact ⟨by omega, (Except.ok.inj h).symm⟩
    · rintro ⟨-, rfl⟩
      rfl

/-- A refused command leaves the node as it was. -/
theorem execute_replicaof_error {answer : Except Failure Reply} (h : e < n.epoch) :
    n.execute (.replicaof target e) answer = (.error (.staleEpoch e n.epoch), n) := by
  simp [execute, replicaof, h]

theorem execute_replicaof_ok {answer : Except Failure Reply} (h : n.epoch ≤ e) :
    n.execute (.replicaof target e) answer =
      (.ok .ok, { n.become target with epoch := e }) := by
  have hok : n.replicaof target e = .ok { n.become target with epoch := e } :=
    replicaof_ok_iff.mpr ⟨h, rfl⟩
  simp [execute, hok]

theorem epoch_restart_le (replicaof : Option Address) : (n.restart replicaof).epoch ≤ n.epoch := by
  show (if n.persistent then n.epoch else 0) ≤ n.epoch
  split
  · exact Nat.le_refl _
  · exact Nat.zero_le _

end ShardNode

end Cluster

end KvStore
