import KvStore.Cluster.Flights

/-! # Epochs

A promotion is safe if only one node of a group is ever promoted under one epoch, and the manager can command a
node as long as the node has not seen an epoch beyond the manager's own.

* **`World.promoted_unique`** — no two nodes of a group are promoted under one epoch.
* **`World.nodes_commandable`** — no node is ahead of the configuration while the lock is free.

Both hold of the runs in which no promotion of a failover is given up. A reply that is lost breaks both
(`World.lost_reply_promotes_two`, `World.lost_reply_uncommandable`). -/

namespace KvStore

namespace Cluster

open Manager Prog

namespace World

/-! ## Runs that are executed -/

/-- Whether a call is given up. -/
def givesUp : Event → Bool
  | .timeout _ _ => true
  | _ => false

/-- A run in which no call is given up is careful. -/
theorem carefulRun_of_run {events : List Event} {w w' : World} (h : run events w = some w')
    (hno : events.all fun event => !givesUp event) : CarefulRun events w w' := by
  refine (Runs.of_foldlM h).imp fun event hmem {w _} hstep => ⟨?_, hstep⟩
  have hevent := List.all_eq_true.mp hno event hmem
  cases event with
  | timeout i j => cases hevent
  | _ => trivial

/-- One group of three nodes. -/
def trioConfig : ClusterConfig where
  epoch := 0
  shards := [⟨text "shard-1", localNode 1, [localNode 2, localNode 3]⟩]
  virtualNodes := 100
  rebalance := none
  ringIds := [text "shard-1"]
  nonempty := by decide
  ids_nodup := by decide
  members_nodup := by decide
  rings_known := by decide

/-- A manager that has just started, over one group of three nodes that follow their primary. -/
def trio : World where
  manager := ⟨⟨1000, 1000, true⟩, trioConfig, fun _ => none, [], [trioConfig]⟩
  clock := ⟨0, 0⟩
  lock := none
  tasks := fun _ => none
  nodes := fun a =>
    if a = localNode 1 then ⟨.primary, 0, 5, true⟩ else ⟨.replica (localNode 1) true, 0, 5, true⟩
  late := []
  promoted := []

theorem fresh_trio : trio.Fresh := ⟨rfl, fun _ => rfl, rfl, rfl, rfl⟩

/-- A round of job `i` in which the primary does not answer and the replicas do. -/
def deadPrimaryRound (i : Nat) : List Event :=
  [.spawn i .tick, .acquire i, .advance ⟨1000, 1000⟩, .deliver i 1 (.ok .ok), .answer i 1,
    .deliver i 2 (.ok .ok), .answer i 2, .lose i 0, .resume i]

/-- A failover: the primary is silent for long, the second node is promoted. -/
def failoverRun : List Event :=
  deadPrimaryRound 0 ++ [.deliver 0 0 (.ok .ok), .answer 0 0, .resume 0]

/-- A failover whose reply is lost, and the next round. -/
def lostReplyRun : List Event :=
  deadPrimaryRound 0 ++ [.deliver 0 0 (.ok .ok), .timeout 0 0, .resume 0]

/-- Only the holder of the lock commands nodes. -/
theorem Inv.lock_of_command {w : World} {bounded : Prop} {i j : Nat} {f : Flight}
    {target : Option Address} {e : Nat} (h : w.Inv bounded) (hf : w.flight? i j = some f)
    (hrequest : f.call.request = .replicaof target e) : w.lock = some i := by
  obtain ⟨t, ht, -, hmem⟩ := h.call_mem hf
  obtain ⟨⟨s, hkeeps, hstands⟩, -⟩ := h.tasks i t ht
  obtain ⟨next, hrest⟩ := gather_of_mem_callsOf hmem
  cases s with
  | out =>
    rw [hrest] at hkeeps
    have hinert := hkeeps.1 f.call hmem
    rw [hrequest] at hinert
    exact hinert.elim
  | holding c => exact hstands.1
  | owing c a => exact hstands.elim

/-- While a command under the epoch in force is under way, no node is ahead of that epoch. -/
theorem Inv.quiet_of_command {w : World} {bounded : Prop} {i j : Nat} {f : Flight}
    {target : Option Address} (h : w.Inv bounded) (hf : w.flight? i j = some f)
    (hrequest : f.call.request = .replicaof target w.manager.config.epoch) :
    w.IsQuiet bounded none := by
  obtain ⟨t, ht, -, hmem⟩ := h.call_mem hf
  refine h.quiet_of_holder ht (h.lock_of_command hf hrequest) ?_
  rintro a ⟨note, status, hcalls, -⟩
  rw [hcalls] at hmem
  rw [List.mem_singleton.mp hmem] at hrequest
  injection hrequest with _ heq
  omega

/-! ## One primary per epoch -/

/-- **One primary per epoch.** In every run of the manager in which no promotion of a failover is
given up, two nodes that were in one group in every configuration never both accept a promotion under
the same epoch. -/
theorem promoted_unique {events : List Event} {w w' : World} (hfresh : w.Fresh)
    (hrun : CarefulRun events w w') {a b : Address} {e : Nat}
    (hgroup : ∀ c ∈ w'.manager.adopted, ∃ g ∈ c.shards, a ∈ g.members ∧ b ∈ g.members)
    (ha : (a, e) ∈ w'.promoted) (hb : (b, e) ∈ w'.promoted) : a = b := by
  have hinv : w'.Inv False := hrun.inv (hfresh.inv nofun)
  obtain ⟨exception, hquiet, -⟩ := hinv.orderly
  rcases hquiet.1 a e ha with ⟨c, hc, rfl, g, hg, rfl⟩ | ⟨hea, rfl⟩
  · rcases hquiet.1 b c.epoch hb with ⟨c', hc', heq, g', hg', rfl⟩ | ⟨-, heq⟩
    · -- both are named by the one configuration of that epoch
      cases hinv.history.unique hc' hc heq
      obtain ⟨g₀, hg₀, hag, hbg⟩ := hgroup c hc
      rw [ClusterConfig.eq_of_mem_members hg hg₀ List.mem_cons_self hag,
        ClusterConfig.eq_of_mem_members hg' hg₀ List.mem_cons_self hbg]
    · have := hinv.history.epoch_le hc
      omega
  · rcases hquiet.1 b _ hb with ⟨c', hc', heq, -⟩ | ⟨heb, -⟩
    · have := hinv.history.epoch_le hc'
      omega
    · exact Option.some.inj (hea.symm.trans heb)

/-- A failover in the group of three: only the second node is promoted under epoch 1. -/
theorem promoted_unique_trio : ∃ w', CarefulRun failoverRun trio w' ∧
    (localNode 2, 1) ∈ w'.promoted ∧
    ((localNode 3, 1) ∈ w'.promoted → localNode 3 = localNode 2) := by
  have hrun : (run failoverRun trio).any (fun w' => (localNode 2, 1) ∈ w'.promoted ∧
      ∀ c ∈ w'.manager.adopted, ∃ g ∈ c.shards,
        localNode 3 ∈ g.members ∧ localNode 2 ∈ g.members) = true := by
    decide +kernel
  obtain ⟨w', hw', hall⟩ := (Option.any_eq_true _ _).mp hrun
  obtain ⟨hmem, hgroup⟩ := of_decide_eq_true hall
  have hcareful : CarefulRun failoverRun trio w' := carefulRun_of_run hw' (by decide)
  exact ⟨w', hcareful, hmem, fun hmem' => promoted_unique fresh_trio hcareful hgroup hmem' hmem⟩

/-- The reply to a promotion is lost, and the next round promotes another node: two nodes of one
group were promoted under epoch 1. -/
theorem lost_reply_promotes_two : trio.Fresh ∧ ∃ w',
    Runs (fun event w w' => w.step event = some w')
      (lostReplyRun ++ deadPrimaryRound 1 ++ [.deliver 1 0 (.ok .ok), .answer 1 0, .resume 1])
      trio w' ∧
    (∀ c ∈ w'.manager.adopted, ∃ g ∈ c.shards, localNode 2 ∈ g.members ∧ localNode 3 ∈ g.members) ∧
    (localNode 2, 1) ∈ w'.promoted ∧ (localNode 3, 1) ∈ w'.promoted ∧
    localNode 2 ≠ localNode 3 := by
  have hrun : (run (lostReplyRun ++ deadPrimaryRound 1 ++
      [.deliver 1 0 (.ok .ok), .answer 1 0, .resume 1]) trio).any (fun w' =>
        (∀ c ∈ w'.manager.adopted, ∃ g ∈ c.shards,
          localNode 2 ∈ g.members ∧ localNode 3 ∈ g.members) ∧
        (localNode 2, 1) ∈ w'.promoted ∧ (localNode 3, 1) ∈ w'.promoted) = true := by
    decide +kernel
  obtain ⟨w', hw', hall⟩ := (Option.any_eq_true _ _).mp hrun
  obtain ⟨hgroup, hfirst, hsecond⟩ := of_decide_eq_true hall
  exact ⟨fresh_trio, w', .of_foldlM hw', hgroup, hfirst, hsecond, by decide⟩

/-! ## Nodes can be commanded -/

/-- **The manager can always command its nodes.** In every state of every run in which no promotion
of a failover is given up, from nodes that are not ahead of the configuration: while the lock is
free no node's epoch is beyond the configuration's; a command of `_reconcile` that is under way will
not be refused; and while the lock is free every node of a group can be brought to the role the
configuration gives it. -/
theorem nodes_commandable {events : List Event} {w w' : World} (hfresh : w.Fresh)
    (hepochs : ∀ a, (w.nodes a).epoch ≤ w.manager.config.epoch) (hrun : CarefulRun events w w') :
    (w'.lock = none → ∀ a, (w'.nodes a).epoch ≤ w'.manager.config.epoch) ∧
    (∀ i j f target, w'.flight? i j = some f →
      f.call.request = .replicaof target w'.manager.config.epoch →
      ∃ n, (w'.nodes f.call.node).replicaof target w'.manager.config.epoch = .ok n) ∧
    (w'.lock = none → ∀ g ∈ w'.manager.config.shards,
      (∃ n, (w'.nodes g.primary).replicaof none w'.manager.config.epoch = .ok n ∧
        n.role = .primary) ∧
      ∀ r ∈ g.replicas, ∃ n up,
        (w'.nodes r).replicaof (some g.primary) w'.manager.config.epoch = .ok n ∧
          n.role = .replica g.primary up) := by
  have hinv : w'.Inv True := hrun.inv (hfresh.inv fun _ => hepochs)
  have hle : w'.IsQuiet True none → ∀ a, (w'.nodes a).epoch ≤ w'.manager.config.epoch := by
    intro hquiet a
    rcases hquiet.2 trivial a with hle | ⟨hnone, -⟩
    · exact hle
    · cases hnone
  refine ⟨fun hlock => hle (hinv.quiet_of_free hlock), ?_, ?_⟩
  · intro i j f target hf hrequest
    exact ⟨_, ShardNode.replicaof_ok_iff.mpr
      ⟨hle (hinv.quiet_of_command hf hrequest) f.call.node, rfl⟩⟩
  · intro hlock g _
    have hepoch := hle (hinv.quiet_of_free hlock)
    refine ⟨⟨_, ShardNode.replicaof_ok_iff.mpr ⟨hepoch g.primary, rfl⟩, rfl⟩, fun r _ => ?_⟩
    obtain ⟨up, hup⟩ := (w'.nodes r).role_become_some g.primary
    exact ⟨_, up, ShardNode.replicaof_ok_iff.mpr ⟨hepoch r, rfl⟩, hup⟩

/-- After a whole failover in the group of three no node is ahead of the configuration. -/
theorem nodes_commandable_trio : ∃ w',
    CarefulRun (failoverRun ++ [.deliver 0 0 (.ok .ok), .answer 0 0, .resume 0]) trio w' ∧
    w'.lock = none ∧ w'.manager.config.epoch = 1 ∧
    ∀ a, (w'.nodes a).epoch ≤ w'.manager.config.epoch := by
  have hrun : (run (failoverRun ++ [.deliver 0 0 (.ok .ok), .answer 0 0, .resume 0]) trio).any
      (fun w' => w'.lock = none ∧ w'.manager.config.epoch = 1) = true := by
    decide +kernel
  obtain ⟨w', hw', hall⟩ := (Option.any_eq_true _ _).mp hrun
  obtain ⟨hlock, hepoch⟩ := of_decide_eq_true hall
  have hcareful : CarefulRun (failoverRun ++ [.deliver 0 0 (.ok .ok), .answer 0 0, .resume 0])
      trio w' := carefulRun_of_run hw' (by decide)
  have hepochs : ∀ a, (trio.nodes a).epoch ≤ trio.manager.config.epoch := by
    intro a
    show (if a = localNode 1 then _ else _ : ShardNode).epoch ≤ 0
    split <;> exact Nat.le_refl 0
  exact ⟨w', hcareful, hlock, hepoch, (nodes_commandable fresh_trio hepochs hcareful).1 hlock⟩

/-- After the reply to a promotion was lost the lock is free, and the promoted node is ahead of the
configuration: it refuses to be told to follow the primary that the configuration names. -/
theorem lost_reply_uncommandable : trio.Fresh ∧
    (∀ a, (trio.nodes a).epoch ≤ trio.manager.config.epoch) ∧ ∃ w',
    Runs (fun event w w' => w.step event = some w') lostReplyRun trio w' ∧ w'.lock = none ∧
    w'.manager.config.epoch < (w'.nodes (localNode 2)).epoch ∧
    (w'.nodes (localNode 2)).replicaof (some (localNode 1)) w'.manager.config.epoch =
      .error (.staleEpoch 0 1) := by
  have hrun : (run lostReplyRun trio).any (fun w' => w'.lock = none ∧
      w'.manager.config.epoch = 0 ∧ (w'.nodes (localNode 2)).epoch = 1) = true := by
    decide +kernel
  obtain ⟨w', hw', hall⟩ := (Option.any_eq_true _ _).mp hrun
  obtain ⟨hlock, hconfig, hepoch⟩ := of_decide_eq_true hall
  refine ⟨fresh_trio, fun a => ?_, w', .of_foldlM hw', hlock, by omega, ?_⟩
  · show (if a = localNode 1 then _ else _ : ShardNode).epoch ≤ 0
    split <;> exact Nat.le_refl 0
  · unfold ShardNode.replicaof
    rw [hconfig, hepoch]
    rfl

end World

end Cluster

end KvStore
