import KvStore.Cluster.Bystanders
import KvStore.Cluster.World

/-! # The manager's discipline

What each job of the manager may rely on and must keep to, as preconditions of its programs. The
logical state is a `Stage`: whether the job holds the lock, which configuration is in force then, and
whether a promotion was acknowledged that is not published yet. A job

* commands a node only while it holds the lock, and then either under the epoch of the configuration
  in force (and promotes only the primary that the configuration names), or makes the one call of a
  failover, a promotion under the next epoch;
* changes the configuration only while it holds the lock, by one epoch, and publishes a promotion it
  has the acknowledgement of before anything else.

**`Job.disciplined`** says that every job keeps to this, from outside the lock back to outside. -/

namespace KvStore

open List

namespace Cluster

open Manager Prog

/-- **How a job stands to the lock.** -/
inductive Stage
  /-- It does not hold the lock. -/
  | out
  /-- It holds the lock, and `c` is in force. -/
  | holding (c : ClusterConfig)
  /-- It holds the lock, `c` is in force, and `winner` acknowledged its promotion under the next
  epoch. -/
  | owing (c : ClusterConfig) (winner : Address)

/-- A request that only repeats what `c` says, under its epoch. -/
def Request.Repeats (c : ClusterConfig) (node : Address) : Request → Prop
  | .replicaof none e => e = c.epoch ∧ ∃ g ∈ c.shards, g.primary = node
  | .replicaof (some _) e => e = c.epoch
  | _ => True

/-- Inert requests repeat what any configuration says. -/
theorem Request.Inert.repeats {request : Request} (h : request.Inert) {c : ClusterConfig}
    {node : Address} : request.Repeats c node := by
  cases request with
  | replicaof target e => exact h.elim
  | _ => trivial

namespace Stage

/-- What the job knows of the configuration it reads. -/
def Sees : Stage → ClusterConfig → Prop
  | out, _ => True
  | holding c, c' => c' = c
  | owing c _, c' => c' = c

/-- The job may await something other than a call. -/
def Rests : Stage → Prop
  | owing _ _ => False
  | _ => True

/-- The calls the job may make. -/
def Permits : Stage → List Call → Prop
  | out, calls => ∀ call ∈ calls, call.request.Inert
  | holding c, calls => (∀ call ∈ calls, call.request.Repeats c call.node) ∨
      ∃ node note, calls = [⟨node, .replicaof none (c.epoch + 1), note⟩]
  | owing _ _, _ => False

/-- How the job stands once its calls have outcomes. -/
def answered : Stage → List Call → List (Except Failure Reply) → Stage
  | holding c, [⟨node, .replicaof none e, _⟩], [.ok _] =>
    if e = c.epoch + 1 then owing c node else holding c
  | s, _, _ => s

end Stage

/-- **What each operation requires and gives.** -/
def discipline : Spec Manager.Op Manager.Op.Resp Stage where
  pre
    | .read, Q, s => ∀ m : Manager, s.Sees m.config → Q m s
    | .health _, Q, s => Q () s
    | .record _, Q, s => Q () s
    | .clock, Q, s => ∀ t, Q t s
    | .setConfig c', Q, s => match s with
        | .out => False
        | .holding c => c'.epoch = c.epoch + 1 ∧ Q () (.holding c')
        | .owing c winner => (c'.epoch = c.epoch + 1 ∧ ∀ a b, c.Together a b → c'.Together a b) ∧
            (∃ g ∈ c'.shards, g.primary = winner) ∧ Q () (.holding c')
    | .rounds, Q, s => s.Rests ∧ ∀ n, Q n s
    | .sleep, Q, s => s.Rests ∧ Q () s
    | .acquire, Q, s => s = .out ∧ ∀ c, Q () (.holding c)
    | .release, Q, s => (∃ c, s = .holding c) ∧ Q () .out
    | .gather calls, Q, s => s.Permits calls ∧
        ∀ outcomes, outcomes.length = calls.length → Q outcomes (s.answered calls outcomes)
  mono := by
    intro o P P' h s hP
    cases o with
    | read => exact fun m hm => h _ _ (hP m hm)
    | health | record => exact h _ _ hP
    | clock => exact fun t => h _ _ (hP t)
    | setConfig c' =>
      cases s with
      | out => exact hP
      | holding c => exact ⟨hP.1, h _ _ hP.2⟩
      | owing c winner => exact ⟨hP.1, hP.2.1, h _ _ hP.2.2⟩
    | rounds => exact ⟨hP.1, fun n => h _ _ (hP.2 n)⟩
    | sleep | release => exact ⟨hP.1, h _ _ hP.2⟩
    | acquire => exact ⟨hP.1, fun c => h _ _ (hP.2 c)⟩
    | gather calls => exact ⟨hP.1, fun outcomes hlen => h _ _ (hP.2 outcomes hlen)⟩

/-- A program keeps to the discipline and ends as `Q` says. -/
abbrev Keeps {α : Type} (p : Code α) (Q : Except Failure α → Stage → Prop) (s : Stage) : Prop :=
  p.wp discipline Q s

section Rules

variable {α β : Type} {Q : Except Failure α → Stage → Prop} {s : Stage} {c : ClusterConfig}

/-- Loops: an invariant of the elements still to come. -/
theorem Keeps.forEach {body : β → Code Unit} {I : List β → Stage → Prop} {E : Stage → Prop}
    {Q : Except Failure Unit → Stage → Prop} {l : List β} (hs : I l s)
    (hbody : ∀ b rest s, I (b :: rest) s →
      Keeps (body b) (fun r s' => (∀ u, r = .ok u → I rest s') ∧ (∀ e, r = .error e → E s')) s)
    (hok : ∀ s, I [] s → Q (.ok ()) s) (herror : ∀ e s, E s → Q (.error e) s) :
    Keeps (Prog.forEach body l) Q s := by
  refine (wp_forEach hbody hs).mono ?_
  rintro r s' ⟨hI, hE⟩
  cases r with
  | ok u => exact hok s' (hI u rfl)
  | error e => exact herror e s' (hE e rfl)

@[simp] theorem keeps_read_bind {f : Manager → Code α} :
    Keeps (read.bind f) Q s ↔ ∀ m : Manager, s.Sees m.config → Keeps (f m) Q s := Iff.rfl

@[simp] theorem keeps_clock_bind {f : ClusterClock → Code α} :
    Keeps (clock.bind f) Q s ↔ ∀ t, Keeps (f t) Q s := Iff.rfl

@[simp] theorem keeps_rounds_bind {f : Nat → Code α} :
    Keeps (rounds.bind f) Q s ↔ s.Rests ∧ ∀ n, Keeps (f n) Q s := Iff.rfl

@[simp] theorem keeps_setConfig_owing_bind {c' : ClusterConfig} {winner : Address}
    {f : Unit → Code α} : Keeps ((setConfig c').bind f) Q (.owing c winner) ↔
      (c'.epoch = c.epoch + 1 ∧ ∀ a b, c.Together a b → c'.Together a b) ∧
        (∃ g ∈ c'.shards, g.primary = winner) ∧ Keeps (f ()) Q (.holding c') := Iff.rfl

/-- Calls that repeat the configuration leave the job where it is. -/
theorem answered_repeats {calls : List Call} {outcomes : List (Except Failure Reply)}
    (h : ∀ call ∈ calls, call.request.Repeats c call.node) :
    (Stage.holding c).answered calls outcomes = .holding c := by
  unfold Stage.answered
  split
  · rename_i c' node e note r heq
    cases heq
    have hrepeats := h _ mem_cons_self
    rw [if_neg (by rw [hrepeats.1]; omega)]
  · rfl

/-- A promotion under the next epoch that failed leaves the job where it is; one that was
acknowledged is owed to the router. -/
theorem answered_promotion {node : Address}
    {note : Nat → Except Failure Reply → NodeHealth → NodeHealth}
    {outcomes : List (Except Failure Reply)} (hlen : outcomes.length = 1) :
    (Stage.holding c).answered [⟨node, .replicaof none (c.epoch + 1), note⟩] outcomes =
      match outcomes.headD (.error .unavailable) with
      | .ok _ => .owing c node
      | .error _ => .holding c := by
  obtain ⟨r, rfl⟩ := length_eq_one_iff.mp hlen
  cases r with
  | ok reply => exact if_pos rfl
  | error e => rfl

/-- A call that repeats the configuration. -/
theorem keeps_call_repeats {node : Address} {request : Request}
    {Q : Except Failure (Except Failure Reply) → Stage → Prop}
    (h : request.Repeats c node) (hQ : ∀ r, Q (.ok r) (.holding c)) :
    Keeps (Manager.call node request) Q (.holding c) := by
  have hcalls : ∀ call ∈ [(⟨node, request, fun _ _ h => h⟩ : Call)],
      call.request.Repeats c call.node := by
    simpa using h
  refine ⟨.inl hcalls, fun outcomes _ => ?_⟩
  rw [answered_repeats hcalls]
  exact hQ _

/-- **A program that publishes nothing and makes inert calls** leaves the job where it stands. -/
theorem keeps_of_bystands {p : Code α} (hp : p.Uses (Bystands Request.Inert)) (hs : s.Rests) :
    Keeps p (fun _ s' => s' = s) s := by
  induction p with
  | ret | fail => exact rfl
  | op o next ih =>
    obtain ⟨ho, hnext⟩ := hp
    have hgo (r : o.Resp) : Keeps (next r) (fun _ s' => s' = s) s := ih r (hnext r)
    cases o with
    | read => exact fun m _ => hgo m
    | health f | record e => exact hgo ()
    | clock => exact hgo
    | rounds => exact ⟨hs, hgo⟩
    | sleep => exact ⟨hs, hgo ()⟩
    | gather calls =>
      cases s with
      | out => exact ⟨ho, fun outcomes _ => hgo outcomes⟩
      | holding c =>
        have hrepeats : ∀ call ∈ calls, call.request.Repeats c call.node :=
          fun call hcall => (ho call hcall).repeats
        refine ⟨.inl hrepeats, fun outcomes _ => ?_⟩
        rw [answered_repeats hrepeats]
        exact hgo outcomes
      | owing c winner => exact hs.elim
    | setConfig c' | acquire | release => exact ho.elim

/-- What holds the lock releases it, however its body ends. -/
theorem keeps_locked {body : Code α}
    (h : ∀ c, Keeps body (fun _ s => ∃ c', s = .holding c') (.holding c)) :
    Keeps (locked body) (fun _ s => s = .out) .out :=
  wp_locked discipline ⟨rfl, h⟩ fun _ _ hs => ⟨hs, rfl⟩

end Rules

/-! ## Inside the lock -/

/-- The job still holds the lock under the same configuration. -/
abbrev Same {α : Type} (c : ClusterConfig) : Except Failure α → Stage → Prop :=
  fun _ s => s = .holding c

section Inside

variable {c : ClusterConfig} {group : ShardGroup}

theorem keeps_command_repeats {node : Address} {request : Request} (h : request.Repeats c node) :
    Keeps (command node request) (Same c) (.holding c) :=
  (keeps_call_repeats (Q := Same c) h fun _ => rfl).bind (fun _ _ hs => hs) fun _ _ hs => hs

theorem keeps_reconcilePrimary (hg : group ∈ c.shards) :
    Keeps (reconcilePrimary group c.epoch) (Same c) (.holding c) := by
  intro m _
  show Keeps (if (m.health group.primary).any isReplica then _ else _) _ _
  split
  · exact keeps_command_repeats ⟨rfl, group, hg, rfl⟩
  · exact rfl

theorem keeps_reconcileReplica (a : Address) :
    Keeps (reconcileReplica group c.epoch a) (Same c) (.holding c) := by
  intro m _
  show Keeps (if (m.health a).any (strays group.primary) then _ else _) _ _
  split
  · exact keeps_command_repeats rfl
  · exact rfl

theorem keeps_reconcile (hg : group ∈ c.shards) :
    Keeps (reconcile group) (Same c) (.holding c) := by
  rintro m (rfl : m.config = c)
  refine (keeps_reconcilePrimary hg).bind ?_ fun _ _ hs => hs
  rintro _ _ rfl
  refine Keeps.forEach (I := fun _ s => s = .holding m.config)
    (E := fun s => s = .holding m.config) rfl ?_ (fun _ hs => hs) fun _ _ hs => hs
  rintro a rest _ rfl
  exact (keeps_reconcileReplica a).mono fun r s hs => ⟨fun _ _ => hs, fun _ _ => hs⟩

/-- After a failover of `group` the configuration is the one before it, or that with another member
of the group as its primary. -/
def Promoted {α : Type} (c : ClusterConfig) (group : ShardGroup) : Except Failure α → Stage → Prop :=
  fun _ s => s = .holding c ∨
    ∃ winner c', c.withGroup (group.promote winner) = .ok c' ∧ s = .holding c'

theorem keeps_publish {addresses : List Address} {winner : Address} {epoch : Nat} {reason : Str}
    (hg : group ∈ c.shards) (hw : winner ∈ group.members) :
    Keeps (publish group addresses winner epoch reason) (Promoted c group) (.owing c winner) := by
  obtain ⟨c', hc'⟩ := ClusterConfig.withGroup_promotion hg hw
  have hmem : group.promote winner ∈ c'.shards := by
    rw [ClusterConfig.shards_withGroup hc']
    exact mem_map.mpr ⟨group, hg, if_pos rfl⟩
  have hgroup : c'.group? group.id = some (group.promote winner) :=
    ClusterConfig.group?_eq_some hmem
  unfold publish
  simp only [bind_eq, keeps_read_bind]
  rintro m (rfl : m.config = c)
  simp only [hc', keeps_setConfig_owing_bind, keeps_clock_bind]
  have hkept : ∀ a b, m.config.Together a b → c'.Together a b := fun _ _ h => h.promotion hg hw hc'
  refine ⟨⟨ClusterConfig.epoch_withGroup hc', hkept⟩, ⟨_, hmem, rfl⟩, fun now => ?_⟩
  simp only [hgroup]
  refine (keeps_reconcile hmem).bind ?_ ?_
  · rintro _ _ rfl
    exact .inr ⟨winner, c', hc', rfl⟩
  · rintro _ _ rfl
    exact .inr ⟨winner, c', hc', rfl⟩

theorem mem_of_argmax_known {addresses : List Address} {m : Manager} {winner : Address}
    {h : NodeHealth}
    (hmax : (known addresses m).argmax (fun (_, h) => h.offset) = some (winner, h)) :
    winner ∈ addresses := by
  obtain ⟨a, ha, hmap⟩ := mem_filterMap.mp (argmax_mem hmax)
  obtain ⟨h', -, hpair⟩ := Option.map_eq_some_iff.mp hmap
  cases hpair
  exact ha

theorem keeps_promoteBest {addresses : List Address} {reason : Str} (hg : group ∈ c.shards)
    (haddresses : ∀ a ∈ addresses, a ∈ group.members) :
    Keeps (promoteBest group addresses reason) (Promoted c group) (.holding c) := by
  unfold promoteBest
  simp only [bind_eq, keeps_read_bind]
  rintro m (rfl : m.config = c)
  split
  · exact .inl rfl
  · rename_i winner h hmax
    have hwinner : winner ∈ group.members := haddresses _ (mem_of_argmax_known hmax)
    refine ⟨.inr ⟨_, _, rfl⟩, fun outcomes hlen => ?_⟩
    rw [answered_promotion hlen]
    simp only [ret_bind]
    -- an error leaves everything as it was; an acknowledgement is published
    cases outcomes.headD (.error .unavailable) with
    | error e => exact .inl rfl
    | ok reply => exact keeps_publish hg hwinner

theorem keeps_failover {reason : Str} {graceful : Bool} (hg : group ∈ c.shards) :
    Keeps (failover group reason graceful) (Promoted c group) (.holding c) := by
  unfold failover
  simp only [bind_eq, keeps_read_bind]
  rintro m -
  split
  · exact .inl rfl
  · refine (keeps_of_bystands (s := .holding c) (bystands_waitFor _ _ _) trivial).bind ?_
      fun _ _ hs => .inl hs
    rintro _ _ rfl
    exact keeps_promoteBest hg fun a ha => mem_cons_of_mem _ (mem_of_mem_filter ha)

/-- The groups still to come in a round are groups of the configuration in force: a failover of one
group leaves the others as they are. -/
def Remaining (groups : List ShardGroup) (s : Stage) : Prop :=
  (groups.map ShardGroup.id).Nodup ∧ ∃ c, s = .holding c ∧ ∀ g ∈ groups, g ∈ c.shards

theorem remaining_of_promoted {groups : List ShardGroup} {s : Stage}
    (hnodup : ((group :: groups).map ShardGroup.id).Nodup)
    (hmem : ∀ g ∈ group :: groups, g ∈ c.shards)
    (h : Promoted c group (.ok ()) s) : Remaining groups s := by
  have hrest := nodup_cons.mp hnodup
  rcases h with rfl | ⟨winner, c', hc', rfl⟩
  · exact ⟨hrest.2, c, rfl, fun g hg => hmem g (mem_cons_of_mem _ hg)⟩
  · refine ⟨hrest.2, c', rfl, fun g hg => ?_⟩
    have hne : g.id ≠ group.id := fun heq =>
      hrest.1 (heq ▸ mem_map_of_mem hg)
    rw [ClusterConfig.shards_withGroup hc']
    exact mem_map.mpr ⟨g, hmem g (mem_cons_of_mem _ hg), if_neg hne⟩

theorem keeps_tickGroup (hg : group ∈ c.shards) :
    Keeps (tickGroup group) (Promoted c group) (.holding c) := by
  unfold tickGroup
  simp only [bind_eq, keeps_read_bind]
  rintro m (rfl : m.config = c)
  split
  · exact .inl rfl
  · split
    · exact (keeps_failover hg).bind (fun _ _ hs => hs) fun _ _ hs => hs
    · rw [ClusterConfig.group?_eq_some hg]
      exact (keeps_reconcile hg).mono fun _ _ hs => .inl hs

/-- One round over the groups of the configuration in force. -/
theorem keeps_tickGroups :
    Keeps (forEach tickGroup c.shards) (fun _ s => ∃ c', s = .holding c') (.holding c) := by
  refine Keeps.forEach (I := Remaining) (E := fun s => ∃ c', s = .holding c')
    ⟨c.ids_nodup, c, rfl, fun _ hg => hg⟩ ?_ (fun _ ⟨_, c', hs, _⟩ => ⟨c', hs⟩) fun _ _ hs => hs
  rintro g rest _ ⟨hnodup, c, rfl, hmem⟩
  refine (keeps_tickGroup (hmem g mem_cons_self)).mono ?_
  intro r s hs
  refine ⟨fun _ _ => remaining_of_promoted hnodup hmem hs, fun _ _ => ?_⟩
  rcases hs with hs | ⟨-, c', -, hs⟩
  · exact ⟨_, hs⟩
  · exact ⟨_, hs⟩

end Inside

/-! ## Whole jobs -/

/-- The job is outside the lock. -/
abbrev Outside {α : Type} : Except Failure α → Stage → Prop := fun _ s => s = .out

theorem keeps_tick : Keeps tick Outside .out := by
  refine keeps_locked fun c => ?_
  simp only [bind_eq, keeps_read_bind]
  rintro m (rfl : m.config = c)
  refine (keeps_of_bystands (s := .holding m.config) (bystands_probe _) trivial).bind ?_
    fun _ _ hs => ⟨_, hs⟩
  rintro _ _ rfl
  simp only [keeps_read_bind]
  rintro m' (hm' : m'.config = m.config)
  rw [hm']
  exact keeps_tickGroups

theorem keeps_failoverRequest (shard : Str) : Keeps (failoverRequest shard) Outside .out := by
  refine keeps_locked fun c => ?_
  have hheld : ∀ {α : Type} {g : ShardGroup} {r : Except Failure α} {s : Stage},
      Promoted c g r s → ∃ c', s = .holding c' := by
    rintro α g r s (hs | ⟨-, c', -, hs⟩)
    · exact ⟨c, hs⟩
    · exact ⟨c', hs⟩
  simp only [bind_eq, keeps_read_bind]
  rintro m (rfl : m.config = c)
  split
  · exact ⟨_, rfl⟩
  · rename_i g hg
    refine (keeps_failover (ClusterConfig.mem_of_group? hg)).bind ?_ fun _ _ hs => hheld hs
    intro event s hs
    cases event with
    | none | some => exact hheld hs

theorem keeps_adopt {next : ClusterConfig → Except ConfigError ClusterConfig}
    (h : ∀ c c', next c = .ok c' → c'.epoch = c.epoch + 1) : Keeps (adopt next) Outside .out := by
  refine keeps_locked fun c => ?_
  simp only [bind_eq, keeps_read_bind]
  rintro m (rfl : m.config = c)
  split
  · exact ⟨_, rfl⟩
  · rename_i c' hc'
    exact ⟨h _ _ hc', c', rfl⟩

/-- **A rebalance**, from outside the lock. -/
theorem keeps_rebalance (target : List Str) : Keeps (rebalance target) Outside .out := by
  unfold rebalance
  simp only [bind_eq, keeps_read_bind]
  intro m _
  split
  · exact rfl
  · refine (keeps_adopt fun _ _ h => ClusterConfig.epoch_nextEpoch h).bind ?_ fun _ _ hs => hs
    rintro _ _ rfl
    simp only [keeps_read_bind, keeps_rounds_bind]
    refine fun m _ => ⟨trivial, fun n => ?_⟩
    refine (keeps_of_bystands (s := .out) (bystands_pollUntilDone _ _ _ _) trivial).bind ?_
      fun _ _ hs => hs
    rintro p _ rfl
    refine (keeps_adopt fun _ _ h => ClusterConfig.epoch_nextEpoch h).bind ?_ fun _ _ hs => hs
    rintro _ _ rfl
    simp only [keeps_read_bind]
    exact fun m' _ => keeps_of_bystands (s := .out) (uses_forEach (bystands_stopSource _ p) _) trivial

/-- A request to add a group. -/
theorem keeps_addGroup (group : ShardGroup) : Keeps (addGroup group) Outside .out := by
  unfold addGroup
  simp only [bind_eq, keeps_read_bind]
  intro m _
  split
  · exact rfl
  · refine (keeps_of_bystands (s := .out) (bystands_probe _) trivial).bind ?_ fun _ _ hs => hs
    rintro answered _ rfl
    split
    · exact rfl
    · refine (keeps_adopt fun _ _ h => ClusterConfig.epoch_nextEpoch h).bind ?_ fun _ _ hs => hs
      rintro _ _ rfl
      simp only [keeps_read_bind]
      exact fun m' _ => keeps_rebalance _

/-- A request to remove a group. -/
theorem keeps_removeGroup (shard : Str) : Keeps (removeGroup shard) Outside .out := by
  unfold removeGroup
  simp only [bind_eq, keeps_read_bind]
  intro m _
  split
  · exact rfl
  · split
    · exact rfl
    · exact keeps_rebalance _

/-- **Every job keeps to the discipline.** -/
theorem Job.disciplined (job : Job) : Keeps job.code Outside .out := by
  cases job with
  | tick => exact keeps_tick
  | failover shard => exact keeps_failoverRequest shard
  | addGroup group => exact keeps_addGroup group
  | removeGroup shard => exact keeps_removeGroup shard

end Cluster

end KvStore
