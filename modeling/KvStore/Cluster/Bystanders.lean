import KvStore.Cluster.Manager

/-! # Code of the manager that publishes nothing

Most of the manager's code neither publishes a configuration nor concerns the lock: it reads, makes calls and
waits. What such a program may do is said once here, by the calls it makes (`Bystands`), for every condition
that a job has to keep to.

* **`Request.Inert`** — the requests that leave roles and epochs alone.
* **`bystands_probe`**, …, **`bystands_stopSource`** — heartbeats and migrations make inert calls only.
* **`bystands_reconcile`** — corrections make others.
* **`wp_locked`** — what holds the lock releases it, however its body ends. -/

namespace KvStore

namespace Cluster

open Manager Prog

/-- A request that leaves roles and epochs alone. -/
def Request.Inert : Request → Prop
  | .replicaof _ _ => False
  | _ => True

/-- **The operations that neither publish nor concern the lock**, their requests being as `P` says. -/
def Bystands (P : Request → Prop) : Manager.Op → Prop
  | .setConfig _ | .acquire | .release => False
  | .gather calls => ∀ call ∈ calls, P call.request
  | _ => True

/-- Any request. -/
abbrev Request.Any : Request → Prop := fun _ => True

variable {α β : Type} {P : Request → Prop}

/-- What makes inert calls makes calls. -/
theorem bystands_any {p : Code α} (hp : p.Uses (Bystands P)) : p.Uses (Bystands Request.Any) := by
  refine hp.mono fun o ho => ?_
  cases o with
  | setConfig | acquire | release => exact ho
  | gather calls => exact fun _ _ => trivial
  | _ => trivial

/-- A loop does what its body does. -/
theorem uses_forEach {body : β → Code Unit} {P : Manager.Op → Prop} (hbody : ∀ b, (body b).Uses P)
    (l : List β) : (forEach body l).Uses P := by
  induction l with
  | nil => trivial
  | cons b rest ih => exact (hbody b).bind fun _ => ih

/-! ## Calls -/

theorem bystands_call (node : Address) {request : Request} (h : P request) :
    (Manager.call node request).Uses (Bystands P) :=
  ⟨by simpa [Bystands] using h, fun _ => trivial⟩

theorem bystands_command (node : Address) {request : Request} (h : P request) :
    (command node request).Uses (Bystands P) := (bystands_call node h).bind fun _ => trivial

/-- Heartbeats. -/
theorem bystands_probe (addresses : List Address) : (probe addresses).Uses (Bystands Request.Inert) := by
  refine ⟨trivial, fun m => ⟨trivial, fun _ => ⟨fun call hcall => ?_, fun _ => trivial⟩⟩⟩
  obtain ⟨a, -, rfl⟩ := List.mem_map.mp hcall
  trivial

/-- The wait of a requested failover. -/
theorem bystands_waitFor (group : ShardGroup) (addresses : List Address) (graceful : Bool) :
    (waitFor group addresses graceful).Uses (Bystands Request.Inert) := by
  have hwait (n : Nat) : (letReplicasCatchUp group addresses n).Uses (Bystands Request.Inert) := by
    induction n with
    | zero => trivial
    | succ n ih =>
      refine (bystands_probe group.members).bind fun _ => ⟨trivial, fun m => ?_⟩
      exact (uses_ite ..).mpr ⟨fun _ => trivial, fun _ => ⟨trivial, fun _ => ih⟩⟩
  unfold waitFor
  split
  · exact ⟨trivial, hwait⟩
  · trivial

/-- Corrections command nodes. -/
theorem bystands_reconcile (group : ShardGroup) : (reconcile group).Uses (Bystands Request.Any) := by
  have hprimary (epoch : Nat) : (reconcilePrimary group epoch).Uses (Bystands Request.Any) :=
    ⟨trivial, fun _ => (uses_ite ..).mpr ⟨fun _ => bystands_command _ trivial, fun _ => trivial⟩⟩
  have hreplica (epoch : Nat) (address : Address) :
      (reconcileReplica group epoch address).Uses (Bystands Request.Any) :=
    ⟨trivial, fun _ => (uses_ite ..).mpr ⟨fun _ => bystands_command _ trivial, fun _ => trivial⟩⟩
  exact ⟨trivial, fun m => (hprimary _).bind fun _ => uses_forEach (hreplica _) group.replicas⟩

/-! ## Migrations -/

theorem bystands_startSource (shard : Str) (primary : Address) (vn : Nat)
    (targets : List (Str × Address)) (p : Progress) :
    (startSource shard primary vn targets p).Uses (Bystands Request.Inert) :=
  (bystands_call _ trivial).bind fun r => by cases r <;> trivial

/-- One source's turn in a polling round. -/
theorem bystands_pollSource (target : List Str) (shard : Str) (p : Progress) :
    (pollSource target shard p).Uses (Bystands Request.Inert) := by
  refine ⟨trivial, fun m => ?_⟩
  simp only [ret_bind]
  split
  · refine (bystands_call _ trivial).bind fun r => ?_
    split
    · split
      · unfold restartSource
        split
        · exact bystands_startSource _ _ _ _ _
        · refine (bystands_call _ trivial).bind fun r => ?_
          cases r with
          | error e => trivial
          | ok reply => exact bystands_startSource _ _ _ _ _
      · split <;> trivial
    · trivial
  · trivial

/-- The polling rounds. -/
theorem bystands_pollUntilDone (target sources : List Str) (n : Nat) (p : Progress) :
    (pollUntilDone target sources n p).Uses (Bystands Request.Inert) := by
  have hall (shards : List Str) (p : Progress) :
      (pollAll target shards p).Uses (Bystands Request.Inert) := by
    induction shards generalizing p with
    | nil => trivial
    | cons shard rest ih => exact (bystands_pollSource target shard p).bind ih
  induction n generalizing p with
  | zero => trivial
  | succ n ih =>
    refine (hall sources _).bind fun p' => ?_
    exact (uses_ite ..).mpr ⟨fun _ => trivial, fun _ => ⟨trivial, fun _ => ih p'⟩⟩

/-- The redirects are stopped. -/
theorem bystands_stopSource (kept : List ShardGroup) (p : Progress) (shard : Str) :
    (stopSource kept p shard).Uses (Bystands Request.Inert) := by
  unfold stopSource
  split
  · exact bystands_command _ trivial
  · exact bystands_command _ trivial
  · trivial

/-! ## In the lock -/

/-- **What holds the lock releases it**, however its body ends. -/
theorem wp_locked {T : Type} (spec : Spec Manager.Op Manager.Op.Resp T) {body : Code α}
    {R Q : Except Failure α → T → Prop} {s : T}
    (hbody : spec.pre .acquire (fun _ s' => body.wp spec R s') s)
    (hQ : ∀ r s', R r s' → spec.pre .release (fun _ s'' => Q r s'') s') :
    (locked body).wp spec Q s := by
  refine spec.mono .acquire (fun _ s₁ h => ?_) s hbody
  have hattempt : body.attempt.wp spec (fun r s' => ∃ r', r = .ok r' ∧ R r' s') s₁ :=
    (wp_attempt _ _ _).mpr (h.mono fun r s' hR => ⟨r, rfl, hR⟩)
  refine hattempt.bind ?_ ?_
  · rintro r s' ⟨r', hr, hR⟩
    cases hr
    refine spec.mono .release (fun _ s'' hQ' => ?_) s' (hQ r s' hR)
    cases r with
    | ok | error => exact hQ'
  · rintro e s' ⟨r', hr, -⟩
    cases hr

end Cluster

end KvStore
