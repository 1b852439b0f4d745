import KvStore.Cluster.Rebalance

/-! # Resizes that fail

`add_group` and `remove_group` publish up to three configurations, and nothing takes one back when a later
part of the request raises. Here a request is followed to the error it raises:

* **`Session`** — the manager during one request, with nothing else going on: its calls have the outcomes
  that a `Script` gives. **`failed_resize`** says exactly which errors leave the groups, the ring and the
  rebalance as they were: those raised before the first `set_config` of the request (`Resize.Refused`);
* the same theorem says that, among any other jobs, a request changes nothing before it has got the lock. -/

namespace KvStore

open List

/-- What a resize changes of a configuration: groups, ring and rebalance. -/
def ClusterConfig.layout (c : ClusterConfig) : List ShardGroup × List Str × Option (List Str) :=
  (c.shards, c.ringIds, c.rebalance)

namespace Cluster

open Manager Prog

/-! ## A request by itself -/

/-- What the outside says to a request: the outcomes of its calls, how often its loops go round, and the
time. -/
structure Script where
  /-- The outcomes of the calls of an `asyncio.gather`. -/
  outcomes : Nat → List (Except Failure Reply)
  /-- How often a loop goes round. -/
  rounds : Nat → Nat
  clock : Nat → ClusterClock

/-- **The manager during one request.** -/
structure Session where
  manager : Manager
  /-- How often the outside has been asked. -/
  asked : Nat

namespace Session

/-- The outcomes of calls are noted of their nodes. -/
def noteAll (now : Nat) (calls : List Call) (outcomes : List (Except Failure Reply))
    (health : Address → Option NodeHealth) : Address → Option NodeHealth :=
  (calls.zip outcomes).foldl (fun health p =>
    Function.update health p.1.node ((health p.1.node).map (p.1.note now p.2))) health

/-- **What the manager's code does**, if it is not interrupted. -/
def exec (script : Script) : (o : Manager.Op) → Session → o.Resp × Session
  | .read, s => (s.manager, s)
  | .health f, s =>
    ((), { s with manager := { s.manager with
      health := f (script.clock s.asked).monotonic s.manager.health } })
  | .setConfig c, s =>
    ((), { s with manager := { s.manager with config := c, adopted := s.manager.adopted ++ [c] } })
  | .record e, s =>
    ((), { s with manager := { s.manager with events := s.manager.events ++ [e] } })
  | .clock, s => (script.clock s.asked, { s with asked := s.asked + 1 })
  | .rounds, s => (script.rounds s.asked, { s with asked := s.asked + 1 })
  | .acquire, s => ((), s)
  | .release, s => ((), s)
  | .gather calls, s =>
    (script.outcomes s.asked,
      { manager := { s.manager with
          health := noteAll (script.clock s.asked).monotonic calls (script.outcomes s.asked)
            s.manager.health }
        asked := s.asked + 1 })
  | .sleep, s => ((), s)

variable {script : Script} {s s' : Session} {α : Type}

/-- Programs that publish nothing leave the configuration. -/
theorem config_run {P : Request → Prop} {p : Code α} (hp : p.Uses (Bystands P)) (s : Session) :
    (p.run (exec script) s).2.manager.config = s.manager.config := by
  refine run_invariant (P := Bystands P) (f := exec script)
    (I := fun s' => s'.manager.config = s.manager.config) (fun o s' ho h => ?_) hp rfl
  cases o with
  | setConfig c => exact ho.elim
  | _ => exact h

/-- A program that publishes nothing, and what it ends in. -/
theorem config_of_run {P : Request → Prop} {p : Code α} (hp : p.Uses (Bystands P)) {r : Except Failure α}
    (h : p.run (exec script) s = (r, s')) : s'.manager.config = s.manager.config := by
  have hconfig : (p.run (exec script) s).2.manager.config = s.manager.config := config_run hp s
  rwa [h] at hconfig

/-- A configuration is published, if it can be built. -/
theorem run_adopt (next : ClusterConfig → Except ConfigError ClusterConfig) (s : Session) :
    (adopt next).run (exec script) s = match next s.manager.config with
      | .error _ => (.error .internal, s)
      | .ok c => (.ok (), { s with manager := { s.manager with
          config := c, adopted := s.manager.adopted ++ [c] } }) := by
  have hbody : ∀ x : Except ConfigError ClusterConfig,
      (((match x with
        | .error _ => fail .internal
        | .ok c => setConfig c : Code Unit).attempt.bind fun r =>
          (perform Op.release).bind fun _ => ofExcept r : Code Unit)).run (exec script) s = match x with
        | .error _ => (.error .internal, s)
        | .ok c => (.ok (), { s with manager := { s.manager with
            config := c, adopted := s.manager.adopted ++ [c] } }) := by
    intro x
    cases x <;> rfl
  exact hbody (next s.manager.config)

/-- It is not, and an exception is raised. -/
theorem adopt_error {next : ClusterConfig → Except ConfigError ClusterConfig} {e : Failure}
    (h : (adopt next).run (exec script) s = (.error e, s')) :
    (∃ err, next s.manager.config = .error err) ∧ s' = s := by
  rw [run_adopt] at h
  split at h
  case h_1 err heq => exact ⟨⟨err, heq⟩, (Prod.mk.inj h).2.symm⟩
  case h_2 => exact absurd (Prod.mk.inj h).1 nofun

theorem adopt_ok {next : ClusterConfig → Except ConfigError ClusterConfig} {u : Unit}
    (h : (adopt next).run (exec script) s = (.ok u, s')) : next s.manager.config = .ok s'.manager.config := by
  rw [run_adopt] at h
  split at h
  case h_1 => exact absurd (Prod.mk.inj h).1 nofun
  case h_2 c heq =>
    obtain ⟨-, rfl⟩ := Prod.mk.inj h
    exact heq

end Session

/-! ## Requests -/

/-- The requests that resize the cluster. -/
inductive Resize
  | add (group : ShardGroup)
  | remove (shard : Str)

namespace Resize

/-- The job of the request. -/
def job : Resize → Job
  | .add group => .addGroup group
  | .remove shard => .removeGroup shard

/-- Whether the primary of a new group answers the probe, which is the first call of the request. -/
def Answers (script : Script) : Prop := (script.outcomes 0).map Except.isOk = [true]

/-- **The request is refused before its first `set_config`.** For a new group: its name is taken, its primary
does not answer, or the configuration with it is ill-formed. For a removal: there is no such group, it is the
last one of the ring, or a rebalance is in progress. -/
def Refused (script : Script) (m : Manager) : Resize → Prop
  | .add group =>
    group.id ∈ m.config.shards.map ShardGroup.id ∨ ¬ Answers script ∨
      ∃ err, m.config.nextEpoch (m.config.shards ++ [group]) m.config.rebalance m.config.ringIds = .error err
  | .remove shard =>
    m.config.group? shard = none ∨ m.config.ringIds.filter (· ≠ shard) = [] ∨
      m.config.rebalance.isSome = true

end Resize

section Moves

variable {script : Script} {s s' : Session} {target : List Str} {err : Failure}

theorem layout_nextEpoch {c c' : ClusterConfig} {shards : List ShardGroup} {rebalance : Option (List Str)}
    {ring : List Str} (h : c.nextEpoch shards rebalance ring = .ok c') :
    c'.layout = (shards, ClusterConfig.ringOr shards ring, rebalance) := by
  unfold ClusterConfig.nextEpoch ClusterConfig.make at h
  split_ifs at h
  cases h
  rfl

/-- **A rebalance that fails**: at its first `set_config`, while keys move, or when the ring has been switched. -/
theorem layout_move (h : (move target).run (Session.exec script) s = (.error err, s')) :
    ((∃ e, s.manager.config.nextEpoch s.manager.config.shards (some target) s.manager.config.ringIds = .error e) ∧
      s'.manager.config = s.manager.config) ∨
    s'.manager.config.layout = (s.manager.config.shards,
      ClusterConfig.ringOr s.manager.config.shards s.manager.config.ringIds, some target) ∨
    s'.manager.config.layout = (s.manager.config.shards.filter (·.id ∈ target),
      ClusterConfig.ringOr (s.manager.config.shards.filter (·.id ∈ target)) target, none) := by
  rcases run_bind_eq_error h with hfirst | ⟨_, s₁, hfirst, h⟩
  · obtain ⟨herror, rfl⟩ := Session.adopt_error hfirst
    exact .inl ⟨herror, rfl⟩
  have hlayout := layout_nextEpoch (Session.adopt_ok hfirst)
  have hshards := (ClusterConfig.make_ok (Session.adopt_ok hfirst)).2
  refine .inr ?_
  -- the polling publishes nothing
  rcases run_bind_eq_error (p := pollUntilDone target s₁.manager.config.ringIds (script.rounds s₁.asked) .none) h
    with hpoll | ⟨p, s₂, hpoll, h⟩
  · left
    rw [Session.config_of_run (bystands_pollUntilDone _ _ _ _) hpoll]
    exact hlayout
  have hpolled : s₂.manager.config = s₁.manager.config :=
    (Session.config_of_run (bystands_pollUntilDone _ _ _ _) hpoll).trans rfl
  rcases run_bind_eq_error h with hsecond | ⟨_, s₃, hsecond, h⟩
  · left
    obtain ⟨-, rfl⟩ := Session.adopt_error hsecond
    rw [hpolled]
    exact hlayout
  · right
    have hswitched := layout_nextEpoch (Session.adopt_ok hsecond)
    rw [hpolled, hshards] at hswitched
    have hstop := Session.config_of_run
      (p := forEach (stopSource (s₃.manager.config.shards.filter (·.id ∈ target)) p) s₁.manager.config.ringIds)
      (uses_forEach (bystands_stopSource _ _) _) h
    rw [hstop]
    exact hswitched

/-- What `add_group` does when the new primary was probed. -/
def Manager.entry (group : ShardGroup) (answered : List Bool) : Code Unit :=
  if answered ≠ [true] then fail (.cluster (.notReachable group.primary))
  else (adopt fun c => c.nextEpoch (c.shards ++ [group]) c.rebalance c.ringIds).bind fun _ =>
    Manager.read.bind fun m => rebalance (m.config.ringIds ++ [group.id])

/-- Once a group was added, the layout is another one, whatever the rebalance ends in. -/
theorem added_stays {m : Manager} {group : ShardGroup}
    (hadded : m.config.nextEpoch (m.config.shards ++ [group]) m.config.rebalance m.config.ringIds =
      .ok s.manager.config)
    (h : (Manager.read.bind fun m => rebalance (m.config.ringIds ++ [group.id])).run (Session.exec script) s =
      (.error err, s')) : s'.manager.config.layout ≠ m.config.layout := by
  intro hsame
  have hlayout := layout_nextEpoch hadded
  have hlonger : m.config.shards ++ [group] ≠ m.config.shards := by simp
  have hshards : s.manager.config.shards = m.config.shards ++ [group] := congrArg (·.1) hlayout
  have hring : s.manager.config.ringIds = ClusterConfig.ringOr (m.config.shards ++ [group]) m.config.ringIds :=
    congrArg (·.2.1) hlayout
  replace h : (if s.manager.config.rebalance.isSome then
      (fail (.cluster .inProgress) : Code Unit)
    else move (s.manager.config.ringIds ++ [group.id])).run (Session.exec script) s = (.error err, s') := h
  rw [run_ite] at h
  split at h
  · -- refused after all: the group stays
    obtain ⟨-, rfl⟩ := Prod.mk.inj h
    exact hlonger (hshards.symm.trans (congrArg (·.1) hsame))
  · rcases layout_move h with ⟨-, hconfig⟩ | hmoving | hswitched
    · rw [hconfig] at hsame
      exact hlonger (hshards.symm.trans (congrArg (·.1) hsame))
    · rw [hmoving] at hsame
      exact hlonger (hshards.symm.trans (congrArg (·.1) hsame))
    · rw [hswitched] at hsame
      -- the ring has one group more
      have htarget : s.manager.config.ringIds ++ [group.id] = m.config.ringIds := by
        have hr : ClusterConfig.ringOr _ (s.manager.config.ringIds ++ [group.id]) = m.config.ringIds :=
          congrArg (·.2.1) hsame
        rwa [ClusterConfig.ringOr, if_neg (by simp)] at hr
      have hne : m.config.ringIds ≠ [] := by
        rw [← htarget]
        simp
      rw [hring, ClusterConfig.ringOr, if_neg hne] at htarget
      simp at htarget

/-- Once a removal has passed its checks, the layout is another one, whatever the rebalance ends in. -/
theorem removal_starts {m : Manager} {n : Nat} {shard : Str} {group : ShardGroup}
    (hgroup : m.config.group? shard = some group) (hidle : ¬ m.config.rebalance.isSome = true)
    (h : (move (m.config.ringIds.filter (· ≠ shard))).run (Session.exec script) ⟨m, n⟩ = (.error err, s')) :
    s'.manager.config.layout ≠ m.config.layout := by
  intro hsame
  rcases layout_move h with ⟨⟨e, herror⟩, -⟩ | hmoving | hswitched
  · -- the target names groups that exist
    obtain ⟨c, hc⟩ : ∃ c, ClusterConfig.make (m.config.epoch + 1) m.config.shards m.config.virtualNodes
        (some (m.config.ringIds.filter (· ≠ shard))) m.config.ringIds = .ok c :=
      ClusterConfig.exists_make m.config.nonempty
      m.config.ids_nodup m.config.members_nodup (by
        intro id hid
        rcases mem_append.mp hid with hid | hid
        · unfold ClusterConfig.ringOr at hid
          split at hid
          · exact hid
          · exact m.config.rings_known id (mem_append_left _ hid)
        · exact m.config.rings_known id (mem_append_left _ (mem_of_mem_filter hid)))
    rw [ClusterConfig.nextEpoch, hc] at herror
    exact absurd herror nofun
  · rw [hmoving] at hsame
    have hrebalance : some (m.config.ringIds.filter (· ≠ shard)) = m.config.rebalance := congrArg (·.2.2) hsame
    rw [← hrebalance] at hidle
    exact hidle rfl
  · rw [hswitched] at hsame
    have hshards : m.config.shards.filter (·.id ∈ m.config.ringIds.filter (· ≠ shard)) = m.config.shards :=
      congrArg (·.1) hsame
    have hmem := ClusterConfig.mem_of_group? hgroup
    have hid : group.id = shard := by simpa using find?_some hgroup
    rw [← hshards] at hmem
    -- the group is not one of those that are kept
    simp [hid] at hmem

/-- **A request that fails changes the layout, unless it is refused at first.** -/
theorem layout_of_error {m : Manager} {r : Resize}
    (h : r.job.code.run (Session.exec script) ⟨m, 0⟩ = (.error err, s')) :
    s'.manager.config.layout = m.config.layout ↔ r.Refused script m := by
  cases r with
  | add group =>
    replace h : (if group.id ∈ m.config.shards.map ShardGroup.id then
        fail (.cluster (.groupExists group.id))
      else (probe [group.primary]).bind (entry group)).run (Session.exec script) ⟨m, 0⟩ = (.error err, s') := h
    rw [run_ite] at h
    split at h
    case isTrue hexists =>
      obtain ⟨-, rfl⟩ := Prod.mk.inj h
      exact iff_of_true rfl (.inl hexists)
    case isFalse hexists =>
    rcases run_bind_eq_error h with hprobe | ⟨answered, s₁, hprobe, h⟩
    · exact absurd (Prod.mk.inj hprobe).1 (by simp)
    have hsame : s₁.manager.config = m.config := Session.config_of_run (bystands_probe _) hprobe
    have hanswered : answered = (script.outcomes 0).map Except.isOk :=
      (Except.ok.inj (Prod.mk.inj hprobe).1).symm
    rw [entry, run_ite] at h
    split at h
    case isTrue hsilent =>
      obtain ⟨-, rfl⟩ := Prod.mk.inj h
      refine iff_of_true (by rw [hsame]) (.inr (.inl ?_))
      rwa [Resize.Answers, ← hanswered]
    case isFalse hreached =>
    rcases run_bind_eq_error h with hadd | ⟨_, s₂, hadd, h⟩
    · obtain ⟨herror, rfl⟩ := Session.adopt_error hadd
      rw [hsame] at herror
      exact iff_of_true (by rw [hsame]) (.inr (.inr herror))
    -- the group is in the configuration, and the request goes on
    have hadded := Session.adopt_ok hadd
    rw [hsame] at hadded
    refine iff_of_false (added_stays hadded h) ?_
    · rintro (h' | h' | ⟨e, h'⟩)
      · exact hexists h'
      · rw [Resize.Answers, ← hanswered] at h'
        exact hreached h'
      · rw [hadded] at h'
        exact absurd h' (by simp)
  | remove shard =>
    simp only [Resize.job, Job.code, removeGroup, Manager.read, bind_eq, perform_bind, run_op,
      Session.exec] at h
    cases hgroup : m.config.group? shard with
    | none =>
      rw [hgroup] at h
      obtain ⟨-, rfl⟩ := Prod.mk.inj h
      exact iff_of_true rfl (.inl hgroup)
    | some group =>
      rw [hgroup] at h
      replace h : (if m.config.ringIds.filter (· ≠ shard) = [] then
          (fail (.cluster .lastGroup) : Code Unit)
        else rebalance (m.config.ringIds.filter (· ≠ shard))).run (Session.exec script) ⟨m, 0⟩ =
          (.error err, s') := h
      rw [run_ite] at h
      split at h
      case isTrue hlast =>
        obtain ⟨-, rfl⟩ := Prod.mk.inj h
        exact iff_of_true rfl (.inr (.inl hlast))
      case isFalse hlast =>
      rw [rebalance_eq] at h
      replace h : (if m.config.rebalance.isSome then
          (fail (.cluster .inProgress) : Code Unit)
        else move (m.config.ringIds.filter (· ≠ shard))).run (Session.exec script) ⟨m, 0⟩ =
          (.error err, s') := h
      rw [run_ite] at h
      split at h
      case isTrue hbusy =>
        obtain ⟨-, rfl⟩ := Prod.mk.inj h
        exact iff_of_true rfl (.inr (.inr hbusy))
      case isFalse hidle =>
      refine iff_of_false (removal_starts hgroup hidle h) ?_
      rintro (h' | h' | h')
      · rw [hgroup] at h'
        exact absurd h' (by simp)
      · exact hlast h'
      · exact hidle h'

end Moves

/-! ## Among other jobs -/

/-- Up to the point where it waits for the lock, the program publishes nothing. -/
def Preliminary : Code Unit → Prop
  | .ret _ | .fail _ | .op .acquire _ => True
  | .op o next => Bystands Request.Any o ∧ ∀ r, Preliminary (next r)

section Preliminary

theorem Preliminary.bind {α : Type} {p : Code α} (hp : p.Uses (Bystands Request.Any)) {f : α → Code Unit}
    (hf : ∀ a, Preliminary (f a)) : Preliminary (p.bind f) := by
  induction p with
  | ret a => exact hf a
  | fail e => trivial
  | op o next ih =>
    have hnext : ∀ r, Preliminary ((next r).bind f) := fun r => ih r (hp.2 r)
    cases o with
    | acquire => exact hp.1.elim
    | _ => exact ⟨hp.1, hnext⟩

theorem preliminary_rebalance (target : List Str) : Preliminary (rebalance target) := by
  refine ⟨trivial, fun m => ?_⟩
  show Preliminary (if m.config.rebalance.isSome then fail _ else move target)
  split <;> trivial

theorem preliminary_resize (r : Resize) : Preliminary r.job.code := by
  cases r with
  | add group =>
    refine ⟨trivial, fun m => ?_⟩
    show Preliminary (if group.id ∈ m.config.shards.map ShardGroup.id then fail _
      else (probe [group.primary]).bind (entry group))
    split
    · trivial
    · refine Preliminary.bind (bystands_any (bystands_probe _)) fun answered => ?_
      unfold entry
      split <;> trivial
  | remove shard =>
    refine ⟨trivial, fun m => ?_⟩
    simp only [ret_bind]
    split
    · trivial
    · split
      · trivial
      · exact preliminary_rebalance _

end Preliminary

/-- The job that an event is about. -/
def Event.job? : Event → Option Nat
  | .spawn i _ | .acquire i | .choose i _ | .wake i | .deliver i _ _ | .answer i _ | .timeout i _
  | .lose i _ | .resume i => some i
  | .straggle _ _ | .advance _ | .progress _ _ _ | .restart _ _ => none

namespace World

variable {w w' : World} {i : Nat}

theorem settle_preliminary {p : Code Unit} (hp : Preliminary p) (w : World) :
    Preliminary (settle p w).1 ∧ (settle p w).2.manager.config = w.manager.config := by
  induction p generalizing w with
  | ret | fail => exact ⟨trivial, rfl⟩
  | op o next ih =>
    cases o with
    | acquire => exact ⟨trivial, rfl⟩
    | setConfig c | release => exact hp.1.elim
    | read => exact ih w.manager (hp.2 _) w
    | health f | record e => exact ih () (hp.2 _) _
    | clock => exact ih w.clock (hp.2 _) w
    | rounds | gather calls | sleep => exact ⟨hp, rfl⟩

/-- Job `i` has not got the lock yet. -/
def Prepares (i : Nat) (w : World) : Prop := ∃ p, (w.tasks i).map Task.rest = some p ∧ Preliminary p

/-- A job that goes on and does not come past the lock. -/
theorem prepares_proceed {p : Code Unit} (hp : Preliminary p) (w : World) (i : Nat) :
    (w.proceed i p).Prepares i ∧ (w.proceed i p).manager.config = w.manager.config := by
  obtain ⟨hrest, hconfig⟩ := settle_preliminary hp w
  refine ⟨⟨(settle p w).1, ?_, hrest⟩, hconfig⟩
  show ((Function.update w.tasks i _) i).map Task.rest = _
  rw [Function.update_self]
  rfl

/-- Any job goes on, job `i` only with something that publishes nothing before the lock. -/
theorem Prepares.proceed (h : w.Prepares i) {j : Nat} {p : Code Unit} (hp : j = i → Preliminary p) :
    (w.proceed j p).Prepares i ∧ (some j = some i → (w.proceed j p).manager.config = w.manager.config) := by
  by_cases hj : j = i
  · subst hj
    obtain ⟨hprepares, hconfig⟩ := prepares_proceed (hp rfl) w j
    exact ⟨hprepares, fun _ => hconfig⟩
  · refine ⟨?_, fun hji => absurd (Option.some.inj hji) hj⟩
    obtain ⟨q, hq, hrest⟩ := h
    refine ⟨q, ?_, hrest⟩
    show ((Function.update w.tasks j _) i).map Task.rest = _
    rw [Function.update_of_ne (Ne.symm hj), hq]

theorem Prepares.rest {t : Task} (h : w.Prepares i) {j : Nat} (hji : j = i) (ht : w.tasks j = some t) :
    Preliminary t.rest := by
  subst hji
  obtain ⟨p, hp, hrest⟩ := h
  rw [ht] at hp
  obtain rfl := Option.some.inj hp
  exact hrest

/-- Nothing happens to the programs and the configuration. -/
theorem Prepares.of_same {P : Prop} (h : w.Prepares i) (hconfig : w'.manager.config = w.manager.config)
    (htasks : ∀ k, (w'.tasks k).map Task.rest = (w.tasks k).map Task.rest) :
    w'.Prepares i ∧ (P → w'.manager.config = w.manager.config) := by
  obtain ⟨p, hp, hrest⟩ := h
  exact ⟨⟨p, (htasks i).trans hp, hrest⟩, fun _ => hconfig⟩

/-- **One event**, if it does not give the lock to job `i`. -/
theorem Prepares.step {event : Event} (h : w.Prepares i) (hstep : w.step event = some w')
    (hlock : event ≠ .acquire i) :
    w'.Prepares i ∧ (event.job? = some i → w'.manager.config = w.manager.config) := by
  cases step_cases hstep with
  | spawn ht =>
    refine h.proceed fun hji => ?_
    -- job `i` has been spawned before
    obtain ⟨p, hp, -⟩ := h
    rw [← hji, ht] at hp
    exact absurd hp (by simp)
  | @acquire j =>
    have hheld : Prepares i { w with lock := some j } := h
    exact hheld.proceed fun hji => absurd (congrArg Event.acquire hji) hlock
  | choose ht | resume ht => exact h.proceed fun hji => (h.rest hji ht).2 _
  | wake ht => exact h.proceed fun hji => (h.rest hji ht).2 ()
  | deliver => exact h.of_same rfl (map_rest_mark _ _ _ _)
  | answer | timeoutSent | timeoutExecuted | lose => exact h.of_same rfl (map_rest_mark w _ _ _)
  | straggle | advance | progress | restart => exact h.of_same rfl fun _ => rfl

/-- **Runs in which job `i` leaves the configuration alone**, whatever the others do. -/
abbrev SparingRun (i : Nat) (events : List Event) (w w' : World) : Prop :=
  Runs (fun event w w' => w.step event = some w' ∧
    (event.job? = some i → w'.manager.config = w.manager.config)) events w w'

/-- Before it has got the lock, a job that prepares changes nothing. -/
theorem Prepares.sparing {events : List Event} (h : w.Prepares i)
    (hrun : Runs (fun event w w' => w.step event = some w') events w w') (hlock : .acquire i ∉ events) :
    SparingRun i events w w' := by
  induction hrun with
  | nil => exact .nil _
  | cons hstep _ ih =>
    obtain ⟨hfirst, hrest⟩ := mem_cons.not.mp hlock |> not_or.mp
    obtain ⟨hprepares, hconfig⟩ := h.step hstep (Ne.symm hfirst)
    exact .cons ⟨hstep, hconfig⟩ (ih hprepares hrest)

end World

/-! ## The result -/

/-- **A resize that fails leaves the layout as it was exactly if it is refused before its first
`set_config`.** By itself, whatever the nodes answer; and among other jobs it changes nothing before it has got
the lock, which none of the refusals but an ill-formed configuration takes. -/
theorem failed_resize (r : Resize) :
    (∀ (script : Script) (m : Manager) (err : Failure) (s' : Session),
      r.job.code.run (Session.exec script) ⟨m, 0⟩ = (.error err, s') →
        (s'.manager.config.layout = m.config.layout ↔ r.Refused script m)) ∧
    ∀ (i : Nat) (events : List Event) (w w' : World),
      Runs (fun event w w' => w.step event = some w') (.spawn i r.job :: events) w w' →
        .acquire i ∉ events → World.SparingRun i (.spawn i r.job :: events) w w' := by
  refine ⟨fun script m err s' h => layout_of_error h, fun i events w w' hrun hlock => ?_⟩
  obtain ⟨w₁, hspawn, hrest⟩ := Runs.cons_iff.mp hrun
  have hspawned := hspawn
  simp only [World.step, Option.ite_none_right_eq_some, Option.some.injEq] at hspawned
  obtain ⟨-, rfl⟩ := hspawned
  obtain ⟨hprepares, hconfig⟩ := World.prepares_proceed (preliminary_resize r) w i
  exact .cons ⟨hspawn, fun _ => hconfig⟩ (hprepares.sparing hrest hlock)

/-- While the manager waits for the primary of a new group another group is added, and then the call is given
up. -/
def besides : List Event :=
  [.spawn 1 (.addGroup (World.exampleGroup 3))] ++ World.answered 1 .ok ++
    [.acquire 1, .timeout 0 0, .resume 0]

/-- **The primary of a new group does not answer**, and nothing changes; what another request does meanwhile
is its own. -/
theorem failed_resize_silent :
    let r := Resize.add (World.exampleGroup 2)
    let silent : Script := ⟨fun _ => [.error .unavailable], fun _ => 0, fun _ => ⟨0, 0⟩⟩
    let w := World.idle World.soloConfig
    let done := r.job.code.run (Session.exec silent) ⟨w.manager, 0⟩
    done.1 = .error (.cluster (.notReachable (localNode 2))) ∧
      done.2.manager.config.layout = w.manager.config.layout ∧
      ∃ w', World.SparingRun 0 (.spawn 0 r.job :: besides) w w' ∧
        w'.manager.config.shards = [World.exampleGroup 1, World.exampleGroup 3] := by
  intro r silent w done
  have herror : done.1 = .error (.cluster (.notReachable (localNode 2))) := by decide +kernel
  have hrun : (World.run (.spawn 0 r.job :: besides) w).any (fun w' =>
      w'.manager.config.shards = [World.exampleGroup 1, World.exampleGroup 3]) = true := by
    decide +kernel
  obtain ⟨w', hw', hshards⟩ := (Option.any_eq_true _ _).mp hrun
  obtain ⟨hlayout, hsparing⟩ := failed_resize r
  refine ⟨herror, (hlayout _ _ _ _ (Prod.ext herror rfl)).mpr ?_, w', ?_, of_decide_eq_true hshards⟩
  · exact .inr (.inl (by simp [Resize.Answers, silent, Except.isOk, Except.toBool]))
  · refine hsparing 0 besides w w' (.of_foldlM hw') ?_
    simp [besides, World.answered]

/-- The new group's primary answers, the old one starts to move its keys, and then reports a failure. -/
def failingScript : Script where
  outcomes n := match n with
    | 2 => [.ok (.status (text "idle") 0 [])]
    | 4 => [.ok (.status (text "failed") 0 (text "timed out"))]
    | _ => [.ok .ok]
  rounds _ := 2
  clock _ := ⟨0, 0⟩

/-- **A migration fails, and the request to add a group with it.** The group stays in the configuration and the
rebalance in progress; a later request is refused for that reason, and leaves its own group in the
configuration too. -/
theorem failed_resize_stays :
    let m := (World.idle World.soloConfig).manager
    let failed := (Resize.add (World.exampleGroup 2)).job.code.run (Session.exec failingScript) ⟨m, 0⟩
    let later := (Resize.add (World.exampleGroup 3)).job.code.run (Session.exec failingScript)
      ⟨failed.2.manager, 0⟩
    m.config.layout = ([World.exampleGroup 1], [[1]], none) ∧
    failed.1 = .error (.cluster (.moveFailed [1] (text "timed out"))) ∧
    failed.2.manager.config.layout =
      ([World.exampleGroup 1, World.exampleGroup 2], [[1]], some [[1], [2]]) ∧
    later.1 = .error (.cluster .inProgress) ∧
    later.2.manager.config.layout =
      ([World.exampleGroup 1, World.exampleGroup 2, World.exampleGroup 3], [[1]], some [[1], [2]]) := by
  decide +kernel

end Cluster

end KvStore
