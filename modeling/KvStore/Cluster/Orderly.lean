import KvStore.Cluster.Histories

/-! # The invariant of the manager's epochs

The promotion of a failover carries the *next* epoch, and the node adopts that epoch when it executes the
command, the manager only when the reply arrives. `World.Inv` says that this is the only exception, and that
it lasts only while the job that holds the lock awaits that reply.

* **`World.Inv`** — the invariant between the steps; **`World.Running`** while a job runs.
* **`World.Running.proceed`** — a job that goes on up to its next await keeps it. -/

namespace KvStore

open List

namespace Cluster

open Manager Prog

namespace World

variable {w : World} {bounded : Prop} {exception : Option Address} {node : Address}
  {request : Request} {answer : Except Failure Reply}

/-! ## The invariant -/

/-- A job at an await stands to the lock as its stage says. -/
def Stands (w : World) (i : Nat) : Stage → Prop
  | .out => w.lock ≠ some i
  | .holding c => w.lock = some i ∧ w.manager.config = c
  | .owing _ _ => False

/-- The job awaits the reply to the promotion of `a` under the next epoch, and `a` accepted it. -/
def Promoting (t : Task) (config : ClusterConfig) (a : Address) : Prop :=
  ∃ note status, callsOf t.rest = [⟨a, .replicaof none (config.epoch + 1), note⟩] ∧
    (status = .executed (.ok .ok) ∨ status = .settled (.ok .ok)) ∧
    t.flights = [⟨⟨a, .replicaof none (config.epoch + 1), note⟩, status⟩]

/-- A job keeps to the discipline, and its calls are those it has made. -/
def TaskOk (w : World) (i : Nat) (t : Task) : Prop :=
  (∃ s, Keeps t.rest Outside s ∧ w.Stands i s) ∧ t.flights.map Flight.call = callsOf t.rest

/-- Everything is in order, but for a promotion that the holder of the lock awaits the reply to. -/
def Orderly (bounded : Prop) (w : World) : Prop :=
  ∃ exception, w.IsQuiet bounded exception ∧ ∀ a, exception = some a →
    ∃ i t, w.lock = some i ∧ w.tasks i = some t ∧ Promoting t w.manager.config a

/-- **The invariant.** -/
structure Inv (bounded : Prop) (w : World) : Prop where
  history : History w.manager.adopted w.manager.config
  /-- Requests that were given up repeat some configuration. -/
  late : ∀ p ∈ w.late, Legit w.manager.adopted w.manager.config p.1 p.2
  tasks : ∀ i t, w.tasks i = some t → w.TaskOk i t
  holder : ∀ i, w.lock = some i → ∃ t, w.tasks i = some t
  /-- Promotions and epochs are in order. -/
  orderly : w.Orderly bounded

/-- The invariant while job `i` runs in stage `s`: what it has before it goes on. -/
structure Running (bounded : Prop) (i : Nat) (s : Stage) (w : World) : Prop where
  history : History w.manager.adopted w.manager.config
  late : ∀ p ∈ w.late, Legit w.manager.adopted w.manager.config p.1 p.2
  /-- The other jobs keep to the discipline. -/
  tasks : ∀ j t, j ≠ i → w.tasks j = some t → w.TaskOk j t
  /-- The lock is held by this job or another. -/
  holder : ∀ j, j ≠ i → w.lock = some j → ∃ t, w.tasks j = some t
  /-- The job stands as its stage says; an unpublished promotion is its own. -/
  stage : match s with
    | .out => w.lock ≠ some i ∧ w.Orderly bounded
    | .holding c => w.lock = some i ∧ w.manager.config = c ∧ w.IsQuiet bounded none
    | .owing c a => w.lock = some i ∧ w.manager.config = c ∧ w.IsQuiet bounded (some a)

section Settle

variable {i : Nat} {s : Stage}

/-- The other jobs do not notice what a job does at once: they are not in the lock. -/
theorem Running.others_out {w' : World} (h : Running bounded i s w) (hlock : w.lock = some i)
    (hlock' : w'.lock = w.lock ∨ w'.lock = none) (htasks : w'.tasks = w.tasks) :
    ∀ j t, j ≠ i → w'.tasks j = some t → w'.TaskOk j t := by
  intro j t hj ht
  rw [htasks] at ht
  obtain ⟨⟨s', hkeeps, hstands⟩, hcalls⟩ := h.tasks j t hj ht
  have hne : w'.lock ≠ some j := by
    rcases hlock' with heq | heq
    · rw [heq, hlock]
      exact fun h => hj (Option.some.inj h).symm
    · rw [heq]
      nofun
  cases s' with
  | out => exact ⟨⟨.out, hkeeps, hne⟩, hcalls⟩
  | holding c =>
    -- two jobs would hold the lock
    exact absurd (hlock.symm.trans hstands.1) fun h => hj (Option.some.inj h).symm
  | owing c a => exact hstands.elim

/-- What a job does at once, one operation at a time. -/
theorem Running.atOnce {o : Manager.Op} {r : o.Resp} {w' : World} {Q : o.Resp → Stage → Prop}
    (h : Running bounded i s w) (ho : World.atOnce o w = some (r, w')) (hQ : discipline.pre o Q s) :
    ∃ s', Running bounded i s' w' ∧ Q r s' := by
  cases o with
  | read =>
    cases ho
    refine ⟨s, h, hQ _ ?_⟩
    cases s with
    | out => trivial
    | holding c | owing c a => exact h.stage.2.1
  | health | record =>
    cases ho
    exact ⟨s, ⟨h.history, h.late, h.tasks, h.holder, h.stage⟩, hQ⟩
  | clock =>
    cases ho
    exact ⟨s, h, hQ _⟩
  | release =>
    cases ho
    obtain ⟨⟨c, rfl⟩, hQ⟩ := hQ
    have hquiet := h.stage.2.2
    exact ⟨.out, ⟨h.history, h.late, h.others_out h.stage.1 (.inr rfl) rfl, nofun,
      nofun, none, hquiet, nofun⟩, hQ⟩
  | setConfig c' =>
    cases ho
    cases s with
    | out => exact hQ.elim
    | holding c =>
      obtain ⟨hlock, rfl, hquiet⟩ := h.stage
      exact ⟨.holding c', ⟨h.history.adopt hQ.1, fun p hp => (h.late p hp).adopt hQ.1,
        h.others_out hlock (.inl rfl) rfl, h.holder, hlock, rfl, hquiet.adopt hQ.1 nofun⟩, hQ.2⟩
    | owing c a =>
      obtain ⟨hlock, rfl, hquiet⟩ := h.stage
      refine ⟨.holding c', ⟨h.history.adopt hQ.1.1, fun p hp => (h.late p hp).adopt hQ.1.1,
        h.others_out hlock (.inl rfl) rfl, h.holder, hlock, rfl, hquiet.adopt hQ.1.1 ?_⟩, hQ.2.2⟩
      -- the configuration published names the node that was promoted
      intro a' ha'
      cases ha'
      exact hQ.2.1
  | rounds | acquire | gather | sleep => cases ho

/-- **A job runs up to its next await** and stands there as its stage says. -/
theorem Running.settle {p : Code Unit} (h : Running bounded i s w) (hp : Keeps p Outside s) :
    ∃ s', Running bounded i s' (settle p w).2 ∧ Keeps (settle p w).1 Outside s' ∧ s'.Rests := by
  induction p generalizing s w with
  | ret | fail =>
    refine ⟨s, h, hp, ?_⟩
    rw [show s = .out from hp]
    trivial
  | op o next ih =>
    unfold World.settle
    split
    · rename_i r w' ho
      obtain ⟨s', hrun, hnext⟩ := h.atOnce ho hp
      exact ih r hrun hnext
    · rename_i ho
      refine ⟨s, h, hp, ?_⟩
      -- an await: the discipline does not let a job rest with a promotion unpublished
      cases o with
      | rounds | sleep => exact hp.1
      | acquire => rw [hp.1]; trivial
      | gather calls =>
        cases s with
        | out | holding c => trivial
        | owing c a => exact hp.1
      | read | health f | setConfig c | record e | clock | release => cases ho

/-- A job that runs leaves the table of jobs alone. -/
theorem settle_tasks (p : Code Unit) (w : World) : (World.settle p w).2.tasks = w.tasks := by
  induction p generalizing w with
  | ret | fail => rfl
  | op o next ih =>
    unfold World.settle
    split
    · rename_i r w' ho
      rw [ih r w']
      cases o with
      | rounds | acquire | gather calls | sleep => cases ho
      | read | health f | setConfig c | record e | clock | release => cases ho; rfl
    · rfl

theorem map_call_flightsOf (p : Code Unit) : (flightsOf p).map Flight.call = callsOf p := by
  unfold flightsOf
  rw [map_map]
  exact map_id _

/-- **A job that goes on keeps the invariant.** -/
theorem Running.proceed {p : Code Unit} (h : Running bounded i s w) (hp : Keeps p Outside s) :
    (w.proceed i p).Inv bounded := by
  obtain ⟨s', hrun, hkeeps, hrests⟩ := h.settle hp
  have htasks := settle_tasks p w
  have hother : ∀ j, j ≠ i → (w.proceed i p).tasks j = (World.settle p w).2.tasks j := by
    intro j hj
    rw [htasks]
    exact Function.update_of_ne hj _ _
  have hself : (w.proceed i p).tasks i =
      some ⟨(World.settle p w).1, flightsOf (World.settle p w).1⟩ := Function.update_self _ _ _
  refine ⟨hrun.history, hrun.late, ?_, ?_, ?_⟩
  · intro j t ht
    by_cases hj : j = i
    · subst hj
      rw [hself] at ht
      cases ht
      refine ⟨⟨s', hkeeps, ?_⟩, map_call_flightsOf _⟩
      cases s' with
      | out => exact hrun.stage.1
      | holding c => exact ⟨hrun.stage.1, hrun.stage.2.1⟩
      | owing c a => exact hrests
    · rw [hother j hj] at ht
      exact hrun.tasks j t hj ht
  · intro j hj
    by_cases hji : j = i
    · subst hji
      exact ⟨_, hself⟩
    · obtain ⟨t, ht⟩ := hrun.holder j hji hj
      exact ⟨t, (hother j hji).trans ht⟩
  · cases s' with
    | out =>
      obtain ⟨hlock, exception, hquiet, hholder⟩ := hrun.stage
      refine ⟨exception, hquiet, fun a ha => ?_⟩
      obtain ⟨j, t, hj, ht, hpromoting⟩ := hholder a ha
      have hji : j ≠ i := fun heq => hlock (heq ▸ hj)
      exact ⟨j, t, hj, (hother j hji).trans ht, hpromoting⟩
    | holding c => exact ⟨none, hrun.stage.2.2, nofun⟩
    | owing c a => exact hrests.elim

end Settle

/-! ## The invariant is kept -/

section Steps

variable {i j : Nat} {t : Task}

/-- The invariant, seen from a job about to go on. -/
theorem Inv.running {s : Stage} (h : w.Inv bounded) (hstage : match s with
    | .out => w.lock ≠ some i ∧ w.Orderly bounded
    | .holding c => w.lock = some i ∧ w.manager.config = c ∧ w.IsQuiet bounded none
    | .owing c a => w.lock = some i ∧ w.manager.config = c ∧ w.IsQuiet bounded (some a)) :
    Running bounded i s w :=
  ⟨h.history, h.late, fun j t _ ht => h.tasks j t ht, fun j _ hj => h.holder j hj, hstage⟩

/-- The exception, if there is one, is the promotion that the holder of the lock awaits. -/
theorem Inv.exception_own (h : w.Inv bounded) (ht : w.tasks i = some t) (hlock : w.lock = some i) :
    ∃ exception, w.IsQuiet bounded exception ∧
      ∀ a, exception = some a → Promoting t w.manager.config a := by
  obtain ⟨exception, hquiet, hholder⟩ := h.orderly
  refine ⟨exception, hquiet, fun a ha => ?_⟩
  obtain ⟨k, t', hk, ht', hpromoting⟩ := hholder a ha
  cases hlock.symm.trans hk
  cases ht.symm.trans ht'
  exact hpromoting

/-- The holder of the lock awaits no promotion: everything is in order. -/
theorem Inv.quiet_of_holder (h : w.Inv bounded) (ht : w.tasks i = some t) (hlock : w.lock = some i)
    (hnot : ∀ a, ¬ Promoting t w.manager.config a) : w.IsQuiet bounded none := by
  obtain ⟨exception, hquiet, hown⟩ := h.exception_own ht hlock
  cases exception with
  | none => exact hquiet
  | some a => exact absurd (hown a rfl) (hnot a)

/-- An exception may be allowed that there is not. -/
theorem IsQuiet.weaken (h : w.IsQuiet bounded none) : w.IsQuiet bounded exception := by
  refine ⟨fun a e hmem => ?_, fun hb a => ?_⟩
  · rcases h.1 a e hmem with hd | ⟨ha, -⟩
    · exact .inl hd
    · cases ha
  · rcases h.2 hb a with hle | ⟨ha, -⟩
    · exact .inl hle
    · cases ha

theorem not_promoting_of_callsOf {config : ClusterConfig} (h : callsOf t.rest = []) (a : Address) :
    ¬ Promoting t config a := by
  rintro ⟨note, status, hcalls, -⟩
  rw [h] at hcalls
  cases hcalls

variable {flights : List Flight}

/-- A job that awaits something else than calls goes on in the stage it stands in. -/
theorem Inv.wake {o : Manager.Op} {next : o.Resp → Code Unit} (h : w.Inv bounded)
    (ht : w.tasks i = some ⟨.op o next, flights⟩) (ho : callsOf (.op o next) = []) :
    ∃ s, Keeps (.op o next : Code Unit) Outside s ∧ Running bounded i s w := by
  obtain ⟨⟨s, hkeeps, hstands⟩, -⟩ := h.tasks i _ ht
  refine ⟨s, hkeeps, h.running ?_⟩
  cases s with
  | out => exact ⟨hstands, h.orderly⟩
  | holding c =>
    exact ⟨hstands.1, hstands.2, h.quiet_of_holder ht hstands.1 (not_promoting_of_callsOf ho)⟩
  | owing c a => exact hstands.elim

/-- The lock is free: everything is in order. -/
theorem Inv.quiet_of_free (h : w.Inv bounded) (hlock : w.lock = none) : w.IsQuiet bounded none := by
  obtain ⟨exception, hquiet, hholder⟩ := h.orderly
  cases exception with
  | none => exact hquiet
  | some a =>
    obtain ⟨k, t, hk, -⟩ := hholder a rfl
    rw [hlock] at hk
    cases hk

theorem Inv.spawn (h : w.Inv bounded) (ht : w.tasks i = none) (job : Job) :
    (w.proceed i job.code).Inv bounded := by
  have hlock : w.lock ≠ some i := by
    intro hlock
    obtain ⟨t, ht'⟩ := h.holder i hlock
    rw [ht] at ht'
    cases ht'
  have hrun : Running bounded i .out w := ⟨h.history, h.late, fun j t _ hj => h.tasks j t hj,
    fun j _ hj => h.holder j hj, hlock, h.orderly⟩
  exact hrun.proceed (Job.disciplined job)

theorem Inv.acquire {next : Unit → Code Unit} (h : w.Inv bounded)
    (ht : w.tasks i = some ⟨.op .acquire next, flights⟩) (hlock : w.lock = none) :
    ({ w with lock := some i }.proceed i (next ())).Inv bounded := by
  obtain ⟨s, ⟨rfl, hkeeps⟩, hrun⟩ := h.wake ht rfl
  have hquiet := h.quiet_of_free hlock
  refine Running.proceed (s := .holding w.manager.config) ⟨h.history, h.late, ?_, ?_, rfl, rfl,
    hquiet⟩ (hkeeps _)
  · intro j t' hj ht'
    obtain ⟨⟨s, hk, hstands⟩, hcalls⟩ := h.tasks j t' ht'
    cases s with
    | out => exact ⟨⟨.out, hk, fun heq => hj (Option.some.inj heq).symm⟩, hcalls⟩
    | holding c => exact absurd (hlock.symm.trans hstands.1) nofun
    | owing c a => exact hstands.elim
  · intro j hj heq
    exact absurd (Option.some.inj heq).symm hj

/-- The outcomes of calls that all have one. -/
theorem outcomes?_eq_some {outcomes : List (Except Failure Reply)}
    (h : outcomes? flights = some outcomes) :
    flights.map Flight.status = outcomes.map Status.settled := by
  induction flights generalizing outcomes with
  | nil =>
    cases h
    rfl
  | cons f rest ih =>
    unfold outcomes? at h ih
    rw [mapM_cons] at h
    cases hf : f.status with
    | sent | executed reply => simp [hf] at h
    | settled outcome =>
      simp only [hf, Option.pure_def, Option.bind_eq_bind, Option.bind_some,
        Option.bind_eq_some_iff, Option.some.injEq] at h
      obtain ⟨outcomes', hrest, rfl⟩ := h
      rw [map_cons, map_cons, hf, ih hrest]

/-- A job whose calls repeat the configuration awaits no promotion under the next epoch. -/
theorem not_promoting_of_repeats {config : ClusterConfig}
    (h : ∀ call ∈ callsOf t.rest, call.request.Repeats config call.node) (a : Address) :
    ¬ Promoting t config a := by
  rintro ⟨note, status, hcalls, -⟩
  rw [hcalls] at h
  have : config.epoch + 1 = config.epoch := (h _ mem_cons_self).1
  omega

theorem Inv.resume {calls : List Call} {next : List (Except Failure Reply) → Code Unit}
    {outcomes : List (Except Failure Reply)} (h : w.Inv bounded)
    (ht : w.tasks i = some ⟨.op (.gather calls) next, flights⟩)
    (ho : outcomes? flights = some outcomes) : (w.proceed i (next outcomes)).Inv bounded := by
  have hstatus := outcomes?_eq_some ho
  obtain ⟨⟨s, ⟨hpermits, hkeeps⟩, hstands⟩, hcalls⟩ := h.tasks i _ ht
  have hlen : outcomes.length = calls.length := by
    have h1 := congrArg List.length hstatus
    have h2 := congrArg List.length hcalls
    simp only [length_map, callsOf] at h1 h2
    omega
  refine Running.proceed ?_ (hkeeps outcomes hlen)
  cases s with
  | out => exact h.running ⟨hstands, h.orderly⟩
  | holding c =>
    obtain ⟨hlock, rfl⟩ := hstands
    rcases hpermits with hrepeats | ⟨node, note, rfl⟩
    · rw [answered_repeats hrepeats]
      exact h.running ⟨hlock, rfl, h.quiet_of_holder ht hlock (not_promoting_of_repeats hrepeats)⟩
    · rw [answered_promotion hlen]
      obtain ⟨outcome, rfl⟩ := length_eq_one_iff.mp hlen
      obtain ⟨exception, hquiet, hown⟩ := h.exception_own ht hlock
      cases outcome with
      | ok reply =>
        -- acknowledged: the exception, if there is one, is the node promoted
        refine h.running ⟨hlock, rfl, ?_⟩
        cases exception with
        | none => exact hquiet.weaken
        | some a =>
          obtain ⟨note', status, hcalls', -⟩ := hown a rfl
          cases hcalls'
          exact hquiet
      | error e =>
        -- refused or lost: the node did not accept it
        refine h.running ⟨hlock, rfl, ?_⟩
        cases exception with
        | none => exact hquiet
        | some a =>
          obtain ⟨note', status, -, hok, hflights⟩ := hown a rfl
          change flights = _ at hflights
          rw [hflights] at hstatus
          rcases hok with rfl | rfl
          · cases hstatus
          · cases hstatus
  | owing c a => exact hstands.elim

end Steps

end World

end Cluster

end KvStore
