import KvStore.Cluster.Orderly
import KvStore.Foundation.Runs

/-! # Calls under way

What happens to the calls of a job keeps the invariant: the request reaches its node, the reply arrives, the
request is lost. A promotion of a failover that is given up breaks it: the manager keeps its epoch, and hands
the same next epoch to another node. So the invariant is one of the runs in which no promotion of a failover is
given up (`World.Careful`).

* **`World.Inv.step`** — every careful step keeps the invariant, **`World.CarefulRun.inv`** every run. -/

namespace KvStore

open List

namespace Cluster

open Manager Prog

namespace World

variable {w : World} {bounded : Prop} {exception : Option Address} {node : Address}
  {request : Request} {answer : Except Failure Reply}

section Steps

variable {i j : Nat} {t : Task}

/-- A call under way is one its job has made. -/
theorem Inv.call_mem {f : Flight} (h : w.Inv bounded) (hf : w.flight? i j = some f) :
    ∃ t, w.tasks i = some t ∧ t.flights[j]? = some f ∧ f.call ∈ callsOf t.rest := by
  obtain ⟨t, ht, hj⟩ := Option.bind_eq_some_iff.mp hf
  refine ⟨t, ht, hj, ?_⟩
  rw [← (h.tasks i t ht).2]
  exact mem_map_of_mem (mem_of_getElem? hj)

variable {call : Call}

/-- Only a job at `gather` has made calls. -/
theorem gather_of_mem_callsOf {p : Code Unit} (h : call ∈ callsOf p) :
    ∃ next, p = .op (.gather (callsOf p)) next := by
  revert h
  cases p with
  | op o next =>
    cases o with
    | gather calls => exact fun _ => ⟨next, rfl⟩
    | read | health f | setConfig c | record e | clock | rounds | acquire | release | sleep => nofun
  | ret | fail => nofun

/-- The call may reach its node at any time, or it is the promotion of a failover. -/
theorem Inv.call_legit {f : Flight} (h : w.Inv bounded) (hf : w.flight? i j = some f) :
    Legit w.manager.adopted w.manager.config f.call.node f.call.request ∨
      (w.lock = some i ∧ f.call.request = .replicaof none (w.manager.config.epoch + 1) ∧
        ∃ t, w.tasks i = some t ∧ callsOf t.rest = [f.call] ∧ t.flights = [f]) := by
  obtain ⟨t, ht, hj, hmem⟩ := h.call_mem hf
  obtain ⟨⟨s, hkeeps, hstands⟩, hcalls⟩ := h.tasks i t ht
  obtain ⟨next, hrest⟩ := gather_of_mem_callsOf hmem
  have hpermits : s.Permits (callsOf t.rest) := by
    rw [hrest] at hkeeps
    exact hkeeps.1
  cases s with
  | out => exact .inl (hpermits f.call hmem).legit
  | holding c =>
    obtain ⟨hlock, rfl⟩ := hstands
    rcases hpermits with hrepeats | ⟨node, note, hpromotion⟩
    · exact .inl ((hrepeats f.call hmem).legit h.history)
    · rw [hpromotion] at hcalls
      obtain ⟨f', hflights⟩ : ∃ f', t.flights = [f'] := by
        have hlen := congrArg List.length hcalls
        rw [length_map] at hlen
        exact length_eq_one_iff.mp hlen
      have hff : f = f' := by
        rw [hflights] at hj
        cases j with
        | zero => exact (Option.some.inj hj).symm
        | succ j => cases hj
      have hcall : f.call = ⟨node, .replicaof none (w.manager.config.epoch + 1), note⟩ := by
        rw [hflights, ← hff] at hcalls
        exact (List.cons.inj hcalls).1
      exact .inr ⟨hlock, by rw [hcall], t, ht, by rw [hpromotion, hcall], by rw [hflights, hff]⟩
  | owing c a => exact hstands.elim

variable {status : Status}

/-- The job whose call is marked, after that. -/
theorem mark_tasks_self (ht : w.tasks i = some t) :
    (w.mark i j status).tasks i =
      some { t with flights := t.flights.modify j fun f => { f with status := status } } := by
  show Function.update w.tasks i _ i = _
  rw [Function.update_self, ht]
  rfl

theorem mark_tasks_of_ne {k : Nat} (hk : k ≠ i) :
    (w.mark i j status).tasks k = w.tasks k := Function.update_of_ne hk _ _

theorem map_call_modify (flights : List Flight) (j : Nat) (status : Status) :
    (flights.modify j fun f => { f with status := status }).map Flight.call =
      flights.map Flight.call := by
  induction flights generalizing j with
  | nil => simp
  | cons f rest ih =>
    cases j with
    | zero => rfl
    | succ j => exact congrArg (f.call :: ·) (ih j)

variable {w' : World}

/-- A step that marks a call, and keeps configuration and lock. -/
theorem Inv.marked (h : w.Inv bounded) (hadopted : w'.manager.adopted = w.manager.adopted)
    (hconfig : w'.manager.config = w.manager.config) (hlock : w'.lock = w.lock)
    (htasks : w'.tasks = (w.mark i j status).tasks)
    (hlate : ∀ p ∈ w'.late, Legit w'.manager.adopted w'.manager.config p.1 p.2)
    (horderly : w'.Orderly bounded) : w'.Inv bounded := by
  have hstands : ∀ k s, w.Stands k s → w'.Stands k s := by
    intro k s hs
    cases s with
    | out => exact fun heq => hs (hlock ▸ heq)
    | holding c => exact ⟨hlock.trans hs.1, hconfig.trans hs.2⟩
    | owing c a => exact hs.elim
  refine ⟨by rw [hadopted, hconfig]; exact h.history, hlate, ?_, ?_, horderly⟩
  · intro k t' ht'
    rw [htasks] at ht'
    by_cases hk : k = i
    · subst hk
      cases ht : w.tasks k with
      | none => simp [mark, ht] at ht'
      | some t =>
        rw [mark_tasks_self ht] at ht'
        cases ht'
        obtain ⟨⟨s, hkeeps, hs⟩, hcalls⟩ := h.tasks k t ht
        exact ⟨⟨s, hkeeps, hstands k s hs⟩, (map_call_modify _ _ _).trans hcalls⟩
    · rw [mark_tasks_of_ne hk] at ht'
      obtain ⟨⟨s, hkeeps, hs⟩, hcalls⟩ := h.tasks k t' ht'
      exact ⟨⟨s, hkeeps, hstands k s hs⟩, hcalls⟩
  · intro k hk
    rw [hlock] at hk
    obtain ⟨t, ht⟩ := h.holder k hk
    rw [htasks]
    by_cases hki : k = i
    · subst hki
      exact ⟨_, mark_tasks_self ht⟩
    · exact ⟨t, (mark_tasks_of_ne hki).trans ht⟩

/-- The exception stays one when a call is marked that is not its promotion, or whose promotion
keeps its acknowledgement. -/
theorem Inv.orderly_marked (h : w.Inv bounded) (hconfig : w'.manager.config = w.manager.config)
    (hlock : w'.lock = w.lock) (htasks : w'.tasks = (w.mark i j status).tasks)
    (hquiet : ∀ exception, w.IsQuiet bounded exception → w'.IsQuiet bounded exception)
    (hown : ∀ t a, w.tasks i = some t → Promoting t w.manager.config a →
      status = .settled (.ok .ok) ∧ j = 0) : w'.Orderly bounded := by
  obtain ⟨exception, hq, hholder⟩ := h.orderly
  refine ⟨exception, hquiet exception hq, fun a ha => ?_⟩
  obtain ⟨k, t, hk, ht, hpromoting⟩ := hholder a ha
  rw [hlock, htasks, hconfig]
  by_cases hki : k = i
  · subst hki
    obtain ⟨rfl, rfl⟩ := hown t a ht hpromoting
    refine ⟨k, _, hk, mark_tasks_self ht, ?_⟩
    obtain ⟨note, status, hcalls, -, hflights⟩ := hpromoting
    exact ⟨note, _, hcalls, .inr rfl, by rw [hflights]; rfl⟩
  · exact ⟨k, t, hk, (mark_tasks_of_ne hki).trans ht, hpromoting⟩

/-- The job does not await the acknowledgement of a promotion if it has a call that was not
executed. -/
theorem not_promoting_of_sent {config : ClusterConfig} (hj : t.flights[j]? = some ⟨call, .sent⟩)
    (a : Address) : ¬ Promoting t config a := by
  rintro ⟨note, status, -, hok, hflights⟩
  rw [hflights] at hj
  cases j with
  | zero =>
    rcases hok with rfl | rfl
    · cases hj
    · cases hj
  | succ j => cases hj

theorem Inv.deliver {answer : Except Failure Reply} (h : w.Inv bounded)
    (hf : w.flight? i j = some ⟨call, .sent⟩) :
    ((w.serve call.node call.request answer).2.mark i j
      (.executed (w.serve call.node call.request answer).1)).Inv bounded := by
  obtain ⟨t, ht, hj, -⟩ := h.call_mem hf
  rcases h.call_legit hf with hlegit | ⟨hlock, hrequest, t', ht', hcalls, hflights⟩
  · exact h.marked rfl rfl rfl rfl h.late (h.orderly_marked rfl rfl rfl
      (fun exception hq => quiet_serve h.history hlegit hq)
      fun t' a ht' hp => absurd hp (not_promoting_of_sent (by cases ht.symm.trans ht'; exact hj) a))
  · -- the promotion of a failover reaches its node
    cases ht.symm.trans ht'
    have hzero : j = 0 := by
      rw [hflights] at hj
      cases j with
      | zero => rfl
      | succ j => cases hj
    subst hzero
    have hquiet := h.quiet_of_holder ht hlock (not_promoting_of_sent hj)
    obtain ⟨node, request, note⟩ := call
    change request = _ at hrequest
    subst hrequest
    refine h.marked rfl rfl rfl rfl h.late ⟨_, quiet_serve_promotion node answer hquiet, ?_⟩
    intro a ha
    split at ha
    · rename_i haccepted
      cases ha
      refine ⟨i, _, hlock, mark_tasks_self ht, note, _, hcalls, .inl ?_, by rw [hflights]; rfl⟩
      exact congrArg Status.executed haccepted
    · cases ha

theorem Inv.answered {reply : Except Failure Reply} (h : w.Inv bounded)
    (hf : w.flight? i j = some ⟨call, .executed reply⟩) :
    (w.conclude i j call reply).Inv bounded := by
  obtain ⟨t, ht, hj, -⟩ := h.call_mem hf
  refine h.marked rfl rfl rfl rfl h.late
    (h.orderly_marked rfl rfl rfl (fun _ hq => hq) ?_)
  rintro t' a ht' ⟨note, status, -, hok, hflights⟩
  cases ht.symm.trans ht'
  rw [hflights] at hj
  cases j with
  | zero =>
    rcases hok with rfl | rfl
    · cases hj
      exact ⟨rfl, rfl⟩
    · cases hj
  | succ j => cases hj

/-- Giving up a call whose request was not executed, and that may still be. -/
theorem Inv.timeout_sent (h : w.Inv bounded) (hf : w.flight? i j = some ⟨call, .sent⟩)
    (hcareful : ∀ e, call.request = .replicaof none e → e ≤ w.manager.config.epoch) :
    Inv bounded { w.conclude i j call (.error .unavailable) with
      late := w.late ++ [(call.node, call.request)] } := by
  obtain ⟨t, ht, hj, -⟩ := h.call_mem hf
  refine h.marked rfl rfl rfl rfl ?_
    (h.orderly_marked rfl rfl rfl (fun _ hq => hq) ?_)
  · intro p hp
    rcases mem_append.mp hp with hold | hnew
    · exact h.late p hold
    · cases mem_singleton.mp hnew
      rcases h.call_legit hf with hlegit | ⟨-, hrequest, -⟩
      · exact hlegit
      · have := hcareful _ hrequest
        omega
  · intro t' a ht' hp
    cases ht.symm.trans ht'
    exact absurd hp (not_promoting_of_sent hj a)

/-- Losing a request that was not executed. -/
theorem Inv.lose (h : w.Inv bounded) (hf : w.flight? i j = some ⟨call, .sent⟩) :
    (w.conclude i j call (.error .unavailable)).Inv bounded := by
  obtain ⟨t, ht, hj, -⟩ := h.call_mem hf
  refine h.marked rfl rfl rfl rfl h.late
    (h.orderly_marked rfl rfl rfl (fun _ hq => hq) ?_)
  intro t' a ht' hp
  cases ht.symm.trans ht'
  exact absurd hp (not_promoting_of_sent hj a)

/-- Losing the reply to a call that is not the promotion of a failover. -/
theorem Inv.timeout_executed {reply : Except Failure Reply} (h : w.Inv bounded)
    (hf : w.flight? i j = some ⟨call, .executed reply⟩)
    (hcareful : ∀ e, call.request = .replicaof none e → e ≤ w.manager.config.epoch) :
    (w.conclude i j call (.error .unavailable)).Inv bounded := by
  obtain ⟨t, ht, hj, -⟩ := h.call_mem hf
  refine h.marked rfl rfl rfl rfl h.late
    (h.orderly_marked rfl rfl rfl (fun _ hq => hq) ?_)
  rintro t' a ht' ⟨note, status, -, -, hflights⟩
  cases ht.symm.trans ht'
  rw [hflights] at hj
  cases j with
  | zero =>
    cases hj
    have := hcareful _ rfl
    omega
  | succ j => cases hj

/-- A step that touches nodes and late requests only. -/
theorem Inv.nodes (h : w.Inv bounded) (hmanager : w'.manager = w.manager) (hlock : w'.lock = w.lock)
    (htasks : w'.tasks = w.tasks) (hlate : ∀ p ∈ w'.late, p ∈ w.late)
    (hquiet : ∀ exception, w.IsQuiet bounded exception → w'.IsQuiet bounded exception) :
    w'.Inv bounded := by
  have hstands : ∀ k s, w.Stands k s → w'.Stands k s := by
    intro k s hs
    cases s with
    | out => exact fun heq => hs (hlock ▸ heq)
    | holding c => exact ⟨hlock.trans hs.1, hmanager ▸ hs.2⟩
    | owing c a => exact hs.elim
  refine ⟨hmanager ▸ h.history, fun p hp => hmanager ▸ h.late p (hlate p hp), ?_, ?_, ?_⟩
  · intro k t ht
    obtain ⟨⟨s, hkeeps, hs⟩, hcalls⟩ := h.tasks k t (htasks ▸ ht)
    exact ⟨⟨s, hkeeps, hstands k s hs⟩, hcalls⟩
  · rw [hlock, htasks]
    exact h.holder
  · obtain ⟨exception, hq, hholder⟩ := h.orderly
    refine ⟨exception, hquiet exception hq, ?_⟩
    rw [hlock, htasks, hmanager]
    exact hholder

/-- A node that changes without adopting a newer epoch. -/
theorem Inv.node_evolves {n : ShardNode} (h : w.Inv bounded) (node : Address)
    (hn : n.epoch ≤ (w.nodes node).epoch) :
    Inv bounded { w with nodes := Function.update w.nodes node n } := by
  refine h.nodes rfl rfl rfl (fun _ hp => hp) fun exception hq => ⟨hq.1, fun hb a => ?_⟩
  refine quiet_epochs (hq.2 hb) ?_ a
  rcases hq.2 hb node with hle | ⟨hnode, heq⟩
  · exact .inl (Nat.le_trans hn hle)
  · rcases Nat.lt_or_ge n.epoch (w.manager.config.epoch + 1) with hlt | hge
    · exact .inl (Nat.le_of_lt_succ hlt)
    · exact .inr ⟨hnode, Nat.le_antisymm (heq ▸ hn) hge⟩

theorem Inv.straggle {k : Nat} (h : w.Inv bounded) (hk : w.late[k]? = some (node, request)) :
    Inv bounded { (w.serve node request answer).2 with late := w.late.eraseIdx k } := by
  have hlegit := h.late _ (mem_of_getElem? hk)
  exact h.nodes rfl rfl rfl (fun p hp => mem_of_mem_eraseIdx hp)
    fun _ hq => quiet_serve h.history hlegit hq

/-- No promotion of a failover is given up: its request is lost before it reaches the node, or its
reply arrives. (A promotion by `_reconcile` carries the epoch in force and may be given up.) -/
def Careful (w : World) : Event → Prop
  | .timeout i j => ∀ f, w.flight? i j = some f → ∀ e, f.call.request = .replicaof none e →
      e ≤ w.manager.config.epoch
  | _ => True

/-- **Every careful step keeps the invariant.** -/
theorem Inv.step {event : Event} (h : w.Inv bounded) (hcareful : w.Careful event)
    (hstep : w.step event = some w') : w'.Inv bounded := by
  cases step_cases hstep with
  | spawn ht => exact h.spawn ht _
  | acquire ht hlock => exact h.acquire ht hlock
  | choose ht =>
    obtain ⟨s, ⟨-, hkeeps⟩, hrun⟩ := h.wake ht rfl
    exact hrun.proceed (hkeeps _)
  | wake ht =>
    obtain ⟨s, ⟨-, hkeeps⟩, hrun⟩ := h.wake ht rfl
    exact hrun.proceed hkeeps
  | deliver hf => exact h.deliver hf
  | answer hf => exact h.answered hf
  | timeoutSent hf => exact h.timeout_sent hf (hcareful _ hf)
  | timeoutExecuted hf => exact h.timeout_executed hf (hcareful _ hf)
  | lose hf => exact h.lose hf
  | resume ht ho => exact h.resume ht ho
  | straggle hk => exact h.straggle hk
  | advance => exact h.nodes rfl rfl rfl (fun _ hp => hp) fun _ hq => hq
  | progress => exact h.node_evolves _ (Nat.le_refl _)
  | restart => exact h.node_evolves _ (ShardNode.epoch_restart_le _)

/-- **A manager that has just started**: no job runs, nothing is under way, nobody was promoted. -/
structure Fresh (w : World) : Prop where
  lock : w.lock = none
  tasks : ∀ i, w.tasks i = none
  late : w.late = []
  promoted : w.promoted = []
  /-- The router routes by the configuration in force. -/
  adopted : w.manager.adopted = [w.manager.config]

theorem Fresh.inv (h : w.Fresh)
    (hbounded : bounded → ∀ a, (w.nodes a).epoch ≤ w.manager.config.epoch) : w.Inv bounded := by
  refine ⟨?_, ?_, ?_, ?_, none, ⟨?_, fun hb a => .inl (hbounded hb a)⟩, nofun⟩
  · rw [h.adopted]
    exact ⟨⟨[], rfl⟩, pairwise_singleton _ _⟩
  · rw [h.late]
    nofun
  · intro i t ht
    rw [h.tasks i] at ht
    cases ht
  · intro i hi
    rw [h.lock] at hi
    cases hi
  · rw [h.promoted]
    nofun

/-- Runs in which no promotion of a failover is given up. -/
abbrev CarefulRun (events : List Event) (w w' : World) : Prop :=
  Runs (fun event w w' => w.Careful event ∧ w.step event = some w') events w w'

theorem CarefulRun.inv {events : List Event} (hrun : CarefulRun events w w') (h : w.Inv bounded) :
    w'.Inv bounded :=
  hrun.invariant (P := fun _ => True) (fun _ hinv hstep => hinv.step hstep.1 hstep.2)
    (fun _ _ => trivial) h

end Steps

end World

end Cluster

end KvStore
