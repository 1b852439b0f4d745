import KvStore.Cluster.Topology
import Mathlib.Data.List.Chain

/-! # Saving the configuration

The manager adopts a configuration at once and saves it in the background (`cluster/manager.py`,
`set_config` and `_save_latest`). A task saves the configuration that is in force when it begins a save, and
looks again when the save is done; `set_config` starts a task only if the last one is seen as done. The save
itself runs in a thread. It replaces the file in one step or fails before it.

* **`Saver.step`** — one event: a change, the first step of a task, the end of a save in its thread, and the
  step in which the task sees that end. Every order of these events is a run.
* **`Saver.Inv`** — what holds after every event. All tasks but the last are done; the last knows what the file
  holds, unless it has yet to see that its save is done.
* **`saves_in_order`** — the configurations written have increasing epochs, one task at a time is under way, and
  when it is done without an error the file holds the configuration in force.

Configurations are compared by identity in the source. Those that are adopted have increasing epochs, so that
the same object is the same value here. -/

namespace KvStore

open List

deriving instance DecidableEq for ClusterConfig

/-- How far a task that runs `_save_latest` is. -/
inductive SaveTask
  /-- It was created and has not run yet. -/
  | scheduled
  /-- A thread saves a configuration. -/
  | writing (config : ClusterConfig)
  /-- The thread has replaced the file; the task has not seen it yet. -/
  | replaced (config : ClusterConfig)
  /-- The thread raised `OSError` before it replaced the file; the task has not seen it yet. -/
  | raised (config : ClusterConfig)
  /-- It is done; `ok` if it did not end by a write error. -/
  | finished (ok : Bool)

def SaveTask.done : SaveTask → Bool
  | finished _ => true
  | _ => false

/-- **What the manager and the disk hold.** -/
structure Saver where
  config : ClusterConfig
  saved : Option ClusterConfig
  /-- `_saving`: the number of a task. -/
  saving : Option Nat
  /-- Every task that was created. -/
  tasks : List SaveTask
  file : Option ClusterConfig
  /-- The configurations that were written, the oldest first. -/
  written : List ClusterConfig

inductive SaverEvent
  | setConfig (config : ClusterConfig)
  /-- The first step of a task. -/
  | begin (task : Nat)
  /-- A thread replaces the file. -/
  | replace (task : Nat)
  /-- A thread raises. -/
  | raise (task : Nat)
  /-- A task sees that its thread is done. -/
  | resume (task : Nat)

/-- The epoch of a configuration that is adopted. -/
def SaverEvent.epoch? : SaverEvent → Option Nat
  | setConfig config => some config.epoch
  | _ => none

namespace Saver

/-- The manager as it is created, the file being there or not. -/
def new (config : ClusterConfig) (file : Option ClusterConfig) : Saver :=
  ⟨config, none, none, [], file, []⟩

/-- The task `_saving`. -/
def current (s : Saver) : Option SaveTask := s.saving.bind fun task => s.tasks[task]?

/-- A task goes on. -/
def setTask (s : Saver) (task : Nat) (phase : SaveTask) : Saver :=
  { s with tasks := s.tasks.set task phase }

def setConfig (config : ClusterConfig) (s : Saver) : Saver :=
  if s.current.all SaveTask.done then
    { s with config, saving := some s.tasks.length, tasks := s.tasks ++ [.scheduled] }
  else { s with config }

/-- The test of the loop in `_save_latest`, and what follows it up to the next `await`. -/
def saveLatest (task : Nat) (s : Saver) : Saver :=
  if s.saved = some s.config then s.setTask task (.finished true)
  else s.setTask task (.writing s.config)

/-- **One event**, if it can happen. -/
def step (s : Saver) : SaverEvent → Option Saver
  | .setConfig config => some (s.setConfig config)
  | .begin task =>
    match s.tasks[task]? with
    | some .scheduled => some (s.saveLatest task)
    | _ => none
  | .replace task =>
    match s.tasks[task]? with
    | some (.writing config) =>
      some { s.setTask task (.replaced config) with
        file := some config
        written := s.written ++ [config] }
    | _ => none
  | .raise task =>
    match s.tasks[task]? with
    | some (.writing config) => some (s.setTask task (.raised config))
    | _ => none
  | .resume task =>
    match s.tasks[task]? with
    | some (.replaced config) => some (saveLatest task { s with saved := some config })
    | some (.raised _) => some (s.setTask task (.finished false))
    | _ => none

/-- **A run.** -/
def run (s : Saver) (events : List SaverEvent) : Option Saver := events.foldlM step s

/-! ## What one event keeps -/

/-- What the last task knows. -/
def Knows (s : Saver) : Option SaveTask → Prop
  | none => s.written = [] ∧ s.saved = none
  | some .scheduled => s.saved = s.written.getLast?
  | some (.writing config) => s.saved = s.written.getLast? ∧
      (∀ c ∈ s.written, c.epoch < config.epoch) ∧ (config.epoch < s.config.epoch ∨ config = s.config)
  | some (.replaced config) => s.written.getLast? = some config
  | some (.raised _) => s.saved = s.written.getLast?
  | some (.finished ok) => s.saved = s.written.getLast? ∧ (ok = true → s.saved = some s.config)

/-- **What holds after every event**, for a manager that began with a file. -/
structure Inv (file : Option ClusterConfig) (s : Saver) : Prop where
  others : ∀ i phase, s.tasks[i]? = some phase → phase.done = true ∨ s.saving = some i
  ordered : s.written.Pairwise (·.epoch < ·.epoch)
  /-- It is not newer than the configuration in force. -/
  bound : ∀ c ∈ s.written, c.epoch < s.config.epoch ∨ c = s.config
  /-- The file holds what was written last. -/
  file : s.file = s.written.getLast?.or file
  knows : s.Knows s.current

variable {s s' : Saver} {file : Option ClusterConfig} {task : Nat}

theorem inv_new (config : ClusterConfig) (file : Option ClusterConfig) : (new config file).Inv file where
  others := by simp [new]
  ordered := .nil
  bound := nofun
  file := rfl
  knows := ⟨rfl, rfl⟩

/-- A task that is not done is the one the manager holds. -/
theorem Inv.current_eq (h : s.Inv file) {phase : SaveTask} (htask : s.tasks[task]? = some phase)
    (hdone : phase.done = false) : s.saving = some task ∧ s.current = some phase := by
  have hsaving := (h.others task phase htask).resolve_left (by simp [hdone])
  refine ⟨hsaving, ?_⟩
  rw [current, hsaving]
  exact htask

/-- **A task that is under way goes on.** What remains is what it knows then. -/
theorem Inv.goes_on (h : s.Inv file) {phase phase' : SaveTask} (htask : s.tasks[task]? = some phase)
    (hdone : phase.done = false) (hs' : s'.tasks = s.tasks.set task phase')
    (hsaving : s'.saving = s.saving) (hconfig : s'.config = s.config)
    (hordered : s'.written.Pairwise (·.epoch < ·.epoch))
    (hbound : ∀ c ∈ s'.written, c.epoch < s.config.epoch ∨ c = s.config)
    (hfile : s'.file = s'.written.getLast?.or file) (hknows : s'.Knows (some phase')) :
    s'.Inv file where
  others i p hi := by
    rw [hs', getElem?_set] at hi
    split at hi
    case isTrue heq =>
      subst heq
      exact .inr (hsaving.trans (h.current_eq htask hdone).1)
    case isFalse =>
      rw [hsaving]
      exact h.others i p hi
  ordered := hordered
  bound := hconfig ▸ hbound
  file := hfile
  knows := by
    have hlt : task < s.tasks.length := (List.getElem?_eq_some_iff.mp htask).1
    rw [current, hsaving, (h.current_eq htask hdone).1, hs']
    show s'.Knows (s.tasks.set task phase')[task]?
    rwa [getElem?_set_self hlt]

/-- What was written is older than the configuration in force, unless that was written last. -/
theorem Inv.written_lt (h : s.Inv file) (hlast : s.written.getLast? ≠ some s.config) :
    ∀ c ∈ s.written, c.epoch < s.config.epoch := by
  intro c hc
  obtain ⟨init, last, hwritten⟩ : ∃ init last, s.written = init ++ [last] := by
    rcases eq_nil_or_concat s.written with hnil | ⟨init, last, hconcat⟩
    · rw [hnil] at hc
      cases hc
    · exact ⟨init, last, by simpa using hconcat⟩
  rw [hwritten, getLast?_concat] at hlast
  have hlt : last.epoch < s.config.epoch := by
    refine (h.bound last (by simp [hwritten])).resolve_right fun heq => hlast ?_
    rw [heq]
  -- every other one is older than the last
  have hordered := h.ordered
  rw [hwritten, pairwise_append] at hordered
  rw [hwritten, mem_append, mem_singleton] at hc
  rcases hc with hc | rfl
  · exact (hordered.2.2 c hc last mem_cons_self).trans hlt
  · exact hlt

theorem Inv.saveLatest (h : s.Inv file) {phase : SaveTask} (htask : s.tasks[task]? = some phase)
    (hdone : phase.done = false) {saved : Option ClusterConfig}
    (hsaved : saved = s.written.getLast?) : (Saver.saveLatest task { s with saved }).Inv file := by
  unfold Saver.saveLatest
  split
  case isTrue hsame =>
    exact h.goes_on htask hdone rfl rfl rfl h.ordered h.bound h.file ⟨hsaved, fun _ => hsame⟩
  case isFalse hother =>
    refine h.goes_on htask hdone rfl rfl rfl h.ordered h.bound h.file ⟨hsaved, ?_, .inr rfl⟩
    refine h.written_lt fun hlast => hother ?_
    exact hsaved.trans hlast

theorem Inv.setConfig (h : s.Inv file) {config : ClusterConfig}
    (hnewer : s.config.epoch < config.epoch) : (s.setConfig config).Inv file := by
  have hbound : ∀ c ∈ s.written, c.epoch < config.epoch ∨ c = config := by
    intro c hc
    rcases h.bound c hc with hlt | rfl
    · exact .inl (hlt.trans hnewer)
    · exact .inl hnewer
  have hknows := h.knows
  unfold Saver.setConfig
  split
  case isTrue hdone =>
    -- a new task is created, and there is none that is not done
    have hsaved : s.saved = s.written.getLast? := by
      cases hcurrent : s.current with
      | none =>
        rw [hcurrent] at hknows
        rw [hknows.1, hknows.2]
        rfl
      | some phase =>
        rw [hcurrent] at hdone hknows
        cases phase with
        | finished ok => exact hknows.1
        | _ => cases hdone
    refine ⟨fun i phase hi => ?_, h.ordered, hbound, h.file, ?_⟩
    · simp only [getElem?_append] at hi
      split at hi
      case isTrue hlt =>
        refine .inl ((h.others i phase hi).elim id fun hsaving => ?_)
        rw [current, hsaving, Option.bind_some, hi] at hdone
        exact hdone
      case isFalse hge =>
        refine .inr ?_
        have hi' := (List.getElem?_eq_some_iff.mp hi).1
        simp only [length_singleton] at hi'
        show some s.tasks.length = some i
        congr 1
        omega
    · show Knows _ (s.tasks ++ [SaveTask.scheduled])[s.tasks.length]?
      rw [getElem?_concat_length]
      exact hsaved
  case isFalse hdone =>
    refine ⟨h.others, h.ordered, hbound, h.file, ?_⟩
    show Knows _ s.current
    cases hcurrent : s.current with
    | none =>
      rw [hcurrent] at hdone
      exact absurd rfl hdone
    | some phase =>
      rw [hcurrent] at hdone hknows
      cases phase with
      | scheduled => exact hknows
      | writing c =>
        refine ⟨hknows.1, hknows.2.1, .inl ?_⟩
        rcases hknows.2.2 with hlt | rfl
        · exact hlt.trans hnewer
        · exact hnewer
      | replaced c | raised c => exact hknows
      | finished ok => exact absurd rfl hdone

theorem step_begin (h : s.step (.begin task) = some s') :
    s.tasks[task]? = some .scheduled ∧ s' = s.saveLatest task := by
  simp only [Saver.step] at h
  split at h
  case h_1 htask =>
    cases h
    exact ⟨htask, rfl⟩
  case h_2 => cases h

theorem step_replace (h : s.step (.replace task) = some s') :
    ∃ config, s.tasks[task]? = some (.writing config) ∧
      s' = { s.setTask task (.replaced config) with
        file := some config
        written := s.written ++ [config] } := by
  simp only [Saver.step] at h
  split at h
  case h_1 config htask =>
    cases h
    exact ⟨config, htask, rfl⟩
  case h_2 => cases h

theorem step_raise (h : s.step (.raise task) = some s') :
    ∃ config, s.tasks[task]? = some (.writing config) ∧ s' = s.setTask task (.raised config) := by
  simp only [Saver.step] at h
  split at h
  case h_1 config htask =>
    cases h
    exact ⟨config, htask, rfl⟩
  case h_2 => cases h

theorem step_resume (h : s.step (.resume task) = some s') :
    ∃ config, (s.tasks[task]? = some (.replaced config) ∧
        s' = Saver.saveLatest task { s with saved := some config }) ∨
      (s.tasks[task]? = some (.raised config) ∧ s' = s.setTask task (.finished false)) := by
  simp only [Saver.step] at h
  split at h
  case h_1 config htask =>
    cases h
    exact ⟨config, .inl ⟨htask, rfl⟩⟩
  case h_2 config htask =>
    cases h
    exact ⟨config, .inr ⟨htask, rfl⟩⟩
  case h_3 => cases h

/-- What a task that is not done knows. -/
theorem Inv.knows_of (h : s.Inv file) {phase : SaveTask} (htask : s.tasks[task]? = some phase)
    (hdone : phase.done = false) : s.Knows (some phase) :=
  (h.current_eq htask hdone).2 ▸ h.knows

/-- **Every event keeps the invariant**, if configurations that are adopted are newer. -/
theorem Inv.step (h : s.Inv file) {event : SaverEvent}
    (hnewer : ∀ epoch, event.epoch? = some epoch → s.config.epoch < epoch)
    (hstep : s.step event = some s') : s'.Inv file := by
  cases event with
  | setConfig config =>
    cases hstep
    exact h.setConfig (hnewer _ rfl)
  | begin task =>
    obtain ⟨htask, rfl⟩ := step_begin hstep
    exact h.saveLatest htask rfl (h.knows_of htask rfl)
  | replace task =>
    obtain ⟨config, htask, rfl⟩ := step_replace hstep
    obtain ⟨-, holder, hbound⟩ := h.knows_of htask rfl
    refine h.goes_on htask rfl rfl rfl rfl ?_ (fun c hc => ?_) ?_ ?_
    · refine pairwise_append.mpr ⟨h.ordered, pairwise_singleton _ _, fun c hc c' hc' => ?_⟩
      rw [mem_singleton.mp hc']
      exact holder c hc
    · rcases mem_append.mp hc with hc | hc
      · exact h.bound c hc
      · rw [mem_singleton.mp hc]
        exact hbound
    · simp
    · exact getLast?_concat
  | raise task =>
    obtain ⟨config, htask, rfl⟩ := step_raise hstep
    exact h.goes_on htask rfl rfl rfl rfl h.ordered h.bound h.file (h.knows_of htask rfl).1
  | resume task =>
    obtain ⟨config, ⟨htask, rfl⟩ | ⟨htask, rfl⟩⟩ := step_resume hstep
    · exact h.saveLatest htask rfl (Eq.symm (h.knows_of htask rfl))
    · exact h.goes_on htask rfl rfl rfl rfl h.ordered h.bound h.file ⟨h.knows_of htask rfl, nofun⟩

/-- The test of the loop changes only the task. -/
theorem config_saveLatest (task : Nat) (s : Saver) : (s.saveLatest task).config = s.config := by
  unfold Saver.saveLatest
  split <;> rfl

/-- The configuration in force after an event. -/
theorem epoch_step {event : SaverEvent} (hstep : s.step event = some s') :
    s'.config.epoch = event.epoch?.getD s.config.epoch := by
  cases event with
  | setConfig config =>
    cases hstep
    unfold Saver.setConfig
    split <;> rfl
  | begin task =>
    obtain ⟨-, rfl⟩ := step_begin hstep
    exact congrArg _ (config_saveLatest task s)
  | replace task =>
    obtain ⟨config, -, rfl⟩ := step_replace hstep
    rfl
  | raise task =>
    obtain ⟨config, -, rfl⟩ := step_raise hstep
    rfl
  | resume task =>
    obtain ⟨config, ⟨-, rfl⟩ | ⟨-, rfl⟩⟩ := step_resume hstep
    · exact congrArg _ (config_saveLatest task _)
    · rfl

/-- **Every run keeps the invariant.** -/
theorem Inv.run (h : s.Inv file) {events : List SaverEvent}
    (hnewer : (s.config.epoch :: events.filterMap SaverEvent.epoch?).IsChain (· < ·))
    (hrun : s.run events = some s') : s'.Inv file := by
  induction events generalizing s with
  | nil =>
    cases hrun
    exact h
  | cons event events ih =>
    obtain ⟨s₁, hstep, hrest⟩ := Option.bind_eq_some_iff.mp hrun
    have hepoch := epoch_step hstep
    cases hevent : event.epoch? with
    | none =>
      rw [filterMap_cons_none hevent] at hnewer
      rw [hevent, Option.getD_none] at hepoch
      refine ih (h.step (fun epoch he => ?_) hstep) (hepoch ▸ hnewer) hrest
      rw [hevent] at he
      cases he
    | some epoch =>
      rw [filterMap_cons_some hevent, isChain_cons_cons] at hnewer
      rw [hevent, Option.getD_some] at hepoch
      refine ih (h.step (fun epoch' he => ?_) hstep) (hepoch ▸ hnewer.2) hrest
      rw [hevent] at he
      cases he
      exact hnewer.1

end Saver

/-- **The saved configuration never goes back and ends at the newest.** In every run in which the configurations
that are adopted have increasing epochs, whatever the order of saves, failures and changes: the
configurations written to the file have increasing epochs and the file holds the last of them, at most one
task is not done, and when the manager's task is done without a write error the file holds the configuration
in force. -/
theorem saves_in_order (config : ClusterConfig) (file : Option ClusterConfig) (events : List SaverEvent)
    (s : Saver)
    (hnewer : (config.epoch :: events.filterMap SaverEvent.epoch?).IsChain (· < ·))
    (hrun : (Saver.new config file).run events = some s) :
    s.written.Pairwise (·.epoch < ·.epoch) ∧ s.file = s.written.getLast?.or file ∧
    (∀ (i j : Nat) (phase phase' : SaveTask), s.tasks[i]? = some phase → phase.done = false →
      s.tasks[j]? = some phase' → phase'.done = false → i = j) ∧
    (s.current = some (.finished true) → s.file = some s.config) := by
  have h := (Saver.inv_new config file).run hnewer hrun
  refine ⟨h.ordered, h.file, fun i j phase phase' hi hdone hj hdone' => ?_, fun hfinished => ?_⟩
  · have hsaving := (h.current_eq hi hdone).1
    rw [(h.current_eq hj hdone').1] at hsaving
    exact (Option.some.inj hsaving).symm
  · have hknows := h.knows
    rw [hfinished] at hknows
    rw [h.file, ← hknows.1, hknows.2 rfl]
    rfl

/-- A configuration with one group. -/
def oneGroup (epoch : Nat) : ClusterConfig := .solo epoch (text "a") ⟨text "h", 1⟩

/-- A change that arrives during a save, and one whose save fails before the last. -/
theorem saves_in_order_twice :
    ∃ s, (Saver.new (oneGroup 0) none).run [.setConfig (oneGroup 1), .begin 0, .setConfig (oneGroup 2),
        .replace 0, .resume 0, .raise 0, .resume 0, .setConfig (oneGroup 3), .begin 1, .replace 1,
        .resume 1] = some s ∧
      s.written = [oneGroup 1, oneGroup 3] ∧ s.file = some (oneGroup 3) := by
  refine ⟨_, rfl, rfl, ?_⟩
  exact (saves_in_order (oneGroup 0) none [.setConfig (oneGroup 1), .begin 0, .setConfig (oneGroup 2),
    .replace 0, .resume 0, .raise 0, .resume 0, .setConfig (oneGroup 3), .begin 1, .replace 1,
    .resume 1] _ (by decide) rfl).2.2.2 rfl

end KvStore
