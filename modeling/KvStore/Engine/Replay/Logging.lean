import KvStore.Engine.Replay.Files

/-! # What the files get

**`Engine.Logs e e'`** says of a phase of a call that the files got exactly the effects propagated
between `e` and `e'`, and the snapshots that were completed for a rewrite. -/

namespace KvStore

open Commands List

/-! ## Calls on the files -/

namespace FileCall

/-- The record a call appends. -/
def effect? : FileCall → Option Effect
  | .append effect => some effect
  | _ => none

/-- The copy a call hands over. -/
def copy? : FileCall → Option (List Record)
  | .finishCopy records => some records
  | _ => none

/-- The calls that come in the middle of a command. -/
def Inner : FileCall → Prop
  | .append _ | .finishCopy _ => True
  | _ => False

/-- The records appended by some calls. -/
def effects (cs : List FileCall) : List Effect := cs.filterMap effect?

/-- The copies handed over by some calls. -/
def copies (cs : List FileCall) : List (List Record) := cs.filterMap copy?

@[simp] theorem effects_nil : effects [] = [] := rfl

@[simp] theorem copies_nil : copies [] = [] := rfl

@[simp] theorem effects_cons_append (x : Effect) (cs : List FileCall) :
    effects (.append x :: cs) = x :: effects cs := rfl

@[simp] theorem copies_cons_append (x : Effect) (cs : List FileCall) :
    copies (.append x :: cs) = copies cs := rfl

@[simp] theorem effects_cons_finishCopy (records : List Record) (cs : List FileCall) :
    effects (.finishCopy records :: cs) = effects cs := rfl

@[simp] theorem copies_cons_finishCopy (records : List Record) (cs : List FileCall) :
    copies (.finishCopy records :: cs) = records :: copies cs := rfl

theorem effects_append (cs cs' : List FileCall) : effects (cs ++ cs') = effects cs ++ effects cs' :=
  filterMap_append

theorem copies_append (cs cs' : List FileCall) : copies (cs ++ cs') = copies cs ++ copies cs' :=
  filterMap_append

/-- Calls that append nothing and hand nothing over are none. -/
theorem eq_nil_of_inner {cs : List FileCall} (hinner : ∀ c ∈ cs, c.Inner) (heffects : effects cs = [])
    (hcopies : copies cs = []) : cs = [] := by
  cases cs with
  | nil => rfl
  | cons c rest =>
    cases c with
    | append x => simp at heffects
    | finishCopy records => simp at hcopies
    | beginRewrite | finish now ok | abandonCopy => exact (hinner _ mem_cons_self).elim

end FileCall

namespace Persistence

open FileCall

/-- A call on the files. -/
def call (p : Persistence) : FileCall → Persistence
  | .append effect => p.append effect
  | .beginRewrite => p.beginRewrite
  | .finishCopy records => p.finishCopy records
  | .finish now ok => p.finish now ok
  | .abandonCopy => p.abandonCopy

/-- Several calls. -/
def callAll (cs : List FileCall) (p : Persistence) : Persistence := cs.foldl call p

theorem callAll_append (cs cs' : List FileCall) (p : Persistence) :
    p.callAll (cs ++ cs') = (p.callAll cs).callAll cs' := foldl_append

/-- **The calls in the middle of a command**, on open files. -/
theorem callAll_inner {p : Persistence} (hopen : p.isOpen = true) {cs : List FileCall}
    (hinner : ∀ c ∈ cs, c.Inner) :
    p.callAll cs =
      { p with
        current := p.current ++ effects cs
        copying := (copies cs).isEmpty && p.copying
        job := (copies cs).foldl (fun _ records => some records) p.job
        calls := p.calls ++ cs } := by
  induction cs generalizing p with
  | nil => simp [callAll]
  | cons c rest ih =>
    have hrest : ∀ c ∈ rest, c.Inner := fun c hc => hinner c (mem_cons_of_mem _ hc)
    cases c with
    | append x =>
      have hcall : p.call (.append x) =
          { p with current := p.current ++ [x], calls := p.calls ++ [.append x] } := by
        simp [call, append, hopen]
      rw [callAll, foldl_cons, hcall]
      refine (ih (p := { p with current := p.current ++ [x], calls := p.calls ++ [.append x] })
        hopen hrest).trans ?_
      simp
    | finishCopy records =>
      rw [callAll, foldl_cons]
      refine (ih (p := p.finishCopy records) hopen hrest).trans ?_
      simp [finishCopy]
    | beginRewrite | finish now ok | abandonCopy => exact (hinner _ mem_cons_self).elim

end Persistence

/-! ## Limits -/

namespace Store

variable {σ : Type} [EvictionPolicy σ]

theorem evictIfNeeded_unlimited {s : Store σ} (hkeys : s.maxKeys = 0) (hmemory : s.maxmemory = 0)
    (now : Nat) (protect : List Str) : (s.evictIfNeeded now protect).1 = [] := by
  unfold evictIfNeeded
  split
  · cases s.data.size with
    | zero => rfl
    | succ fuel => simp [evictLoop, overLimit, hkeys, hmemory]
  · rfl

end Store

/-! ## Phases -/

namespace Engine

variable [CPython] {σ : Type} [EvictionPolicy σ]

/-- **The files got what was propagated**, and the snapshots completed for a rewrite, and nothing
else happened to them. While the files are being read nothing is propagated. -/
structure Logs (e e' : Engine σ) : Prop where
  /-- The engine goes on replaying, or not. -/
  replaying : e'.replaying = e.replaying
  epoch : e'.store.snapshotEpoch = e.store.snapshotEpoch
  log : e.store.finished = none → e'.store.finished = none ∧
    ∃ (cs : List FileCall) (jobs : List SnapshotJob), (∀ c ∈ cs, c.Inner) ∧
      (e.replaying = true → FileCall.effects cs = []) ∧
      e'.propagated = e.propagated ++ FileCall.effects cs ∧
      e'.store.delivered = e.store.delivered ++ jobs ∧
      FileCall.copies cs =
        (jobs.filter fun job => job.receiver = .rewrite).map SnapshotJob.records ∧
      e'.persistence = e.persistence.map (Persistence.callAll cs)

section Logs

variable {e e' e'' : Engine σ}

section

omit [CPython] [EvictionPolicy σ]

theorem Logs.of_same (hreplay : e'.replaying = e.replaying)
    (houtbox : e'.store.outbox = e.store.outbox) (hlog : e'.propagated = e.propagated)
    (hfiles : e'.persistence = e.persistence) : Logs e e' := by
  simp only [Store.outbox, Prod.mk.injEq] at houtbox
  obtain ⟨hepoch, hfinished, hdelivered⟩ := houtbox
  refine ⟨hreplay, hepoch, fun h => ⟨hfinished.trans h, [], [], by simp, fun _ => rfl, ?_, ?_, rfl, ?_⟩⟩
  · simp [hlog]
  · simp [hdelivered]
  · exact hfiles.trans Option.map_id'.symm

theorem Logs.refl (e : Engine σ) : Logs e e := .of_same rfl rfl rfl rfl

theorem Logs.trans (h : Logs e e') (h' : Logs e' e'') : Logs e e'' := by
  refine ⟨h'.replaying.trans h.replaying, h'.epoch.trans h.epoch, fun hidle => ?_⟩
  obtain ⟨hidle', cs, jobs, hinner, hquiet, hlog, hdelivered, hcopies, hfiles⟩ := h.log hidle
  obtain ⟨hidle'', cs', jobs', hinner', hquiet', hlog', hdelivered', hcopies', hfiles'⟩ :=
    h'.log hidle'
  refine ⟨hidle'', cs ++ cs', jobs ++ jobs', fun c hc => ?_, fun hreplay => ?_, ?_, ?_, ?_, ?_⟩
  · exact (mem_append.mp hc).elim (hinner c) (hinner' c)
  · rw [FileCall.effects_append, hquiet hreplay, hquiet' (h.replaying.trans hreplay), append_nil]
  · rw [hlog', hlog, FileCall.effects_append, append_assoc]
  · rw [hdelivered', hdelivered, append_assoc]
  · rw [FileCall.copies_append, hcopies, hcopies', filter_append, map_append]
  · rw [hfiles', hfiles, Option.map_map]
    congr 1
    funext p
    exact (p.callAll_append cs cs').symm

theorem logs_onStore {f : Store σ → Store σ} (e : Engine σ)
    (houtbox : (f e.store).outbox = e.store.outbox) : Logs e (e.onStore f) :=
  .of_same rfl houtbox rfl rfl

theorem logs_propagate (x : Effect) (e : Engine σ) : Logs e (e.propagate x) := by
  unfold propagate
  split
  · exact .refl e
  case isFalse hreplay =>
    refine ⟨rfl, rfl, fun h => ⟨h, [.append x], [], ?_, fun h => absurd h hreplay, ?_, ?_, rfl, ?_⟩⟩
    · simp [FileCall.Inner]
    · simp
    · simp
    · rfl

/-- A snapshot that is completed goes to its receiver. -/
theorem logs_handOver {f : Store σ → Store σ} (e : Engine σ)
    (h : (f e.store).outbox = e.store.outbox ∨
      ∃ job, (f e.store).outbox = (e.store.snapshotEpoch, some job, e.store.delivered ++ [job])) :
    Logs e (e.onStore f).handOver := by
  rcases h with hsame | ⟨job, hjob⟩
  · simp only [Store.outbox, Prod.mk.injEq] at hsame
    refine ⟨?_, ?_, fun hidle => ?_⟩
    · unfold handOver
      split <;> rfl
    · unfold handOver
      split <;> exact hsame.1
    · have hnone : (e.onStore f).handOver = e.onStore f := by
        simp [handOver, onStore, hsame.2.1, hidle]
      rw [hnone]
      exact (logs_onStore (f := f) e (by simp [Store.outbox, hsame])).log hidle
  · simp only [Store.outbox, Prod.mk.injEq] at hjob
    obtain ⟨hepoch, hfinished, hdelivered⟩ := hjob
    simp only [handOver, onStore, hfinished]
    refine ⟨rfl, hepoch, fun _ => ⟨rfl, ?_⟩⟩
    cases hreceiver : job.receiver with
    | rewrite =>
      refine ⟨[.finishCopy job.records], [job], ?_, fun _ => rfl, ?_, hdelivered, ?_, ?_⟩
      · simp [FileCall.Inner]
      · simp
      · simp [hreceiver]
      · simp only [if_true]
        rfl
    | replica =>
      refine ⟨[], [job], by simp, fun _ => rfl, ?_, hdelivered, ?_, ?_⟩
      · simp
      · simp [hreceiver]
      · simp only [reduceCtorEq, if_false]
        exact Option.map_id'.symm

/-- **A phase of a call.** -/
theorem Phase.logs (h : Phase e e') : Logs e e' := by
  induction h with
  | refl => exact .refl e
  | tail _ hstep ih =>
    refine ih.trans ?_
    cases hstep with
    | content hframe => exact .of_same rfl (congrArg Prod.snd hframe) rfl rfl
    | log x => exact logs_propagate x _
    | deliver _ houtbox => exact logs_handOver _ houtbox

end

/-- The operations that leave the files alone but for what they log. -/
def Op.KeepsFiles : Op → Prop
  | .startRewrite | .save => False
  | _ => True

theorem phase_exec (env : Env) {o : Op} (ho : Op.KeepsFiles o) (e : Engine σ) :
    Phase e (exec env o e).2 := by
  refine phase_of_acts (P := (· ≠ .copy)) (· rfl) (acts_exec env ?_ e)
  cases o <;> simp_all [Op.KeepsFiles]
  case zset _ call => cases call <;> simp

theorem phase_run (env : Env) {α : Type} {p : Cmd α} (hp : p.Uses Op.KeepsFiles) (e : Engine σ) :
    Phase e (p.run (exec env) e).2 :=
  Prog.run_invariant (P := Op.KeepsFiles) (I := Phase e) (f := exec env)
    (fun _ _ ho h => h.trans (phase_exec env ho _)) hp .refl

omit [CPython] in
/-- Operations the abstract machine knows do not touch the files. -/
theorem keepsFiles_of_plain {o : Op} (ho : Op.Plain o) : Op.KeepsFiles o := by
  cases o <;> simp_all [Op.KeepsFiles]

/-- The handler of a write, with the keys accounted again. -/
theorem phase_write (env : Env) {c : Command} {args : List Str} (hw : c.spec.write = true)
    (hplain : (c.handler args).Uses Op.Plain) (e : Engine σ) : Phase e (e.run env c args).2 := by
  rw [run_write env hw]
  exact (phase_run env (hplain.mono fun _ => keepsFiles_of_plain) e).trans (phase_refreshAll _ _)

/-- **A write.** -/
theorem logs_execute (env : Env) {c : Command} {args : List Str} (hw : c.spec.write = true)
    (hreal : c.Real args) (e : Engine σ) : Logs e (e.execute env c args).2 := by
  refine execute_induction (I := Logs e) (fun e' h => h.trans (phase_barrier _ e').logs)
    (fun key e' h => h.trans (phase_lookup env.now key e').logs) (fun harity e' h => h.trans ?_)
    (fun e' h => h.trans (phase_evict env _ e').logs)
    (fun _ _ h => h.trans (.of_same rfl rfl rfl rfl)) (.refl e)
  have hplain := (Space.follow_handler env hw harity hreal (K := fun _ => none) fun _ => rfl).1
  exact (phase_write env hw hplain e').logs

/-! ## Reading the files -/

/-- **Loading a snapshot.** -/
theorem shows_loadRecords (now : Nat) {records : List Record}
    (hrecords : ∀ r ∈ records, Record.Sound r) {e : Engine σ} {K : Keyspace}
    (h : e.store.Shows K) :
    (e.loadRecords now records).store.Shows (records.foldl Keyspace.load K) := by
  induction records generalizing e K with
  | nil => exact h
  | cons r rest ih =>
    have hsim : Sim ⟨e.replaying, e.store.expiryEnabled, e.store.expiryDeletes⟩ e.propagated e
        ⟨K, []⟩ := ⟨h, rfl, rfl, rfl, by simp⟩
    have hload := hsim.loadRecord now r.1 (hrecords r mem_cons_self).1 r.2.2
    exact ih (fun r' hr' => hrecords r' (mem_cons_of_mem _ hr')) hload.shows

theorem logs_replay {E : List Effect} {K K' : Keyspace} (hruns : Runs Space.Step E K K')
    {e e' : Engine σ} {envs : Nat → Env} (h : e.replay envs E = .ok e') :
    Logs e e' ∧ e'.flags = e.flags := by
  induction hruns generalizing e envs with
  | nil K =>
    simp only [replay, Except.ok.injEq] at h
    exact h ▸ ⟨.refl e, rfl⟩
  | cons hstep _ ih =>
    rename_i x rest K₀ K₁ K₂ _
    simp only [replay, apply] at h
    split at h
    case h_1 => cases h
    case h_2 e₁ happly =>
      split at happly
      case h_1 => cases happly
      case h_2 harity =>
        have hprogram : x.program = x.command.handler x.args := by simp [Effect.program, harity]
        have hplain : (x.command.handler x.args).Uses Op.Plain := hprogram ▸ hstep.plain
        have hrun := phase_write (envs 0) hstep.write hplain e
        have hflags := flags_runCommand (envs 0) x.command x.args e
        split at happly
        case h_1 => cases happly
        case h_2 reply e₂ heq =>
          rw [Except.ok.injEq] at happly
          subst happly
          rw [heq] at hrun hflags
          obtain ⟨hlogs, hsame⟩ := ih h
          exact ⟨hrun.logs.trans hlogs, hsame.trans hflags⟩

end Logs

end Engine

end KvStore
