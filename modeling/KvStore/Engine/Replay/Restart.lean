import KvStore.Engine.Replay.Logging
import KvStore.Engine.Replay.Replica

/-! # Restarts

What an engine holds after a restart is what it held before, without the keys whose deadline has
passed meanwhile (`restart_exact`), over any number of restarts — provided that no command builds in
place on a key that opening has dropped. Opening drops the keys that have expired while the process
was down, but does not log it, so that the files still hold them; an RPUSH on such a key starts a new
list in memory, while its record, read back, extends the old one, which then expires
(`restart_loses_rpush`).

* **`Engine.Forgotten e key`** — the key is gone from memory, but not from the files.
* **`Engine.Life t e`** — `e` has come about, by the time `t`, from an empty data directory, by
  commands, housekeeping and restarts, no command building on a forgotten key.
* **`Engine.Backed t e p K`** — the invariant: the files of `e` back its keyspace. -/

namespace KvStore

open List

namespace Engine

section Restart

variable [CPython] {σ : Type} [EvictionPolicy σ]

/-! ## Lives -/

/-- Reading the files, as `open` does it. -/
def load (envs : Nat → Env) (env : Env) (p : Persistence) (e : Engine σ) :
    Except KvError (Engine σ) :=
  (e.beginLoad.loadRecords env.now p.base).replay envs (p.older ++ p.current)

/-- **A key is forgotten**: there is no such key in memory, but a process that reads the files finds
one. -/
def Forgotten (e : Engine σ) (key : Str) : Prop :=
  e.store.keyspace key = none ∧
    ∃ p ∈ e.persistence, ∃ (config : Config σ) (envs : Nat → Env) (env : Env) (l : Engine σ),
      (new config env (some p)).load envs env p = .ok l ∧ l.store.keyspace key ≠ none

/-- The clock reading of a piece of work. -/
def Work.now : Work → Nat
  | .execute env _ _ | .cron env _ _ => env.now

/-- **Work that recovery can cope with**: no NaN is brought in, and no command builds in place on a
forgotten key. -/
def Work.Recoverable (e : Engine σ) : Work → Prop
  | .execute _ c args =>
    c.Real args ∧ (c.builds args = true → ∀ key ∈ c.keyArgs args, ¬ e.Forgotten key)
  | .cron _ _ _ => True

/-- The deadlines in the snapshot on disk are less than 2 ^ 50 milliseconds. -/
def NearFiles (e : Engine σ) : Prop := ∀ p ∈ e.persistence, ∀ r ∈ p.base, r.Near

/-- **The life of a data directory**, up to the time of its last event. Every record logged has
readable numbers. -/
inductive Life : Nat → Engine σ → Prop
  /-- An empty directory is opened. -/
  | opened {config : Config σ} {envs : Nat → Env} {env : Env} {e : Engine σ} :
      (new config env (some {})).open envs env = .ok e → Life env.now e
  | work {t : Nat} {e : Engine σ} {w : Work} : Life t e → t ≤ w.now → w.Recoverable e →
      (∀ x ∈ (e.work w).propagated, x.Readable) → Life w.now (e.work w)
  /-- A slice of the snapshot that is being taken. -/
  | slice {t : Nat} {e : Engine σ} (n : Nat) : Life t e → Life t (e.stepSnapshot n)
  /-- The engine is closed, and a new process opens the directory. -/
  | restarted {t : Nat} {e e' : Engine σ} {config : Config σ} {envs : Nat → Env}
      {closing opening : Env} : Life t e → t ≤ opening.now → (e.close closing).NearFiles →
      e.restart config envs closing opening = .ok e' → Life opening.now e'

/-! ## The invariant -/

/-- What a rewrite that is copying the keyspace will back it with. -/
structure Copied (t : Nat) (s : Store σ) (log : List Effect) (K : Keyspace) (orig : List Record)
    (job : SnapshotJob) : Prop where
  copying : Store.Copying orig job s
  nodup : (orig.map Prod.fst).Nodup
  receiver : job.receiver = .rewrite
  backs : BacksCopy t orig log K

/-- **The engine's files back its keyspace.** -/
structure Backed (t : Nat) (e : Engine σ) (p : Persistence) (K : Keyspace) : Prop where
  serving : e.Serving
  deletes : e.store.expiryDeletes = true
  kept : e.store.Kept []
  /-- Every snapshot that was completed has been taken by its receiver. -/
  idle : e.store.finished = none
  shows : e.store.Shows K
  noEmpty : K.NoEmpty
  files : e.persistence = some p
  isOpen : p.isOpen = true
  backs : p.Backs t K
  /-- And so will the copy that is being made. -/
  copied : p.copying = true → ∃ orig job, Copied t e.store p.current K orig job
  /-- A copy is made for a rewrite that waits for it. -/
  copying : ∀ job, e.store.snapshotJob = some job → job.receiver = .rewrite → p.copying = true
  /-- Their records were logged in this life of the process, or have been read. -/
  logged : ∀ x ∈ p.older ++ p.current, x ∈ e.propagated ∨ x.Readable

omit [EvictionPolicy σ] in
theorem Copied.mono {t t' : Nat} {s : Store σ} {log : List Effect} {K : Keyspace}
    {orig : List Record} {job : SnapshotJob} (h : Copied t s log K orig job) (hle : t ≤ t') :
    Copied t' s log K orig job :=
  ⟨h.copying, h.nodup, h.receiver, h.backs.mono hle⟩

/-- **What a phase does to the copy that is being made**: it goes on, or is complete. -/
theorem Copied.steps {t : Nat} {s s' : Store σ} {log : List Effect} {K : Keyspace}
    {orig : List Record} {job : SnapshotJob} (h : Copied t s log K orig job) (hkept : s.Kept [])
    (hsteps : Store.Steps False s s') (hjobs : Store.SameJobs s s') {jobs : List SnapshotJob}
    (hdelivered : s'.delivered = s.delivered ++ jobs) :
    (jobs = [] ∧ ∃ job', Store.Copying orig job' s' ∧ job'.receiver = .rewrite) ∨
      ∃ job', jobs = [job'] ∧ Store.Result orig job' ∧ job'.receiver = .rewrite ∧
        s'.snapshotJob = none := by
  have hprogress : Store.Progress orig job.epoch s.delivered s' := by
    have hrun : s'.Kept [] ∧ Store.Progress orig job.epoch s.delivered s' := by
      clear hjobs hdelivered
      induction hsteps with
      | refl => exact ⟨hkept, .running h.copying rfl rfl⟩
      | tail _ hstep ih => exact ⟨ih.1.step hstep, ih.2.step h.nodup ih.1 hstep⟩
    exact hrun.2
  -- a job after the phase is the one that ran before
  have hsame : ∀ {j : SnapshotJob}, (∃ j₀, s.snapshotJob = some j₀ ∧ Store.SameJob j₀ j) →
      j.epoch = job.epoch ∧ j.receiver = .rewrite := by
    rintro j ⟨j₀, hj₀, hsame⟩
    obtain rfl := Option.some.inj (hj₀.symm.trans h.copying.running)
    exact ⟨hsame.epoch, hsame.receiver.trans h.receiver⟩
  have hmore : ∀ j ∈ jobs, ∃ j₀, s.snapshotJob = some j₀ ∧ Store.SameJob j₀ j := by
    obtain ⟨more, hmore, hall⟩ := hjobs.delivered
    rw [append_cancel_left (hdelivered.symm.trans hmore)]
    exact hall
  cases hprogress with
  | @running job' hcopy hepoch hbefore =>
    refine .inl ⟨?_, job', hcopy, (hsame (hjobs.running job' hcopy.running)).2⟩
    exact append_cancel_left ((hdelivered.symm.trans hbefore).trans (append_nil _).symm)
  | @done job' later hresult hepoch hall hlater hrunning =>
    have hlist : jobs = job' :: later := append_cancel_left (hdelivered.symm.trans hall)
    obtain rfl : later = [] := eq_nil_iff_forall_not_mem.mpr fun j hj => by
      have hepoch' := (hsame (hmore j (hlist ▸ mem_cons_of_mem _ hj))).1
      exact absurd (hlater j hj) (by omega)
    refine .inr ⟨job', hlist, hresult, (hsame (hmore job' (by simp [hlist]))).2, ?_⟩
    rw [Option.eq_none_iff_forall_ne_some]
    intro j hj
    exact absurd (hrunning j hj) (by rw [(hsame (hjobs.running j hj)).1]; omega)

namespace Backed

variable {t : Nat} {e e' : Engine σ} {p : Persistence} {K : Keyspace}

omit [EvictionPolicy σ] in
theorem mono {t' : Nat} (h : Backed t e p K) (hle : t ≤ t') : Backed t' e p K :=
  { h with
    backs := h.backs.mono hle
    copied := fun hcopying => by
      obtain ⟨orig, job, hcopied⟩ := h.copied hcopying
      exact ⟨orig, job, hcopied.mono hle⟩ }

/-- **A phase that logs what it does.** -/
theorem follows {builds : Str → Prop} (h : Backed t e p K) (hfollows : Follows t builds e e')
    (hlogs : Logs e e') (hsteps : Store.Steps False e.store e'.store)
    (hbuilds : ∀ L, Rebuilds p.base (p.older ++ p.current) L → ∀ key, K key = none → builds key →
      L key = none) : ∃ p' K', Backed t e' p' K' := by
  obtain ⟨E, K', hlog, hshows, hK', hfollow⟩ := hfollows.follow h.shows h.noEmpty
  obtain ⟨hidle, cs, jobs, hinner, -, hlog', hdelivered, hcopies, hfiles⟩ := hlogs.log h.idle
  obtain rfl : E = FileCall.effects cs := append_cancel_left (hlog.symm.trans hlog')
  have hjobs := hsteps.jobs.2 hlogs.epoch
  have hbacks := h.backs.follow hbuilds hfollow
  have hcall := Persistence.callAll_inner h.isOpen hinner
  have hlogged : ∀ x ∈ p.older ++ (p.current ++ FileCall.effects cs), x ∈ e'.propagated ∨ x.Readable := by
    intro x hx
    rw [hlog]
    rw [← append_assoc] at hx
    rcases mem_append.mp hx with hold | hnew
    · exact (h.logged x hold).imp_left (mem_append_left _)
    · exact .inl (mem_append_right _ hnew)
  -- the files, whether or not a copy was handed over
  have hfinal : ∀ copying job, (∀ records, job = some records →
        BacksCopy t records (p.current ++ FileCall.effects cs) K') →
      (copying = true → ∃ orig job, Copied t e'.store (p.current ++ FileCall.effects cs) K' orig job) →
      (∀ job, e'.store.snapshotJob = some job → job.receiver = .rewrite → copying = true) →
      p.callAll cs = { p with
        current := p.current ++ FileCall.effects cs, copying := copying, job := job
        calls := p.calls ++ cs } →
      ∃ p' K', Backed t e' p' K' := by
    intro copying job hjob hcopied hcopying heq
    refine ⟨p.callAll cs, K', hfollows.serving, hfollows.deletes.trans h.deletes,
      h.kept.steps hsteps, hidle, hshows, hK', ?_, ?_, ?_, ?_, ?_, ?_⟩
    · rw [hfiles, h.files]
      rfl
    · rw [heq]
      exact h.isOpen
    · rw [heq]
      exact hbacks.of_eq rfl rfl hjob
    · rw [heq]
      exact hcopied
    · rw [heq]
      exact hcopying
    · rw [heq]
      exact hlogged
  cases hcopying : p.copying with
  | true =>
    obtain ⟨orig, job, hcopied⟩ := h.copied hcopying
    have hbacks' := hcopied.backs.follow hfollow
    rcases hcopied.steps h.kept hsteps hjobs hdelivered with
      ⟨hnone, job', hcopy, hreceiver⟩ | ⟨job', hone, hresult, hreceiver, hnone⟩
    · have hcopies : FileCall.copies cs = [] := by rw [hcopies, hnone]; rfl
      refine hfinal true p.job hbacks.copy
        (fun _ => ⟨orig, job', hcopy, hcopied.nodup, hreceiver, hbacks'⟩) (fun _ _ _ => rfl) ?_
      rw [hcall, hcopies]
      simp [hcopying]
    · have hcopies : FileCall.copies cs = [job'.records] := by simp [hcopies, hone, hreceiver]
      refine hfinal false (some job'.records) ?_ nofun (fun j hj _ => ?_) ?_
      · rintro _ ⟨⟩
        exact hbacks'.of_result hcopied.nodup hresult
      · rw [hnone] at hj
        cases hj
      · rw [hcall, hcopies]
        simp
  | false =>
    -- no job is for a rewrite
    have hnot : ∀ j, (∃ j₀, e.store.snapshotJob = some j₀ ∧ Store.SameJob j₀ j) →
        j.receiver ≠ .rewrite := by
      rintro j ⟨j₀, hj₀, hsame⟩ hreceiver
      have := h.copying j₀ hj₀ (hsame.receiver.symm.trans hreceiver)
      simp [hcopying] at this
    have hcopies : FileCall.copies cs = [] := by
      obtain ⟨more, hmore, hall⟩ := hjobs.delivered
      rw [hcopies, append_cancel_left (hdelivered.symm.trans hmore),
        filter_eq_nil_iff.mpr fun j hj => by simpa using hnot j (hall j hj)]
      rfl
    refine hfinal false p.job hbacks.copy nofun (fun j hj hreceiver => ?_) ?_
    · exact absurd hreceiver (hnot j (hjobs.running j hj))
    · rw [hcall, hcopies]
      simp [hcopying]

theorem quiet (h : Backed t e p K) (hfollows : Follows t (fun _ => False) e e')
    (hlogs : Logs e e') (hsteps : Store.Steps False e.store e'.store) :
    ∃ p' K', Backed t e' p' K' :=
  h.follows hfollows hlogs hsteps fun _ _ _ _ hbuild => hbuild.elim

section

omit [EvictionPolicy σ]

/-- Other files that back the same keyspace and hold the same records, or fewer. -/
theorem withFiles (h : Backed t e p K) {p' : Persistence} (hopen : p'.isOpen = true)
    (hbacks : p'.Backs t K) (hcopying : p'.copying = p.copying)
    (hcurrent : p.copying = true → p'.current = p.current)
    (hlogged : ∀ x ∈ p'.older ++ p'.current, x ∈ p.older ++ p.current) :
    Backed t { e with persistence := some p' } p' K :=
  { serving := ⟨h.serving.replaying, h.serving.expiry⟩
    deletes := h.deletes
    kept := h.kept
    idle := h.idle
    shows := h.shows
    noEmpty := h.noEmpty
    files := rfl
    isOpen := hopen
    backs := hbacks
    copied := by
      rw [hcopying]
      intro hc
      rw [hcurrent hc]
      exact h.copied hc
    copying := by
      rw [hcopying]
      exact h.copying
    logged := fun x hx => h.logged x (hlogged x hx) }

theorem finish (h : Backed t e p K) (at_ : Nat) (ok : Bool) :
    Backed t { e with persistence := some (p.finish at_ ok) } (p.finish at_ ok) K := by
  have hfields : (p.finish at_ ok).isOpen = p.isOpen ∧ (p.finish at_ ok).copying = p.copying ∧
      (p.finish at_ ok).current = p.current ∧
      ∀ x ∈ (p.finish at_ ok).older ++ (p.finish at_ ok).current, x ∈ p.older ++ p.current := by
    unfold Persistence.finish
    split
    · exact ⟨rfl, rfl, rfl, fun _ hx => hx⟩
    · simp only
      split
      · exact ⟨rfl, rfl, rfl, fun x hx => mem_append_right _ (by simpa using hx)⟩
      · exact ⟨rfl, rfl, rfl, fun _ hx => hx⟩
  exact h.withFiles (hfields.1.trans h.isOpen) (h.backs.finish at_ ok) hfields.2.1 (fun _ => hfields.2.2.1)
    hfields.2.2.2

theorem poll (h : Backed t e p K) (at_ : Nat) (written : Option Bool) :
    Backed t { e with persistence := some (p.poll at_ written) } (p.poll at_ written) K := by
  cases written with
  | none => exact h.withFiles h.isOpen h.backs rfl (fun _ => rfl) fun _ hx => hx
  | some ok => exact h.finish at_ ok

end

/-- A rewrite whose copy is made in slices. -/
theorem beginRewrite (h : Backed t e p K) (hjob : p.job = none) (hfree : e.store.snapshotJob = none) :
    Backed t (({ e with persistence := some p.beginRewrite }).beginSnapshot t .rewrite)
      p.beginRewrite K := by
  obtain ⟨job, hcopy, -⟩ :=
    Store.Copying.begin (fun key entry hget => (h.kept.entry key entry hget).stamp) t .rewrite
  have hbegun : ({ e with persistence := some p.beginRewrite }).beginSnapshot t .rewrite =
      { e with
        store := e.store.beginSnapshot t .rewrite
        persistence := some p.beginRewrite } := by
    simp [beginSnapshot, onStore, hfree]
  have hreceiver : job.receiver = .rewrite := by
    have hrunning := hcopy.running
    simp only [Store.beginSnapshot, Option.some.injEq] at hrunning
    rw [← hrunning]
  rw [hbegun]
  exact
    { serving := ⟨h.serving.replaying, h.serving.expiry⟩
      deletes := h.deletes
      kept := h.kept.step (.begin t .rewrite hfree : Store.Step False e.store _)
      idle := h.idle
      shows := h.shows.of_eq rfl rfl
      noEmpty := h.noEmpty
      files := rfl
      isOpen := h.isOpen
      backs := h.backs.beginRewrite hjob
      copied := fun _ => ⟨e.store.snapshot t, job, hcopy, e.store.nodup_snapshot t, hreceiver,
        .snapshot h.shows h.noEmpty⟩
      copying := fun _ _ _ => rfl
      logged := fun x hx => h.logged x (by simpa [Persistence.beginRewrite] using hx) }

omit [EvictionPolicy σ] in
/-- A rewrite whose copy is made at once. -/
theorem copyAtOnce (h : Backed t e p K) (hjob : p.job = none) (hcopying : p.copying = false) :
    Backed t { e with persistence := some (p.startRewrite (e.store.snapshot t)) }
      (p.startRewrite (e.store.snapshot t)) K := by
  refine h.withFiles h.isOpen ?_ hcopying.symm (fun hc => ?_) fun x hx => ?_
  · exact (h.backs.beginRewrite hjob).finishCopy (.snapshot h.shows h.noEmpty)
  · simp [hcopying] at hc
  · simpa [Persistence.startRewrite, Persistence.beginRewrite, Persistence.finishCopy] using hx

/-- **The start of a rewrite.** -/
theorem startRewrite {env : Env} (h : Backed env.now e p K) :
    ∃ p', Backed env.now (e.startRewrite env).2 p' K := by
  have hpoll := h.poll env.now env.written
  unfold Engine.startRewrite
  rw [h.files]
  simp only
  split
  · exact ⟨_, hpoll⟩
  case isFalse hbusy =>
    simp only [Persistence.inProgress, Bool.or_eq_true, not_or, Bool.not_eq_true,
      Option.isSome_eq_false_iff, Option.isNone_iff_eq_none] at hbusy
    split
    case isTrue hslices =>
      exact ⟨_, hpoll.beginRewrite hbusy.1 (Option.isNone_iff_eq_none.mp hslices.2)⟩
    case isFalse => exact ⟨_, hpoll.copyAtOnce hbusy.1 hbusy.2⟩

/-- A slice of the snapshot that is being taken. -/
theorem stepSnapshot (h : Backed t e p K) (n : Nat) : ∃ p' K', Backed t (e.stepSnapshot n) p' K' :=
  h.quiet (follows_stepSnapshot h.serving n) (phase_stepSnapshot n e).logs (steps_stepSnapshot n e)

theorem save {env : Env} (h : Backed env.now e p K) :
    ∃ p' K', Backed env.now (e.save env).2 p' K' := by
  obtain ⟨p₁, hstart⟩ := h.startRewrite
  unfold Engine.save
  split
  case h_1 heq =>
    rw [heq] at hstart
    exact ⟨p₁, K, hstart⟩
  case h_2 e₁ heq =>
    rw [heq] at hstart
    obtain ⟨p₂, K₂, hcopy⟩ := hstart.stepSnapshot e₁.store.remaining
    have hfiles : (e₁.stepSnapshot e₁.store.remaining).persistence = some p₂ := hcopy.files
    simp only [hfiles, Option.map_some]
    split <;> exact ⟨_, _, hcopy.finish env.now env.saved⟩

theorem exec {env : Env} (h : Backed env.now e p K) {o : Op} (ho : Op.Reads o) :
    ∃ p' K', Backed env.now (Engine.exec env o e).2 p' K' := by
  by_cases hkeeps : Op.KeepsFiles o
  · refine h.quiet (follows_of_acts h.serving (acts_exec env ho.needs e)) (phase_exec env hkeeps e).logs ?_
    refine Store.Steps.quiet (moves_exec env ?_ fun _ => .inl rfl)
    cases o <;> simp_all [Op.KeepsFiles]
    case zset _ call => cases call <;> simp_all
  · cases o <;> simp only [Op.KeepsFiles, not_true_eq_false, not_false_eq_true] at hkeeps
    case startRewrite => exact h.startRewrite.imp fun _ hp => ⟨K, hp⟩
    case save => exact h.save

/-- **A program of a reader.** -/
theorem reader {env : Env} (h : Backed env.now e p K) {α : Type} {q : Cmd α}
    (hq : q.Uses Op.Reads) : ∃ p' K', Backed env.now (q.run (Engine.exec env) e).2 p' K' :=
  Prog.run_invariant (P := Op.Reads) (I := fun e => ∃ p K, Backed env.now e p K)
    (f := Engine.exec env) (fun _ _ ho ⟨_, _, hI⟩ => hI.exec ho) hq ⟨p, K, h⟩

omit [EvictionPolicy σ] in
theorem readable (h : Backed t e p K) (hread : ∀ x ∈ e.propagated, x.Readable) :
    ∀ x ∈ p.older ++ p.current, x.Readable :=
  fun x hx => (h.logged x hx).elim (hread x) id

end Backed

/-! ## Opening -/

omit [CPython] in
/-- A sound record is of no empty collection. -/
theorem isEmpty_of_sound {r : Record} (h : Record.Sound r) : r.2.1.isEmpty = false := by
  have hfinish := Reg.finish_some_eq.mp h.2
  obtain ⟨key, payload, expiresAt⟩ := r
  cases payload with
  | str s => rfl
  | list items => cases items <;> [cases hfinish; rfl]
  | hash pairs | zset pairs => cases pairs <;> [cases hfinish; rfl]
  | set members => cases members <;> [cases hfinish; rfl]

/-- **Reading files** that rebuild a keyspace, and whose records can be read. -/
theorem load_rebuilds {p : Persistence} {L : Keyspace} (hbase : ∀ r ∈ p.base, Record.Sound r)
    (hruns : Rebuilds p.base (p.older ++ p.current) L)
    (hread : ∀ x ∈ p.older ++ p.current, x.Readable) (config : Config σ) (envs : Nat → Env)
    (env : Env) :
    ∃ l, (new config env (some p)).load envs env p = .ok l ∧ l.store.Shows L ∧
      l.propagated = [] ∧ l.persistence = some p ∧
      l.flags = (new config env (some p)).beginLoad.flags ∧ l.store.Kept [] ∧
      l.store.finished = none ∧ l.store.snapshotJob = none := by
  -- an engine that is loading, after the snapshot has been read
  let e₀ := (new config env (some p)).beginLoad
  have hempty : e₀.store.Shows fun _ => none := (shows_new config env (some p)).of_eq rfl rfl
  have hloaded := shows_loadRecords env.now hbase hempty
  have hlogs := (phase_loadRecords env.now p.base e₀).logs
  obtain ⟨hjob₁, hflags⟩ := loadRecords_keeps (e := e₀) rfl env.now p.base
  obtain ⟨hreplaying, hexpiry, -⟩ := eq_of_flags hflags
  have hloading : (e₀.loadRecords env.now p.base).Loading := ⟨hreplaying, hexpiry⟩
  -- and after the records
  obtain ⟨l, hreplay, hshows⟩ := replay_runs hruns hread hloading hloaded envs
  obtain ⟨hlogs', hflags'⟩ := logs_replay hruns hreplay
  have hwrites : ∀ x ∈ p.older ++ p.current, x.command.spec.write = true := fun x hx => Runs.forall_labels (fun h => h.write) hruns x hx
  have hsteps : Store.Steps False e₀.store l.store :=
    (steps_loadRecords (e := e₀) rfl rfl env.now fun r hr => isEmpty_of_sound (hbase r hr)).trans
      (steps_replay hwrites hexpiry hjob₁ envs hreplay)
  -- no snapshot is being taken, so none is completed
  obtain ⟨hidle, cs, jobs, hinner, hquiet, hlog, hdelivered, hcopies, hfiles⟩ :=
    (hlogs.trans hlogs').log rfl
  have hjobs := hsteps.jobs.2 (hlogs.trans hlogs').epoch
  have hnone : ∀ j, ¬ ∃ j₀, e₀.store.snapshotJob = some j₀ ∧ Store.SameJob j₀ j :=
    fun j ⟨j₀, hj₀, _⟩ => by cases hj₀
  obtain rfl : jobs = [] := by
    obtain ⟨more, hmore, hall⟩ := hjobs.delivered
    rw [append_cancel_left (hdelivered.symm.trans hmore)]
    exact eq_nil_iff_forall_not_mem.mpr fun j hj => hnone j (hall j hj)
  obtain rfl := FileCall.eq_nil_of_inner hinner (hquiet rfl) hcopies
  have hbegin : Store.Steps False (new config env (some p)).store e₀.store :=
    Store.Steps.aside ⟨rfl, rfl, rfl, rfl, rfl, rfl, rfl⟩
  refine ⟨l, hreplay, hshows, hlog, hfiles, hflags'.trans hflags,
    (kept_new config env (some p)).steps (hbegin.trans hsteps), hidle, ?_⟩
  rw [Option.eq_none_iff_forall_ne_some]
  exact fun j hj => hnone j (hjobs.running j hj)

/-- **Opening files.** The new engine holds what they rebuild, without the keys that have expired and
those it evicts, and its files back it. -/
theorem open_rebuilds {p : Persistence} {L : Keyspace} (hbase : ∀ r ∈ p.base, Record.Sound r)
    (hruns : Rebuilds p.base (p.older ++ p.current) L) (hL : L.NoEmpty)
    (hread : ∀ x ∈ p.older ++ p.current, x.Readable) (hclosed : p.isOpen = false)
    (hcopying : p.copying = false) (hjob : p.job = none) (config : Config σ) (envs : Nat → Env)
    (env : Env) :
    ∃ e victims p', (new config env (some p)).open envs env = .ok e ∧
      Backed env.now e p' ((L.live env.now).without victims) ∧
      (∀ x ∈ e.propagated, x.Readable) ∧
      (config.maxKeys = 0 → config.maxmemory = 0 → victims = []) := by
  obtain ⟨l, hload, hshows, hlog, hfiles, hflags, hkept, hidle, hfree⟩ :=
    load_rebuilds hbase hruns hread config envs env
  -- the engine once the expired keys have been dropped
  let e₁ := l.endLoad.onStore (Store.purgeExpired env.now)
  have hended : l.endLoad.store.Shows L := hshows.of_eq rfl rfl
  have hends : Store.Moves False [] l.store l.endLoad.store :=
    Store.Moves.aside ⟨rfl, rfl, rfl, rfl, rfl, rfl, rfl⟩
  have hpurge : Store.Moves False [] l.store e₁.store :=
    hends.trans (Store.moves_purgeExpired env.now l.endLoad.store)
  have hsettings : e₁.store.settings = l.endLoad.store.settings :=
    Store.settings_of_frame (Store.frame_purgeExpired env.now _)
  have houtbox : e₁.store.outbox = l.store.outbox :=
    congrArg Prod.snd (l.endLoad.store.frame_purgeExpired env.now)
  simp only [Engine.flags, Store.settings, Prod.mk.injEq] at hflags
  simp only [Store.settings, Prod.mk.injEq] at hsettings
  have hbacked : Backed env.now e₁ { p with isOpen := true } (L.live env.now) :=
    { serving := serving_endLoad l env.now
      deletes := hsettings.2.2.2.1.trans hflags.2.2.2.2.1
      kept := hkept.moves hpurge
      idle := (congrArg (fun o => o.2.1) houtbox).trans hidle
      shows := shows_purgeExpired hended env.now
      noEmpty := noEmpty_live hL env.now
      files := by simp [e₁, onStore, endLoad, hfiles]
      isOpen := rfl
      backs := ⟨hbase, ⟨L, hruns, hL, agrees_live env.now L⟩, by simp [hjob]⟩
      copied := by simp [hcopying]
      copying := by simp [hpurge.snapshotJob_eq_none hfree]
      logged := fun x hx => .inr (hread x hx) }
  let victims := (e₁.store.evictIfNeeded env.now []).1
  obtain ⟨hdels, hstore, -⟩ := propagate_dels
    (e := { e₁ with store := (e₁.store.evictIfNeeded env.now []).2 }) hbacked.serving.replaying victims
  obtain ⟨p', K', hopened⟩ :=
    hbacked.quiet (follows_evict hbacked.serving env []) (phase_evict env [] e₁).logs
      (Store.Steps.quiet (moves_evict env [] e₁))
  have hK' : K' = (L.live env.now).without victims := by
    refine hopened.shows.unique ?_
    have hfinal : (e₁.evict env []).store = (e₁.store.evictIfNeeded env.now []).2 := hstore
    rw [hfinal]
    exact shows_evictIfNeeded env.now [] hbacked.shows
  refine ⟨e₁.evict env [], victims, p', ?_, hK' ▸ hopened, fun x hx => ?_, fun hkeys hmemory => ?_⟩
  · have hload' : ((new config env (some p)).beginLoad.loadRecords env.now p.base).replay envs
        (p.older ++ p.current) = .ok l := hload
    simp only [«open», new, hclosed, Bool.false_eq_true, if_false] at hload' ⊢
    rw [hload']
  · have hlog₁ : (e₁.evict env []).propagated = l.propagated ++ victims.map Effect.del := hdels
    rw [hlog₁, hlog, nil_append] at hx
    obtain ⟨victim, -, rfl⟩ := mem_map.mp hx
    simp [Effect.Readable, Effect.numbers, Effect.del]
  · exact Store.evictIfNeeded_unlimited (hsettings.1.trans (hflags.2.1.trans hkeys))
      (hsettings.2.1.trans (hflags.2.2.1.trans hmemory)) env.now []

omit [EvictionPolicy σ] in
/-- Closing waits for a rewrite that is being written, and abandons a copy. -/
theorem close_backs {t : Nat} {e : Engine σ} {p : Persistence} {K : Keyspace} (h : Backed t e p K)
    (closing : Env) :
    ∃ p', (e.close closing).persistence = some p' ∧ p'.isOpen = false ∧ p'.Backs t K ∧
      ∀ x ∈ p'.older ++ p'.current, x ∈ p.older ++ p.current := by
  have hfinish : ∀ (e₁ : Engine σ) (p₁ : Persistence), e₁.persistence = some p₁ → p₁.Backs t K →
      (∀ x ∈ p₁.older ++ p₁.current, x ∈ p.older ++ p.current) →
      ∃ p', e₁.persistence.map (Persistence.close closing) = some p' ∧ p'.isOpen = false ∧
        p'.Backs t K ∧ ∀ x ∈ p'.older ++ p'.current, x ∈ p.older ++ p.current := by
    intro e₁ p₁ hfiles hbacks hlog
    have hbacks' := hbacks.finish closing.now closing.saved
    refine ⟨p₁.close closing, by rw [hfiles]; rfl, rfl, ⟨hbacks'.base, hbacks'.files, hbacks'.copy⟩, ?_⟩
    intro x hx
    refine hlog x ?_
    simp only [Persistence.close, Persistence.finish] at hx
    split at hx
    · exact hx
    · split at hx
      · exact mem_append_right _ (by simpa using hx)
      · exact hx
  unfold close
  by_cases hrunning : e.store.snapshotJob.isSome
  · simp only [hrunning, if_true]
    refine hfinish { e with
        store := { e.store with snapshotJob := none }
        persistence := e.persistence.map Persistence.abandonCopy } p.abandonCopy ?_ ?_ ?_
    · simp [h.files]
    · exact ⟨h.backs.base, h.backs.files, h.backs.copy⟩
    · exact fun _ hx => hx
  · simp only [hrunning]
    exact hfinish e p h.files h.backs fun _ hx => hx

/-- A restart opens what closing has left. -/
theorem restart_backed {t : Nat} {e : Engine σ} {p : Persistence} {K : Keyspace}
    (h : Backed t e p K) (hread : ∀ x ∈ e.propagated, x.Readable) (config : Config σ)
    (envs : Nat → Env) {closing opening : Env} (hle : t ≤ opening.now)
    (hnear : (e.close closing).NearFiles) :
    ∃ e' victims p', e.restart config envs closing opening = .ok e' ∧
      Backed opening.now e' p' ((K.live opening.now).without victims) ∧
      (∀ x ∈ e'.propagated, x.Readable) ∧
      (config.maxKeys = 0 → config.maxmemory = 0 → victims = []) := by
  obtain ⟨p₁, hclosed, hopen, hbacks, hlog⟩ := close_backs h closing
  obtain ⟨L, hL⟩ := hbacks.files
  have hfiled : p₁.filed = p₁ := by rw [Persistence.filed, map_filed (hnear p₁ hclosed)]
  unfold restart
  rw [hclosed, Option.map_some, hfiled, ← (hL.agrees.mono hle).live_eq]
  exact open_rebuilds (p := p₁.reload opening) hbacks.base hL.rebuilds hL.noEmpty
    (fun x hx => h.readable hread x (hlog x hx)) hopen rfl rfl config envs opening

/-! ## Work -/

theorem Backed.execute {env : Env} {e : Engine σ} {p : Persistence} {K : Keyspace}
    (h : Backed env.now e p K) (hread : ∀ x ∈ e.propagated, x.Readable) {c : Command}
    {args : List Str} (hreal : c.Real args)
    (hbuilds : c.builds args = true → ∀ key ∈ c.keyArgs args, ¬ e.Forgotten key) :
    ∃ p' K', Backed env.now (e.execute env c args).2 p' K' := by
  cases hw : c.spec.write with
  | true =>
    refine h.follows (follows_execute h.serving env (.inl h.deletes) hreal)
      (logs_execute env hw hreal e) (steps_execute env nofun) fun L hL key hK ⟨hkey, hbuild⟩ => ?_
    -- otherwise the key would be forgotten
    by_contra hsome
    let config : Config σ := ⟨e.store.policy, 0, 0, e.store.levels, false⟩
    obtain ⟨l, hload, hshows, -⟩ :=
      load_rebuilds h.backs.base hL (h.readable hread) config (fun _ => env) env
    refine hbuilds hbuild key hkey
      ⟨?_, p, h.files, config, fun _ => env, env, l, hload, ?_⟩
    · rw [h.shows.keyspace_eq, Keyspace.plain, hK]
      rfl
    · rw [hshows.keyspace_eq, Keyspace.plain]
      simpa using hsome
  | false =>
    obtain ⟨p₁, K₁, hmemory⟩ := h.quiet (follows_checkMemory h.serving env c args)
      (phase_checkMemory env c args e).logs (Store.Steps.quiet (moves_checkMemory env c args e))
    unfold Engine.execute
    split
    · exact ⟨p, K, h⟩
    case h_2 harity =>
      simp only [hw, Bool.false_eq_true, false_and, if_false]
      split
      case h_1 heq =>
        rw [heq] at hmemory
        exact ⟨p₁, K₁, hmemory⟩
      case h_2 e₁ heq =>
        rw [heq] at hmemory
        obtain ⟨p₂, K₂, hrun⟩ := hmemory.reader (reads_handler c args harity hw).uses
        rw [← run_read env hw] at hrun
        split
        case h_1 heq' =>
          rw [heq'] at hrun
          exact ⟨p₂, K₂, hrun⟩
        case h_2 e₂ heq' =>
          rw [heq'] at hrun
          exact hrun.quiet (.of_same hrun.serving rfl rfl rfl rfl) (.of_same rfl rfl rfl rfl) .refl

theorem Backed.cron {env : Env} {e : Engine σ} {p : Persistence} {K : Keyspace}
    (h : Backed env.now e p K) (sampleSize : Nat) (auto : Bool) :
    ∃ p' K', Backed env.now (e.cron env sampleSize auto) p' K' := by
  obtain ⟨p₁, K₁, hcycle⟩ := h.quiet (follows_expireCycle h.serving env sampleSize)
    (phase_expireCycle env sampleSize e).logs (Store.Steps.quiet (moves_expireCycle env sampleSize e))
  have hpoll := hcycle.poll env.now env.written
  unfold Engine.cron
  simp only [hcycle.files, hcycle.isOpen, if_true]
  split
  · obtain ⟨p₂, hstart⟩ := hpoll.startRewrite
    exact ⟨p₂, K₁, hstart⟩
  · exact ⟨_, K₁, hpoll⟩

/-- **One piece of work.** -/
theorem Backed.work {t : Nat} {e : Engine σ} {p : Persistence} {K : Keyspace} (h : Backed t e p K)
    (hread : ∀ x ∈ e.propagated, x.Readable) {w : Work} (hle : t ≤ w.now)
    (hw : w.Recoverable e) : ∃ p' K', Backed w.now (e.work w) p' K' := by
  cases w with
  | execute env c args => exact (h.mono hle).execute hread hw.1 hw.2
  | cron env sampleSize auto => exact (h.mono hle).cron sampleSize auto

omit [CPython] [EvictionPolicy σ] in
theorem propagated_stepSnapshot (n : Nat) (e : Engine σ) :
    (e.stepSnapshot n).propagated = e.propagated := by
  unfold stepSnapshot handOver
  split <;> rfl

/-- **The files back the engine throughout a life.** -/
theorem Life.backed {t : Nat} {e : Engine σ} (h : Life t e) :
    (∃ p K, Backed t e p K) ∧ ∀ x ∈ e.propagated, x.Readable := by
  induction h with
  | opened hopen =>
    rename_i config envs env e
    obtain ⟨e', victims, p', hopen', hbacked, hread, -⟩ := open_rebuilds (p := {})
      (L := fun _ => none) (by simp) (.nil _) (fun _ => rfl) (by simp) rfl rfl rfl config envs env
    rw [hopen, Except.ok.injEq] at hopen'
    exact ⟨⟨p', _, hopen' ▸ hbacked⟩, hopen' ▸ hread⟩
  | work _ hle hw hread ih =>
    obtain ⟨⟨p, K, hbacked⟩, hread₀⟩ := ih
    exact ⟨hbacked.work hread₀ hle hw, hread⟩
  | slice n _ ih =>
    obtain ⟨⟨p, K, hbacked⟩, hread⟩ := ih
    exact ⟨hbacked.stepSnapshot n, (propagated_stepSnapshot n _).symm ▸ hread⟩
  | @restarted t e e' config envs closing opening _ hle hnear hrestart ih =>
    obtain ⟨⟨p, K, hbacked⟩, hread⟩ := ih
    obtain ⟨e₁, victims, p', hrestart', hbacked', hread', -⟩ :=
      restart_backed hbacked hread config envs hle hnear
    rw [hrestart, Except.ok.injEq] at hrestart'
    exact ⟨⟨p', _, hrestart' ▸ hbacked'⟩, hrestart' ▸ hread'⟩

/-! ## Recovery -/

/-- **Recovery is exact.** At any point of a life the engine can be restarted, after any downtime,
and then holds what it held before, without the keys whose deadline has passed, and without those
that opening evicts, of which there are none if no limit is set. The deadlines in the snapshot are
not so far away that their milliseconds are rounded. -/
theorem restart_exact {t : Nat} {e : Engine σ} (h : Life t e) (config : Config σ)
    (envs : Nat → Env) {closing opening : Env} (hle : t ≤ opening.now)
    (hnear : (e.close closing).NearFiles) :
    ∃ e' victims, e.restart config envs closing opening = .ok e' ∧
      (∀ key, e'.store.keyspace key =
        if key ∈ victims then none
        else (e.store.keyspace key).filter fun item => !passed opening.now item.2) ∧
      (config.maxKeys = 0 → config.maxmemory = 0 → victims = []) := by
  obtain ⟨⟨p, K, hbacked⟩, hread⟩ := h.backed
  obtain ⟨e', victims, p', hrestart, hbacked', -, hvictims⟩ :=
    restart_backed hbacked hread config envs hle hnear
  refine ⟨e', victims, hrestart, fun key => ?_, hvictims⟩
  rw [hbacked'.shows.keyspace_eq, hbacked.shows.keyspace_eq]
  simp only [Keyspace.plain, Keyspace.without, Keyspace.live]
  split
  · rfl
  · cases K key with
    | none => rfl
    | some item => by_cases hpassed : passed opening.now item.expiresAt <;>
        simp [Option.filter, Item.plain, hpassed]

end Restart

/-! ## A key that expired while the process was down -/

section Scenario

variable [CPython]

/-- A data directory is opened for the first time. -/
def firstOpen : Except KvError (Engine NoEviction) :=
  (new (plainConfig allLow) (Env.quiet 0) (some {})).open (fun _ => Env.quiet 0) (Env.quiet 0)

/-- The process is restarted. -/
def reopen (now : Nat) (e : Engine NoEviction) : Except KvError (Engine NoEviction) :=
  e.restart (plainConfig allLow) (fun _ => Env.quiet now) (Env.quiet now) (Env.quiet now)

/-- A list gets a deadline one second away, the process is down for two seconds, and then the list is
pushed to again: the engine before and after another restart. -/
def pushAfterDowntime : Except KvError (Engine NoEviction × Engine NoEviction) := do
  let e ← firstOpen
  let e := e.work (.execute (Env.quiet 0) .rpush [text "k", text "a"])
  let e := e.work (.execute (Env.quiet 0) .pexpire [text "k", text "1000"])
  let e ← reopen 2000000 e
  let e := e.work (.execute (Env.quiet 2000000) .rpush [text "k", text "b"])
  let e' ← reopen 2000000 e
  return (e, e')

/-- The process does a command. -/
def issue (now : Nat) (c : Command) (args : List Str) (e : Engine NoEviction) : Engine NoEviction :=
  e.work (.execute (Env.quiet now) c args)

/-- A command that builds finds its keys in memory, and what is logged has readable numbers. -/
def ready (now : Nat) (c : Command) (args : List Str) (e : Engine NoEviction) : Bool :=
  (!c.builds args || (c.keyArgs args).all fun key => (e.store.keyspace key).isSome) &&
    (issue now c args e).propagated.all fun x => x.numbers.all fun arg => (intArg arg).toOption.isSome

/-- Whether the deadlines in the snapshot are less than 2 ^ 50 milliseconds. -/
def near (e : Engine NoEviction) : Bool :=
  e.persistence.all fun p => p.base.all fun r => r.2.2.all fun ms => |ms| < 2 ^ 50

omit [CPython] in
theorem nearFiles_of_near {e : Engine NoEviction} (h : near e = true) : e.NearFiles := by
  intro p hp r hr ms hms
  simp only [near, Option.mem_def.mp hp, Option.all_some, all_eq_true] at h
  simpa [Option.mem_def.mp hms] using h r hr

/-- A string with a deadline is saved to the snapshot and another one logged; the process is restarted, and the
other string appended to. -/
def savedRun : Except KvError (Engine NoEviction) :=
  ((((firstOpen.map (issue 0 .set [text "k", text "v", text "PX", text "5000"])).map
    (issue 0 .save [])).map (issue 0 .set [text "m", text "a"])).bind (reopen 1000000)).map
    (issue 1000000 .append [text "m", text "b"])

end Scenario

section Concrete

noncomputable local instance : CPython := referencePython

/-- The process does a command. -/
theorem lives_issue {x : Except KvError (Engine NoEviction)} {t now : Nat} (c : Command) (args : List Str)
    (h : ∃ e, x = .ok e ∧ Life t e) (hle : t ≤ now) (hreal : c.Real args)
    (hready : x.toOption.map (ready now c args) = some true) :
    ∃ e, x.map (issue now c args) = .ok e ∧ Life now e := by
  obtain ⟨e, rfl, hlife⟩ := h
  simp only [Except.toOption, Option.map_some, Option.some.injEq, ready, Bool.and_eq_true,
    all_eq_true, Bool.or_eq_true, Bool.not_eq_true'] at hready
  obtain ⟨hkeys, hnumbers⟩ := hready
  refine ⟨issue now c args e, rfl,
    .work (w := .execute (Env.quiet now) c args) hlife hle ⟨hreal, ?_⟩ ?_⟩
  · -- what is in memory is not forgotten
    intro hbuilds key hkey hforgotten
    have hsome := hkeys.resolve_left (by simp [hbuilds]) key hkey
    simp [hforgotten.1] at hsome
  · intro effect heffect arg harg
    have hok := hnumbers effect heffect arg harg
    cases hint : intArg arg with
    | ok n => exact ⟨n, rfl⟩
    | error err => simp [hint] at hok

/-- The process is restarted. -/
theorem lives_reopen {x : Except KvError (Engine NoEviction)} {t now : Nat}
    (h : ∃ e, x = .ok e ∧ Life t e) (hle : t ≤ now)
    (hnear : x.toOption.map (fun e => near (e.close (Env.quiet now))) = some true) :
    ∃ e, x.bind (reopen now) = .ok e ∧ Life now e := by
  obtain ⟨e, rfl, hlife⟩ := h
  have hfiles : (e.close (Env.quiet now)).NearFiles := nearFiles_of_near (by simpa [Except.toOption] using hnear)
  obtain ⟨⟨p, K, hbacked⟩, hread⟩ := hlife.backed
  obtain ⟨e', -, -, hrestart, -⟩ := restart_backed hbacked hread (plainConfig allLow)
    (fun _ => Env.quiet now) (show t ≤ (Env.quiet now).now from hle) hfiles
  exact ⟨e', hrestart, .restarted hlife (show t ≤ (Env.quiet now).now from hle) hfiles hrestart⟩

theorem life_savedRun : ∃ e, savedRun = .ok e ∧ Life 1000000 e := by
  have hopened : ∃ e : Engine NoEviction, firstOpen = .ok e ∧ Life 0 e := by
    have hsome : firstOpen.toOption.isSome = true := by decide +kernel
    cases hopen : firstOpen with
    | error err => simp [hopen, Except.toOption] at hsome
    | ok e => exact ⟨e, rfl, show Life (Env.quiet 0).now e from .opened hopen⟩
  have hset := lives_issue .set [text "k", text "v", text "PX", text "5000"] hopened le_rfl trivial
    (by decide +kernel)
  have hsaved := lives_issue .save [] hset le_rfl trivial (by decide +kernel)
  have hother := lives_issue .set [text "m", text "a"] hsaved le_rfl trivial (by decide +kernel)
  have hreopened := lives_reopen hother (Nat.zero_le 1000000) (by decide +kernel)
  exact lives_issue .append [text "m", text "b"] hreopened le_rfl trivial (by decide +kernel)

/-- A second restart, when the deadline of the string in the snapshot has passed: it is gone, and what was
appended after the first restart to a string of the log is there. -/
theorem restart_exact_append : ∃ e e' : Engine NoEviction, savedRun = .ok e ∧ reopen 6000000 e = .ok e' ∧
    e.store.keyspace (text "k") = some (.str (text "v"), some 5000) ∧
    e'.store.keyspace (text "k") = none ∧
    e'.store.keyspace (text "m") = some (.str (text "ab"), none) := by
  obtain ⟨e, hrun, hlife⟩ := life_savedRun
  have hfacts : savedRun.toOption.map (fun e => (e.store.keyspace (text "k"), e.store.keyspace (text "m"),
      near (e.close (Env.quiet 6000000)))) =
      some (some (.str (text "v"), some 5000), some (.str (text "ab"), none), true) := by
    decide +kernel
  simp only [hrun, Except.toOption, Option.map_some, Option.some.injEq, Prod.mk.injEq] at hfacts
  obtain ⟨hk, hm, hnear⟩ := hfacts
  obtain ⟨e', victims, hrestart, hkeys, hvictims⟩ :=
    restart_exact hlife (plainConfig allLow) (fun _ => Env.quiet 6000000)
      (show 1000000 ≤ (Env.quiet 6000000).now by decide) (nearFiles_of_near hnear)
  obtain rfl := hvictims rfl rfl
  refine ⟨e, e', hrun, hrestart, hk, ?_, ?_⟩
  · rw [hkeys, hk]
    rfl
  · rw [hkeys, hm]
    rfl

/-- The element pushed after the downtime is in memory, and lost by the next restart: the records of
the files, all of them accepted, extend the list that had expired. -/
theorem restart_loses_rpush : ∃ e e' : Engine NoEviction,
    pushAfterDowntime = .ok (e, e') ∧ reopen 2000000 e = .ok e' ∧
      e.store.keyspace (text "k") = some (.list [text "b"], none) ∧
      e'.store.keyspace (text "k") = none := by
  have hkeys : pushAfterDowntime.toOption.map (fun (e, e') =>
      (e.store.keyspace (text "k"), e'.store.keyspace (text "k"))) =
      some (some (.list [text "b"], none), none) := by
    decide +kernel
  cases hrun : pushAfterDowntime with
  | error err => simp [hrun, Except.toOption] at hkeys
  | ok pair =>
    obtain ⟨e, e'⟩ := pair
    simp only [hrun, Except.toOption, Option.map_some, Option.some.injEq, Prod.mk.injEq] at hkeys
    refine ⟨e, e', rfl, ?_, hkeys.1, hkeys.2⟩
    simp only [pushAfterDowntime, bind, Except.bind, pure, Except.pure] at hrun
    split at hrun
    · cases hrun
    · split at hrun
      · cases hrun
      · split at hrun
        · cases hrun
        · rename_i hlast
          rw [Except.ok.injEq, Prod.mk.injEq] at hrun
          obtain ⟨rfl, rfl⟩ := hrun
          exact hlast

end Concrete

end Engine

end KvStore
