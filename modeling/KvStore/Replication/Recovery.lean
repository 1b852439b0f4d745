import KvStore.Engine.Replay.Restart

/-! # What the files recover

* **`Persistence.Recovers`** — a new process that opens the files holds a keyspace.
* **`Persistence.Restores`** — files that hold a keyspace, and so recover it (`Restores.recovers`).
* **`Engine.flushAll_files`**, **`Engine.save_files`** — the files after the store was cleared, and after
  SAVE. -/

namespace KvStore

open List

section Spec

variable [CPython] {σ : Type} [EvictionPolicy σ]

/-- **The files recover a keyspace**: a new process that opens them, now or later and with no limits set,
holds it, without the keys whose deadline has passed by then. -/
def Persistence.Recovers (σ : Type) [EvictionPolicy σ] (t : Nat) (p : Persistence)
    (K : Str → Option (Payload × Option Int)) : Prop :=
  ∀ (config : Engine.Config σ) (envs : Nat → Env) (opening : Env), config.maxKeys = 0 →
    config.maxmemory = 0 → t ≤ opening.now →
    ∃ e, (Engine.new config opening (some ({ p with isOpen := false }.reload opening))).open envs
        opening = .ok e ∧
      ∀ key, e.store.keyspace key = (K key).filter fun item => !passed opening.now item.2

omit [CPython] in
/-- The live part of a keyspace, as values and deadlines. -/
theorem Keyspace.plain_live (K : Keyspace) (now : Nat) (key : Str) :
    (K.live now).plain key = (K.plain key).filter fun item => !passed now item.2 := by
  simp only [Keyspace.plain, Keyspace.live]
  cases K key with
  | none => rfl
  | some item => by_cases hpassed : passed now item.expiresAt <;>
      simp [Option.filter, Item.plain, hpassed]

/-- **The files hold a keyspace**, whatever a running rewrite will make of them. -/
structure Persistence.Restores (t : Nat) (p : Persistence) (K : Keyspace) : Prop where
  /-- The records of the snapshot are sound. -/
  base : ∀ r ∈ p.base, Record.Sound r
  files : ∃ L, Back t p.base (p.older ++ p.current) L K
  readable : ∀ x ∈ p.older ++ p.current, x.Readable

/-- **Files that hold a keyspace recover it.** -/
theorem Persistence.Restores.recovers {t : Nat} {p : Persistence} {K : Keyspace}
    (h : p.Restores t K) : p.Recovers σ t K.plain := by
  intro config envs opening hkeys hmemory hle
  obtain ⟨L, hL⟩ := h.files
  obtain ⟨e, victims, p', hopen, hbacked, -, hvictims⟩ := Engine.open_rebuilds
    (p := { p with isOpen := false }.reload opening) h.base hL.rebuilds hL.noEmpty h.readable rfl rfl rfl
    config envs opening
  obtain rfl := hvictims hkeys hmemory
  refine ⟨e, hopen, fun key => ?_⟩
  rw [hbacked.shows.keyspace_eq, ← K.plain_live, ← (hL.agrees.mono hle).live_eq]
  simp [Keyspace.plain, Keyspace.without]

section Recovers

variable {t : Nat} {p : Persistence} {K K' : Str → Option (Payload × Option Int)}

omit [CPython] in
/-- What has not passed later has not passed now. -/
theorem filter_passed_of_le {now later : Nat} (hle : now ≤ later) (x : Option (Payload × Option Int)) :
    (x.filter fun item => !passed now item.2).filter (fun item => !passed later item.2) =
      x.filter fun item => !passed later item.2 := by
  rw [Option.filter_filter]
  congr 1
  funext item
  cases hdeadline : item.2 with
  | none => simp [passed]
  | some ms =>
    simp only [passed]
    by_cases hlater : ms * 1000 ≤ (later : Int)
    · simp [hlater]
    · have hnow : ¬ ms * 1000 ≤ (now : Int) := by omega
      simp [hlater, hnow]

/-- Only the keys matter whose deadline has not passed. -/
theorem Persistence.Recovers.congr (h : p.Recovers σ t K)
    (hlive : ∀ key, (K key).filter (fun item => !passed t item.2) =
      (K' key).filter fun item => !passed t item.2) : p.Recovers σ t K' := by
  intro config envs opening hkeys hmemory hle
  obtain ⟨e, hopen, hkeyspace⟩ := h config envs opening hkeys hmemory hle
  refine ⟨e, hopen, fun key => ?_⟩
  rw [hkeyspace, ← filter_passed_of_le hle, hlive, filter_passed_of_le hle]

theorem Persistence.Recovers.live_eq (policy : σ) (levels : Levels) {env : Env}
    (h : p.Recovers σ env.now K)
    (h' : p.Recovers σ env.now K') (key : Str) :
    (K key).filter (fun item => !passed env.now item.2) =
      (K' key).filter fun item => !passed env.now item.2 := by
  let config : Engine.Config σ := ⟨policy, 0, 0, levels, false⟩
  obtain ⟨e, hopen, hkeyspace⟩ := h config (fun _ => env) env rfl rfl (Nat.le_refl _)
  obtain ⟨e', hopen', hkeyspace'⟩ := h' config (fun _ => env) env rfl rfl (Nat.le_refl _)
  obtain rfl : e = e' := Except.ok.inj (hopen.symm.trans hopen')
  rw [← hkeyspace, hkeyspace']

end Recovers

namespace Engine

variable {e : Engine σ} {p : Persistence} {K : Keyspace} {t : Nat}

omit [CPython] in
/-- Without expiry a lookup changes nothing. -/
theorem lookup_off (hoff : e.store.expiryEnabled = false) (now : Nat) (key : Str) :
    (e.lookup now key).2 = e := by
  unfold lookup
  split
  · rfl
  · simp [hoff]

omit [CPython] in
theorem persistence_setExpiry (hoff : e.store.expiryEnabled = false) (now : Nat) (key : Str)
    (atMs : Int) : (e.setExpiry now key atMs).2.persistence = e.persistence := by
  have hlookup := lookup_off hoff now key
  unfold setExpiry
  split
  case h_1 heq =>
    rw [heq] at hlookup
    exact congrArg Engine.persistence hlookup
  case h_2 entry e' heq =>
    rw [heq] at hlookup
    have hsame : e' = e := hlookup
    rw [hsame]
    rfl

theorem persistence_loadRecords (hoff : e.store.expiryEnabled = false) (now : Nat)
    (records : List Record) : (e.loadRecords now records).persistence = e.persistence := by
  induction records generalizing e with
  | nil => rfl
  | cons r rest ih =>
    obtain ⟨key, payload, expiresAt⟩ := r
    have hflags := (phase_loadRecord now key payload expiresAt e).flags
    refine (ih ((eq_of_flags hflags).2.1.trans hoff)).trans ?_
    cases expiresAt with
    | none => rfl
    | some atMs =>
      let built := Store.buildValue e.store.levels payload
      let e₁ := (e.onStore fun s => { s with levels := built.2.2 }).set now key built.1 built.2.1 false
      have hoff₁ : e₁.store.expiryEnabled = false :=
        (eq_of_flags (phase_set now key built.1 built.2.1 false _).flags).2.1.trans hoff
      exact persistence_setExpiry hoff₁ now key atMs

/-- **The files after the store was cleared.** A rewrite that was copying the keyspace has its copy now, and is
still being written. -/
theorem flushAll_files (h : (e.setRole true).Backed t p K) :
    ∃ p', e.flushAll.persistence = some p' ∧ p'.isOpen = true ∧ p'.Backs t K ∧ p'.copying = false ∧
      p'.inProgress = p.inProgress ∧ p'.older ++ p'.current = p.older ++ p.current := by
  have hfiles : e.persistence = some p := h.files
  obtain ⟨-, cs, jobs, hinner, -, hlog, hdelivered, hcopies, hpersistence⟩ :=
    (phase_flushAll e).logs.log h.idle
  have heffects : FileCall.effects cs = [] := by
    have hsame : e.flushAll.propagated = e.propagated := by
      unfold flushAll handOver
      split <;> rfl
    exact append_cancel_left ((hlog.symm.trans hsame).trans (append_nil _).symm)
  have hcall := Persistence.callAll_inner h.isOpen hinner
  have hsteps : Store.Steps False e.store e.flushAll.store := .quiet (moves_flushAll e)
  have hjobs := hsteps.jobs.2 (phase_flushAll e).logs.epoch
  rw [hfiles, Option.map_some, hcall, heffects] at hpersistence
  refine ⟨_, hpersistence, h.isOpen, ?_⟩
  cases hcopying : p.copying with
  | true =>
    obtain ⟨orig, job, hcopied⟩ := h.copied hcopying
    have hcopied' : Copied t e.store p.current K orig job :=
      ⟨⟨hcopied.copying.running, hcopied.copying.epoch, hcopied.copying.nodup, hcopied.copying.left,
        hcopied.copying.done⟩, hcopied.nodup, hcopied.receiver, hcopied.backs⟩
    have hkept : e.store.Kept [] := h.kept.of_eq rfl rfl rfl
    rcases hcopied'.steps hkept hsteps hjobs hdelivered with
      ⟨-, job', hcopy, -⟩ | ⟨job', hone, hresult, hreceiver, -⟩
    · exact nomatch (snapshotJob_flushAll e).symm.trans hcopy.running
    · have hcopies : FileCall.copies cs = [job'.records] := by simp [hcopies, hone, hreceiver]
      refine ⟨?_, by simp [hcopies], by simp [hcopies, Persistence.inProgress, hcopying], by simp⟩
      refine h.backs.of_eq rfl (by simp) fun records hrecords => ?_
      obtain rfl : job'.records = records := by simpa [hcopies] using hrecords
      simpa using hcopied.backs.of_result hcopied.nodup hresult
  | false =>
    have hnone : FileCall.copies cs = [] := by
      obtain ⟨more, hmore, hall⟩ := hjobs.delivered
      rw [hcopies, append_cancel_left (hdelivered.symm.trans hmore),
        filter_eq_nil_iff.mpr fun j hj => ?_]
      · rfl
      · obtain ⟨j₀, hj₀, hsame⟩ := hall j hj
        intro hreceiver
        have := h.copying j₀ hj₀ (hsame.receiver.symm.trans (by simpa using hreceiver))
        simp [hcopying] at this
    refine ⟨?_, by simp, by simp [hnone, Persistence.inProgress, hcopying], by simp⟩
    refine h.backs.of_eq rfl (by simp) fun records hrecords => ?_
    simpa using h.backs.copy records (by simpa [hnone] using hrecords)

omit [CPython] [EvictionPolicy σ] in
/-- SAVE, once the rewrite has started. -/
theorem save_of_start {env : Env} {e' : Engine σ} (h : e.startRewrite env = (.ok (), e')) :
    (e.save env).1.isOk = env.saved ∧ (e.save env).2 =
      { e'.stepSnapshot e'.store.remaining with
        persistence := (e'.stepSnapshot e'.store.remaining).persistence.map
          (Persistence.finish env.now env.saved) } := by
  simp only [save, h]
  cases env.saved <;> exact ⟨rfl, rfl⟩

omit [CPython] [EvictionPolicy σ] in
/-- A completed snapshot that is handed over leaves the keyspace as it is. -/
theorem shows_handOver (h : e.store.Shows K) : e.handOver.store.Shows K := by
  unfold handOver
  split
  · exact h
  · exact h.of_eq rfl rfl

/-- A snapshot for a rewrite that is copied to its end at once. -/
theorem stepSnapshot_begun (hkept : e.store.Kept []) (hfree : e.store.snapshotJob = none)
    (hfiles : e.persistence = some p) (now : Nat) :
    ∃ job, Store.Result (e.store.snapshot now) job ∧
      ((e.beginSnapshot now .rewrite).stepSnapshot
        (e.beginSnapshot now .rewrite).store.remaining).persistence = some (p.finishCopy job.records) := by
  have hbegun : e.beginSnapshot now .rewrite = e.onStore (Store.beginSnapshot now .rewrite) := by
    simp [beginSnapshot, hfree]
  rw [hbegun]
  let s := e.store.beginSnapshot now .rewrite
  obtain ⟨job, hcopy, -⟩ := Store.Copying.begin
    (fun key entry hget => (hkept.entry key entry hget).stamp) now .rewrite
  have hnone : (s.stepSnapshot s.remaining).snapshotJob = none := s.snapshotJob_clear
  rcases hcopy.stepSnapshot (e.store.nodup_snapshot now) s.remaining with
    ⟨job', hcopy', -⟩ | ⟨job', hresult, -, -, hdelivered⟩
  · cases hnone.symm.trans hcopy'.running
  · -- it is the snapshot that the rewrite waits for
    have hfinished : (s.stepSnapshot s.remaining).finished = some job' := by
      rcases (s.frame_stepSnapshot s.remaining).2 with hsame | ⟨job'', hjob''⟩
      · simp only [Store.outbox, Prod.mk.injEq] at hsame
        have hlength := congrArg List.length (hdelivered.symm.trans hsame.2.2)
        simp [s] at hlength
      · simp only [Store.outbox, Prod.mk.injEq] at hjob''
        have hlist := append_cancel_left (hdelivered.symm.trans hjob''.2.2)
        rw [hjob''.2.1, (List.cons.inj hlist).1]
    have hreceiver : job'.receiver = .rewrite := by
      obtain ⟨more, hmore, hall⟩ := (Store.sameJobs_stepSnapshot s.remaining s).delivered
      rw [append_cancel_left (hmore.symm.trans hdelivered)] at hall
      obtain ⟨j, hj, hsame⟩ := hall job' (by simp)
      rw [hsame.receiver, ← Option.some.inj hj]
    refine ⟨job', hresult, ?_⟩
    show ((e.onStore (Store.beginSnapshot now .rewrite)).onStore (Store.stepSnapshot s.remaining)).handOver.persistence
      = _
    simp only [handOver, onStore, show (Store.stepSnapshot s.remaining (e.store.beginSnapshot now .rewrite)).finished
      = some job' from hfinished, hreceiver, if_true, hfiles, Option.map_some]

/-- **SAVE without a rewrite in progress** writes the keyspace as it is. -/
theorem save_files {env : Env} (hfiles : e.persistence = some p) (hkept : e.store.Kept [])
    (hfree : e.store.snapshotJob = none) (hidle : e.store.finished = none) (hshows : e.store.Shows K)
    (hquiet : (p.poll env.now env.written).inProgress = false) :
    ∃ job, Store.Result (e.store.snapshot env.now) job ∧ (e.save env).2.store.Shows K ∧
      (e.save env).1.isOk = env.saved ∧ (e.save env).2.persistence =
        some (((p.poll env.now env.written).startRewrite job.records).finish env.now env.saved) := by
  let p₁ := p.poll env.now env.written
  by_cases hslices : e.incrementalSnapshots ∧ e.store.snapshotJob.isNone
  · let e₁ : Engine σ := { e with persistence := some p₁.beginRewrite }
    have hstart : e.startRewrite env = (.ok (), e₁.beginSnapshot env.now .rewrite) := by
      simp [startRewrite, hfiles, hquiet, hslices, e₁, p₁]
    obtain ⟨hok, hsave⟩ := save_of_start hstart
    obtain ⟨job, hresult, hcopy⟩ := stepSnapshot_begun (e := e₁) (p := p₁.beginRewrite)
      (hkept.of_eq rfl rfl rfl) hfree rfl env.now
    refine ⟨job, hresult, ?_, hok, ?_⟩
    · rw [hsave]
      have hbegun : (e₁.beginSnapshot env.now .rewrite).store.Shows K := by
        rw [beginSnapshot, if_neg (by simp [e₁, hfree])]
        exact hshows.of_eq rfl rfl
      exact shows_handOver (hbegun.stepSnapshot _)
    · rw [hsave, hcopy]
      rfl
  · let e₁ : Engine σ := { e with persistence := some (p₁.startRewrite (e.store.snapshot env.now)) }
    have hstart : e.startRewrite env = (.ok (), e₁) := by
      simp only [startRewrite, hfiles, hquiet, Bool.false_eq_true, if_false, if_neg hslices]
      rfl
    obtain ⟨hok, hsave⟩ := save_of_start hstart
    have hstep : e₁.stepSnapshot e₁.store.remaining = e₁ := by
      simp [stepSnapshot, onStore, Store.stepSnapshot, handOver, e₁, hfree, hidle]
    refine ⟨⟨[], 0, 0, e.store.snapshot env.now, .rewrite⟩, ⟨e.store.nodup_snapshot env.now, fun _ => .rfl⟩,
      ?_, hok, ?_⟩
    · rw [hsave, hstep]
      exact hshows.of_eq rfl rfl
    · rw [hsave, hstep]
      rfl

end Engine

namespace Persistence

variable {p : Persistence} {K : Keyspace} {t : Nat}

omit [EvictionPolicy σ] in
theorem Backs.restores (h : p.Backs t K) (hread : ∀ x ∈ p.older ++ p.current, x.Readable) :
    p.Restores t K :=
  ⟨h.base, h.files, hread⟩

omit [CPython] in
/-- A rewrite that ends leaves no other records than there were. -/
theorem mem_log_poll (now : Nat) (written : Option Bool) {x : Effect}
    (hx : x ∈ (p.poll now written).older ++ (p.poll now written).current) :
    x ∈ p.older ++ p.current := by
  cases written with
  | none => exact hx
  | some ok =>
    simp only [poll, finish] at hx
    split at hx
    · exact hx
    · split at hx
      · exact mem_append_right _ (by simpa using hx)
      · exact hx

/-- The files after a rewrite was looked at. -/
theorem Backs.poll (h : p.Backs t K) (now : Nat) (written : Option Bool) :
    (p.poll now written).Backs t K := by
  cases written with
  | none => exact h
  | some ok => exact h.finish now ok

omit [CPython] in
/-- A rewrite is in progress still if its write has not ended. -/
theorem inProgress_poll (hcopying : p.copying = false) (now : Nat) (written : Option Bool) :
    (p.poll now written).inProgress = true ↔ p.inProgress = true ∧ written = none := by
  cases written with
  | none => simp [poll]
  | some ok =>
    simp only [poll, finish, reduceCtorEq, and_false, iff_false]
    split
    case h_1 hjob => simp [inProgress, hjob, hcopying]
    case h_2 => split <;> simp [inProgress, hcopying]

/-- The files after a SAVE that went through. -/
theorem restores_saved {σ : Type} {s : Store σ} {job : SnapshotJob} (hshows : s.Shows K)
    (hK : K.NoEmpty) (hresult : Store.Result (s.snapshot t) job) (now : Nat) :
    ((p.startRewrite job.records).finish now true).Restores t K := by
  have hcopy : BacksCopy t job.records [] K :=
    (BacksCopy.snapshot hshows hK).of_result (s.nodup_snapshot t) hresult
  obtain ⟨L, hL, -⟩ := hcopy.back
  exact ⟨hcopy.sound, ⟨L, hL⟩, by simp [startRewrite, beginRewrite, finishCopy, finish]⟩

/-- The files after a SAVE whose snapshot could not be written. -/
theorem Restores.unsaved (h : p.Restores t K) (records : List Record) (now : Nat) :
    ((p.startRewrite records).finish now false).Restores t K := by
  obtain ⟨L, hL⟩ := h.files
  refine ⟨h.base, ⟨L, ?_⟩, fun x hx => h.readable x ?_⟩
  · simpa [startRewrite, beginRewrite, finishCopy, finish] using hL
  · simpa [startRewrite, beginRewrite, finishCopy, finish] using hx

end Persistence

end Spec

end KvStore
