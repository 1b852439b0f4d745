import KvStore.Persistence.Writer
import KvStore.Replication.Primary

/-! # A replica that is brought up to date converges

A full resynchronisation hands a replica a copy of the keyspace, begun when its link was opened and
taken in slices while the primary goes on serving, and then the stream from that moment on. The copy
travels as the bytes of a snapshot.

* **`Engine.Since`** — a primary at work since a copy was begun.
* **`Carries log E`** — the commands of a stream that are effects are `E`; the others keep the link alive
  or ask for an acknowledgement.
* **`ReplicaLink.resync_converges`** — once it has followed the stream, whatever the chunks it came in, the
  replica holds the live keys of the primary. -/

namespace KvStore

open List

/-! ## The primary -/

namespace Engine

variable [CPython] {σ : Type} [EvictionPolicy σ]

/-- **`_begin_snapshot`** of a node: in slices if the engine does that and no other copy is being taken,
otherwise at once. -/
def beginCopy (now : Nat) (e : Engine σ) : Option (List Record) × Engine σ :=
  if e.incrementalSnapshots ∧ e.store.snapshotJob.isNone then (none, e.beginSnapshot now .replica)
  else (some (e.store.snapshot now), e)

/-- The copy begun at `e₀`, once it is complete. -/
def copyOf (now : Nat) (e₀ e : Engine σ) : Option (List Record) :=
  (e₀.beginCopy now).1.or
    ((e.store.deliveredOf (e₀.store.snapshotEpoch + 1)).head?.map SnapshotJob.records)

/-- **A primary at work since a copy was begun**, at clock readings that do not go back. -/
inductive Since (t₀ : Nat) (e₀ : Engine σ) : Nat → Engine σ → Prop
  | begun : Since t₀ e₀ t₀ (e₀.beginCopy t₀).2
  | work {t : Nat} {e : Engine σ} {w : Work} : Since t₀ e₀ t e → t ≤ w.now → w.Real →
      Since t₀ e₀ w.now (e.work w)
  | slice {t : Nat} {e : Engine σ} (n : Nat) : Since t₀ e₀ t e → Since t₀ e₀ t (e.stepSnapshot n)

variable {t₀ t : Nat} {e₀ e : Engine σ}

/-- The store while the copy is taken: its entries are in order, and slices are on their way. -/
def Copies (t₀ : Nat) (e₀ : Engine σ) (s : Store σ) : Prop :=
  s.Kept [] ∧ ((e₀.beginCopy t₀).1 = none →
    Store.Progress (e₀.store.snapshot t₀) (e₀.store.snapshotEpoch + 1) e₀.store.delivered s)

theorem Copies.steps {s s' : Store σ} (h : Copies t₀ e₀ s) (hsteps : Store.Steps False s s') :
    Copies t₀ e₀ s' := by
  induction hsteps with
  | refl => exact h
  | tail _ hstep ih =>
    exact ⟨ih.1.step hstep,
      fun hslices => (ih.2 hslices).step (e₀.store.nodup_snapshot t₀) ih.1 hstep⟩

/-- **What holds while the copy is on its way**: with what was logged since, it backs the keyspace. -/
structure Syncing (t₀ : Nat) (e₀ : Engine σ) (t : Nat) (e : Engine σ) : Prop where
  serving : e.Serving
  deletes : e.store.expiryDeletes = true
  copies : Copies t₀ e₀ e.store
  backs : ∃ E K, e.propagated = e₀.propagated ++ E ∧ e.store.Shows K ∧ K.NoEmpty ∧
    BacksCopy t (e₀.store.snapshot t₀) E K

/-- **A phase that logs what it does.** -/
theorem Syncing.follows {t' : Nat} {e' : Engine σ} {builds : Str → Prop} (h : Syncing t₀ e₀ t e)
    (hle : t ≤ t') (hfollows : Follows t' builds e e') (hsteps : Store.Steps False e.store e'.store) :
    Syncing t₀ e₀ t' e' := by
  obtain ⟨E, K, hlog, hshows, hK, hbacks⟩ := h.backs
  obtain ⟨E', K', hlog', hshows', hK', hfollow⟩ := hfollows.follow hshows hK
  refine ⟨hfollows.serving, hfollows.deletes.trans h.deletes, h.copies.steps hsteps, E ++ E', K', ?_,
    hshows', hK', (hbacks.mono hle).follow hfollow⟩
  rw [hlog', hlog, append_assoc]

theorem syncing_beginCopy (h : e₀.Arises False) (hreach : e₀.Reachable)
    (hprimary : e₀.store.expiryDeletes = true) : Syncing t₀ e₀ t₀ (e₀.beginCopy t₀).2 := by
  obtain ⟨hserving, K, hshows, hK⟩ := hreach.sound
  have hbacks : BacksCopy t₀ (e₀.store.snapshot t₀) [] K := .snapshot hshows hK
  by_cases hslices : e₀.incrementalSnapshots ∧ e₀.store.snapshotJob.isNone
  · have hfree := Option.isNone_iff_eq_none.mp hslices.2
    obtain ⟨job, hcopy, hepoch⟩ := Store.Copying.begin
      (fun key entry hget => (h.kept.entry key entry hget).stamp) t₀ .replica
    have hbegin : (e₀.beginCopy t₀).2 = { e₀ with store := e₀.store.beginSnapshot t₀ .replica } := by
      simp [beginCopy, hslices.1, beginSnapshot, hfree, onStore]
    rw [hbegin]
    exact ⟨⟨hserving.replaying, hserving.expiry⟩, hprimary,
      ⟨h.kept.step (.begin t₀ .replica hfree : Store.Step False e₀.store _),
        fun _ => .running hcopy hepoch rfl⟩,
      [], K, (append_nil _).symm, hshows.of_eq rfl rfl, hK, hbacks⟩
  · have hbegin : e₀.beginCopy t₀ = (some (e₀.store.snapshot t₀), e₀) := if_neg hslices
    have hcopies : Copies t₀ e₀ e₀.store := ⟨h.kept, by simp [hbegin]⟩
    rw [hbegin]
    exact ⟨hserving, hprimary, hcopies, [], K, (append_nil _).symm, hshows, hK, hbacks⟩

theorem Since.syncing (h : e₀.Arises False) (hreach : e₀.Reachable)
    (hprimary : e₀.store.expiryDeletes = true) (hrun : Since t₀ e₀ t e) : Syncing t₀ e₀ t e := by
  induction hrun with
  | begun => exact syncing_beginCopy h hreach hprimary
  | @work t e w _ hle hreal ih =>
    cases w with
    | execute env c args =>
      have hfollows := follows_execute ih.serving env (.inl ih.deletes) hreal
      exact ih.follows hle hfollows (steps_execute env nofun)
    | cron env sampleSize auto =>
      have hfollows : Follows env.now (fun _ => False) e _ :=
        follows_cron ih.serving env sampleSize auto
      exact ih.follows hle hfollows (steps_cron env sampleSize auto e)
  | @slice t e n _ ih =>
    have hfollows : Follows t (fun _ => False) e _ := follows_stepSnapshot ih.serving n
    exact ih.follows le_rfl hfollows (steps_stepSnapshot n e)

omit [EvictionPolicy σ] in
/-- **The copy and what was logged since back the keyspace.** -/
theorem Syncing.copy (h : Syncing t₀ e₀ t e) (hdated : e₀.store.Dated) {records : List Record}
    (hcopy : copyOf t₀ e₀ e = some records) :
    ∃ E K, e.propagated = e₀.propagated ++ E ∧ e.store.Shows K ∧ BacksCopy t records E K := by
  obtain ⟨E, K, hlog, hshows, -, hbacks⟩ := h.backs
  refine ⟨E, K, hlog, hshows, ?_⟩
  cases hbegin : (e₀.beginCopy t₀).1 with
  | some records' =>
    have hatonce : records' = e₀.store.snapshot t₀ := by
      unfold beginCopy at hbegin
      split at hbegin
      · cases hbegin
      · exact (Option.some.inj hbegin).symm
    rw [copyOf, hbegin, Option.some_or] at hcopy
    exact Option.some.inj hcopy ▸ hatonce ▸ hbacks
  | none =>
    rw [copyOf, hbegin, Option.none_or] at hcopy
    rcases (h.copies.2 hbegin).deliveredOf fun j hj => Nat.lt_succ_of_le (hdated j hj) with
      ⟨hnone, -⟩ | ⟨job, hjob, hresult⟩
    · simp [hnone] at hcopy
    · obtain rfl : job.records = records := by simpa [hjob] using hcopy
      exact hbacks.of_result (e₀.store.nodup_snapshot t₀) hresult

end Engine

/-! ## The replica -/

/-- An effect on the stream. -/
def Effect.words (x : Effect) : List Str := text x.command.name :: x.args

/-- **The commands of a stream that are effects.** The others keep the link alive or ask for an
acknowledgement. -/
inductive Carries : List (List Str) → List Effect → Prop
  | nil : Carries [] []
  | aside {args : List Str} {log : List (List Str)} {E : List Effect} :
      (isWord (args.headD []) "PING" ∨ isWord (args.headD []) "REPLCONF") → Carries log E →
      Carries (args :: log) E
  | effect (x : Effect) {log : List (List Str)} {E : List Effect} : Carries log E →
      Carries (x.words :: log) (x :: E)

theorem ofText_name (c : Command) : Command.ofText (text c.name) = some c := by
  -- over the whole table at once, so that every name is decoded once
  have hall : ∀ c ∈ Command.all, Command.ofText (text c.name) = some c := by decide +kernel
  exact hall c (by cases c <;> decide)

theorem not_aside {c : Command} (hw : c.spec.write = true) :
    isWord (text c.name) "PING" = false ∧ isWord (text c.name) "REPLCONF" = false := by
  cases c <;> first | exact absurd hw (by decide) | decide +kernel

theorem Keyspace.filter_plain (now : Nat) (K : Keyspace) (key : Str) :
    (K.plain key).filter (fun item => !passed now item.2) = ((K.live now) key).map Item.plain := by
  simp only [Keyspace.plain, Keyspace.live, Option.filter_map]
  rfl

namespace ReplicaLink

variable [CPython] {σ τ : Type} [EvictionPolicy σ] [EvictionPolicy τ]

/-- The engine of a replica. -/
abbrev engineOf (f : Follower τ) : Engine τ := f.replica.disk.engine

/-- A command that is no effect leaves the engine as it is. -/
theorem follow_aside {args : List Str}
    (h : isWord (args.headD []) "PING" ∨ isWord (args.headD []) "REPLCONF") (data : Str)
    (f : Follower τ) : engineOf (follow args data f) = engineOf f ∧
      (follow args data f).world = f.world ∧ (follow args data f).applied = f.applied + 1 := by
  simp only [follow, count, perform]
  split
  · exact ⟨rfl, rfl, rfl⟩
  case isFalse hping =>
    rw [if_pos (h.resolve_left hping)]
    split <;> exact ⟨rfl, rfl, rfl⟩

theorem follow_effect {x : Effect} (hw : x.command.spec.write = true) (data : Str)
    (f : Follower τ) :
    engineOf (follow x.words data f) = ((engineOf f).applyReplicated (f.world f.applied) x).2 ∧
      (follow x.words data f).world = f.world ∧ (follow x.words data f).applied = f.applied + 1 := by
  obtain ⟨hping, hreplconf⟩ := not_aside hw
  simp [follow, count, perform, Effect.words, hping, hreplconf, ofText_name]

/-- **A replica that follows a stream applies the effects in it**, each before its deadline, if any. -/
theorem followAll_runs {l : List (Str × List Str)} {E : List Effect}
    (hcarries : Carries (l.map Prod.snd) E) {K K' : Keyspace} (hruns : Runs Space.Step E K K')
    (hread : ∀ x ∈ E, x.Readable) {f : Follower τ}
    (hfresh : ∀ (n : Nat), ∀ x ∈ E, (l.map Prod.snd)[n]? = some x.words →
      ∀ ms, x.deadline = some ms → toMs (f.world (f.applied + n)).now < ms)
    (hf : (engineOf f).Serving) (hshows : (engineOf f).store.Shows K) :
    (engineOf (followAll l f)).store.Shows K' := by
  induction l generalizing E K f with
  | nil =>
    cases hcarries
    cases hruns
    exact hshows
  | cons q l ih =>
    -- the deadlines that are left, whatever the command has done
    have hfresh' : ∀ f' : Follower τ, f'.world = f.world → f'.applied = f.applied + 1 →
        ∀ (n : Nat), ∀ x ∈ E, (l.map Prod.snd)[n]? = some x.words →
          ∀ ms, x.deadline = some ms → toMs (f'.world (f'.applied + n)).now < ms := by
      intro f' hworld happlied n x hx hword
      rw [hworld, happlied, show f.applied + 1 + n = f.applied + (n + 1) by omega]
      exact hfresh (n + 1) x hx hword
    obtain ⟨data, args⟩ := q
    show (engineOf (followAll l (follow args data f))).store.Shows K'
    cases hcarries with
    | aside hword hrest =>
      obtain ⟨hengine, hworld, happlied⟩ := follow_aside hword data f
      rw [← hengine] at hf hshows
      exact ih (f := follow args data f) hrest hruns hread (hfresh' _ hworld happlied) hf hshows
    | effect x hrest =>
      cases hruns with
      | cons hstep hruns' =>
        obtain ⟨hengine, hworld, happlied⟩ := follow_effect hstep.write data f
        obtain ⟨-, hserving, hshows'⟩ := Engine.applyReplicated_step hstep hf hshows
          (f.world f.applied) (hread x mem_cons_self) (hfresh 0 x mem_cons_self rfl)
        rw [← hengine] at hserving hshows'
        exact ih (f := follow x.words data f) hrest hruns'
          (fun y hy => hread y (mem_cons_of_mem _ hy))
          (fun n y hy => hfresh' _ hworld happlied n y (mem_cons_of_mem _ hy)) hserving hshows'

/-- **A stream that has arrived in full is followed in full**, whatever the chunks. -/
theorem streamAll_complete {l : List (Str × List Str)} (hl : Sent l) {chunks : List Str}
    (hne : ∀ c ∈ chunks, c ≠ []) (hchunks : chunks.flatten = Parser.stream l) (f : Follower τ) :
    streamAll chunks [] f = .ok ([], followAll l f) := by
  have hcode : ∀ q ∈ l, q.1 ≠ [] := by
    intro q hq hnil
    obtain ⟨digits, codes, -, -, hcode⟩ := Request.encodeCommand_eq_some (hl q hq).1
    simp [hnil] at hcode
  have hwaiting : Parser.Waiting l [] := by
    cases l with
    | nil => rfl
    | cons q l => exact ⟨List.nil_prefix, (hcode q mem_cons_self).symm⟩
  obtain ⟨l₁, l₂, left, rfl, hleft, hwait, hstream⟩ :=
    streamAll_sent hl hne hwaiting (by rw [nil_append, hchunks]) f
  have hrest : left = Parser.stream l₂ := by
    have hsplit : Parser.stream (l₁ ++ l₂) = Parser.stream l₁ ++ Parser.stream l₂ := by
      simp [Parser.stream]
    rw [nil_append, hchunks, hsplit] at hleft
    exact (append_cancel_left hleft).symm
  cases l₂ with
  | nil => rw [hstream, show left = [] from hwait, append_nil]
  | cons q l₂ =>
    -- nothing is missing of the next command
    rw [Parser.stream_cons] at hrest
    exact absurd (hwait.1.eq_of_length_le (by rw [hrest, length_append]; omega)) hwait.2

/-- A replica that has loaded a copy serves. -/
theorem serving_replaceAll {r : Engine τ} (hr : r.Serving) (now : Nat) (records : List Record) :
    (OnDisk.replaceAll now records r).Serving := by
  have hflags := (Engine.loadRecords_keeps
    (e := r.flushAll.onStore fun s => { s with expiryEnabled := false })
    (Engine.snapshotJob_flushAll r) now records).2
  have hload := (Engine.eq_of_flags hflags).1
  have hflush := (Engine.eq_of_flags (Engine.phase_flushAll r).flags).1
  exact ⟨hload.trans (hflush.trans hr.replaying), hr.expiry⟩

/-- **A full resynchronisation converges.** A primary begins a copy, in slices or at once, and goes on
working. A replica reads the bytes of the copy once it is complete, loads the records, and reads the stream
of what was logged since the begin, in any chunks, each effect before the deadline in it: it then has
followed all of it, and from then on the same keys are live on both, with the same values and deadlines.
The deadlines in the copy are not so far away that their milliseconds are rounded. -/
theorem resync_converges {t₀ t : Nat} {e₀ e : Engine σ} (h : e₀.Arises False)
    (hreach : e₀.Reachable) (hprimary : e₀.store.expiryDeletes = true)
    (hrun : Engine.Since t₀ e₀ t e) {records : List Record}
    (hcopy : Engine.copyOf t₀ e₀ e = some records) (hnear : ∀ r ∈ records, r.Near)
    (hfits : ∀ r ∈ records, r.Fits) (hcount : records.length < 2 ^ 64) (source : String)
    (createdMs : Int) :
    ∃ E records', e.propagated = e₀.propagated ++ E ∧
      decodeSnapshot source
        (ChecksummedWriter.encodeSnapshot createdMs (records.map Record.filed)) = (records', none) ∧
      ∀ (l : List (Str × List Str)) (chunks : List Str)
      (now : Nat) (r : Engine τ) (f : Follower τ), Sent l → Carries (l.map Prod.snd) E →
      chunks.flatten = Parser.stream l → (∀ c ∈ chunks, c ≠ []) → r.Serving →
      engineOf f = OnDisk.replaceAll now records' r → (∀ x ∈ E, x.Readable) →
      (∀ (n : Nat), ∀ x ∈ E, (l.map Prod.snd)[n]? = some x.words →
        ∀ ms, x.deadline = some ms → toMs (f.world (f.applied + n)).now < ms) →
      ∃ f', streamAll chunks [] f = .ok ([], f') ∧
        f'.replica.state.offset = f.replica.state.offset + chunks.flatten.length ∧
        ∀ later, t ≤ later → ∀ key,
          ((engineOf f').store.keyspace key).filter (fun item => !passed later item.2) =
            (e.store.keyspace key).filter fun item => !passed later item.2 := by
  obtain ⟨E, K, hlog, hshows, hbacks⟩ := (hrun.syncing h hreach hprimary).copy h.dated hcopy
  obtain ⟨L, hback, -⟩ := hbacks.back
  -- the records arrive as they were
  have hdecode := decodeSnapshot_encodeSnapshot source createdMs hfits hcount
  rw [← ChecksummedWriter.encodeSnapshot_eq] at hdecode
  refine ⟨E, records, hlog, by rw [map_filed hnear, hdecode],
    fun l chunks now r f hl hcarries hchunks hne hr hf hread hfresh => ?_⟩
  have hloaded : (engineOf f).store.Shows (keyspaceOf records) :=
    hf ▸ OnDisk.shows_replaceAll now hbacks.sound
  have hL := followAll_runs hcarries hback.rebuilds hread hfresh
    (hf ▸ serving_replaceAll hr now records) hloaded
  refine ⟨_, streamAll_complete hl hne hchunks f, ?_, fun later hle key => ?_⟩
  · rw [offset_followAll, hchunks]
  · have hlive := congrFun (hback.agrees.mono hle).live_eq key
    rw [hL.keyspace_eq, hshows.keyspace_eq, Keyspace.filter_plain, Keyspace.filter_plain, hlive]

end ReplicaLink

/-! ## A key that is overwritten meanwhile -/

noncomputable local instance convergencePython : CPython := referencePython

/-- The copy has the old value with its deadline, and the replica, which gets the stream byte by byte, the new
one without. -/
theorem ReplicaLink.resync_converges_overwritten :
    let config : Engine.Config NoEviction :=
      { Engine.plainConfig Engine.allLow with incrementalSnapshots := true }
    let write (args : List String) : Engine.Work :=
      .execute (Env.quiet 0) .set (text "k" :: args.map text)
    let r := Engine.new config (Env.quiet 0) none
    let e₀ := r.work (write ["old", "PX", "5000"])
    let e := ((e₀.beginCopy 0).2.work (write ["new"])).stepSnapshot 1
    let records : List Record := [(text "k", .str (text "old"), some 5000)]
    Engine.copyOf 0 e₀ e = some records ∧
      ∃ records', decodeSnapshot "snapshot"
          (ChecksummedWriter.encodeSnapshot 0 (records.map Record.filed)) = (records', none) ∧
        let f : Follower NoEviction :=
          { replica := ⟨{ engine := OnDisk.replaceAll 0 records' r }, ⟨⟨64, [], 0, 0⟩, [], [], 0⟩, 0, 0⟩
            world := fun _ => Env.quiet 0 }
        ∃ (code : Str) (f' : _), streamAll (code.map fun b => [b]) [] f = .ok ([], f') ∧
          ((engineOf f').store.keyspace (text "k")).filter (fun item => !passed 0 item.2) =
            (e.store.keyspace (text "k")).filter fun item => !passed 0 item.2 := by
  intro config write r e₀ e records
  have hcopy : Engine.copyOf 0 e₀ e = some records := by decide +kernel
  have hrun : Engine.Since 0 e₀ 0 e := .slice 1 (.work (w := write ["new"]) .begun le_rfl trivial)
  have hnear : ∀ r ∈ records, r.Near := by simp [records, Record.Near]
  have hfits : ∀ r ∈ records, r.Fits :=
    forall_mem_singleton.mpr ⟨by decide, show (text "old").length < 2 ^ 32 by decide, by simp⟩
  obtain ⟨E, records', hlog, hdecode, hconverges⟩ := resync_converges (τ := NoEviction)
    (.execute (.new config _ none ⟨{}, rfl⟩) _ .set _ nofun)
    (.execute _ (.memory config _) (.inl rfl) trivial) rfl hrun hcopy hnear hfits (by decide) "snapshot" 0
  let x : Effect := ⟨.set, [text "k", text "new"]⟩
  have hE : e.propagated = e₀.propagated ++ [x] := by decide +kernel
  obtain rfl := append_cancel_left (hlog.symm.trans hE)
  obtain ⟨code, hcode⟩ : ∃ code, encodeCommand x.words = some code :=
    Option.isSome_iff_exists.mp (by decide +kernel)
  have hsent : Sent [(code, x.words)] := by simpa [Sent, Effect.words] using hcode
  refine ⟨hcopy, records', hdecode, ?_⟩
  intro f
  obtain ⟨f', hstream, -, hlive⟩ := hconverges [(code, x.words)] (code.map fun b => [b]) 0 r f hsent
    (.effect x .nil) (by simp [Parser.stream, ← flatMap_def]) (by simp)
    ⟨rfl, rfl⟩ rfl (by simp [x, Effect.Readable, Effect.numbers]) (by simp [x, Effect.deadline])
  exact ⟨code, f', hstream, hlive 0 le_rfl _⟩

end KvStore
