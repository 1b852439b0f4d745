import KvStore.Replication.Recovery
import KvStore.Replication.ReplicaLink

/-! # A full resynchronisation

* **`ReplicaLink.AllOrNothing`** — ids and keyspace are those of before, or both those that were announced,
  and the files recover the keyspace.
* **`ReplicaLink.resync_all_or_nothing`** — when a full resynchronisation is all or nothing.
* **`ReplicaLink.handshake_outcome`** — the whole answer to PSYNC.

Once the keyspace has been dropped there is no way back: a snapshot that cannot be decoded to its end, a SAVE
that is refused or fails, and an offset that is not a number leave the new keyspace, or a part of it, under the
old ids and over files that hold the old one (`half_resync`). -/

namespace KvStore

open List

/-! ## All or nothing -/

section Spec

variable [CPython] {σ : Type} [EvictionPolicy σ]

/-- **SAVE goes through**: the log has not failed, no rewrite is being copied or written (or one that was has
ended by then), the log can be switched, and the snapshot be written. -/
def OnDisk.SavesTo (switch : Option String) (env : Env) (s : OnDisk σ) (p : Persistence) : Prop :=
  s.writeError = none ∧ (p.inProgress = true → env.written ≠ none) ∧ switch = none ∧ env.saved = true

namespace ReplicaLink

/-- What a replica holds. -/
def keyspace (r : Replica σ) : Str → Option (Payload × Option Int) := r.disk.engine.store.keyspace

/-- Which position in the stream it says that it has. -/
def ids (r : Replica σ) : Str × Int := (r.state.replid, r.state.offset)

/-- **All or nothing.** -/
structure AllOrNothing (t : Nat) (received : Except LinkError (Str × Str × Str))
    (before after : Replica σ) : Prop where
  /-- Ids and keyspace are as before, or as announced. -/
  describes : (ids after = ids before ∧ keyspace after = keyspace before) ∨
    ∃ replid start payload offset, received = .ok (replid, start, payload) ∧
      int start = some offset ∧ (decoded payload).2 = none ∧
      keyspace after = (keyspaceOf (decoded payload).1).plain ∧ ids after = (replid, offset)
  recovers : ∀ p ∈ after.disk.engine.persistence, p.Recovers σ t (keyspace after)

/-- **A replica in order**: its files back its keyspace, and what was logged can be read. (`Backed` is
stated of nodes that delete expired keys, which a replica does not.) -/
def Held (t : Nat) (r : Replica σ) : Prop :=
  ∀ p ∈ r.disk.engine.persistence, (∃ K, (r.disk.engine.setRole true).Backed t p K) ∧
    ∀ x ∈ p.older ++ p.current, x.Readable

/-- SAVE will go through if there are files. -/
def Saves (switch : Option String) (env : Env) (r : Replica σ) : Prop :=
  ∀ p ∈ r.disk.engine.persistence, r.disk.SavesTo switch env p

/-- **When a full resynchronisation is all or nothing**: the link drops before the snapshot is there; or the
snapshot can be read to its end, the offset is a number and SAVE goes through; or what is loaded is what was
there; or, but for expired keys, so it is, and the ids announced are those the replica has. -/
def Spared (switch : Option String) (env : Env) (received : Except LinkError (Str × Str × Str))
    (r : Replica σ) : Prop :=
  match received with
  | .error _ => True
  | .ok (replid, start, payload) =>
    ((decoded payload).2 = none ∧ (int start).isSome ∧ Saves switch env r) ∨
    (keyspaceOf (decoded payload).1).plain = keyspace r ∨
    ((decoded payload).2 = none ∧ (∃ offset, int start = some offset ∧ ids r = (replid, offset)) ∧
      ∀ key, ((keyspaceOf (decoded payload).1).plain key).filter (fun item => !passed env.now item.2) =
        (keyspace r key).filter fun item => !passed env.now item.2)

end ReplicaLink

namespace OnDisk

variable {K K' : Keyspace} {p : Persistence} {env : Env}

/-- **What SAVE leaves**: files that hold the keyspace it saves, or those that there were. -/
theorem save_outcome (switch : Option String) {s : OnDisk σ} (hfiles : s.engine.persistence = some p)
    (hkept : s.engine.store.Kept []) (hfree : s.engine.store.snapshotJob = none)
    (hidle : s.engine.store.finished = none) (hshows : s.engine.store.Shows K') (hK' : K'.NoEmpty)
    (hbacks : p.Backs env.now K) (hread : ∀ x ∈ p.older ++ p.current, x.Readable)
    (hcopying : p.copying = false) :
    ((save switch env).run s).2.engine.store.Shows K' ∧
    ∃ p', ((save switch env).run s).2.engine.persistence = some p' ∧
      ((SavesTo switch env s p ∧ ((save switch env).run s).1 = .ok () ∧ p'.Restores env.now K') ∨
        (¬ SavesTo switch env s p ∧ (∃ e, ((save switch env).run s).1 = .error e) ∧
          p'.Restores env.now K)) := by
  have hpolled : (p.poll env.now env.written).Restores env.now K :=
    (hbacks.poll env.now env.written).restores fun x hx => hread x (Persistence.mem_log_poll _ _ hx)
  cases hwrite : s.writeError with
  | some reason =>
    have hrun : (save switch env).run s = (.error (.engine (misconf reason)), s) := by
      simp only [save, hfiles, hwrite]
    rw [hrun]
    exact ⟨hshows, p, hfiles, .inr ⟨by simp [SavesTo, hwrite], ⟨_, rfl⟩, hbacks.restores hread⟩⟩
  | none =>
    by_cases hbusy : (p.poll env.now env.written).inProgress = true
    · -- refused
      have hsave : s.engine.save env =
          (.error (.command "Background append only file rewriting already in progress"),
            { s.engine with persistence := some (p.poll env.now env.written) }) := by
        simp [Engine.save, Engine.startRewrite, hfiles, hbusy]
      have hrun : (save switch env).run s =
          (.error (.engine (.command "Background append only file rewriting already in progress")),
            { s with engine :=
              { s.engine with persistence := some (p.poll env.now env.written) } }) := by
        cases switch <;> simp [save, hfiles, hwrite, hbusy, hsave, Except.mapError]
      rw [hrun]
      refine ⟨hshows, _, rfl, .inr ⟨fun hsaves => ?_, ⟨_, rfl⟩, hpolled⟩⟩
      obtain ⟨hprogress, hwritten⟩ := (Persistence.inProgress_poll hcopying _ _).mp hbusy
      exact hsaves.2.1 hprogress hwritten
    · rw [Bool.not_eq_true] at hbusy
      cases switch with
      | some reason =>
        have hrun : (save (some reason) env).run s = (.error (.disk reason), { s with engine :=
              { s.engine with persistence := some (p.poll env.now env.written) } }) := by
          simp [save, hfiles, hwrite, hbusy]
        rw [hrun]
        exact ⟨hshows, _, rfl, .inr ⟨by simp [SavesTo], ⟨_, rfl⟩, hpolled⟩⟩
      | none =>
        obtain ⟨job, hresult, hshows', hok, hfiles'⟩ :=
          Engine.save_files hfiles hkept hfree hidle hshows hbusy
        have hrun : (save none env).run s = ((s.engine.save env).1.mapError LinkError.engine,
            { s with engine := (s.engine.save env).2 }) := by
          simp [save, hfiles, hwrite]
        rw [hrun]
        refine ⟨hshows', _, hfiles', ?_⟩
        cases hsaved : env.saved with
        | true =>
          left
          refine ⟨⟨hwrite, fun hprogress hwritten => ?_, rfl, hsaved⟩, ?_,
            Persistence.restores_saved hshows hK' hresult env.now⟩
          · rw [(Persistence.inProgress_poll hcopying _ _).mpr ⟨hprogress, hwritten⟩] at hbusy
            cases hbusy
          · cases hresult' : (s.engine.save env).1 with
            | ok _ => rfl
            | error err =>
              rw [hresult', hsaved] at hok
              cases hok
        | false =>
          right
          refine ⟨by simp [SavesTo, hsaved], ?_, hpolled.unsaved job.records env.now⟩
          cases hresult' : (s.engine.save env).1 with
          | ok _ =>
            rw [hresult', hsaved] at hok
            cases hok
          | error err => exact ⟨_, rfl⟩

/-! ### The keyspace is replaced -/

section ReplaceAll

variable {e : Engine σ} (now : Nat) {records : List Record}

/-- The keyspace is what the records stand for. -/
theorem shows_replaceAll (hsound : ∀ r ∈ records, Record.Sound r) :
    (replaceAll now records e).store.Shows (keyspaceOf records) := by
  have hclear : e.flushAll.store.Shows fun _ => none :=
    Engine.shows_handOver (Store.Shows.clear e.store)
  have hloaded := Engine.shows_loadRecords now hsound
    (e := e.flushAll.onStore fun s => { s with expiryEnabled := false }) (hclear.of_eq rfl rfl)
  exact hloaded.of_eq rfl rfl

/-- The files are those that clearing has left. -/
theorem persistence_replaceAll (records : List Record) :
    (replaceAll now records e).persistence = e.flushAll.persistence :=
  Engine.persistence_loadRecords rfl now records

/-- No snapshot is being taken, and none waits for its receiver. -/
theorem jobs_replaceAll (hidle : e.store.finished = none) (records : List Record) :
    (replaceAll now records e).store.snapshotJob = none ∧
      (replaceAll now records e).store.finished = none := by
  let off := e.flushAll.onStore fun s => { s with expiryEnabled := false }
  constructor
  · exact (Engine.loadRecords_keeps (e := off) (Engine.snapshotJob_flushAll e) now records).1
  · exact ((Engine.phase_loadRecords now records off).logs.log ((Engine.phase_flushAll e).logs.log hidle).1).1

theorem kept_replaceAll (hsound : ∀ r ∈ records, Record.Sound r) (hkept : e.store.Kept []) :
    (replaceAll now records e).store.Kept [] := by
  let off := e.flushAll.onStore fun s => { s with expiryEnabled := false }
  have hclear : Store.Steps False e.store off.store :=
    .quiet ((Engine.moves_flushAll e).tail (.aside ⟨rfl, rfl, rfl, rfl, rfl, rfl, rfl⟩))
  have hload : Store.Steps False off.store (off.loadRecords now records).store :=
    Engine.steps_loadRecords (e := off) rfl (Engine.snapshotJob_flushAll e) now
      fun r hr => Engine.isEmpty_of_sound (hsound r hr)
  exact (hkept.steps (hclear.trans hload)).of_eq rfl rfl rfl

end ReplaceAll

/-- A snapshot that ends with an error. -/
theorem loadSnapshot_some (records : List Record) (err : KvError) (s : OnDisk σ) :
    (loadSnapshot switch env (records, some err)).run s =
      (.error (.engine err), { s with engine := replaceAll env.now records s.engine }) := rfl

/-- A snapshot that is read to its end. -/
theorem loadSnapshot_none (records : List Record) (s : OnDisk σ) :
    (loadSnapshot switch env (records, none)).run s =
      (if ({ s with engine := replaceAll env.now records s.engine } : OnDisk σ).isOpen then do
          save switch env
          return records.length
        else return records.length : Raising (OnDisk σ) LinkError Nat).run
        { s with engine := replaceAll env.now records s.engine } := rfl

/-- **Without failures of the log** this is `Engine.loadSnapshot`, which does not say how SAVE ended. -/
theorem engine_loadSnapshot {s : OnDisk σ} (hwrite : s.writeError = none) (records : List Record) :
    ((loadSnapshot none env (records, none)).run s).2.engine = s.engine.loadSnapshot env records := by
  let s₁ : OnDisk σ := { s with engine := replaceAll env.now records s.engine }
  have hsave : ∀ s₁ : OnDisk σ, s₁.writeError = none →
      ((save none env).run s₁).2.engine = (s₁.engine.save env).2 := by
    intro s₁ hwrite₁
    cases hfiles : s₁.engine.persistence <;> simp [save, hfiles, hwrite₁]
  have hopen : s₁.isOpen = true ↔ ∃ p ∈ s₁.engine.persistence, p.isOpen = true := by
    simp [isOpen, Option.any_eq_true]
  rw [loadSnapshot_none]
  by_cases h : s₁.isOpen = true
  · rw [if_pos h]
    have hlift : s.engine.loadSnapshot env records = (s₁.engine.save env).2 := if_pos (hopen.mp h)
    rw [hlift, ← hsave s₁ hwrite]
    cases hrun : (save none env).run s₁ with
    | mk result s₂ =>
      cases result with
      | ok _ => rw [Raising.bind_ok hrun]; rfl
      | error err => rw [Raising.bind_error hrun]
  · rw [if_neg h]
    exact (if_neg (hopen.not.mp h)).symm

end OnDisk

namespace ReplicaLink

variable {r : Replica σ} {env : Env} {switch : Option String} {snapshot : List Record × Option KvError}

/-- The files of a replica in order recover what it holds. -/
theorem Held.recovers {t : Nat} (h : Held t r) :
    ∀ p ∈ r.disk.engine.persistence, p.Recovers σ t (keyspace r) := by
  intro p hp
  obtain ⟨⟨K, hbacked⟩, hread⟩ := h p hp
  have hkeyspace : keyspace r = K.plain := hbacked.shows.keyspace_eq
  rw [hkeyspace]
  exact (hbacked.backs.restores hread).recovers

/-- **What loading a snapshot leaves**: the new keyspace, and files that hold it too if SAVE has gone through,
or else the old one. -/
theorem load_outcome (switch : Option String) (hheld : Held env.now r) (hsound : ∀ x ∈ snapshot.1, Record.Sound x) :
    ((OnDisk.loadSnapshot switch env snapshot).run r.disk).2.engine.store.Shows
      (keyspaceOf snapshot.1) ∧
    ((snapshot.2 = none ∧ Saves switch env r ∧
        (∃ n, ((OnDisk.loadSnapshot switch env snapshot).run r.disk).1 = .ok n) ∧
        ∀ p ∈ ((OnDisk.loadSnapshot switch env snapshot).run r.disk).2.engine.persistence,
          p.Recovers σ env.now (keyspaceOf snapshot.1).plain) ∨
      (¬ (snapshot.2 = none ∧ Saves switch env r) ∧
        (∃ e, ((OnDisk.loadSnapshot switch env snapshot).run r.disk).1 = .error e) ∧
        (∀ p ∈ ((OnDisk.loadSnapshot switch env snapshot).run r.disk).2.engine.persistence,
          p.Recovers σ env.now (keyspace r)) ∧
        (snapshot.2 = none →
          ((OnDisk.loadSnapshot switch env snapshot).run r.disk).2.engine.persistence ≠ none))) := by
  obtain ⟨records, failure⟩ := snapshot
  let s₁ : OnDisk σ := { r.disk with engine := OnDisk.replaceAll env.now records r.disk.engine }
  have hshows : s₁.engine.store.Shows (keyspaceOf records) := OnDisk.shows_replaceAll env.now hsound
  have hpersistence : s₁.engine.persistence = r.disk.engine.flushAll.persistence :=
    OnDisk.persistence_replaceAll env.now records
  cases hfiles : r.disk.engine.persistence with
  | none =>
    have hnone : s₁.engine.persistence = none := by
      rw [hpersistence]
      unfold Engine.flushAll Engine.handOver
      split <;> simp [Engine.onStore, hfiles]
    cases failure with
    | some err =>
      rw [OnDisk.loadSnapshot_some]
      refine ⟨hshows, .inr ⟨by simp, ⟨_, rfl⟩, ?_, by simp⟩⟩
      show ∀ p ∈ s₁.engine.persistence, _
      simp [hnone]
    | none =>
      have hclosed : ¬ s₁.isOpen = true := by simp [OnDisk.isOpen, hnone]
      rw [OnDisk.loadSnapshot_none, if_neg hclosed]
      refine ⟨hshows, .inl ⟨rfl, by simp [Saves, hfiles], ⟨_, rfl⟩, ?_⟩⟩
      show ∀ p ∈ s₁.engine.persistence, _
      simp [hnone]
  | some p =>
    obtain ⟨⟨K, hbacked⟩, hread⟩ := hheld p hfiles
    obtain ⟨p₁, hfiles₁, hopen₁, hbacks₁, hcopying₁, hprogress₁, hlog₁⟩ := Engine.flushAll_files hbacked
    rw [hfiles₁] at hpersistence
    have hkeyspace : keyspace r = K.plain := hbacked.shows.keyspace_eq
    have hread₁ : ∀ x ∈ p₁.older ++ p₁.current, x.Readable := fun x hx => hread x (hlog₁ ▸ hx)
    rw [hkeyspace]
    cases failure with
    | some err =>
      rw [OnDisk.loadSnapshot_some]
      refine ⟨hshows, .inr ⟨by simp, ⟨_, rfl⟩, ?_, by simp⟩⟩
      show ∀ p ∈ s₁.engine.persistence, _
      rw [hpersistence]
      rintro _ ⟨⟩
      exact (hbacks₁.restores hread₁).recovers
    | none =>
      have hopen : s₁.isOpen = true := by simp [OnDisk.isOpen, hpersistence, hopen₁]
      rw [OnDisk.loadSnapshot_none, if_pos hopen]
      have hidle₀ : r.disk.engine.store.finished = none := hbacked.idle
      obtain ⟨hfree, hidle⟩ := OnDisk.jobs_replaceAll env.now hidle₀ records
      obtain ⟨hshows', p', hfiles', houtcome⟩ := OnDisk.save_outcome switch (s := s₁)
        hpersistence (OnDisk.kept_replaceAll env.now hsound (hbacked.kept.of_eq rfl rfl rfl))
        hfree hidle hshows (noEmpty_keyspaceOf hsound) hbacks₁ hread₁ hcopying₁
      have hsaves : OnDisk.SavesTo switch env s₁ p₁ ↔ none = (none : Option KvError) ∧
          Saves switch env r := by
        simp [Saves, hfiles, OnDisk.SavesTo, hprogress₁, s₁]
      rcases houtcome with ⟨hgood, hok, hrestores⟩ | ⟨hbad, ⟨e, herror⟩, hrestores⟩
      · have hsaved : (OnDisk.save switch env).run s₁ =
            (.ok (), ((OnDisk.save switch env).run s₁).2) := Prod.ext hok rfl
        rw [Raising.bind_ok hsaved]
        refine ⟨hshows', .inl ⟨rfl, (hsaves.mp hgood).2, ⟨_, rfl⟩, ?_⟩⟩
        show ∀ p ∈ ((OnDisk.save switch env).run s₁).2.engine.persistence, _
        rw [hfiles']
        rintro _ ⟨⟩
        exact hrestores.recovers
      · have hraised : (OnDisk.save switch env).run s₁ =
            (.error e, ((OnDisk.save switch env).run s₁).2) := Prod.ext herror rfl
        rw [Raising.bind_error hraised]
        refine ⟨hshows', .inr ⟨hsaves.not.mp hbad, ⟨_, rfl⟩, ?_, fun _ => by simp [hfiles']⟩⟩
        show ∀ p ∈ ((OnDisk.save switch env).run s₁).2.engine.persistence, _
        rw [hfiles']
        rintro _ ⟨⟩
        exact hrestores.recovers

/-- All or nothing, by the station at which a full resynchronisation stops. -/
theorem allOrNothing_iff {peer : Peer} {words : List Str} (hheld : Held env.now r)
    (hsound : ∀ replid start payload, receive peer words = .ok (replid, start, payload) →
      ∀ x ∈ (decoded payload).1, Record.Sound x) :
    AllOrNothing env.now (receive peer words) r ((fullResync switch env peer words).run r).2 ↔
      Spared switch env (receive peer words) r := by
  cases hreceive : receive peer words with
  | error e =>
    have hrun : (fullResync switch env peer words).run r = (.error e, r) := by
      simp only [fullResync, hreceive]
      rfl
    rw [hrun]
    refine ⟨fun _ => trivial, fun _ => ⟨.inl ⟨rfl, rfl⟩, fun p hp => ?_⟩⟩
    exact hheld.recovers p hp
  | ok received =>
    obtain ⟨replid, start, payload⟩ := received
    obtain ⟨hshows, houtcome⟩ :=
      load_outcome switch hheld (hsound replid start payload hreceive)
    set loaded := (OnDisk.loadSnapshot switch env (decoded payload)).run r.disk with hloaded
    have hkeyspace : loaded.2.engine.store.keyspace = (keyspaceOf (decoded payload).1).plain :=
      hshows.keyspace_eq
    have hrun : (fullResync switch env peer words).run r = (onDisk (OnDisk.loadSnapshot switch env
        (decoded payload)) >>= fun _ => takeOver replid start).run r := by
      simp only [fullResync, hreceive]
    have hload : (onDisk (OnDisk.loadSnapshot switch env (decoded payload))).run r =
        (loaded.1, { r with disk := loaded.2 }) := rfl
    rcases houtcome with ⟨hdecoded, hsaves, ⟨n, hok⟩, hrecovers⟩ | ⟨hbad, ⟨e, herror⟩, hrecovers, hfiles⟩
    · rw [hok] at hload
      rw [hrun, Raising.bind_ok hload]
      rw [← hkeyspace] at hrecovers
      cases hstart : int start with
      | some offset =>
        -- everything went well
        refine ⟨fun _ => .inl ⟨hdecoded, by simp [hstart], hsaves⟩, fun _ => ?_⟩
        rw [takeOver, hstart]
        exact ⟨.inr ⟨replid, start, payload, offset, rfl, hstart, hdecoded, hkeyspace, rfl⟩, hrecovers⟩
      | none =>
        -- the keyspace is there, and saved, but the ids are the old ones
        rw [takeOver, hstart]
        constructor
        · rintro ⟨⟨-, hsame⟩ | ⟨_, _, _, _, heq, hnumber, -⟩, -⟩
          · exact .inr (.inl (hkeyspace.symm.trans hsame))
          · cases heq
            exact nomatch hstart.symm.trans hnumber
        · rintro (⟨-, hnumber, -⟩ | hsame | ⟨-, ⟨_, hnumber, -⟩, -⟩)
          · simp [hstart] at hnumber
          · exact ⟨.inl ⟨rfl, hkeyspace.trans hsame⟩, hrecovers⟩
          · exact nomatch hstart.symm.trans hnumber
    · -- the ids and the files are the old ones
      rw [herror] at hload
      rw [hrun, Raising.bind_error hload]
      constructor
      · rintro ⟨⟨-, hsame⟩ | ⟨_, _, _, offset, heq, hnumber, hdecoded, -, hids⟩, hrecovers'⟩
        · exact .inr (.inl (hkeyspace.symm.trans hsame))
        · cases heq
          refine .inr (.inr ⟨hdecoded, ⟨offset, hnumber, hids⟩, ?_⟩)
          obtain ⟨p, hp⟩ := Option.ne_none_iff_exists'.mp (hfiles hdecoded)
          rw [← hkeyspace]
          exact Persistence.Recovers.live_eq r.disk.engine.store.policy r.disk.engine.store.levels
            (hrecovers' p hp) (hrecovers p hp)
      · rintro (⟨hdecoded, -, hsaves⟩ | hsame | ⟨hdecoded, ⟨offset, hnumber, hids⟩, hlive⟩)
        · exact absurd ⟨hdecoded, hsaves⟩ hbad
        · rw [← hkeyspace] at hsame
          rw [← hsame] at hrecovers
          exact ⟨.inl ⟨rfl, hsame⟩, hrecovers⟩
        · rw [← hkeyspace] at hlive
          exact ⟨.inr ⟨replid, start, payload, offset, rfl, hnumber, hdecoded, hkeyspace, hids⟩,
            fun p hp => (hrecovers p hp).congr fun key => (hlive key).symm⟩

/-- **A full resynchronisation is all or nothing exactly if** the link drops before the snapshot is there, or
the snapshot can be read to its end, the offset announced is a number and SAVE goes through — or if by chance
nothing changes. -/
theorem resync_all_or_nothing {peer : Peer} {words : List Str} (hheld : Held env.now r)
    (hsound : ∀ replid start payload, receive peer words = .ok (replid, start, payload) →
      ∀ x ∈ (decoded payload).1, Record.Sound x) :
    AllOrNothing env.now (receive peer words) r ((fullResync switch env peer words).run r).2 ↔
      Spared switch env (receive peer words) r :=
  allOrNothing_iff hheld hsound

/-- **The whole answer to PSYNC.** If the primary offers a full resynchronisation, it is all or nothing under
the same conditions. Otherwise the engine and its files are left alone, and so is the position in the stream
unless the stream is continued. -/
theorem handshake_outcome {peer : Peer} (hheld : Held env.now r)
    (hsound : ∀ words replid start payload, receive peer words = .ok (replid, start, payload) →
      ∀ x ∈ (decoded payload).1, Record.Sound x) :
    (∃ words, peer.psync r.state.psync = some words ∧ text "+FULLRESYNC" <+: words.headD [] ∧
      (AllOrNothing env.now (receive peer words) r ((handshake switch env peer).run r).2 ↔
        Spared switch env (receive peer words) r)) ∨
    (((handshake switch env peer).run r).2.disk = r.disk ∧
      (((handshake switch env peer).run r).2.state = r.state ∨
        ∃ words, peer.psync r.state.psync = some words ∧ text "+CONTINUE" <+: words.headD [] ∧
          ((handshake switch env peer).run r).2.state = continued words r.state)) := by
  unfold handshake
  split
  case h_1 => exact .inr ⟨rfl, .inl rfl⟩
  case h_2 greeting _ =>
    split
    case isTrue => exact .inr ⟨rfl, .inl rfl⟩
    case isFalse =>
      simp only [Raising.look]
      split
      case h_1 => exact .inr ⟨rfl, .inl rfl⟩
      case h_2 words hwords =>
        split
        case isTrue hfull => exact .inl ⟨words, hwords, hfull, allOrNothing_iff hheld (hsound words)⟩
        case isFalse =>
          split
          case isTrue hcontinue => exact .inr ⟨rfl, .inr ⟨words, hwords, hcontinue, rfl⟩⟩
          case isFalse => exact .inr ⟨rfl, .inl rfl⟩

end ReplicaLink

end Spec

/-! ## A rewrite in progress -/

section Concrete

open Engine ReplicaLink

noncomputable local instance resyncPython : CPython := referencePython

/-- A replica without keys at offset 10 of a history, and the copy that a rewrite is writing. -/
noncomputable def emptyReplica (job : Option (List Record)) : Replica NoEviction where
  disk := { engine :=
    (new (plainConfig allLow) (Env.quiet 0) (some { isOpen := true, job := job })).setRole false }
  state := ⟨⟨1024, [], 10, 10⟩, text "old", noReplid, -1⟩

def oneKeySnapshot : Str := encodeSnapshot 0 [(text "k", .str (text "v"), none)]

/-- A primary at offset 20 of another history. -/
def oneKeyPeer : Peer where
  greeting := some (text "+OK")
  psync _ := some [text "+FULLRESYNC", text "new", text "20"]
  header := some (text "$" ++ showInt oneKeySnapshot.length)
  payload _ := some oneKeySnapshot

/-- Files without records back a keyspace without keys. -/
theorem held_emptyReplica {job : Option (List Record)} (hjob : ∀ records ∈ job, records = []) :
    Held 0 (emptyReplica job) := by
  rintro _ ⟨⟩
  have hback : Back 0 [] [] (fun _ => none) (fun _ => none) :=
    ⟨.nil _, fun _ => rfl, fun _ => .inl rfl⟩
  refine ⟨⟨fun _ => none, ?_⟩, by simp⟩
  exact
    { serving := ⟨rfl, rfl⟩
      deletes := rfl
      kept := (kept_new (plainConfig allLow) (Env.quiet 0) none).of_eq rfl rfl rfl
      idle := rfl
      shows := (shows_new (plainConfig allLow) (Env.quiet 0) none).of_eq rfl rfl
      noEmpty := fun _ => rfl
      files := rfl
      isOpen := rfl
      backs := ⟨by simp, ⟨_, hback⟩, fun records hrecords => by
        rw [hjob records hrecords]
        exact ⟨by simp, _, hback, fun _ _ => rfl⟩⟩
      copied := nofun
      copying := nofun
      logged := by simp }

theorem receive_oneKey : receive oneKeyPeer [text "+FULLRESYNC", text "new", text "20"] =
    .ok (text "new", text "20", oneKeySnapshot) := by
  decide +kernel

theorem decoded_oneKey : decoded oneKeySnapshot = ([(text "k", .str (text "v"), none)], none) := by
  refine decodeSnapshot_encodeSnapshot _ 0 (fun r hr => ?_) (by decide)
  rw [mem_singleton.mp hr]
  exact ⟨by decide, show _ < _ by decide, nofun⟩

theorem sound_oneKey : ∀ x ∈ (decoded oneKeySnapshot).1, Record.Sound x := by
  rw [decoded_oneKey]
  intro x hx
  rw [mem_singleton.mp hx]
  exact ⟨trivial, rfl⟩

/-- A replica at offset 10 of a history, over an engine. -/
noncomputable def replicaOf (e : Engine NoEviction) : Replica NoEviction where
  disk := { engine := e.setRole false }
  state := ⟨⟨1024, [], 10, 10⟩, text "old", noReplid, -1⟩

/-- The life of an engine leaves a replica in order. -/
theorem held_replicaOf {t : Nat} {e : Engine NoEviction} (h : Life t e) : Held t (replicaOf e) := by
  obtain ⟨⟨p, K, hbacked⟩, hread⟩ := h.backed
  have hrole : (e.setRole false).setRole true = e := by
    have hdeletes := hbacked.deletes
    obtain ⟨⟨⟩⟩ := e
    simp_all [setRole, onStore]
  intro p' hp'
  obtain rfl : p = p' := Option.some.inj (hbacked.files.symm.trans hp')
  exact ⟨⟨K, hrole.symm ▸ hbacked⟩, hbacked.readable hread⟩

/-- A string with a deadline, and a list. -/
def twoKeys : List Record :=
  [(text "k", .str (text "w"), some 9000), (text "l", .list [text "a", text "b"], none)]

/-- Another primary at offset 20 of that history. -/
def twoKeyPeer : Peer where
  greeting := some (text "+OK")
  psync _ := some [text "+FULLRESYNC", text "new", text "20"]
  header := some (text "$" ++ showInt (encodeSnapshot 0 twoKeys).length)
  payload _ := some (encodeSnapshot 0 twoKeys)

/-- Nothing is in the way: a replica that holds strings in its snapshot and in its log gets the keyspace and the
ids of the other primary, and its files recover them. -/
theorem resync_all_or_nothing_replaced :
    let words := [text "+FULLRESYNC", text "new", text "20"]
    ∃ e : Engine NoEviction, savedRun = .ok e ∧
      let after := ((fullResync none (Env.quiet 1000000) twoKeyPeer words).run (replicaOf e)).2
      keyspace (replicaOf e) (text "m") = some (.str (text "ab"), none) ∧ keyspace after (text "m") = none ∧
      keyspace after (text "k") = some (.str (text "w"), some 9000) ∧ ids after = (text "new", 20) ∧
      AllOrNothing 1000000 (receive twoKeyPeer words) (replicaOf e) after := by
  intro words
  obtain ⟨e, hrun, hlife⟩ := life_savedRun
  have hbefore : savedRun.toOption.map (fun e => (keyspace (replicaOf e) (text "m"),
      e.persistence.all fun p => !p.inProgress)) = some (some (.str (text "ab"), none), true) := by
    decide +kernel
  have hafter : savedRun.toOption.map (fun e =>
      let after := ((fullResync none (Env.quiet 1000000) twoKeyPeer words).run (replicaOf e)).2
      (keyspace after (text "m"), keyspace after (text "k"), ids after)) =
      some (none, some (.str (text "w"), some 9000), text "new", 20) := by
    decide +kernel
  simp only [hrun, Except.toOption, Option.map_some, Option.some.injEq, Prod.mk.injEq] at hbefore hafter
  obtain ⟨hm, hquiet⟩ := hbefore
  obtain ⟨hm', hk, hids⟩ := hafter
  have hreceive : receive twoKeyPeer words = .ok (text "new", text "20", encodeSnapshot 0 twoKeys) := by
    decide +kernel
  have hdecoded : decoded (encodeSnapshot 0 twoKeys) = (twoKeys, none) := by
    refine decodeSnapshot_encodeSnapshot _ 0 (fun r hr => ?_) (by decide)
    simp only [twoKeys, mem_cons, not_mem_nil, or_false] at hr
    rcases hr with rfl | rfl
    · exact ⟨by decide, show _ < _ by decide, by simp⟩
    · exact ⟨by decide, ⟨by decide, by decide⟩, by simp⟩
  have hsound : ∀ x ∈ twoKeys, Record.Sound x := by
    intro x hx
    simp only [twoKeys, mem_cons, not_mem_nil, or_false] at hx
    rcases hx with rfl | rfl <;> exact ⟨trivial, rfl⟩
  refine ⟨e, hrun, hm, hm', hk, hids, (resync_all_or_nothing
    (held_replicaOf hlife : Held (Env.quiet 1000000).now _) ?_).mpr ?_⟩
  · intro replid start payload h
    obtain ⟨rfl, rfl, rfl⟩ : text "new" = replid ∧ text "20" = start ∧ encodeSnapshot 0 twoKeys = payload := by
      simpa using hreceive.symm.trans h
    rwa [hdecoded]
  · rw [hreceive]
    refine .inl ⟨by rw [hdecoded], by decide +kernel, fun p hp => ⟨rfl, fun hprogress => ?_, rfl, rfl⟩⟩
    have hidle : p.inProgress = false := by
      have hfiles : e.persistence = some p := hp
      simpa [hfiles] using hquiet
    rw [hidle] at hprogress
    cases hprogress

/-- **A rewrite is being written**: SAVE is refused, and the replica has the new keyspace under the old ids. -/
theorem half_resync :
    let words := [text "+FULLRESYNC", text "new", text "20"]
    let after := ((fullResync none (Env.quiet 0) oneKeyPeer words).run (emptyReplica (some []))).2
    Held 0 (emptyReplica (some [])) ∧
      receive oneKeyPeer words = .ok (text "new", text "20", oneKeySnapshot) ∧
      (∀ x ∈ (decoded oneKeySnapshot).1, Record.Sound x) ∧
      keyspace after (text "k") = some (.str (text "v"), none) ∧ ids after = (text "old", 10) ∧
      ¬ AllOrNothing 0 (receive oneKeyPeer words) (emptyReplica (some [])) after := by
  intro words after
  have hkey : keyspace after (text "k") = some (.str (text "v"), none) := by decide +kernel
  have hids : ids after = (text "old", 10) := by decide +kernel
  refine ⟨held_emptyReplica (by simp), receive_oneKey, sound_oneKey, hkey, hids, ?_⟩
  rintro ⟨⟨-, hsame⟩ | ⟨replid, start, payload, offset, hreceive, -, -, -, hnew⟩, -⟩
  · rw [hsame] at hkey
    exact nomatch hkey
  · rw [receive_oneKey] at hreceive
    cases hreceive
    rw [hids, Prod.mk.injEq] at hnew
    exact absurd hnew.1 (by decide)

end Concrete

end KvStore
