import KvStore.Engine.Intact
import KvStore.Engine.Replay.Reproduce

/-! # The stream of a node whose disk fails

While no append fails the stream reproduces every command (**`OnDisk.stream_reproduced`**) and every run of
commands (**`OnDisk.calls_reproduced`**), whatever comes of the commits: as long as the log is intact the engine
does what it does without failures, and once it has failed only reads are let in, which send what they find
expired (`keeps_perform`). A failed append loses a write to the replicas (`append_failure_diverges`). -/

namespace KvStore

open Engine

namespace OnDisk

variable {σ : Type}

/-! ## After a failure -/

section Failed

variable [CPython] {faults : DiskFaults} {now : Nat} {builds : Str → Prop} {e : Engine σ}

/-- A log that has failed is not written to, and what is done follows in the stream. -/
def Trails (now : Nat) (builds : Str → Prop) (e : Engine σ) (s : OnDisk σ) : Prop :=
  ¬ s.Intact ∧ Follows now builds e s.engine

theorem Trails.of_same {s : OnDisk σ} (h : Trails now builds e s) {e' : Engine σ}
    (hpersistence : e'.persistence = s.engine.persistence) (hflags : e'.flags = s.engine.flags)
    (hlog : e'.propagated = s.engine.propagated) (hdata : e'.store.data = s.engine.store.data)
    (hvolatile : e'.store.volatile = s.engine.store.volatile) :
    Trails now builds e { s with engine := e' } := by
  refine ⟨fun hintact => h.1 (hintact.imp id fun hnone => ?_), h.2.trans ?_⟩
  · exact hpersistence.symm.trans hnone
  · exact .of_same h.2.serving hflags hlog hdata hvolatile

/-- The statistics and the recency of a key. -/
theorem keeps_onStore {f : Store σ → Store σ} (hsettings : ∀ s, (f s).settings = s.settings)
    (hdata : ∀ s, (f s).data = s.data) (hvolatile : ∀ s, (f s).volatile = s.volatile) :
    (onStore f : Act σ Unit).Keeps (Trails now builds e) :=
  fun s h => h.of_same rfl (flags_onStore s.engine (hsettings s.engine.store)) rfl
    (hdata s.engine.store) (hvolatile s.engine.store)

/-- A failed log is not given a rewrite. -/
theorem keeps_ifWritable (x : Act σ (Except KvError Unit)) :
    (ifWritable x).Keeps (Trails now builds e) := by
  intro s h
  rw [ifWritable, Raising.look_run]
  split
  · exact h
  · rename_i hnone
    exfalso
    refine h.1 ?_
    cases hp : s.engine.persistence with
    | none => exact .inr hp
    | some p =>
      cases herror : s.writeError with
      | none => exact .inl herror
      | some reason => exact absurd herror (hnone p reason hp)

variable [EvictionPolicy σ]

/-- The removal of an expired key is sent. -/
theorem keeps_expire (key : Str) : (expire faults key : Act σ Unit).Keeps (Trails now builds e) := by
  intro s h
  have hserving := h.2.serving
  have herror : s.writeError ≠ none := fun hnone => h.1 (.inl hnone)
  have hrun : ((expire faults key).run s).2 = { s with engine :=
      { s.engine.expire key with persistence := s.engine.persistence } } := by
    simp [expire, onStore, onEngine, Raising.act, propagate, Engine.expire, Engine.onStore,
      Engine.propagate, hserving.replaying, herror, bind]
  rw [hrun]
  have hexpire : Follows now builds e (s.engine.expire key) := h.2.trans (follows_expire hserving key)
  exact ⟨h.1, hexpire.trans (.of_same hexpire.serving rfl rfl rfl rfl)⟩

theorem keeps_lookup (now' : Nat) (key : Str) :
    (lookup faults now' key : Act σ (Option Entry)).Keeps (Trails now builds e) := by
  refine .look fun s => ?_
  split
  · exact Raising.keeps_pure none
  · split
    · split
      · exact (keeps_expire key).bind fun _ => Raising.keeps_pure none
      · exact Raising.keeps_pure none
    · exact Raising.keeps_pure _

theorem keeps_get (now' : Nat) (key : Str) :
    (get faults now' key : Act σ (Option Entry)).Keeps (Trails now builds e) := by
  refine (keeps_lookup now' key).bind fun entry => ?_
  cases entry with
  | none | some =>
    refine .bind ?_ fun _ => Raising.keeps_pure _
    exact keeps_onStore (fun _ => rfl) (fun _ => rfl) fun _ => rfl

theorem keeps_iterKeys (now' : Nat) (keys : List Str) :
    (iterKeys faults now' keys : Act σ (List Str)).Keeps (Trails now builds e) := by
  induction keys with
  | nil => exact Raising.keeps_pure []
  | cons key rest ih =>
    refine (keeps_lookup now' key).bind fun entry => ?_
    cases entry with
    | none => exact ih
    | some entry => exact ih.bind fun _ => Raising.keeps_pure _

/-- **A reader's operation.** -/
theorem keeps_exec (env : Env) {o : Op} (ho : Op.Reads o) :
    (exec faults env o : Act σ o.Resp).Keeps (Trails now builds e) := by
  cases o <;> simp only [Op.Reads] at ho
  case peek key | record key => exact (keeps_lookup env.now key).bind fun _ => Raising.keeps_pure _
  case get key => exact (keeps_get env.now key).bind fun _ => Raising.keeps_pure _
  case iterKeys => exact .look fun s => keeps_iterKeys env.now s.engine.store.data.keys
  case startRewrite | save => exact keeps_ifWritable _
  case zset key call => cases call <;> first | exact fun _ h => h | simp at ho
  all_goals exact fun _ h => h

/-- **A read after a failure** is sent what it found expired. -/
theorem keeps_perform (env : Env) (alone : Bool) {c : Command} {args : List Str}
    (harity : c.checkArity args = .ok ()) (hread : c.spec.write = false) :
    (perform faults env alone c args : Act σ Reply).Keeps (Trails now builds e) := by
  have honWrite (x : Act σ Unit) : (onWrite c x).Keeps (Trails now builds e) := by
    rw [onWrite, hread]
    exact Raising.keeps_pure ()
  have hmemory : (checkMemory faults env c args).Keeps (Trails now builds e) := by
    refine .look fun s => ?_
    split
    · refine (Prog.raise_keeps (fun _ => keeps_exec env) (reads_countNew _)).bind fun newKeys => ?_
      refine .look fun s => ?_
      split
      · exact Raising.keeps_raise _
      · exact Raising.keeps_pure ()
    · exact Raising.keeps_pure ()
  have hrun : (run faults env c args).Keeps (Trails now builds e) := by
    rw [run, hread]
    exact Prog.raise_keeps (fun _ => keeps_exec env) (reads_handler c args harity hread).uses
  have hcommit : (commit faults alone).Keeps (Trails now builds e) := by
    intro s h
    have herror : s.writeError ≠ none := fun hnone => h.1 (.inl hnone)
    rw [commit, Raising.look_run, if_neg fun hopen => herror hopen.2.2]
    exact h
  refine (honWrite _).bind fun _ => hmemory.bind fun _ => hrun.bind fun reply =>
    (honWrite _).bind fun _ => .bind ?_ fun _ => hcommit.bind fun _ => Raising.keeps_pure reply
  exact fun s h => h.of_same rfl rfl rfl rfl rfl

end Failed

/-! ## The stream and the keyspace -/

section Stream

variable [EvictionPolicy σ] [CPython]

/-- **Whatever the commit does, a command is followed in the stream if no append fails.** -/
theorem follows_execute {s : OnDisk σ} (h : s.engine.Serving)
    (hprimary : s.engine.store.expiryDeletes = true) {faults : DiskFaults}
    (hfaults : ∀ n, faults.append n = none) (env : Env) (alone : Bool) {c : Command} {args : List Str}
    (hreal : c.Real args) :
    Follows env.now (fun key => key ∈ c.keyArgs args ∧ c.builds args = true) s.engine
      ((execute faults env alone c args).run s).2.engine := by
  unfold execute
  cases harity : c.checkArity args with
  | error err => exact .refl h
  | ok u =>
    dsimp only
    rw [Raising.look_run]
    split
    case isTrue => exact .refl h
    case isFalse hopen =>
      by_cases hintact : s.Intact
      · have hperform : ((perform faults env alone c args).run s).2.engine =
            (s.engine.execute env c args).2 := perform_spec hfaults env alone c args hintact harity hopen
        have hfollows := Engine.follows_execute h env (.inl hprimary) hreal
        rw [← hperform] at hfollows
        split
        case isTrue hwrite =>
          have hnone : s.writeError = none := hintact.resolve_right fun hp => by simp [hp] at hwrite
          have hwritable : (checkWritable : Act σ Unit).run s = (.ok (), s) := by
            rw [checkWritable, Raising.look_run, hnone]
            rfl
          rw [Raising.bind_ok hwritable]
          exact hfollows
        case isFalse => exact hfollows
      · -- only reads are let in
        split
        case isTrue hwrite =>
          obtain ⟨reason, hreason⟩ := Option.ne_none_iff_exists'.1 fun hnone => hintact (.inl hnone)
          have hrefused : (checkWritable : Act σ Unit).run s = (.error (misconf reason), s) := by
            rw [checkWritable, Raising.look_run, hreason]
            rfl
          rw [Raising.bind_error hrefused]
          exact .refl h
        case isFalse hread =>
          have hread' : c.spec.write = false := by
            have hsome : s.engine.persistence.isSome = true :=
              Option.isSome_iff_ne_none.2 fun hnone => hintact (.inr hnone)
            simpa [hsome] using hread
          exact (keeps_perform env alone harity hread' s ⟨hintact, .refl h⟩).2

/-- **What the stream is fed reproduces the command as long as no append fails**, whatever comes of the commit:
replayed from the keyspace before it, it gives the keyspace after it. -/
theorem stream_reproduced {s : OnDisk σ} (h : s.engine.Sound)
    (hprimary : s.engine.store.expiryDeletes = true) (faults : DiskFaults)
    (hfaults : ∀ n, faults.append n = none) (env : Env) (alone : Bool) (c : Command) (args : List Str)
    (hreal : c.Real args) :
    ∃ E, ((execute faults env alone c args).run s).2.engine.propagated =
        s.engine.propagated ++ E ∧
      ∀ (l : Engine σ) (envs : Nat → Env), l.Loading → l.WellFormed →
        l.store.keyspace = s.engine.store.keyspace → (∀ x ∈ E, x.Readable) →
        ∃ l', l.replay envs E = .ok l' ∧
          l'.store.keyspace = ((execute faults env alone c args).run s).2.engine.store.keyspace :=
  (follows_execute h.serving hprimary hfaults env alone hreal).recounts.reproduced h

/-- A command whose records can all be appended. -/
structure Call where
  faults : DiskFaults
  env : Env
  alone : Bool
  command : Command
  args : List Str
  appended : ∀ n, faults.append n = none
  real : command.Real args

/-- Commands one after the other, whatever their replies. -/
def runCalls (calls : List Call) (s : OnDisk σ) : OnDisk σ :=
  calls.foldl (fun s x => ((execute x.faults x.env x.alone x.command x.args).run s).2) s

/-- The whole run is logged. -/
theorem recounts_calls (calls : List Call) {s : OnDisk σ} (h : s.engine.Serving)
    (hprimary : s.engine.store.expiryDeletes = true) : Recounts s.engine (runCalls calls s).engine := by
  induction calls generalizing s with
  | nil => exact .refl h
  | cons x calls ih =>
    have hrecounts := (follows_execute h hprimary x.appended x.env x.alone x.real).recounts
    exact hrecounts.trans (ih hrecounts.serving (hrecounts.deletes.trans hprimary))

/-- **The stream reproduces every run in which no append fails**, whatever comes of the commits, also after
one has failed and writes are refused. -/
theorem calls_reproduced {s : OnDisk σ} (h : s.engine.Sound)
    (hprimary : s.engine.store.expiryDeletes = true) (calls : List Call) :
    ∃ E, (runCalls calls s).engine.propagated = s.engine.propagated ++ E ∧
      ∀ (l : Engine σ) (envs : Nat → Env), l.Loading → l.WellFormed →
        l.store.keyspace = s.engine.store.keyspace → (∀ x ∈ E, x.Readable) →
        ∃ l', l.replay envs E = .ok l' ∧
          l'.store.keyspace = (runCalls calls s).engine.store.keyspace :=
  (recounts_calls calls h.serving hprimary).reproduced h

end Stream

/-! ## A full disk -/

section Concrete

noncomputable local instance failuresPython : CPython := referencePython

/-- An engine with an empty data directory. -/
noncomputable def fresh : OnDisk NoEviction :=
  { engine := (new (plainConfig allLow) (Env.quiet 0) (some {})).beginLoad.endLoad }

/-- The disk is full: nothing can be appended. -/
def fullDisk : DiskFaults := ⟨fun _ => some "No space left on device", none⟩

/-- A commit that fails. -/
def lostCommit : DiskFaults := ⟨fun _ => none, some "No space left on device"⟩

theorem fresh_sound : fresh.engine.Sound :=
  ⟨⟨rfl, rfl⟩, _, (shows_new (plainConfig allLow) (Env.quiet 0) (some {})).of_eq rfl rfl, fun _ => rfl⟩

/-- **SET on a full disk** is refused, but the key is there, and the replicas are told nothing. -/
theorem append_failure_diverges :
    let s' := ((execute fullDisk (Env.quiet 0) true .set [text "k", text "v"]).run fresh).2
    let l := (new (plainConfig allLow) (Env.quiet 0) none).beginLoad
    fresh.engine.Sound ∧ fresh.engine.store.expiryDeletes = true ∧
      s'.engine.propagated = fresh.engine.propagated ∧ l.Loading ∧ l.WellFormed ∧
      l.store.keyspace = fresh.engine.store.keyspace ∧
      ∃ l', l.replay (fun _ => Env.quiet 0) [] = .ok l' ∧
        l'.store.keyspace ≠ s'.engine.store.keyspace := by
  intro s' l
  have hset : s'.engine.store.keyspace (text "k") ≠ none := by decide +kernel
  have hempty : l.store.Shows fun _ => none :=
    (shows_new (plainConfig allLow) (Env.quiet 0) none).of_eq rfl rfl
  refine ⟨fresh_sound, rfl, rfl, ⟨rfl, rfl⟩, ⟨_, hempty⟩, rfl, l, rfl, fun hsame => hset ?_⟩
  rw [← hsame]
  rfl

/-- The same command when only the commit fails: the replicas get it. -/
theorem stream_reproduced_lostCommit :
    let s' := ((execute lostCommit (Env.quiet 0) true .set [text "k", text "v"]).run fresh).2
    s'.writeError = some "No space left on device" ∧
    s'.engine.propagated = [⟨.set, [text "k", text "v"]⟩] ∧
      ∃ E, s'.engine.propagated = fresh.engine.propagated ++ E ∧
        ∀ (l : Engine NoEviction) (envs : Nat → Env), l.Loading → l.WellFormed →
          l.store.keyspace = fresh.engine.store.keyspace → (∀ x ∈ E, x.Readable) →
          ∃ l', l.replay envs E = .ok l' ∧ l'.store.keyspace = s'.engine.store.keyspace :=
  ⟨by decide +kernel, by decide +kernel, stream_reproduced fresh_sound rfl lostCommit (fun _ => rfl)
    (Env.quiet 0) true .set [text "k", text "v"] trivial⟩

/-- The first SET loses its commit, the second one is refused. -/
theorem calls_reproduced_lostCommit :
    let set (v : String) : Call :=
      ⟨lostCommit, Env.quiet 0, true, .set, [text "k", text v], fun _ => rfl, trivial⟩
    let s' := runCalls [set "v", set "w"] fresh
    ∃ l', (new (plainConfig allLow) (Env.quiet 0) none).beginLoad.replay (fun _ => Env.quiet 0)
        [⟨.set, [text "k", text "v"]⟩] = .ok l' ∧ l'.store.keyspace = s'.engine.store.keyspace := by
  intro set s'
  obtain ⟨E, hE, hreplay⟩ := calls_reproduced fresh_sound rfl [set "v", set "w"]
  have hlog : s'.engine.propagated = fresh.engine.propagated ++ [⟨.set, [text "k", text "v"]⟩] := by
    decide +kernel
  obtain rfl := List.append_cancel_left (hlog.symm.trans hE)
  exact hreplay _ _ ⟨rfl, rfl⟩ ⟨_, (shows_new (plainConfig allLow) (Env.quiet 0) none).of_eq rfl rfl⟩ rfl
    (by simp [Effect.Readable, Effect.numbers])

end Concrete

end OnDisk

end KvStore
