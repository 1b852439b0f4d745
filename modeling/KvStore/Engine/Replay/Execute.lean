import KvStore.Engine.Replay.Space
import KvStore.Engine.Switches

/-! # What the engine logs

Every call on the engine is a sequence of phases: looking keys up, running a handler, evicting,
expiring. **`Engine.Follows now builds e e'`** says of a phase that replaying what it logged makes
every keyspace behind the one before it follow to the one after it (`Space.Follow`). Phases compose,
so a whole command (`follows_execute`) and a whole cycle of active expiry (`follows_cron`) have the
property. -/

namespace KvStore

open Commands

namespace Engine

variable [CPython] {σ : Type} [EvictionPolicy σ]

/-- The switches are those of a node that serves clients: nothing is being replayed, and expired keys
are not found. -/
structure Serving (e : Engine σ) : Prop where
  replaying : e.replaying = false
  expiry : e.store.expiryEnabled = true

omit [CPython] [EvictionPolicy σ] in
theorem Serving.of_flags {e e' : Engine σ} (h : e.Serving) (hflags : e'.flags = e.flags) :
    e'.Serving ∧ e'.store.expiryDeletes = e.store.expiryDeletes := by
  obtain ⟨hreplay, hexpiry, hdeletes⟩ := eq_of_flags hflags
  exact ⟨⟨hreplay.trans h.replaying, hexpiry.trans h.expiry⟩, hdeletes⟩

/-! ## Phases -/

/-- **A phase of a call** that logs what it does. -/
structure Follows (now : Nat) (builds : Str → Prop) (e e' : Engine σ) : Prop where
  serving : e'.Serving
  /-- The role of the node does not change. -/
  deletes : e'.store.expiryDeletes = e.store.expiryDeletes
  follow : ∀ {K : Keyspace}, e.store.Shows K → K.NoEmpty →
    ∃ E K', e'.propagated = e.propagated ++ E ∧ e'.store.Shows K' ∧ K'.NoEmpty ∧
      Space.Follow now builds E K K'

section Follows

variable {now : Nat} {builds : Str → Prop} {e e' e'' : Engine σ}

section

omit [EvictionPolicy σ]

theorem Follows.refl (h : e.Serving) : Follows now builds e e where
  serving := h
  deletes := rfl
  follow hshows hK := ⟨[], _, by simp, hshows, hK, .refl _⟩

/-- **Phases compose.** -/
theorem Follows.trans (h : Follows now builds e e') (h' : Follows now builds e' e'') :
    Follows now builds e e'' where
  serving := h'.serving
  deletes := h'.deletes.trans h.deletes
  follow hshows hK := by
    obtain ⟨E, K', hlog, hshows', hK', hfollow⟩ := h.follow hshows hK
    obtain ⟨E', K'', hlog', hshows'', hK'', hfollow'⟩ := h'.follow hshows' hK'
    exact ⟨E ++ E', K'', by simp [hlog', hlog], hshows'', hK'', hfollow.trans hfollow'⟩

/-- A phase that leaves the keyspace as it is. -/
theorem Follows.of_shows (h : e.Serving) (hflags : e'.flags = e.flags)
    (hlog : e'.propagated = e.propagated)
    (hshows : ∀ {K : Keyspace}, e.store.Shows K → e'.store.Shows K) : Follows now builds e e' where
  serving := (h.of_flags hflags).1
  deletes := (h.of_flags hflags).2
  follow hK hempty := ⟨[], _, by simp [hlog], hshows hK, hempty, .refl _⟩

theorem Follows.of_same (h : e.Serving) (hflags : e'.flags = e.flags)
    (hlog : e'.propagated = e.propagated) (hdata : e'.store.data = e.store.data)
    (hvolatile : e'.store.volatile = e.store.volatile) : Follows now builds e e' :=
  .of_shows h hflags hlog fun hshows => hshows.of_eq hdata hvolatile

end

theorem follows_expire (h : e.Serving) (key : Str) : Follows now builds e (e.expire key) := by
  have hlog : (e.expire key).propagated = e.propagated ++ [.del key] := by
    simp [expire, onStore, propagate, h.replaying]
  have hstore : (e.expire key).store =
      { e.store.remove key with expiredKeys := e.store.expiredKeys + 1 } := by
    simp [expire, onStore, propagate, h.replaying]
  obtain ⟨hserving, hdeletes⟩ := h.of_flags (phase_expire key e).flags
  refine ⟨hserving, hdeletes, fun {K} hshows hK => ?_⟩
  have hwithout : K.without [key] = Function.update K key none := by
    rw [K.without_cons, Keyspace.without_nil]
  refine ⟨[.del key], K.without [key], hlog, ?_, hK.without _, Space.follow_del now builds [key] K⟩
  rw [hstore, hwithout]
  exact (hshows.remove key).of_eq rfl rfl

/-! ## Readers -/

section

omit [EvictionPolicy σ]

/-- Handing a snapshot over leaves the keyspace and the log. -/
theorem follows_handOver (h : e.Serving) : Follows now builds e e.handOver := by
  refine .of_shows h (flags_handOver e) ?_ ?_
  · unfold handOver
    split <;> rfl
  · intro K hshows
    unfold handOver
    split
    · exact hshows
    · exact hshows.of_eq rfl rfl

/-- A slice of a snapshot leaves the keyspace and the log. -/
theorem follows_stepSnapshot (h : e.Serving) (n : Nat) :
    Follows now builds e (e.stepSnapshot n) := by
  have hstep : Follows now builds e (e.onStore (Store.stepSnapshot n)) :=
    .of_shows h (flags_onStore e (e.store.frame_stepSnapshot n).1) rfl
      fun hshows => hshows.stepSnapshot n
  exact hstep.trans (follows_handOver hstep.serving)

/-- Copying before a change leaves the keyspace and the log. -/
theorem follows_barrier (h : e.Serving) (keys : List Str) :
    Follows now builds e (e.barrier keys) := by
  exact .of_shows h (phase_barrier keys e).flags rfl fun hshows => hshows.barrierAll keys

end

/-- Looking keys up and copying the keyspace. -/
theorem follows_of_acts (h : e.Serving) {now' : Nat} (hacts : Acts now' (· = .copy) e e') :
    Follows now builds e e' := by
  induction hacts with
  | refl => exact .refl h
  | tail _ hact ih =>
    refine ih.trans ?_
    have hserving := ih.serving
    cases hact with
    | change hchange =>
      have hflags := (phase_content hchange.frame).flags
      rcases hchange.idle fun _ h => h with hcore | ⟨key, rfl⟩
      · exact .of_same hserving hflags rfl hcore.data hcore.volatile
      · exact .of_same hserving hflags rfl rfl rfl
    | expire => exact follows_expire hserving _
    | log h | flush h => cases h
    | files | begin => exact .of_same hserving rfl rfl rfl rfl
    | slice n => exact follows_stepSnapshot hserving n

/-- **A program of a reader.** -/
theorem follows_reader (h : e.Serving) (env : Env) {α : Type} {p : Cmd α} (hp : p.Uses Op.Reads) :
    Follows now builds e (p.run (exec env) e).2 :=
  Prog.run_invariant (P := Op.Reads) (I := Follows now builds e) (f := exec env)
    (fun _ _ ho hI => hI.trans (follows_of_acts hI.serving (acts_exec env ho.needs _))) hp (.refl h)

end Follows

/-! ## Writes -/

section Writes

variable {e : Engine σ}

/-- Accounting again drops the empty collections at the keys. -/
theorem shows_refreshAll {K : Keyspace} (h : e.store.Shows K) (keys : List Str) :
    (e.refreshAll keys).store.Shows (Space.finishAll keys K) := by
  have hstore : ∀ (keys : List Str) (s : Store σ) (K : Keyspace), s.Shows K →
      (keys.foldl (fun s key => s.refresh key) s).Shows (Space.finishAll keys K) := by
    intro keys
    induction keys with
    | nil => exact fun _ _ h => h
    | cons key rest ih => exact fun s K h => ih _ _ (h.refresh key)
  exact hstore keys e.store K h

omit [CPython] [EvictionPolicy σ] in
/-- An engine that serves and deletes expired keys, as the abstract machine sees it. -/
theorem Serving.sim (h : e.Serving) (hdel : e.store.expiryDeletes = true) {K : Keyspace}
    (hshows : e.store.Shows K) : Sim .normal e.propagated e ⟨K, []⟩ where
  shows := hshows
  replaying := h.replaying
  expiry := h.expiry
  deletes := hdel
  log := by simp

/-- **The handler of a write**, with the keys accounted again. -/
theorem follows_write (h : e.Serving) (hdel : e.store.expiryDeletes = true) (env : Env) {c : Command}
    {args : List Str} (hw : c.spec.write = true) (harity : c.checkArity args = .ok ())
    (hreal : c.Real args) :
    Follows env.now (fun key => key ∈ c.keyArgs args ∧ c.builds args = true) e
      (e.run env c args).2 := by
  have hflags : (e.run env c args).2.flags = e.flags := by
    rw [run_write env hw]
    simp [flags_run, (phase_refreshAll _ _).flags]
  obtain ⟨hserving, hdeletes⟩ := h.of_flags hflags
  refine ⟨hserving, hdeletes, fun {K} hshows hK => ?_⟩
  obtain ⟨huses, hempty, hfollow⟩ := Space.follow_handler env hw harity hreal hK
  obtain ⟨-, hsim⟩ := run_sim env huses (h.sim hdel hshows)
  rw [run_write env hw]
  exact ⟨_, _, hsim.log, shows_refreshAll hsim.shows _, hempty, hfollow⟩

/-! ## Eviction and active expiry -/

omit [CPython] in
theorem shows_evictLoop (now : Nat) (protect : List Str) (fuel : Nat) {s : Store σ} {K : Keyspace}
    (h : s.Shows K) :
    (s.evictLoop now protect fuel).2.Shows (K.without (s.evictLoop now protect fuel).1) := by
  induction fuel generalizing s K with
  | zero => simpa [Store.evictLoop] using h
  | succ fuel ih =>
    rw [Store.evictLoop]
    split
    · split
      case h_1 policy _ =>
        rw [Keyspace.without_nil]
        exact h.of_eq rfl rfl
      case h_2 victim policy _ =>
        have hpolicy : ({ s with policy := policy } : Store σ).Shows K := h.of_eq rfl rfl
        have hremoved : ({ ({ s with policy := policy } : Store σ).remove victim with
            evictedKeys := s.evictedKeys + 1 } : Store σ).Shows (Function.update K victim none) :=
          (hpolicy.remove victim).of_eq rfl rfl
        simp only [K.without_cons]
        exact ih hremoved
    · simpa using h

omit [CPython] in
theorem shows_evictIfNeeded (now : Nat) (protect : List Str) {s : Store σ} {K : Keyspace}
    (h : s.Shows K) :
    (s.evictIfNeeded now protect).2.Shows (K.without (s.evictIfNeeded now protect).1) := by
  unfold Store.evictIfNeeded
  split
  · exact shows_evictLoop now protect _ h
  · simpa using h

/-- **Eviction.** -/
theorem follows_evict {now : Nat} {builds : Str → Prop} (h : e.Serving) (env : Env)
    (protect : List Str) : Follows now builds e (e.evict env protect) := by
  have hsettings := Store.settings_of_frame (e.store.frame_evictIfNeeded env.now protect)
  simp only [Store.settings, Prod.mk.injEq] at hsettings
  obtain ⟨hlog, hstore, hreplay⟩ := propagate_dels
    (e := { e with store := (e.store.evictIfNeeded env.now protect).2 }) h.replaying
    (e.store.evictIfNeeded env.now protect).1
  refine ⟨⟨hreplay, ?_⟩, ?_, fun {K} hK hempty => ?_⟩
  · exact (congrArg Store.expiryEnabled hstore).trans (hsettings.2.2.1.trans h.expiry)
  · exact (congrArg Store.expiryDeletes hstore).trans hsettings.2.2.2.1
  · refine ⟨_, _, hlog, ?_, hempty.without _, Space.follow_del now builds _ K⟩
    have hfinal : (e.evict env protect).store = (e.store.evictIfNeeded env.now protect).2 := hstore
    rw [hfinal]
    exact shows_evictIfNeeded env.now protect hK

/-- **Active expiry.** -/
theorem follows_expireCycle {now : Nat} {builds : Str → Prop} (h : e.Serving) (env : Env)
    (sampleSize : Nat) : Follows now builds e (e.expireCycle env sampleSize).2 :=
  expireCycle_induction (I := Follows now builds e)
    (fun key _ hf => hf.trans (follows_expire hf.serving key)) env sampleSize (.refl h)

/-- **The periodic housekeeping.** -/
theorem follows_cron {now : Nat} {builds : Str → Prop} (h : e.Serving) (env : Env)
    (sampleSize : Nat) (auto : Bool) : Follows now builds e (e.cron env sampleSize auto) := by
  have hcycle : Follows now builds e (e.expireCycle env sampleSize).2 :=
    follows_expireCycle h env sampleSize
  unfold cron
  simp only
  split
  · exact hcycle
  · split
    · refine hcycle.trans ?_
      have hpoll : ∀ p, Follows now builds (e.expireCycle env sampleSize).2
          { (e.expireCycle env sampleSize).2 with persistence := p } :=
        fun p => .of_same hcycle.serving rfl rfl rfl rfl
      split
      · exact (hpoll _).trans (follows_of_acts (hpoll _).serving (acts_startRewrite (P := (· = .copy)) rfl env _))
      · exact hpoll _
    · exact hcycle

end Writes

/-! ## Commands -/

section Execute

variable {e : Engine σ}

/-- The check of the memory limit only looks keys up. -/
theorem follows_checkMemory {now : Nat} {builds : Str → Prop} (h : e.Serving) (env : Env)
    (c : Command) (args : List Str) : Follows now builds e (e.checkMemory env c args).2 :=
  checkMemory_induction (I := Follows now builds e)
    (fun key _ hf => hf.trans (follows_of_acts hf.serving (acts_lookup env.now key _))) c args (.refl h)

/-- The handler of any command; a node that only hides expired keys runs no writes. -/
theorem follows_run (h : e.Serving) (env : Env) {c : Command} {args : List Str}
    (hrole : e.store.expiryDeletes = true ∨ c.spec.write = false)
    (harity : c.checkArity args = .ok ()) (hreal : c.Real args) :
    Follows env.now (fun key => key ∈ c.keyArgs args ∧ c.builds args = true) e
      (e.run env c args).2 := by
  cases hw : c.spec.write with
  | true => exact follows_write h (hrole.resolve_right (by simp [hw])) env hw harity hreal
  | false =>
    rw [run_read env hw]
    exact follows_reader h env (reads_handler c args harity hw).uses

/-- **A command.** -/
theorem follows_execute (h : e.Serving) (env : Env) {c : Command} {args : List Str}
    (hrole : e.store.expiryDeletes = true ∨ c.spec.write = false) (hreal : c.Real args) :
    Follows env.now (fun key => key ∈ c.keyArgs args ∧ c.builds args = true) e
      (e.execute env c args).2 :=
  execute_induction (I := Follows env.now _ e)
    (fun _ hf => hf.trans (follows_barrier hf.serving _))
    (fun key _ hf => hf.trans (follows_of_acts hf.serving (acts_lookup env.now key _)))
    (fun harity _ hf => hf.trans (follows_run hf.serving env (hrole.imp_left hf.deletes.trans) harity
      hreal))
    (fun _ hf => hf.trans (follows_evict hf.serving env _))
    (fun _ _ hf => hf.trans (.of_same hf.serving rfl rfl rfl rfl)) (.refl h)

end Execute

end Engine

end KvStore
