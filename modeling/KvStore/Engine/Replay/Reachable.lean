import KvStore.Engine.Replay.Apply

/-! # Reachable engines

**`Engine.Reachable e`** — the engine `e` can come about: by opening any data directory, or without
one, and then by commands, housekeeping, changes of role, and what a replica receives from its
primary, in any order, as long as no NaN is brought in as a score. Such an engine is sound
(`Reachable.sound`): it serves, its store holds a keyspace, and no empty collection is stored. -/

namespace KvStore

open Commands List Prog

/-! ## Records and effects in the files -/

/-- A record of a snapshot as the engine writes it: no NaN, and no empty collection. -/
def Record.Sound (r : Record) : Prop :=
  r.2.1.Real ∧ Reg.finish (some ⟨r.2.1.value, r.2.2⟩) = some ⟨r.2.1.value, r.2.2⟩

/-- An effect as the engine logs it: a write that brings in no NaN. -/
def Effect.Sound (x : Effect) : Prop := x.command.spec.write = true ∧ x.command.Real x.args

/-- Files as the engine writes them. -/
structure Persistence.Sound (p : Persistence) : Prop where
  base : ∀ r ∈ p.base, Record.Sound r
  log : ∀ x ∈ p.older ++ p.current, x.Sound

/-- The keyspace without the keys whose deadline has passed. -/
def Keyspace.live (now : Nat) (K : Keyspace) : Keyspace :=
  fun key => (K key).filter fun item => !passed now item.expiresAt

variable [CPython]

namespace Space

/-- A replayed write leaves no empty collection. -/
theorem noEmpty_handler {c : Command} {args : List Str} (env : Env) {m : Mode}
    (hm : m.expiry = false) (hw : c.spec.write = true) (harity : c.checkArity args = .ok ())
    (hreal : c.Real args) {K : Keyspace} (hK : K.NoEmpty) (out : List Effect) :
    (finishAll (c.keyArgs args) ((c.handler args).run (exec env m) ⟨K, out⟩).2.keys).NoEmpty := by
  by_cases hc : c.spec.keySpec = some singleKey
  · obtain ⟨key, rest, rfl⟩ : ∃ key rest, args = key :: rest := by
      cases args with
      | cons key rest => exact ⟨key, rest, rfl⟩
      | nil =>
        exfalso
        cases c <;> simp [Command.spec, singleKey, allKeys, everyOtherKey] at hw hc <;>
          simp [Command.checkArity, Command.spec] at harity
    have hkeys : c.keyArgs (key :: rest) = [key] := by simp [Command.keyArgs, hc]
    simp only [run_at env m (c.uses_handler rest hc hreal), hkeys, finishAll, foldl_cons,
      foldl_nil, Function.update_self, Function.update_idem]
    exact hK.update (Reg.finish_finish _)
  · have hdelete : ((delete args).run (exec env m) ⟨K, out⟩).2.keys.NoEmpty := by
      obtain ⟨deleted, hrun⟩ := run_deleteAll hm env args K out
      simp only [delete, bind_eq, run_bind, hrun]
      split <;> exact hK.without args
    have hflush : ((flushall args).run (exec env m) ⟨K, out⟩).2.keys.NoEmpty := by
      unfold flushall
      split
      · exact hK
      · exact fun _ => rfl
    have hrun : ((c.handler args).run (exec env m) ⟨K, out⟩).2.keys.NoEmpty := by
      cases c <;> simp only [Command.spec, Bool.false_eq_true] at hw <;>
        simp only [Command.spec, not_true_eq_false] at hc <;>
        simp only [Command.handler]
      case del | unlink => exact hdelete
      case flushall | flushdb => exact hflush
      case mset =>
        unfold mset
        split
        · exact hK
        · simp only [bind_eq, run_bind, run_msetLoop]
          exact noEmpty_setAll _ hK
    rw [finishAll_eq hrun]
    exact hrun

end Space

namespace Engine

variable {σ : Type} [EvictionPolicy σ]

/-- The store holds a keyspace without empty collections. -/
def Holds (e : Engine σ) : Prop := ∃ K, e.store.Shows K ∧ K.NoEmpty

/-- A sound engine that serves. -/
structure Sound (e : Engine σ) : Prop where
  serving : e.Serving
  holds : e.Holds

variable {e : Engine σ}

omit [EvictionPolicy σ] in
/-- A phase that logs what it does keeps an engine sound. -/
theorem Sound.follows {now : Nat} {builds : Str → Prop} {e' : Engine σ} (h : e.Sound)
    (hfollows : Follows now builds e e') : e'.Sound := by
  obtain ⟨K, hshows, hK⟩ := h.holds
  obtain ⟨-, K', -, hshows', hK', -⟩ := hfollows.follow hshows hK
  exact ⟨hfollows.serving, K', hshows', hK'⟩

theorem holds_run (h : e.Holds) (hexpiry : e.store.expiryEnabled = false) (env : Env) {x : Effect}
    (hx : x.Sound) (harity : x.command.checkArity x.args = .ok ()) :
    (e.run env x.command x.args).2.Holds := by
  obtain ⟨K, hshows, hK⟩ := h
  have huses := (Space.follow_handler env hx.1 harity hx.2 hK).1
  have hsim : Sim ⟨e.replaying, false, e.store.expiryDeletes⟩ e.propagated e ⟨K, []⟩ :=
    ⟨hshows, rfl, hexpiry, rfl, by simp⟩
  obtain ⟨-, hsim'⟩ := run_sim env huses hsim
  rw [run_write env hx.1]
  exact ⟨_, shows_refreshAll hsim'.shows _, Space.noEmpty_handler env rfl hx.1 harity hx.2 hK []⟩

theorem holds_loadRecord (h : e.Holds) (now : Nat) {r : Record} (hr : Record.Sound r) :
    (e.loadRecord now r.1 r.2.1 r.2.2).Holds ∧
      (e.loadRecord now r.1 r.2.1 r.2.2).flags = e.flags := by
  obtain ⟨K, hshows, hK⟩ := h
  have hsim : Sim ⟨e.replaying, e.store.expiryEnabled, e.store.expiryDeletes⟩ e.propagated e ⟨K, []⟩ :=
    ⟨hshows, rfl, rfl, rfl, by simp⟩
  have hload := hsim.loadRecord now r.1 hr.1 r.2.2
  exact ⟨⟨_, hload.shows, hK.update hr.2⟩, (phase_loadRecord now r.1 r.2.1 r.2.2 e).flags⟩

theorem holds_loadRecords (now : Nat) {records : List Record}
    (hrecords : ∀ r ∈ records, Record.Sound r) (h : e.Holds) :
    (e.loadRecords now records).Holds ∧ (e.loadRecords now records).flags = e.flags := by
  induction records generalizing e with
  | nil => exact ⟨h, rfl⟩
  | cons r rest ih =>
    obtain ⟨hholds, hflags⟩ := holds_loadRecord h now (hrecords r mem_cons_self)
    obtain ⟨hholds', hflags'⟩ := ih (fun r' hr' => hrecords r' (mem_cons_of_mem _ hr')) hholds
    exact ⟨hholds', hflags'.trans hflags⟩

theorem holds_replay {E : List Effect} (hE : ∀ x ∈ E, x.Sound) {e' : Engine σ} (h : e.Holds)
    (hexpiry : e.store.expiryEnabled = false) {envs : Nat → Env}
    (hreplay : e.replay envs E = .ok e') : e'.Holds := by
  induction E generalizing e envs with
  | nil =>
    simp only [replay, Except.ok.injEq] at hreplay
    exact hreplay ▸ h
  | cons x rest ih =>
    simp only [replay, apply] at hreplay
    split at hreplay
    case h_1 => cases hreplay
    case h_2 e₁ happly =>
      split at happly
      case h_1 => cases happly
      case h_2 harity =>
        have hholds := holds_run h hexpiry (envs 0) (hE x mem_cons_self) harity
        have hflags := flags_runCommand (envs 0) x.command x.args e
        split at happly
        case h_1 => cases happly
        case h_2 reply e₂ hrun =>
          rw [Except.ok.injEq] at happly
          subst happly
          rw [hrun] at hholds hflags
          have hflags := eq_of_flags hflags
          exact ih (fun y hy => hE y (mem_cons_of_mem _ hy)) hholds
            (hflags.2.1.trans hexpiry) hreplay

/-! ## Opening -/

omit [CPython] in
theorem shows_removeAll {s : Store σ} {K : Keyspace} (h : s.Shows K) (keys : List Str) :
    (keys.foldl (fun s key => s.remove key) s).Shows (K.without keys) := by
  induction keys generalizing s K with
  | nil => simpa using h
  | cons key rest ih =>
    rw [K.without_cons]
    exact ih (h.remove key)

omit [CPython] [EvictionPolicy σ] in
/-- The keys that have not expired are those that `purge_expired` does not list. -/
theorem live_eq_without {s : Store σ} {K : Keyspace} (h : s.Shows K) (now : Nat) :
    K.live now = K.without (s.volatile.items.filter fun key =>
      match s.data.get? key with
      | none => false
      | some entry => entry.isExpired now) := by
  funext key
  simp only [Keyspace.live, Keyspace.without, mem_filter]
  cases hget : s.data.get? key with
  | none => simp [h.absent hget]
  | some entry =>
    obtain ⟨item, hK, -, hdeadline⟩ := h.present hget
    have hexpired : entry.isExpired now = passed now item.expiresAt := by
      rw [Entry.isExpired, hdeadline]
    cases hpassed : passed now item.expiresAt with
    | false => simp [hK, Option.filter, hpassed, hexpired]
    | true =>
      have hvolatile : key ∈ s.volatile.items := by
        refine h.volatile hK fun hnone => ?_
        simp [hnone, passed] at hpassed
      simp [hK, Option.filter, hpassed, hexpired, hvolatile]

section

omit [CPython]

/-- `purge_expired` leaves the keys that have not expired. -/
theorem shows_purgeExpired {s : Store σ} {K : Keyspace} (h : s.Shows K) (now : Nat) :
    (s.purgeExpired now).Shows (K.live now) := by
  rw [live_eq_without h]
  exact (shows_removeAll h _).of_eq rfl rfl

/-- Dropping expired keys leaves no empty collection. -/
theorem noEmpty_live {K : Keyspace} (h : K.NoEmpty) (now : Nat) : (K.live now).NoEmpty := by
  intro key
  rcases hK : K key with _ | item
  · simp [Keyspace.live, hK]
  · have hitem := h key
    rw [hK] at hitem
    cases hpassed : passed now item.expiresAt with
    | true => simp [Keyspace.live, hK, Option.filter, hpassed]
    | false => simpa [Keyspace.live, hK, Option.filter, hpassed] using hitem

omit [EvictionPolicy σ] in
theorem shows_new (config : Config σ) (env : Env) (p : Option Persistence) :
    (new config env p).store.Shows fun _ => none where
  absent _ := rfl
  present hget := by simp [new] at hget
  volatile hK := by simp at hK

theorem serving_endLoad (e : Engine σ) (now : Nat) :
    (e.endLoad.onStore (Store.purgeExpired now)).Serving := by
  have hsettings := Store.settings_of_frame (e.endLoad.store.frame_purgeExpired now)
  simp only [Store.settings, Prod.mk.injEq] at hsettings
  exact ⟨rfl, hsettings.2.2.1⟩

end

/-- **An engine opened on files that it wrote is sound.** -/
theorem sound_open {config : Config σ} {envs : Nat → Env} {env : Env} {p : Persistence}
    (hp : p.Sound) (hclosed : p.isOpen = false)
    (h : (new config env (some p)).open envs env = .ok e) : e.Sound := by
  simp only [«open», new, hclosed, Bool.false_eq_true, if_false] at h
  split at h
  case h_1 => cases h
  case h_2 e₁ hreplay =>
    rw [Except.ok.injEq] at h
    obtain ⟨hrecords, hflags⟩ := holds_loadRecords env.now hp.base
      (e := (new config env (some p)).beginLoad)
      ⟨fun _ => none, (shows_new config env (some p)).of_eq rfl rfl, fun _ => rfl⟩
    obtain ⟨K, hshows, hK⟩ :=
      holds_replay hp.log hrecords ((eq_of_flags hflags).2.1.trans rfl) hreplay
    have hended : e₁.endLoad.store.Shows K := hshows.of_eq rfl rfl
    have hpurged : (e₁.endLoad.onStore (Store.purgeExpired env.now)).Sound :=
      ⟨serving_endLoad e₁ env.now, K.live env.now, shows_purgeExpired hended env.now,
        noEmpty_live hK env.now⟩
    rw [← h]
    have hevict : Follows env.now (fun _ => False) _ _ := follows_evict hpurged.serving env []
    exact hpurged.follows hevict

/-! ## Replicas -/

theorem sound_applyReplicated (h : e.Sound) (env : Env) {x : Effect} (hx : x.Sound) :
    (e.applyReplicated env x).2.Sound := by
  unfold applyReplicated
  split
  · exact h
  · rename_i harity
    have hbarrier : Follows env.now (fun _ => False) e (e.barrier (x.command.keyArgs x.args)) :=
      follows_barrier h.serving _
    have h := h.follows hbarrier
    simp only
    generalize e.barrier (x.command.keyArgs x.args) = e₀ at h ⊢
    obtain ⟨K, hshows, hK⟩ := h.holds
    obtain ⟨K', hshows', hK'⟩ := holds_run
      (e := e₀.onStore fun s => { s with expiryEnabled := false })
      ⟨K, hshows.of_eq rfl rfl, hK⟩ rfl env hx harity
    have hflags := eq_of_flags (flags_runCommand env x.command x.args
      (e₀.onStore fun s => { s with expiryEnabled := false }))
    exact ⟨⟨hflags.1.trans h.serving.replaying, h.serving.expiry⟩, K', hshows'.of_eq rfl rfl, hK'⟩

omit [CPython] [EvictionPolicy σ] in
theorem sound_setRole (h : e.Sound) (primary : Bool) : (e.setRole primary).Sound := by
  obtain ⟨K, hshows, hK⟩ := h.holds
  exact ⟨⟨h.serving.replaying, h.serving.expiry⟩, K, hshows.of_eq rfl rfl, hK⟩

theorem sound_loadSnapshot (h : e.Sound) (env : Env) {records : List Record}
    (hrecords : ∀ r ∈ records, Record.Sound r) : (e.loadSnapshot env records).Sound := by
  have hcleared : e.flushAll.store.Shows fun _ => none := by
    have hclear : (e.onStore Store.clear).store.Shows fun _ => none := Store.Shows.clear e.store
    unfold flushAll handOver
    split
    · exact hclear
    · exact hclear.of_eq rfl rfl
  obtain ⟨hholds, hflags⟩ := holds_loadRecords env.now hrecords
    (e := e.flushAll.onStore fun s => { s with expiryEnabled := false })
    ⟨fun _ => none, hcleared.of_eq rfl rfl, fun _ => rfl⟩
  obtain ⟨K, hshows, hK⟩ := hholds
  have hreplay : e.flushAll.replaying = e.replaying := (eq_of_flags (phase_flushAll e).flags).1
  have hloaded : ((e.flushAll.onStore fun s => { s with expiryEnabled := false }).loadRecords env.now
      records |>.onStore fun s => { s with expiryEnabled := e.store.expiryEnabled }).Sound :=
    ⟨⟨(eq_of_flags hflags).1.trans (hreplay.trans h.serving.replaying), h.serving.expiry⟩, K,
      hshows.of_eq rfl rfl, hK⟩
  unfold loadSnapshot
  simp only
  split
  · have hsave : Follows env.now (fun _ => False) _ _ := follows_of_acts hloaded.serving (acts_save (P := (· = .copy)) rfl env _)
    exact hloaded.follows hsave
  · exact hloaded

/-! ## Reachable engines -/

/-- **The engines that can come about**, no NaN being brought in as a score. -/
inductive Reachable : Engine σ → Prop
  | memory (config : Config σ) (env : Env) : Reachable (new config env none)
  /-- An engine opened on files that an engine wrote. -/
  | opened {config : Config σ} {envs : Nat → Env} {env : Env} {p : Persistence} {e : Engine σ} :
      p.Sound → p.isOpen = false → (new config env (some p)).open envs env = .ok e → Reachable e
  /-- A command. A replica runs no writes of clients. -/
  | execute {e : Engine σ} (env : Env) {c : Command} {args : List Str} : Reachable e →
      e.store.expiryDeletes = true ∨ c.spec.write = false → c.Real args →
      Reachable (e.execute env c args).2
  /-- Housekeeping. -/
  | cron {e : Engine σ} (env : Env) (sampleSize : Nat) (auto : Bool) : Reachable e →
      Reachable (e.cron env sampleSize auto)
  | setRole {e : Engine σ} (primary : Bool) : Reachable e → Reachable (e.setRole primary)
  /-- A command of the primary's stream. -/
  | replicate {e : Engine σ} (env : Env) {x : Effect} : Reachable e → x.Sound →
      Reachable (e.applyReplicated env x).2
  | resync {e : Engine σ} (env : Env) {records : List Record} : Reachable e →
      (∀ r ∈ records, Record.Sound r) → Reachable (e.loadSnapshot env records)

/-- **Reachable engines are sound.** -/
theorem Reachable.sound (h : e.Reachable) : e.Sound := by
  induction h with
  | memory config env => exact ⟨⟨rfl, rfl⟩, _, shows_new config env none, fun _ => rfl⟩
  | opened hp hclosed hopen => exact sound_open hp hclosed hopen
  | execute env _ hrole hreal ih => exact ih.follows (follows_execute ih.serving env hrole hreal)
  | cron env sampleSize auto _ ih =>
    have hcron : Follows env.now (fun _ => False) _ _ :=
      follows_cron ih.serving env sampleSize auto
    exact ih.follows hcron
  | setRole primary _ ih => exact sound_setRole ih primary
  | replicate env _ hx ih => exact sound_applyReplicated ih env hx
  | resync env _ hrecords ih => exact sound_loadSnapshot ih env hrecords

end Engine

end KvStore
