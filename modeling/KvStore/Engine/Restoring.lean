import KvStore.Engine.Evictions

/-! # Eviction after a write

Under a policy that evicts, a write may pass `max_keys` and `maxmemory`; keys are removed afterwards.

* **`Engine.Arises.enforcing`** — an engine enforces its limits, except while it reads its files.
* **`Engine.eviction_restores`** — the eviction after a write. -/

namespace KvStore

open Commands

namespace Engine

variable [CPython] {σ : Type} [EvictionPolicy σ]

section Enforcing

/-- The engine logs what it does, and enforces its limits. -/
structure Enforcing (e : Engine σ) : Prop where
  live : e.replaying = false
  enabled : e.store.evictionEnabled = true

omit [CPython] [EvictionPolicy σ] in
theorem Enforcing.of_flags {e e' : Engine σ} (h : e.Enforcing) (hflags : e'.flags = e.flags) :
    e'.Enforcing :=
  ⟨(eq_of_flags hflags).1.trans h.live, (limits_of_flags hflags).2.2.trans h.enabled⟩

/-- **Every engine that arises enforces its limits**: only while its files are read it does not. -/
theorem Arises.enforcing {sure : Prop} {e : Engine σ} (h : e.Arises sure) : e.Enforcing := by
  induction h with
  | new config env p => exact ⟨rfl, rfl⟩
  | opened config env p _ _ _ _ _ envs opening hopen =>
    have hnew : (Engine.new config env (some p)).Enforcing := ⟨rfl, rfl⟩
    unfold «open» at hopen
    split at hopen
    · cases hopen
      exact hnew
    · split at hopen
      · cases hopen
        exact hnew
      · split at hopen
        · cases hopen
        case h_2 loaded _ =>
          cases hopen
          have hended : loaded.endLoad.Enforcing := ⟨rfl, rfl⟩
          exact (hended.of_flags (flags_onStore _ (Store.settings_of_frame (Store.frame_purgeExpired _ _)))).of_flags
            (phase_evict _ _ _).flags
  | execute _ env c args _ ih => exact ih.of_flags (flags_execute env c args _)
  | @applyReplicated e _ env x ih =>
    unfold Engine.applyReplicated
    split
    · exact ih
    · -- expiry is switched off for the command, and back on
      have hbarrier := ih.of_flags (phase_barrier (x.command.keyArgs x.args) e).flags
      have hoff : ((e.barrier (x.command.keyArgs x.args)).onStore fun s =>
          { s with expiryEnabled := false }).Enforcing := ⟨hbarrier.live, hbarrier.enabled⟩
      have hrun := hoff.of_flags (flags_runCommand env x.command x.args _)
      exact ⟨hrun.live, hrun.enabled⟩
  | @loadSnapshot e _ env records _ _ _ ih _ =>
    have hflush := ih.of_flags (phase_flushAll e).flags
    have hoff : (e.flushAll.onStore fun s => { s with expiryEnabled := false }).Enforcing :=
      ⟨hflush.live, hflush.enabled⟩
    have hload := hoff.of_flags (phase_loadRecords env.now records _).flags
    have hon : (((e.flushAll.onStore fun s => { s with expiryEnabled := false }).loadRecords
        env.now records).onStore fun s =>
          { s with expiryEnabled := e.store.expiryEnabled }).Enforcing :=
      ⟨hload.live, hload.enabled⟩
    unfold Engine.loadSnapshot
    simp only
    split
    · exact hon.of_flags (flags_of_acts (acts_save (P := fun _ => True) trivial env _))
    · exact hon
  | @cron e _ env sampleSize auto ih =>
    have hexpire := ih.of_flags (phase_expireCycle env sampleSize e).flags
    simp only [Engine.cron]
    split
    · exact hexpire
    case h_2 p _ =>
      have hpolled : ({ (e.expireCycle env sampleSize).2 with
          persistence := some (p.poll env.now env.written) } : Engine σ).Enforcing :=
        ⟨hexpire.live, hexpire.enabled⟩
      split
      · split
        · exact hpolled.of_flags (flags_of_acts (acts_startRewrite (P := fun _ => True) trivial env _))
        · exact hpolled
      · exact hexpire
  | setRole _ primary ih => exact ⟨ih.live, ih.enabled⟩
  | beginSnapshot _ now receiver ih => exact ih.of_flags (flags_beginSnapshot now receiver _)
  | stepSnapshot _ n ih => exact ih.of_flags (phase_stepSnapshot n _).flags

end Enforcing

end Engine

namespace Store

variable {σ : Type}

/-- Both limits are kept. -/
def WithinLimits (s : Store σ) : Prop :=
  (s.maxKeys = 0 ∨ s.data.size ≤ s.maxKeys) ∧ (s.maxmemory = 0 ∨ s.usedMemory ≤ s.maxmemory)

theorem overLimit_eq_false_iff (s : Store σ) : s.overLimit 0 = false ↔ s.WithinLimits := by
  simp only [overLimit, WithinLimits, Nat.add_zero, Bool.or_eq_false_iff, Bool.and_eq_false_iff,
    decide_eq_false_iff_not, ne_eq, not_not, not_lt, gt_iff_lt]

/-- Every step keeps the accounts in order. -/
theorem Balanced.steps [CPython] [EvictionPolicy σ] [LawfulPolicy σ] {s s' : Store σ}
    (h : s.Balanced) (hsteps : Steps True s s') : s'.Balanced := by
  induction hsteps with
  | refl => exact h
  | tail _ hstep ih => exact ih.step hstep

end Store

namespace Engine

variable [CPython]

/-- **Eviction restores the limits and spares the keys of the command.** A write has run and left the engine
`ran`. The eviction loop ends, in as many rounds as there are keys or fewer; afterwards the store is within
both limits or has keys of the command only; the victims are different keys, none of them a key of the
command, exactly their entries are gone, and a DEL is logged for each. -/
theorem eviction_restores {e : Engine Policy} (h : e.Arises True)
    (hpolicy : EvictionPolicy.evicts e.store.policy = true) (env : Env) {c : Command}
    {args : List Str} (hw : c.spec.write = true) (hrole : e.store.expiryDeletes = true)
    {reply : Reply} (hok : (e.execute env c args).1 = .ok reply) :
    ∃ (checked ran : Engine Policy) (victims : List Str),
      (e.guarded c args).checkMemory env c args = (.ok (), checked) ∧
      checked.run env c args = (.ok reply, ran) ∧
      (∀ rounds, ran.store.data.size ≤ rounds →
        ran.store.evictLoop env.now (c.keyArgs args) rounds =
          (victims, (e.execute env c args).2.store)) ∧
      ((e.execute env c args).2.store.WithinLimits ∨
        ∀ key ∈ (e.execute env c args).2.store.keySet, key ∈ c.keyArgs args) ∧
      (∀ key ∈ victims, key ∉ c.keyArgs args) ∧
      (victims.Nodup ∧ (∀ key ∈ victims, key ∈ ran.store.keySet) ∧
        ∀ key, (e.execute env c args).2.store.data.get? key =
          if key ∈ victims then none else ran.store.data.get? key) ∧
      (e.execute env c args).2.propagated = ran.propagated ++ victims.map Effect.del := by
  obtain ⟨checked, ran, harity, hcheck, hrun, hfinal⟩ := execute_ok hok
  -- what holds before the eviction: the accounts, the switches and the policy
  have hsteps : Store.Steps True e.store ran.store := by
    have hguarded : e.guarded c args = e.barrier (c.keyArgs args) := by simp [guarded, hw]
    rw [hguarded] at hcheck
    have hchecked : Store.Steps True e.store (checked.run env c args).2.store :=
      steps_checked env hw harity (fun _ _ => hrole) hcheck
    rwa [hrun] at hchecked
  have hbalanced : ran.store.Balanced := h.balanced.steps hsteps
  have hflags : ran.flags = e.flags := by
    have hchecked := (phase_checkMemory env c args (e.guarded c args)).flags
    have hran := flags_runCommand env c args checked
    rw [hcheck] at hchecked
    rw [hrun] at hran
    exact hran.trans (hchecked.trans (flags_guarded c args e))
  have henforcing : ran.Enforcing := h.enforcing.of_flags hflags
  have hevicts : EvictionPolicy.evicts ran.store.policy = true :=
    (Store.evicts_steps hsteps).trans hpolicy
  -- the eviction
  have hsettled : (e.execute env c args).2.store =
        (ran.store.evictLoop env.now (c.keyArgs args) ran.store.data.size).2 ∧
      (e.execute env c args).2.propagated = ran.propagated ++
        (ran.store.evictLoop env.now (c.keyArgs args) ran.store.data.size).1.map Effect.del := by
    have hneeded : ran.store.evictIfNeeded env.now (c.keyArgs args) =
        ran.store.evictLoop env.now (c.keyArgs args) ran.store.data.size := by
      simp [Store.evictIfNeeded, henforcing.enabled, hevicts]
    have hlive : ({ ran with store := (ran.store.evictLoop env.now (c.keyArgs args)
        ran.store.data.size).2 } : Engine Policy).replaying = false := henforcing.live
    obtain ⟨hlog, hstore, -⟩ := propagate_dels hlive
      (ran.store.evictLoop env.now (c.keyArgs args) ran.store.data.size).1
    rw [hfinal]
    simp only [settled, hw, if_true, evict, hneeded]
    exact ⟨hstore, hlog⟩
  obtain ⟨hstore, hlog⟩ := hsettled
  have heffect : Store.Evicts (c.keyArgs args) ran.store
      (ran.store.evictLoop env.now (c.keyArgs args) ran.store.data.size).1
      (ran.store.evictLoop env.now (c.keyArgs args) ran.store.data.size).2 :=
    Store.evicts_evictLoop _ hbalanced
  refine ⟨checked, ran, _, hcheck, hrun, fun rounds hrounds => ?_, ?_, heffect.spared,
    ⟨heffect.nodup, heffect.held, ?_⟩, hlog⟩
  · rw [hstore]
    exact Store.evictLoop_fuel hbalanced hrounds le_rfl
  · rw [← Store.overLimit_eq_false_iff, hstore]
    exact Store.evictLoop_within hbalanced hevicts le_rfl
  · rw [hstore]
    exact heffect.data

end Engine

/-! ## A key too many -/

section Concrete

noncomputable local instance restoringPython : CPython := referencePython

/-- A second key drives out the first one. -/
theorem eviction_restores_lru :
    let final := (Engine.lruFull.execute (Env.quiet 0) .set [text "b", text "2"]).2
    final.store.keySet = {text "b"} ∧ final.propagated.getLast? = some (.del (text "a")) ∧
      (final.store.WithinLimits ∨ ∀ key ∈ final.store.keySet, key ∈ [text "b"]) := by
  have harises : Engine.lruFull.Arises True :=
    .execute (.new _ (Env.quiet 0) none ⟨.lru ⟨[], List.nodup_nil⟩, rfl⟩) (Env.quiet 0) .set _
      fun _ _ => rfl
  obtain ⟨_, _, _, -, -, -, hlimits, -⟩ := Engine.eviction_restores harises (by decide +kernel)
    (Env.quiet 0) rfl (by decide +kernel)
    (show (Engine.lruFull.execute (Env.quiet 0) .set [text "b", text "2"]).1 = .ok .ok by
      decide +kernel)
  exact ⟨by decide +kernel, by decide +kernel, hlimits⟩

end Concrete

end KvStore
