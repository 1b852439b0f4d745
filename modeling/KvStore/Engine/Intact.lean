import KvStore.Engine.Failures

/-! # Appends that do not fail

While no append fails, an engine whose log is **`Intact`** does what `Engine` says, which knows of no failures:
each function of `OnDisk` mirrors the one of `Engine` (`Raising.Mirrors`), up to a command that is let in
(`perform_spec`). The commit at its end may fail, but changes nothing of the engine. -/

namespace KvStore

open Engine

namespace OnDisk

variable {σ : Type}

/-- **The log has not failed**, or there is none. -/
def Intact (s : OnDisk σ) : Prop := s.writeError = none ∨ s.engine.persistence = none

theorem mirrors_onEngine {α : Type} {f : Engine σ → α × Engine σ}
    (hf : ∀ e, e.persistence = none → (f e).2.persistence = none) :
    (onEngine f).Mirrors Intact engine f :=
  fun s hs => ⟨_, _, rfl, hs.imp id (hf s.engine), rfl⟩

theorem mirrors_onStore (f : Store σ → Store σ) :
    (onStore f).Mirrors Intact engine fun e => ((), e.onStore f) := mirrors_onEngine fun _ h => h

section Mirrors

variable {faults : DiskFaults} (hfaults : ∀ n, faults.append n = none)

include hfaults in
/-- **An effect** reaches the log and the stream. -/
theorem mirrors_propagate (effect : Effect) :
    (propagate faults effect : Act σ Unit).Mirrors Intact engine fun e => ((), e.propagate effect) := by
  intro s hs
  unfold propagate
  dsimp only
  by_cases hreplaying : s.engine.replaying = true
  · refine ⟨(), s, by rw [if_pos hreplaying], hs, ?_⟩
    simp [Engine.propagate, hreplaying]
  · rw [if_neg hreplaying]
    by_cases hopen : s.isOpen ∧ s.writeError = none
    · rw [if_pos hopen, hfaults]
      exact ⟨(), _, rfl, .inl hopen.2, rfl⟩
    · rw [if_neg hopen]
      refine ⟨(), _, rfl, hs, ?_⟩
      -- there is no log that is open
      have hclosed : s.engine.persistence.map (Persistence.append effect) = s.engine.persistence := by
        cases hp : s.engine.persistence with
        | none => rfl
        | some p =>
          have herror : s.writeError = none := hs.resolve_right (by simp [hp])
          have hisOpen : p.isOpen = false := by simpa [isOpen, hp, herror] using hopen
          simp [Persistence.append, hisOpen]
      rw [Engine.propagate, if_neg hreplaying, hclosed]

variable [EvictionPolicy σ]

include hfaults in
/-- An expired key is removed and reported. -/
theorem mirrors_expire (key : Str) :
    (expire faults key : Act σ Unit).Mirrors Intact engine fun e => ((), e.expire key) := by
  refine (mirrors_onStore _).bind fun e _ s hs hview => ?_
  obtain ⟨-, hview⟩ := Prod.mk.inj hview
  rw [Engine.expire, hview]
  exact mirrors_propagate hfaults (.del key) s hs

include hfaults in
/-- **A lookup** raises nothing. -/
theorem mirrors_lookup (now : Nat) (key : Str) :
    (lookup faults now key : Act σ (Option Entry)).Mirrors Intact engine (Engine.lookup now key) := by
  intro s hs
  unfold Engine.lookup
  rw [lookup, Raising.look_run]
  cases s.engine.store.data.get? key with
  | none => exact Raising.mirrors_pure none s hs
  | some entry =>
    dsimp only
    split
    · split
      · exact ((mirrors_expire hfaults key).map fun _ => none) s hs
      · exact Raising.mirrors_pure none s hs
    · exact Raising.mirrors_pure (some entry) s hs

include hfaults in
/-- `get`: a lookup that is counted. -/
theorem mirrors_get (now : Nat) (key : Str) :
    (get faults now key : Act σ (Option Entry)).Mirrors Intact engine (Engine.get now key) := by
  refine (mirrors_lookup hfaults now key).bind fun e entry s hs hview => ?_
  rw [Engine.get, hview]
  cases entry with
  | none => exact ((mirrors_onStore _).map fun _ => none) s hs
  | some entry => exact ((mirrors_onStore _).map fun _ => some entry) s hs

include hfaults in
/-- `delete`, of a key that is found. -/
theorem mirrors_delete (now : Nat) (key : Str) :
    (delete faults now key : Act σ Bool).Mirrors Intact engine (Engine.delete now key) := by
  refine (mirrors_lookup hfaults now key).bind fun e entry s hs hview => ?_
  rw [Engine.delete, hview]
  cases entry with
  | none => exact Raising.mirrors_pure false s hs
  | some entry => exact ((mirrors_onStore _).map fun _ => true) s hs

include hfaults in
/-- `set_expiry`, of a key that is found. -/
theorem mirrors_setExpiry (now : Nat) (key : Str) (atMs : Int) :
    (setExpiry faults now key atMs : Act σ Bool).Mirrors Intact engine (Engine.setExpiry now key atMs) := by
  refine (mirrors_lookup hfaults now key).bind fun e entry s hs hview => ?_
  rw [Engine.setExpiry, hview]
  cases entry with
  | none => exact Raising.mirrors_pure false s hs
  | some entry => exact ((mirrors_onStore _).map fun _ => true) s hs

include hfaults in
/-- `persist`, of a key with a deadline. -/
theorem mirrors_persist (now : Nat) (key : Str) :
    (persist faults now key : Act σ Bool).Mirrors Intact engine (Engine.persist now key) := by
  refine (mirrors_lookup hfaults now key).bind fun e entry s hs hview => ?_
  rw [Engine.persist, hview]
  cases entry with
  | none => exact Raising.mirrors_pure false s hs
  | some entry =>
    dsimp only
    split
    · exact Raising.mirrors_pure false s hs
    · exact ((mirrors_onStore _).map fun _ => true) s hs

include hfaults in
/-- The keys that are there, one lookup after the other. -/
theorem mirrors_iterKeys (now : Nat) (keys : List Str) :
    (iterKeys faults now keys : Act σ (List Str)).Mirrors Intact engine (Engine.iterKeys now keys) := by
  induction keys with
  | nil => exact Raising.mirrors_pure []
  | cons key rest ih =>
    refine (mirrors_lookup hfaults now key).bind fun e entry s hs hview => ?_
    rw [Engine.iterKeys, hview]
    cases entry with
    | none => exact ih s hs
    | some entry => exact (ih.map fun keys => key :: keys) s hs

variable [CPython]

include hfaults in
/-- `set`, which looks the key up to keep its deadline. -/
theorem mirrors_set (now : Nat) (key : Str) (value : Value SortedSet) (nbytes : Int) (keepTtl : Bool) :
    (set faults now key value nbytes keepTtl : Act σ Unit).Mirrors Intact engine fun e =>
      ((), e.set now key value nbytes keepTtl) := by
  cases keepTtl with
  | true =>
    refine (mirrors_lookup hfaults now key).bind fun e entry s hs hview => ?_
    simp only [Engine.set, if_true, hview]
    exact mirrors_onStore _ s hs
  | false =>
    have hreplace : (onEngine fun e : Engine σ => ((), e.onStore
        (Store.replace now key value nbytes false (e.store.data.get? key)))).Mirrors Intact engine _ :=
      mirrors_onEngine fun _ h => h
    exact hreplace

include hfaults in
/-- `load_record`: the value is built and set, and given its deadline. -/
theorem mirrors_loadRecord (now : Nat) (key : Str) (payload : Payload) (expiresAt : Option Int) :
    (loadRecord faults now key payload expiresAt : Act σ Unit).Mirrors Intact engine fun e =>
      ((), e.loadRecord now key payload expiresAt) := by
  have hbuild : (onEngine fun e : Engine σ => (Store.buildValue e.store.levels payload, e)).Mirrors
      Intact engine _ := mirrors_onEngine fun _ h => h
  refine hbuild.bind fun e built s₁ hs₁ hview₁ => ?_
  obtain ⟨⟨⟩, s₂, hlevels, hs₂, hview₂⟩ :=
    mirrors_onStore (fun s : Store σ => { s with levels := built.2.2 }) s₁ hs₁
  obtain ⟨⟨⟩, s₃, hset, hs₃, hview₃⟩ := mirrors_set hfaults now key built.1 built.2.1 false s₂ hs₂
  rw [Prod.mk.injEq] at hview₁ hview₂ hview₃
  unfold Engine.loadRecord
  dsimp only
  rw [Raising.bind_ok hlevels, Raising.bind_ok hset, hview₁.1, hview₁.2, hview₂.2, hview₃.2]
  cases expiresAt with
  | none => exact ⟨(), s₃, rfl, hs₃, rfl⟩
  | some atMs => exact ((mirrors_setExpiry hfaults now key atMs).map fun _ => ()) s₃ hs₃

section

omit [EvictionPolicy σ] [CPython]

/-- A rewrite is refused only after a failure. -/
theorem mirrors_ifWritable {x : Act σ (Except KvError Unit)}
    {g : Engine σ → Except KvError Unit × Engine σ} (hx : x.Mirrors Intact engine g) :
    (ifWritable x).Mirrors Intact engine g := by
  intro s hs
  rw [ifWritable, Raising.look_run]
  split
  · rename_i hsome herror
    rcases hs with hs | hs
    · rw [hs] at herror
      cases herror
    · rw [hs] at hsome
      cases hsome
  · exact hx s hs

theorem persistence_handOver {e : Engine σ} (h : e.persistence = none) : e.handOver.persistence = none := by
  unfold handOver
  split
  · exact h
  · simp [h]

theorem persistence_startRewrite {e : Engine σ} (h : e.persistence = none) (env : Env) :
    (e.startRewrite env).2.persistence = none := by
  simp [startRewrite, h]

theorem persistence_save {e : Engine σ} (h : e.persistence = none) (env : Env) :
    (e.save env).2.persistence = none := by
  simp [save, startRewrite, h]

end

omit [EvictionPolicy σ] in
theorem persistence_zsetCall {e : Engine σ} (h : e.persistence = none) (key : Str) (call : ZCall) :
    (e.zsetCall key call).2.persistence = none := by
  cases call <;> simp only [zsetCall] <;> first | exact h | (split <;> exact h)

include hfaults in
/-- **Every operation.** -/
theorem mirrors_exec (env : Env) (o : Op) :
    (exec faults env o : Act σ o.Resp).Mirrors Intact engine (Engine.exec env o) := by
  cases o with
  | peek key => exact (mirrors_lookup (σ := σ) hfaults env.now key).map fun entry => entry.map seen
  | get key => exact (mirrors_get (σ := σ) hfaults env.now key).map fun entry => entry.map seen
  | record key =>
    exact (mirrors_lookup (σ := σ) hfaults env.now key).map fun entry =>
      entry.map fun entry => entry.value.payload SortedSet.items
  | set key value keepTtl => exact mirrors_set hfaults env.now key (.str value) 0 keepTtl
  | delete key => exact mirrors_delete hfaults env.now key
  | setExpiry key atMs => exact mirrors_setExpiry hfaults env.now key atMs
  | persist key => exact mirrors_persist hfaults env.now key
  | loadRecord key payload expiresAt => exact mirrors_loadRecord hfaults env.now key payload expiresAt
  | iterKeys => exact fun s hs => mirrors_iterKeys hfaults env.now s.engine.store.data.keys s hs
  | propagate effect => exact mirrors_propagate hfaults effect
  | zset key call => exact mirrors_onEngine fun e h => persistence_zsetCall h key call
  | flushAll => exact mirrors_onEngine fun e h => persistence_handOver h
  | startRewrite => exact mirrors_ifWritable (mirrors_onEngine fun e h => persistence_startRewrite h env)
  | save => exact mirrors_ifWritable (mirrors_onEngine fun e h => persistence_save h env)
  | now | loading | touch | insert | mutate | size | sample | choices | lastSaveTime | introspect =>
    exact mirrors_onEngine fun _ h => h

include hfaults in
/-- **A handler**, and the keys accounted again. -/
theorem agrees_run (env : Env) (c : Command) (args : List Str) :
    (run faults env c args : Act σ Reply).Agrees Intact engine (Engine.run env c args) := by
  have hhandler : ((c.handler args).raise (exec faults env) : Act σ Reply).Agrees Intact engine _ :=
    Prog.raise_agrees (mirrors_exec hfaults env) (c.handler args)
  unfold run
  by_cases hwrite : c.spec.write = true
  · have hrun : Engine.run (σ := σ) env c args = fun e =>
        (((c.handler args).run (Engine.exec env) e).1,
          ((c.handler args).run (Engine.exec env) e).2.onStore fun s =>
            (c.keyArgs args).foldl (fun s key => s.refresh key) s) := by
      funext e
      simp only [Engine.run, hwrite, if_true]
    rw [if_pos hwrite, hrun]
    exact hhandler.ensure (fun s hs => hs) fun s => rfl
  · have hrun : Engine.run (σ := σ) env c args = (c.handler args).run (Engine.exec env) := by
      funext e
      simp only [Engine.run, hwrite]
      rfl
    rw [if_neg hwrite, hrun]
    exact hhandler

include hfaults in
theorem agrees_checkMemory (env : Env) (c : Command) (args : List Str) :
    (checkMemory faults env c args : Act σ Unit).Agrees Intact engine
      (Engine.checkMemory env c args) := by
  intro s hs
  unfold Engine.checkMemory
  rw [checkMemory, Raising.look_run]
  split
  · have hcount : ((countNew (c.keyArgs args).dedup).raise (exec faults env) : Act σ Nat).Agrees
        Intact engine _ := Prog.raise_agrees (mirrors_exec hfaults env) (countNew (c.keyArgs args).dedup)
    obtain ⟨hs₁, heq⟩ := hcount s hs
    rw [heq]
    cases hraise : ((countNew (c.keyArgs args).dedup).raise (exec faults env)).run s with
    | mk result s₁ =>
      rw [hraise] at hs₁
      cases result with
      | error err =>
        rw [Raising.bind_error hraise]
        exact ⟨hs₁, rfl⟩
      | ok newKeys =>
        rw [Raising.bind_ok hraise, Raising.look_run]
        dsimp only
        split <;> exact ⟨hs₁, rfl⟩
  · exact ⟨hs, rfl⟩

omit [EvictionPolicy σ] [CPython] in
include hfaults in
/-- The victims are reported. -/
theorem mirrors_report (victims : List Str) :
    (report faults victims : Act σ Unit).Mirrors Intact engine fun e =>
      ((), victims.foldl (fun e victim => e.propagate (.del victim)) e) := by
  induction victims with
  | nil => exact Raising.mirrors_pure ()
  | cons victim victims ih =>
    refine (mirrors_propagate hfaults (.del victim)).bind fun e _ s hs hview => ?_
    rw [List.foldl_cons, (Prod.mk.inj hview).2]
    exact ih s hs

omit [CPython] in
include hfaults in
/-- Eviction after a write. -/
theorem mirrors_evict (env : Env) (protect : List Str) :
    (evict faults env protect : Act σ Unit).Mirrors Intact engine fun e => ((), e.evict env protect) := by
  have hevict : (onEngine fun e : Engine σ => ((e.store.evictIfNeeded env.now protect).1,
      { e with store := (e.store.evictIfNeeded env.now protect).2 })).Mirrors Intact engine _ :=
    mirrors_onEngine fun _ h => h
  refine hevict.bind fun e victims s hs hview => ?_
  rw [Prod.mk.injEq] at hview
  simp only [Engine.evict]
  rw [hview.1, hview.2]
  exact mirrors_report hfaults victims s hs

omit [EvictionPolicy σ] [CPython] in
/-- What is done for writes only. -/
theorem mirrors_onWrite (c : Command) {x : Act σ Unit} {g : Engine σ → Engine σ}
    (hx : x.Mirrors Intact engine fun e => ((), g e)) :
    (onWrite c x).Mirrors Intact engine fun e => ((), if c.spec.write then g e else e) := by
  unfold onWrite
  split
  · exact hx
  · exact Raising.mirrors_pure ()

omit [EvictionPolicy σ] [CPython] in
/-- A commit changes nothing but the memory of a failure. -/
theorem commit_engine (faults : DiskFaults) (alone : Bool) (s : OnDisk σ) :
    ((commit faults alone).run s).2.engine = s.engine := by
  rw [commit, Raising.look_run]
  split
  · split <;> rfl
  · rfl

include hfaults in
/-- **A command that is let in** leaves the engine that one leaves whose log never fails. -/
theorem perform_spec (env : Env) (alone : Bool) (c : Command) (args : List Str) {s : OnDisk σ}
    (hs : s.Intact) (harity : c.checkArity args = .ok ())
    (hopen : ¬ (c.spec.write = true ∧ ∃ p ∈ s.engine.persistence, p.isOpen = false)) :
    ((perform faults env alone c args).run s).2.engine = (s.engine.execute env c args).2 := by
  have hbarrier : (onEngine fun e : Engine σ => ((), e.barrier (c.keyArgs args))).Mirrors Intact
      engine _ := mirrors_onEngine fun _ h => h
  obtain ⟨⟨⟩, s₁, hbarrier₁, hs₁, hview₁⟩ := mirrors_onWrite c hbarrier s hs
  obtain ⟨hs₂, hmemory⟩ := agrees_checkMemory hfaults env c args s₁ hs₁
  unfold perform Engine.execute
  simp only [harity]
  rw [if_neg hopen, Raising.bind_ok hbarrier₁]
  dsimp only at hview₁ ⊢
  rw [(Prod.mk.inj hview₁).2, hmemory]
  cases hmemory₁ : (checkMemory faults env c args).run s₁ with
  | mk result s₂ =>
    rw [hmemory₁] at hs₂
    cases result with
    | error err => rw [Raising.bind_error hmemory₁]
    | ok u =>
      obtain ⟨hs₃, hrun⟩ := agrees_run hfaults env c args s₂ hs₂
      rw [Raising.bind_ok hmemory₁]
      dsimp only
      rw [hrun]
      cases hrun₂ : (run faults env c args).run s₂ with
      | mk result s₃ =>
        rw [hrun₂] at hs₃
        cases result with
        | error err => rw [Raising.bind_error hrun₂]
        | ok reply =>
          obtain ⟨⟨⟩, s₄, hevict, -, hview₄⟩ :=
            mirrors_onWrite c (mirrors_evict hfaults env (c.keyArgs args)) s₃ hs₃
          rw [Raising.bind_ok hrun₂, Raising.bind_ok hevict]
          dsimp only at hview₄ ⊢
          rw [(Prod.mk.inj hview₄).2]
          -- the end of the command only counts and commits
          have hcounted : (onEngine fun e : Engine σ =>
              ((), { e with commandsProcessed := e.commandsProcessed + 1 })).run s₄ =
              (.ok (), { s₄ with engine :=
                { s₄.engine with commandsProcessed := s₄.engine.commandsProcessed + 1 } }) := rfl
          have hengine := commit_engine faults alone { s₄ with engine :=
            { s₄.engine with commandsProcessed := s₄.engine.commandsProcessed + 1 } }
          rw [Raising.bind_ok hcounted]
          cases hcommit : (commit faults alone).run _ with
          | mk result s₅ =>
            rw [hcommit] at hengine
            cases result with
            | error err =>
              rw [Raising.bind_error hcommit]
              exact hengine
            | ok u =>
              rw [Raising.bind_ok hcommit]
              exact hengine

end Mirrors

end OnDisk

end KvStore
