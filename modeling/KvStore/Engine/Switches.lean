import KvStore.Engine.Engine
import KvStore.Engine.Acts
import KvStore.Engine.Handlers

/-! # The switches of an engine, and its parts

No call changes the switches of an engine or the limits of its store (`Engine.flags_exec`,
`Engine.flags_run`). The handler of a command that is no write only reads (`Engine.reads_handler`),
and `_run` is the handler, followed for a write by accounting its keys again. -/

namespace KvStore

open Commands Relation Prog

theorem Op.Reads.needs {o : Op} (h : o.Reads) : o.Needs (· = .copy) := by
  cases o <;> simp_all
  case zset _ call => cases call <;> simp_all

namespace Engine

variable [CPython] {σ : Type} [EvictionPolicy σ]

/-! ## The switches -/

/-- What the switches say, and the limits. -/
def flags (e : Engine σ) : Bool × Nat × Nat × Bool × Bool × Bool := (e.replaying, e.store.settings)

section Flags

variable {e e' : Engine σ}

omit [CPython]

section

omit [EvictionPolicy σ]

theorem eq_of_flags (h : e'.flags = e.flags) :
    e'.replaying = e.replaying ∧ e'.store.expiryEnabled = e.store.expiryEnabled ∧
      e'.store.expiryDeletes = e.store.expiryDeletes := by
  simp only [flags, Store.settings, Prod.mk.injEq] at h
  exact ⟨h.1, h.2.2.2.1, h.2.2.2.2.1⟩

/-- Equal flags, as to the limits and their enforcement. -/
theorem limits_of_flags (h : e'.flags = e.flags) :
    e'.store.maxKeys = e.store.maxKeys ∧ e'.store.maxmemory = e.store.maxmemory ∧
      e'.store.evictionEnabled = e.store.evictionEnabled := by
  simp only [flags, Store.settings, Prod.mk.injEq] at h
  exact ⟨h.2.1, h.2.2.1, h.2.2.2.2.2⟩

/-- A change of the content of the store. -/
theorem flags_onStore {f : Store σ → Store σ} (e : Engine σ)
    (h : (f e.store).settings = e.store.settings) : (e.onStore f).flags = e.flags :=
  congrArg (Prod.mk e.replaying) h

@[simp] theorem flags_propagate (x : Effect) (e : Engine σ) : (e.propagate x).flags = e.flags := by
  unfold propagate
  split <;> rfl

@[simp] theorem flags_handOver (e : Engine σ) : e.handOver.flags = e.flags := by
  unfold handOver
  split <;> rfl

@[simp] theorem flags_beginSnapshot (now : Nat) (receiver : Receiver) (e : Engine σ) :
    (e.beginSnapshot now receiver).flags = e.flags := by
  unfold beginSnapshot
  split <;> rfl

end

/-! ## Phases of a call -/

/-- **One step of a call**: the content of the store changes, an effect is logged, or a snapshot that is
completed goes to its receiver. -/
inductive PhaseStep (e : Engine σ) : Engine σ → Prop
  /-- The content of the store changes. -/
  | content {s : Store σ} (hframe : s.frame = e.store.frame) : PhaseStep e { e with store := s }
  | log (x : Effect) : PhaseStep e (e.propagate x)
  /-- A snapshot that is completed goes to its receiver. -/
  | deliver {f : Store σ → Store σ} (hsettings : (f e.store).settings = e.store.settings)
      (houtbox : (f e.store).outbox = e.store.outbox ∨
        ∃ job, (f e.store).outbox = (e.store.snapshotEpoch, some job, e.store.delivered ++ [job])) :
      PhaseStep e (e.onStore f).handOver

/-- **A phase of a call** in which no snapshot begins. -/
abbrev Phase : Engine σ → Engine σ → Prop := ReflTransGen PhaseStep

section

omit [EvictionPolicy σ]

theorem Phase.flags (h : Phase e e') : e'.flags = e.flags := by
  induction h with
  | refl => rfl
  | tail _ hstep ih =>
    refine Eq.trans ?_ ih
    cases hstep with
    | content hframe => exact congrArg (Prod.mk _) (Store.settings_of_frame hframe)
    | log x => exact flags_propagate x _
    | deliver hsettings => exact (flags_handOver _).trans (flags_onStore _ hsettings)

theorem phase_content {s : Store σ} (hframe : s.frame = e.store.frame) :
    Phase e { e with store := s } := .single (.content hframe)

theorem phase_stepSnapshot (n : Nat) (e : Engine σ) : Phase e (e.stepSnapshot n) :=
  .single (.deliver (e.store.frame_stepSnapshot n).1 (e.store.frame_stepSnapshot n).2)

theorem phase_barrier (keys : List Str) (e : Engine σ) : Phase e (e.barrier keys) :=
  phase_content (e.store.frame_barrierAll keys)

end

theorem phase_flushAll (e : Engine σ) : Phase e e.flushAll :=
  .single (.deliver (e.store.frame_stepSnapshot _).1 (e.store.frame_stepSnapshot e.store.remaining).2)

theorem phase_expire (key : Str) (e : Engine σ) : Phase e (e.expire key) := by
  have hremove : Phase e (e.onStore fun s => { s.remove key with expiredKeys := s.expiredKeys + 1 }) :=
    phase_content (e.store.frame_remove key)
  exact hremove.tail (.log _)

/-- An act that is not the begin of a snapshot, and does not change the files. -/
theorem phase_of_act [CPython] {now : Nat} {P : Deed → Prop} (h : Act now P e e') :
    Phase e e' ∨ P .copy ∧ e'.flags = e.flags := by
  cases h with
  | change hchange => exact .inl (phase_content hchange.frame)
  | expire => exact .inl (phase_expire _ _)
  | log => exact .inl (.single (.log _))
  | flush => exact .inl (phase_flushAll _)
  | files p hcopy | begin receiver hcopy => exact .inr ⟨hcopy, rfl⟩
  | slice n => exact .inl (phase_stepSnapshot n _)

/-- The acts of an operation that leaves the files alone. -/
theorem phase_of_acts [CPython] {now : Nat} {P : Deed → Prop} (hcopy : ¬ P .copy)
    (h : Acts now P e e') : Phase e e' := by
  induction h with
  | refl => exact .refl
  | tail _ hact ih => exact ih.trans ((phase_of_act hact).resolve_right fun hfiles => hcopy hfiles.1)

theorem flags_of_acts [CPython] {now : Nat} {P : Deed → Prop} (h : Acts now P e e') :
    e'.flags = e.flags := by
  induction h with
  | refl => rfl
  | tail _ hact ih => exact ((phase_of_act hact).elim Phase.flags (·.2)).trans ih

theorem phase_lookup [CPython] (now : Nat) (key : Str) (e : Engine σ) : Phase e (e.lookup now key).2 :=
  phase_of_acts (P := fun _ => False) id (acts_lookup now key e)

theorem phase_set [CPython] (now : Nat) (key : Str) (value : Value SortedSet) (nbytes : Int)
    (keepTtl : Bool) (e : Engine σ) : Phase e (e.set now key value nbytes keepTtl) := by
  unfold set
  split
  · exact (phase_lookup now key e).tail (.content (Store.frame_replace ..))
  · exact phase_content (Store.frame_replace ..)

theorem phase_loadRecord [CPython] (now : Nat) (key : Str) (payload : Payload) (expiresAt : Option Int)
    (e : Engine σ) : Phase e (e.loadRecord now key payload expiresAt) :=
  phase_of_acts (P := (· ≠ .copy)) (· rfl) (acts_loadRecord (by simp) (by simp) now payload e)

theorem phase_evict (env : Env) (protect : List Str) (e : Engine σ) : Phase e (e.evict env protect) :=
  List.foldlRecOn _ _ (phase_content (e.store.frame_evictIfNeeded env.now protect))
    fun _ h _ _ => h.tail (.log _)

end Flags

@[simp] theorem flags_exec (env : Env) (o : Op) (e : Engine σ) : (exec env o e).2.flags = e.flags :=
  flags_of_acts (acts_exec env o.needs_true e)

theorem flags_run (env : Env) {α : Type} (p : Cmd α) (e : Engine σ) :
    (p.run (exec env) e).2.flags = e.flags :=
  run_invariant (P := fun _ => True) (f := exec env) (I := fun e' => e'.flags = e.flags)
    (fun o e' _ h => (flags_exec env o e').trans h) (uses_true p) rfl

/-! ## Commands that only read -/

section Readers

omit [CPython]

/-- Counting the keys that a command would add. -/
theorem reads_countNew (keys : List Str) : (countNew keys).Uses Op.Reads := by
  induction keys with
  | nil => trivial
  | cons key rest ih => exact ⟨trivial, fun _ => ih.bind fun _ => trivial⟩

/-- MGET. -/
theorem obeys_mgetLoop {E : KvError → Prop} (keys : List Str) :
    (mgetLoop keys).Obeys Op.Reads (fun _ => True) E := by
  induction keys generalizing E with
  | nil => trivial
  | cons key rest ih =>
    refine Prog.Obeys.andThen ?_ fun _ => ih.andThen fun _ => trivial
    simp [mgetOne, Option.forall, Seen.forall_iff, Value.forall_iff]

/-- SINTER, SUNION and SDIFF. -/
theorem obeys_setReply (f : List Str → List (List Str) → List Str) (keys : List Str) :
    (setReply f keys).Obeys Op.Reads (fun _ => True) KvError.Ordinary := by
  have hsets : (sets keys).Obeys Op.Reads (fun _ => True) KvError.Ordinary := by
    induction keys with
    | nil => trivial
    | cons key rest ih =>
      simp only [sets, bind_eq, obeys_readSet_bind, Op.Reads, KvError.ordinary_wrongType, true_and]
      exact fun _ => ih.andThen fun _ => trivial
  refine hsets.andThen fun members => ?_
  cases members <;> trivial

end Readers

/-- **A command that is no write only reads.** -/
theorem reads_handler (c : Command) (args : List Str) (harity : c.checkArity args = .ok ())
    (hw : c.spec.write = false) : (c.handler args).Obeys Op.Reads (fun _ => True) c.Raises := by
  by_cases hc : c.spec.keySpec = some singleKey
  · obtain ⟨key, rest, rfl, -⟩ := c.exists_key hc harity
    exact (c.obeys_read rest hc hw).mono (fun _ ho => ho.1) (fun _ => id) fun _ he _ _ => he
  suffices h : (c.handler args).Obeys Op.Reads (fun _ => True) fun e => c.asks = false → e.Ordinary from
    h.mono (fun _ => id) (fun _ => id) fun _ he hasks _ => he hasks
  cases c <;> simp only [Command.spec, Bool.true_eq_false] at hw <;>
    simp only [Command.spec, not_true_eq_false] at hc <;>
    simp only [Command.handler, Command.asks, Bool.true_eq_false, false_imp_iff, true_imp_iff]
  case mget => exact (obeys_mgetLoop args).andThen fun _ => trivial
  case exists_ => exact (obeys_keepIf fun _ _ => by simp).andThen fun _ => trivial
  case keys => unfold keys; split <;> simp
  case sinter | sunion | sdiff => exact obeys_setReply _ args
  case ping => unfold ping; split <;> simp
  case echo => unfold echo; split <;> simp
  case select => unfold select; split <;> simp
  case bgsave => simp [bgsave]
  case save => simp [Commands.save]
  all_goals simp [dbsize, bgrewriteaof, lastsave, report]

/-! ## The parts of a command -/

section Parts

variable {e : Engine σ}

/-- The keys accounted again. -/
def refreshAll (keys : List Str) (e : Engine σ) : Engine σ :=
  e.onStore fun s => keys.foldl (fun s key => s.refresh key) s

theorem phase_refreshAll (keys : List Str) (e : Engine σ) : Phase e (e.refreshAll keys) :=
  phase_content (e.store.frame_refreshAll keys)

theorem run_write (env : Env) {c : Command} (hw : c.spec.write = true) (args : List Str) :
    e.run env c args = (((c.handler args).run (exec env) e).1,
      ((c.handler args).run (exec env) e).2.refreshAll (c.keyArgs args)) := by
  simp only [run, hw, if_true]
  rfl

/-- What `_run` leaves for another command. -/
theorem run_read (env : Env) {c : Command} (hw : c.spec.write = false) (args : List Str) :
    e.run env c args = (c.handler args).run (exec env) e := by
  simp [run, hw]

/-- The switches are the same after `_run`. -/
theorem flags_runCommand (env : Env) (c : Command) (args : List Str) (e : Engine σ) :
    (e.run env c args).2.flags = e.flags := by
  cases hw : c.spec.write with
  | true => rw [run_write env hw, (phase_refreshAll _ _).flags, flags_run]
  | false => rw [run_read env hw, flags_run]

/-- **What every lookup preserves, the check of the memory limit preserves.** -/
theorem checkMemory_induction {I : Engine σ → Prop} {env : Env}
    (hlookup : ∀ key e, I e → I (e.lookup env.now key).2) (c : Command) (args : List Str)
    (h : I e) : I (e.checkMemory env c args).2 := by
  have hpeeks : ∀ keys, (countNew keys).Uses fun o => ∃ key, o = .peek key := by
    intro keys
    induction keys with
    | nil => trivial
    | cons key rest ih => exact ⟨⟨key, rfl⟩, fun _ => ih.bind fun _ => trivial⟩
  have hcount := run_invariant (I := I) (f := exec env) (by
    rintro o e' ⟨key, rfl⟩ he
    exact hlookup key e' he) (hpeeks (c.keyArgs args).dedup) h
  unfold checkMemory
  split
  · split
    case h_1 heq => rwa [heq] at hcount
    case h_2 heq =>
      rw [heq] at hcount
      split <;> exact hcount
  · exact h

omit [CPython] in
/-- **What every expiry of a key preserves, active expiry preserves.** -/
theorem expireCycle_induction {I : Engine σ → Prop} (hexpire : ∀ key e, I e → I (e.expire key))
    (env : Env) (sampleSize : Nat) (h : I e) : I (e.expireCycle env sampleSize).2 := by
  have hsample : ∀ (sample : List Str) (e : Engine σ), I e → I (e.expireSample env.now sample).2 := by
    intro sample
    induction sample with
    | nil => exact fun _ h => h
    | cons key rest ih =>
      intro e h
      rw [expireSample]
      split
      · exact ih e h
      · split
        · exact ih _ (hexpire key e h)
        · exact ih e h
  have hrounds : ∀ (fuel round : Nat) (e : Engine σ), I e →
      I (e.expireRounds env sampleSize fuel round).2 := by
    intro fuel
    induction fuel with
    | zero => exact fun _ _ h => h
    | succ fuel ih =>
      intro round e h
      simp only [expireRounds]
      split
      · exact h
      · split
        · exact hsample _ e h
        · exact ih _ _ (hsample _ e h)
  unfold expireCycle
  split
  · exact hrounds _ _ e h
  · exact h

theorem phase_checkMemory (env : Env) (c : Command) (args : List Str) (e : Engine σ) :
    Phase e (e.checkMemory env c args).2 :=
  checkMemory_induction (fun key e' h => h.trans (phase_lookup env.now key e')) c args .refl

omit [CPython] in
theorem phase_expireCycle (env : Env) (sampleSize : Nat) (e : Engine σ) :
    Phase e (e.expireCycle env sampleSize).2 :=
  expireCycle_induction (fun key e' h => h.trans (phase_expire key e')) env sampleSize .refl

/-- **What every station of a command preserves, the command preserves.** -/
theorem execute_induction {I : Engine σ → Prop} {env : Env} {c : Command} {args : List Str}
    (hbarrier : ∀ e, I e → I (e.barrier (c.keyArgs args)))
    (hlookup : ∀ key e, I e → I (e.lookup env.now key).2)
    (hrun : c.checkArity args = .ok () → ∀ e, I e → I (e.run env c args).2)
    (hevict : ∀ e, I e → I (e.evict env (c.keyArgs args)))
    (hcount : ∀ e n, I e → I { e with commandsProcessed := n }) (h : I e) :
    I (e.execute env c args).2 := by
  unfold execute
  split
  · exact h
  case h_2 harity =>
  split
  · exact h
  simp only
  have hfirst : I (if c.spec.write = true then e.barrier (c.keyArgs args) else e) := by
    split
    · exact hbarrier e h
    · exact h
  have hchecked := checkMemory_induction hlookup c args hfirst
  split
  case h_1 heq => rwa [heq] at hchecked
  case h_2 e₁ heq =>
    rw [heq] at hchecked
    have hran := hrun harity e₁ hchecked
    split
    case h_1 heq' => rwa [heq'] at hran
    case h_2 heq' =>
      rw [heq'] at hran
      split
      · exact hcount _ _ (hevict _ hran)
      · exact hcount _ _ hran

@[simp] theorem flags_execute (env : Env) (c : Command) (args : List Str) (e : Engine σ) :
    (e.execute env c args).2.flags = e.flags :=
  execute_induction (I := fun e' => e'.flags = e.flags)
    (fun e' h => (phase_barrier _ e').flags.trans h)
    (fun key e' h => (phase_lookup env.now key e').flags.trans h)
    (fun _ e' h => (flags_runCommand env c args e').trans h)
    (fun e' h => (phase_evict env _ e').flags.trans h) (fun _ _ h => h) rfl

omit [CPython] [EvictionPolicy σ] in
theorem propagate_dels (h : e.replaying = false) (keys : List Str) :
    (keys.foldl (fun e key => e.propagate (.del key)) e).propagated =
        e.propagated ++ keys.map Effect.del ∧
      (keys.foldl (fun e key => e.propagate (.del key)) e).store = e.store ∧
      (keys.foldl (fun e key => e.propagate (.del key)) e).replaying = false := by
  induction keys generalizing e with
  | nil => exact ⟨by simp, rfl, h⟩
  | cons key rest ih =>
    have hstep : (e.propagate (.del key)).propagated = e.propagated ++ [.del key] ∧
        (e.propagate (.del key)).store = e.store ∧
        (e.propagate (.del key)).replaying = false := by
      simp [propagate, h]
    obtain ⟨hlog, hstore, hreplay⟩ := ih hstep.2.2
    exact ⟨by simp [hlog, hstep.1], hstore.trans hstep.2.1, hreplay⟩

end Parts

end Engine

end KvStore
