import KvStore.Engine.Lifecycle
import KvStore.Engine.Moves

/-! # What the calls of the engine do to the store

**`Engine.moves_handler`** says that the handler of a write makes moves on the keys of its command
only. So every call of the engine is a sequence of steps of the store (`Engine.steps_execute`,
`Engine.steps_applyReplicated`, `Engine.steps_cron`, …), and what every step keeps is kept by every
run. -/

namespace KvStore

open Relation List Prog

namespace Engine

variable [CPython] {σ : Type} [EvictionPolicy σ]

/-! ## Commands -/

section Commands

variable {sure : Prop} {e : Engine σ}

/-- `write_target` looks a key up, and creates it if it is missing. -/
theorem moves_writeTarget (env : Env) (key : Str) (kind : Kind) (hdef : sure → e.Definite) :
    Store.Moves sure [key] e.store ((writeTarget key kind).run (exec env) e).2.store := by
  simp only [writeTarget, bind_eq, perform_bind, run_op, exec]
  rcases e.lookup_cases env.now (Deed.Near [key]) key with ⟨entry, -, h⟩ | ⟨e', h, hacts, habsent⟩
  · simp only [h, Option.map_some]
    split
    · exact .single (.access env.now key _)
    · exact .refl
  · simp only [h, Option.map_none]
    have hdef' : sure → e'.Definite := fun hs => (hdef hs).of_flags (flags_of_acts hacts)
    exact (moves_of_acts hacts fun hs => .inr (hdef hs)).tail
      (.insert env.now (by simp) (fun hs => habsent (hdef' hs)) (counted_empty kind))

/-- A program that creates its key makes moves on it. -/
theorem moves_creating (env : Env) {key : Str} {α : Type} {p : Cmd α} (hp : Creating key p)
    (hdef : sure → e.Definite) : Store.Moves sure [key] e.store (p.run (exec env) e).2.store := by
  have hnear : ∀ {e : Engine σ}, (sure → e.Definite) → ∀ {β : Type} {q : Cmd β},
      q.Uses (Op.Brings key fun _ => false) → Store.Moves sure [key] e.store (q.run (exec env) e).2.store :=
    fun hdef _ _ hq => moves_program env (hq.mono fun _ ho => (ho.tame rfl).near) fun hs => .inr (hdef hs)
  induction hp generalizing e with
  | plain h => exact hnear hdef h.uses
  | @bind β p f h _ ih =>
    have hfirst := hnear hdef (h.mono fun o (ho : o = .get key) => ho ▸ Op.brings_get key _)
    have hflags := flags_run env p e
    rw [run_bind]
    split
    case h_1 heq =>
      rw [heq] at hfirst hflags
      exact hfirst.trans (ih _ fun hs => (hdef hs).of_flags hflags)
    case h_2 heq => rwa [heq] at hfirst
  | target kind _ hf =>
    have hfirst := moves_writeTarget env key kind hdef
    have hflags := flags_run env (writeTarget key kind) e
    rw [run_bind]
    split
    case h_1 v _ heq =>
      rw [heq] at hfirst hflags
      exact hfirst.trans (hnear (fun hs => (hdef hs).of_flags hflags) (hf v).uses)
    case h_2 heq => rwa [heq] at hfirst

variable {args : List Str} {c : Command}

/-- **The handler of a write makes moves on the keys of its command only.** -/
theorem moves_handler (env : Env) (hw : c.spec.write = true) (harity : c.checkArity args = .ok ())
    (hdef : sure → e.Definite) :
    Store.Moves sure (c.keyArgs args) e.store ((c.handler args).run (exec env) e).2.store := by
  have hnear : (c.handler args).Uses (Op.Near (c.keyArgs args)) →
      Store.Moves sure (c.keyArgs args) e.store ((c.handler args).run (exec env) e).2.store :=
    fun h => moves_program env h fun hs => .inr (hdef hs)
  by_cases hc : c.spec.keySpec = some singleKey
  · obtain ⟨key, rest, rfl, hkeys⟩ := c.exists_key hc harity
    rw [hkeys] at hnear ⊢
    cases hcreates : c.creates with
    | true => exact moves_creating env (c.creating_handler rest hcreates) hdef
    | false => exact hnear (c.uses_write rest hc hw (fun _ ho => (ho.tame hcreates).near) (by simp))
  · exact hnear (c.obeys_several (Q := fun _ => True) args hc hw (fun _ _ => trivial) (fun _ => trivial)
      (fun _ => trivial) fun _ _ hkey _ => hkey).uses

/-- A write, its keys being accounted for in the running snapshot. -/
theorem steps_run_write (env : Env) (hw : c.spec.write = true) (harity : c.checkArity args = .ok ())
    (hdef : sure → e.Definite) {s : Store σ} (hmoves : Store.Moves sure (c.keyArgs args) s e.store)
    (hcopied : ∀ key ∈ c.keyArgs args, s.Copied key) :
    Store.Steps sure s (e.run env c args).2.store := by
  rw [run_write env hw]
  exact .single (.write _ hcopied (hmoves.trans (moves_handler env hw harity hdef)))

/-! ## Reads -/

variable {e' : Engine σ}

/-- Looking keys up and copying the keyspace. -/
theorem steps_of_acts {now : Nat} (h : Acts now (· = .copy) e e') :
    Store.Steps sure e.store e'.store := by
  induction h with
  | refl => exact .refl
  | tail _ hact ih =>
    refine ih.trans ?_
    cases hact with
    | change hchange =>
      rcases hchange.idle fun _ h => h with hcore | ⟨key, rfl⟩
      · exact Store.Steps.aside hcore
      · exact Store.Steps.quiet (.single (.access now key _))
    | expire => exact Store.Steps.quiet (moves_expire _ _)
    | log h | flush h => cases h
    | files => exact .refl
    | begin receiver _ hjob => exact .single (.begin now receiver hjob)
    | slice n => exact Store.Steps.quiet (moves_stepSnapshot n _)

theorem steps_startRewrite (env : Env) (e : Engine σ) :
    Store.Steps sure e.store (e.startRewrite env).2.store :=
  steps_of_acts (acts_startRewrite (P := (· = .copy)) rfl env e)

theorem steps_save (env : Env) (e : Engine σ) : Store.Steps sure e.store (e.save env).2.store :=
  steps_of_acts (acts_save (P := (· = .copy)) rfl env e)

theorem steps_reader (env : Env) {α : Type} {p : Cmd α} (hp : p.Uses Op.Reads) (e : Engine σ) :
    Store.Steps sure e.store (p.run (exec env) e).2.store :=
  run_invariant (P := Op.Reads) (f := exec env) (I := fun e' => Store.Steps sure e.store e'.store)
    (fun _ e' ho h => h.trans (steps_of_acts (acts_exec env ho.needs e'))) hp .refl

/-! ## Calls -/

variable {ks : List Str}

theorem moves_checkMemory (env : Env) (c : Command) (args : List Str) (e : Engine σ) :
    Store.Moves sure ks e.store (e.checkMemory env c args).2.store :=
  checkMemory_induction (I := fun e' => Store.Moves sure ks e.store e'.store)
    (fun key e' h => h.trans (moves_lookup env.now key e')) c args .refl

theorem moves_evict (env : Env) (protect : List Str) (e : Engine σ) :
    Store.Moves sure ks e.store (e.evict env protect).store := by
  have hlog : ∀ (victims : List Str) (e : Engine σ),
      (victims.foldl (fun e victim => e.propagate (.del victim)) e).store = e.store := by
    intro victims
    induction victims with
    | nil => exact fun _ => rfl
    | cons victim rest ih => exact fun e => (ih _).trans (store_propagate _ e)
  rw [evict, hlog]
  exact Store.moves_evictIfNeeded env.now protect e.store

theorem moves_barrier (keys : List Str) (e : Engine σ) :
    Store.Moves sure ks e.store (e.barrier keys).store :=
  Store.moves_barrier keys e.store

omit [CPython] [EvictionPolicy σ] in
theorem copied_barrier (keys : List Str) (e : Engine σ) :
    ∀ key ∈ keys, (e.barrier keys).store.Copied key :=
  fun key hkey => Store.copied_barrier keys e.store key (.inl hkey)

/-- **A write that the limits allow**, up to the accounting of its keys. -/
theorem steps_checked (env : Env) (hw : c.spec.write = true) (harity : c.checkArity args = .ok ())
    (hdef : sure → e.Definite) {checked : Engine σ}
    (hcheck : (e.barrier (c.keyArgs args)).checkMemory env c args = (.ok (), checked)) :
    Store.Steps sure e.store (checked.run env c args).2.store := by
  have hbarrier : Store.Moves sure [] e.store (e.barrier (c.keyArgs args)).store :=
    moves_barrier _ e
  have hmoves : Store.Moves sure (c.keyArgs args) (e.barrier (c.keyArgs args)).store
      ((e.barrier (c.keyArgs args)).checkMemory env c args).2.store := moves_checkMemory env c args _
  have hflags : ((e.barrier (c.keyArgs args)).checkMemory env c args).2.flags = e.flags :=
    (phase_checkMemory env c args _).flags.trans (phase_barrier _ e).flags
  rw [hcheck] at hmoves hflags
  exact (Store.Steps.quiet hbarrier).trans (steps_run_write env hw harity
    (fun hs => (hdef hs).of_flags hflags) hmoves (copied_barrier _ e))

/-- **A client's command is a sequence of steps.** -/
theorem steps_execute (env : Env) (hdef : sure → c.spec.write = true → e.Definite) :
    Store.Steps sure e.store (e.execute env c args).2.store := by
  unfold execute
  split
  · exact .refl
  case h_2 harity =>
  split
  · exact .refl
  cases hw : c.spec.write with
  | false =>
    have hmemory : Store.Moves sure [] e.store (e.checkMemory env c args).2.store :=
      moves_checkMemory env c args e
    simp only [Bool.false_eq_true, if_false]
    split
    case h_1 heq =>
      rw [heq] at hmemory
      exact .quiet hmemory
    case h_2 e₁ heq =>
      rw [heq] at hmemory
      have hrun : Store.Steps sure e.store (e₁.run env c args).2.store := by
        rw [run_read env hw]
        exact (Store.Steps.quiet hmemory).trans
          (steps_reader env (reads_handler c args harity hw).uses e₁)
      split
      case h_1 heq => rwa [heq] at hrun
      case h_2 heq => rwa [heq] at hrun
  | true =>
    have hbarrier : Store.Moves sure [] e.store (e.barrier (c.keyArgs args)).store :=
      moves_barrier _ e
    have hmemory : Store.Moves sure [] (e.barrier (c.keyArgs args)).store
        ((e.barrier (c.keyArgs args)).checkMemory env c args).2.store :=
      moves_checkMemory env c args _
    simp only [if_true]
    split
    case h_1 heq =>
      have hquiet := hbarrier.trans hmemory
      rw [heq] at hquiet
      exact .quiet hquiet
    case h_2 e₁ heq =>
      have hrun : Store.Steps sure e.store (e₁.run env c args).2.store :=
        steps_checked env hw harity (fun hs => hdef hs hw) heq
      split
      case h_1 heq => rwa [heq] at hrun
      case h_2 heq =>
        rw [heq] at hrun
        exact hrun.trans (Store.Steps.quiet (moves_evict env _ _))

/-- **A command of the primary's stream is a sequence of steps.** -/
theorem steps_applyReplicated (env : Env) (x : Effect) (e : Engine σ) :
    Store.Steps sure e.store (e.applyReplicated env x).2.store := by
  unfold applyReplicated
  split
  · exact .refl
  case h_2 harity =>
  have hbarrier : Store.Moves sure [] e.store (e.barrier (x.command.keyArgs x.args)).store :=
    moves_barrier _ e
  have hoff : ∀ {ks : List Str}, Store.Moves sure ks (e.barrier (x.command.keyArgs x.args)).store
      ((e.barrier (x.command.keyArgs x.args)).onStore fun s =>
        { s with expiryEnabled := false }).store :=
    .aside ⟨rfl, rfl, rfl, rfl, rfl, rfl, rfl⟩
  refine .tail (b := (((e.barrier (x.command.keyArgs x.args)).onStore fun s =>
    { s with expiryEnabled := false }).run env x.command x.args).2.store) ?_
    (.quiet (.aside ⟨rfl, rfl, rfl, rfl, rfl, rfl, rfl⟩))
  refine (Store.Steps.quiet hbarrier).trans ?_
  cases hw : x.command.spec.write with
  | false =>
    rw [run_read env hw]
    exact (Store.Steps.quiet hoff).trans (steps_reader env (reads_handler _ _ harity hw).uses _)
  | true =>
    exact steps_run_write env hw harity (fun _ h => absurd h (by simp [onStore])) hoff
      (copied_barrier _ e)

/-- **A record replayed is a sequence of steps**: no snapshot is being taken. -/
theorem steps_apply (env : Env) {x : Effect} (hw : x.command.spec.write = true)
    (hdef : sure → e.Definite) (hjob : e.store.snapshotJob = none) (h : e.apply env x = .ok e') :
    Store.Steps sure e.store e'.store := by
  unfold apply at h
  split at h
  · simp at h
  case h_2 harity =>
  split at h
  · simp at h
  case h_2 heq =>
    obtain rfl := Except.ok.inj h
    have hrun := steps_run_write env hw harity hdef .refl fun key _ job hj => by simp [hjob] at hj
    rwa [heq] at hrun

theorem moves_expireCycle (env : Env) (sampleSize : Nat) (e : Engine σ) :
    Store.Moves sure ks e.store (e.expireCycle env sampleSize).2.store :=
  expireCycle_induction (I := fun e' => Store.Moves sure ks e.store e'.store)
    (fun key e' h => h.trans (moves_expire key e')) env sampleSize .refl

/-- **Active expiry and the background rewrite are a sequence of steps.** -/
theorem steps_cron (env : Env) (sampleSize : Nat) (auto : Bool) (e : Engine σ) :
    Store.Steps sure e.store (e.cron env sampleSize auto).store := by
  have hexpiry : Store.Steps sure e.store (e.expireCycle env sampleSize).2.store :=
    .quiet (moves_expireCycle env sampleSize e)
  simp only [cron]
  split
  · exact hexpiry
  case h_2 p _ =>
    split
    · split
      · exact hexpiry.trans (steps_startRewrite env
          { (e.expireCycle env sampleSize).2 with persistence := some (p.poll env.now env.written) })
      · exact hexpiry
    · exact hexpiry

theorem steps_beginSnapshot (now : Nat) (receiver : Receiver) (e : Engine σ) :
    Store.Steps sure e.store (e.beginSnapshot now receiver).store := by
  unfold beginSnapshot
  split
  · exact .refl
  case isFalse h => exact .single (.begin now receiver (by simpa using h))

theorem steps_stepSnapshot (n : Nat) (e : Engine σ) :
    Store.Steps sure e.store (e.stepSnapshot n).store :=
  .quiet (moves_stepSnapshot n e)

/-! ## Loading -/

omit [CPython] in
/-- A deadline changes nothing else of an entry. -/
theorem get?_setExpiry (hoff : e.store.expiryEnabled = false) {key : Str} {entry : Entry}
    (hget : e.store.data.get? key = some entry) (now : Nat) (atMs : Int) :
    (e.setExpiry now key atMs).2.store.data.get? key =
      some { entry with expiresAt := some atMs } := by
  simp [setExpiry, lookup, hget, hoff, onStore, Store.setDeadline]

/-- A key that has been loaded holds the value of the record, with its size. -/
theorem get?_loadRecord (hoff : e.store.expiryEnabled = false) (now : Nat) (key : Str)
    (payload : Payload) (expiresAt : Option Int) :
    ∃ entry, (e.loadRecord now key payload expiresAt).store.data.get? key = some entry ∧
      entry.value = (Store.buildValue e.store.levels payload).1 ∧
      entry.size = Store.entrySize key entry.value entry.nbytes := by
  let draw : Store σ → Store σ :=
    fun s => { s with levels := (Store.buildValue e.store.levels payload).2.2 }
  have hset : ∃ entry, ((e.onStore draw).set now key (Store.buildValue e.store.levels payload).1
        (Store.buildValue e.store.levels payload).2.1 false).store.data.get? key = some entry ∧
      entry.value = (Store.buildValue e.store.levels payload).1 ∧
      entry.size = Store.entrySize key entry.value entry.nbytes := by
    simp only [Engine.set, Bool.false_eq_true, if_false]
    cases hget : (e.onStore draw).store.data.get? key <;>
      exact ⟨_, Dict.get?_set .. |>.trans (if_pos rfl), rfl, rfl⟩
  have hoff' : ((e.onStore draw).set now key (Store.buildValue e.store.levels payload).1
      (Store.buildValue e.store.levels payload).2.1 false).store.expiryEnabled = false :=
    (eq_of_flags (phase_set now key _ _ false (e.onStore draw)).flags).2.1.trans hoff
  unfold Engine.loadRecord
  cases expiresAt with
  | none => exact hset
  | some atMs =>
    obtain ⟨entry, hget, hvalue, hsize⟩ := hset
    exact ⟨_, get?_setExpiry hoff' hget now atMs, hvalue, hsize⟩

omit [CPython] [EvictionPolicy σ] in
theorem definite_of_off (hoff : e.store.expiryEnabled = false) : e.Definite :=
  fun h => absurd h (by simp [hoff])

/-- **Loading a record is a step**: nothing is left to be accounted. -/
theorem steps_loadRecord (hoff : e.store.expiryEnabled = false)
    (hjob : e.store.snapshotJob = none) (now : Nat) (key : Str) {payload : Payload}
    (hne : payload.isEmpty = false) (expiresAt : Option Int) :
    Store.Steps sure e.store (e.loadRecord now key payload expiresAt).store := by
  obtain ⟨entry, hget, hvalue, hsize⟩ := get?_loadRecord hoff now key payload expiresAt
  have hmoves : Store.Moves sure [key] e.store (e.loadRecord now key payload expiresAt).store :=
    moves_of_acts (acts_loadRecord (mem_singleton_self key) (fun _ _ => mem_singleton_self key)
      now payload e) fun _ => .inr (definite_of_off hoff)
  have hstep := Store.Step.write [key] (fun key _ job hj => by simp [hjob] at hj) hmoves
  rw [Store.refreshAll, foldl_cons, foldl_nil, Store.refresh_of_sized hget hsize] at hstep
  · exact .single hstep
  · rw [hvalue]
    exact isEmpty_buildValue _ hne

theorem phase_loadRecords (now : Nat) (records : List Record) (e : Engine σ) :
    Phase e (e.loadRecords now records) := by
  induction records generalizing e with
  | nil => exact .refl
  | cons r rest ih => exact (phase_loadRecord now r.1 r.2.1 r.2.2 e).trans (ih _)

/-- Loading records begins no snapshot and changes no switch. -/
theorem loadRecords_keeps (hjob : e.store.snapshotJob = none) (now : Nat) (records : List Record) :
    (e.loadRecords now records).store.snapshotJob = none ∧
      (e.loadRecords now records).flags = e.flags := by
  refine ⟨?_, (phase_loadRecords now records e).flags⟩
  induction records generalizing e with
  | nil => exact hjob
  | cons r rest ih =>
    have hmoves : Store.Moves False [r.1] e.store (e.loadRecord now r.1 r.2.1 r.2.2).store :=
      moves_of_acts (acts_loadRecord (mem_singleton_self r.1)
        (fun _ _ => mem_singleton_self r.1) now r.2.1 e) False.elim
    exact ih (hmoves.snapshotJob_eq_none hjob)

/-- **Loading the records of a snapshot.** -/
theorem steps_loadRecords (hoff : e.store.expiryEnabled = false)
    (hjob : e.store.snapshotJob = none) (now : Nat) {records : List Record}
    (hne : ∀ r ∈ records, r.2.1.isEmpty = false) :
    Store.Steps sure e.store (e.loadRecords now records).store := by
  induction records generalizing e with
  | nil => exact .refl
  | cons r rest ih =>
    obtain ⟨hjob', hflags⟩ := loadRecords_keeps hjob now [r]
    exact (steps_loadRecord hoff hjob now r.1 (hne r (by simp)) r.2.2).trans
      (ih ((eq_of_flags hflags).2.1.trans hoff) hjob'
        fun r' hr' => hne r' (mem_cons_of_mem _ hr'))

omit [CPython] in
/-- Clearing completes the running snapshot. -/
theorem snapshotJob_flushAll (e : Engine σ) : e.flushAll.store.snapshotJob = none := by
  rw [flushAll, (sameCore_handOver _).snapshotJob]
  exact e.store.snapshotJob_clear

/-- **A full resynchronisation is a sequence of steps.** -/
theorem steps_loadSnapshot (env : Env) {records : List Record}
    (hne : ∀ r ∈ records, r.2.1.isEmpty = false) (e : Engine σ) :
    Store.Steps sure e.store (e.loadSnapshot env records).store := by
  let off : Engine σ := e.flushAll.onStore fun s => { s with expiryEnabled := false }
  have hclear : Store.Steps sure e.store off.store :=
    .quiet ((moves_flushAll e).tail (.aside ⟨rfl, rfl, rfl, rfl, rfl, rfl, rfl⟩))
  have hload : Store.Steps sure e.store (off.loadRecords env.now records).store :=
    hclear.trans (steps_loadRecords (e := off) rfl (snapshotJob_flushAll e) env.now hne)
  have hon : Store.Steps sure e.store ((off.loadRecords env.now records).onStore fun s =>
      { s with expiryEnabled := e.store.expiryEnabled }).store :=
    hload.trans (Store.Steps.aside ⟨rfl, rfl, rfl, rfl, rfl, rfl, rfl⟩)
  simp only [loadSnapshot]
  split
  · exact hon.trans (steps_save env _)
  · exact hon

/-- Replaying a record begins no snapshot and changes no switch. -/
theorem apply_keeps (env : Env) {x : Effect} (hw : x.command.spec.write = true)
    (hjob : e.store.snapshotJob = none) (h : e.apply env x = .ok e') :
    e'.store.snapshotJob = none ∧ e'.flags = e.flags := by
  have hflags := flags_runCommand env x.command x.args e
  unfold apply at h
  split at h
  · simp at h
  case h_2 harity =>
  split at h
  · simp at h
  case h_2 heq =>
    obtain rfl := Except.ok.inj h
    have hmoves : Store.Moves False _ e.store _ := moves_handler env hw harity nofun
    have hnone := Store.snapshotJob_refreshAll (hmoves.snapshotJob_eq_none hjob)
      (x.command.keyArgs x.args)
    rw [run_write env hw] at heq hflags
    rw [← (Prod.mk.inj heq).2]
    exact ⟨hnone, hflags⟩

theorem steps_replay {E : List Effect} (hE : ∀ x ∈ E, x.command.spec.write = true)
    (hoff : e.store.expiryEnabled = false) (hjob : e.store.snapshotJob = none) (envs : Nat → Env)
    (h : e.replay envs E = .ok e') : Store.Steps sure e.store e'.store := by
  induction E generalizing e envs with
  | nil =>
    obtain rfl := Except.ok.inj h
    exact .refl
  | cons x rest ih =>
    unfold replay at h
    split at h
    · simp at h
    case h_2 e₁ happly =>
      obtain ⟨hjob₁, hflags⟩ := apply_keeps (envs 0) (hE x (by simp)) hjob happly
      exact (steps_apply (envs 0) (hE x (by simp)) (fun _ => definite_of_off hoff) hjob happly).trans
        (ih (fun y hy => hE y (mem_cons_of_mem _ hy)) ((eq_of_flags hflags).2.1.trans hoff)
          hjob₁ _ h)

/-- **Opening is a sequence of steps.** -/
theorem steps_open {config : Config σ} {env opening : Env} {p : Persistence} {envs : Nat → Env}
    (hbase : ∀ r ∈ p.base, r.2.1.isEmpty = false)
    (hlog : ∀ x ∈ p.older ++ p.current, x.command.spec.write = true)
    (h : (new config env (some p)).open envs opening = .ok e') :
    Store.Steps sure (new config env (some p)).store e'.store := by
  let loading : Engine σ := (new config env (some p)).beginLoad
  have hbegin : Store.Steps sure (new config env (some p)).store loading.store :=
    .aside ⟨rfl, rfl, rfl, rfl, rfl, rfl, rfl⟩
  have hload := hbegin.trans (steps_loadRecords (e := loading) rfl rfl opening.now hbase)
  obtain ⟨hjob, hflags⟩ := loadRecords_keeps (e := loading) rfl opening.now p.base
  unfold «open» at h
  simp only [show (new config env (some p)).persistence = some p from rfl] at h
  split at h
  · obtain rfl := Except.ok.inj h
    exact .refl
  · split at h
    · simp at h
    case h_2 e₁ hreplay =>
      obtain rfl := Except.ok.inj h
      have hlogged := hload.trans (steps_replay hlog (eq_of_flags hflags).2.1 hjob envs hreplay)
      have hswitch : Store.SameCore e₁.store e₁.endLoad.store := ⟨rfl, rfl, rfl, rfl, rfl, rfl, rfl⟩
      have hend := hlogged.trans (Store.Steps.aside hswitch)
      exact hend.trans (Store.Steps.quiet ((Store.moves_purgeExpired opening.now _).trans
        (moves_evict opening [] (e₁.endLoad.onStore (Store.purgeExpired opening.now)))))

end Commands

/-! ## Every run -/

/-- **What every step keeps holds of every engine that arises**, if it holds of an empty store, and if
it says that no copy of a key is of an empty collection. -/
theorem Arises.invariant {sure : Prop} {I : Store σ → Prop}
    (hnew : ∀ (config : Config σ) (env : Env) (p : Option Persistence),
      (∃ q, config.policy = EvictionPolicy.clear q) → I (Engine.new config env p).store)
    (hstep : ∀ {s s' : Store σ}, I s → Store.Step sure s s' → I s')
    (hcopies : ∀ {s : Store σ}, I s → ∀ now, ∀ r ∈ s.snapshot now, r.2.1.isEmpty = false)
    {e : Engine σ} (h : Arises sure e) : I e.store := by
  have hsteps : ∀ {s s' : Store σ}, I s → Store.Steps sure s s' → I s' := by
    intro s s' hs h
    induction h with
    | refl => exact hs
    | tail _ hmove ih => exact hstep ih hmove
  induction h with
  | new config env p hpolicy => exact hnew config env p hpolicy
  | opened config env p hpolicy source hsource hbase hlog envs opening h ih =>
    refine hsteps (hnew config env (some p) hpolicy) (steps_open (fun r hr => ?_) hlog h)
    obtain ⟨now, hmem⟩ := hbase r hr
    exact hcopies (ih r hr) now r hmem
  | @execute e _ env c args hrole ih =>
    exact hsteps ih (steps_execute env fun hs hw _ => hrole hs hw)
  | applyReplicated _ env x ih => exact hsteps ih (steps_applyReplicated env x _)
  | loadSnapshot _ env records source hsource hrecords ih ihsource =>
    refine hsteps ih (steps_loadSnapshot env (fun r hr => ?_) _)
    obtain ⟨now, hmem⟩ := hrecords r hr
    exact hcopies (ihsource r hr) now r hmem
  | cron _ env sampleSize auto ih => exact hsteps ih (steps_cron env sampleSize auto _)
  | setRole _ primary ih => exact hsteps ih (.aside ⟨rfl, rfl, rfl, rfl, rfl, rfl, rfl⟩)
  | beginSnapshot _ now receiver ih => exact hsteps ih (steps_beginSnapshot now receiver _)
  | stepSnapshot _ n ih => exact hsteps ih (steps_stepSnapshot n _)

end Engine

end KvStore
