import KvStore.Engine.Frames
import KvStore.Engine.Restoring

/-! # A command that fails changes nothing

A handler checks its arguments and the type of what it finds before it changes anything. The exceptions are the
commands that create their key in place and can fail after that; the engine takes such a key back when it
accounts the keys of the command again.

* **`Engine.Spares`** — between two states only expired keys are gone, and only their deletion is logged.
* **`Engine.failed_changes_nothing`** — a write that fails, over every state an engine can be in. -/

namespace KvStore

open Commands List Prog

/-! ## Only expired keys are gone -/

namespace Store

variable {σ : Type}

/-- The bytes accounted for a key. -/
def sizeAt (s : Store σ) (key : Str) : Int := ((s.content key).map fun c => c.2.2.1).getD 0

theorem sizeAt_of_content {s s' : Store σ} {key : Str} (h : s'.content key = s.content key) :
    s'.sizeAt key = s.sizeAt key := by
  rw [sizeAt, h, sizeAt]

@[simp] theorem usedMemory_snapshotBarrier (key : Str) (s : Store σ) :
    (s.snapshotBarrier key).usedMemory = s.usedMemory := by
  unfold snapshotBarrier
  split
  · rfl
  · split
    · rfl
    · split <;> rfl

theorem usedMemory_barrierAll (keys : List Str) (s : Store σ) :
    (keys.foldl (fun s key => s.snapshotBarrier key) s).usedMemory = s.usedMemory := by
  induction keys generalizing s with
  | nil => rfl
  | cons key rest ih => rw [foldl_cons, ih, usedMemory_snapshotBarrier]

/-- A removal frees what was accounted for the key. -/
theorem usedMemory_remove [EvictionPolicy σ] (key : Str) (s : Store σ) :
    (s.remove key).usedMemory = s.usedMemory - s.sizeAt key := by
  rw [← s.usedMemory_snapshotBarrier key, ← sizeAt_of_content (s.content_snapshotBarrier key key)]
  unfold remove drop
  split
  case h_1 hget => simp [sizeAt, content, hget]
  case h_2 entry hget => simp [sizeAt, content, hget, Entry.content]

/-- No collection is empty, and every entry is accounted for. -/
def Sized [CPython] (s : Store σ) : Prop :=
  ∀ key entry, s.data.get? key = some entry →
    entry.value.isEmpty SortedSet.length = false ∧
      entry.size = entrySize key entry.value entry.nbytes

/-- Then nothing is to be accounted again. -/
theorem Sized.refreshAll [CPython] [EvictionPolicy σ] {s : Store σ} (h : s.Sized) (keys : List Str) :
    s.refreshAll keys = s := by
  unfold Store.refreshAll
  induction keys with
  | nil => rfl
  | cons key rest ih =>
    have hrefresh : s.refresh key = s := by
      cases hget : s.data.get? key with
      | none => simp [refresh, hget]
      | some entry => exact refresh_of_sized hget (h key entry hget).2 (h key entry hget).1
    rw [foldl_cons, hrefresh, ih]

end Store

namespace Engine

variable {σ : Type} {now : Nat} {e e' e'' : Engine σ}

/-- **Only expired keys are gone**, and only their deletion is logged: the keys `gone`, of which `logged`
were deleted one by one. -/
structure Spares (now : Nat) (gone logged : List Str) (e e' : Engine σ) : Prop where
  nodup : gone.Nodup
  stale : ∀ key ∈ gone, e.store.Stale now key
  absent : ∀ key ∈ gone, e'.store.data.get? key = none
  same : ∀ key, key ∉ gone → e'.store.content key = e.store.content key
  sublist : logged.Sublist gone
  log : e'.propagated = e.propagated ++ logged.map Effect.del
  memory : e'.store.usedMemory = e.store.usedMemory - (logged.map e.store.sizeAt).sum
  flags : e'.flags = e.flags

/-- Only expired keys are gone. -/
def Spared (now : Nat) (e e' : Engine σ) : Prop := ∃ gone logged, Spares now gone logged e e'

theorem spared_of_same (hsame : ∀ key, e'.store.content key = e.store.content key)
    (hlog : e'.propagated = e.propagated) (hmemory : e'.store.usedMemory = e.store.usedMemory)
    (hflags : e'.flags = e.flags) : Spared now e e' :=
  ⟨[], [], .nil, nofun, nofun, fun key _ => hsame key, .slnil, by simp [hlog], by simp [hmemory],
    hflags⟩

theorem Spared.rfl : Spared now e e := spared_of_same (fun _ => Eq.refl _) (Eq.refl _) (Eq.refl _) (Eq.refl _)

/-- A key that is gone later was there before. -/
theorem Spares.later {gone logged gone' logged' : List Str} (h : Spares now gone logged e e')
    (h' : Spares now gone' logged' e' e'') {key : Str} (hkey : key ∈ gone') :
    key ∉ gone ∧ e'.store.content key = e.store.content key := by
  have hthere : key ∉ gone := by
    intro hgone
    obtain ⟨entry, hget, -⟩ := h'.stale key hkey
    rw [h.absent key hgone] at hget
    cases hget
  exact ⟨hthere, h.same key hthere⟩

theorem Spares.trans {gone logged gone' logged' : List Str} (h : Spares now gone logged e e')
    (h' : Spares now gone' logged' e' e'') :
    Spares now (gone ++ gone') (logged ++ logged') e e'' where
  nodup := nodup_append'.mpr ⟨h.nodup, h'.nodup, fun _ hgone hlater => (h.later h' hlater).1 hgone⟩
  stale key hkey := by
    rcases mem_append.mp hkey with hkey | hkey
    · exact h.stale key hkey
    · exact (h'.stale key hkey).of_content (h.later h' hkey).2.symm
  absent key hkey := by
    by_cases hlater : key ∈ gone'
    · exact h'.absent key hlater
    · have hfirst : key ∈ gone := (mem_append.mp hkey).resolve_right hlater
      rw [← Store.content_eq_none, h'.same key hlater, Store.content_eq_none]
      exact h.absent key hfirst
  same key hkey := by
    rw [mem_append, not_or] at hkey
    rw [h'.same key hkey.2, h.same key hkey.1]
  sublist := h.sublist.append h'.sublist
  log := by rw [h'.log, h.log, map_append, append_assoc]
  memory := by
    have hsizes : logged'.map e'.store.sizeAt = logged'.map e.store.sizeAt :=
      map_congr_left fun key hkey =>
        Store.sizeAt_of_content (h.later h' (h'.sublist.subset hkey)).2
    rw [h'.memory, h.memory, hsizes, map_append, sum_append]
    omega
  flags := h'.flags.trans h.flags

theorem Spared.trans (h : Spared now e e') (h' : Spared now e' e'') : Spared now e e'' := by
  obtain ⟨gone, logged, h⟩ := h
  obtain ⟨gone', logged', h'⟩ := h'
  exact ⟨_, _, h.trans h'⟩

theorem Spared.flags (h : Spared now e e') : e'.flags = e.flags := by
  obtain ⟨_, _, h⟩ := h
  exact h.flags

theorem Spared.live (h : Spared now e e') (hlive : e.replaying = false) : e'.replaying = false :=
  (eq_of_flags h.flags).1.trans hlive

/-- The entries that are left are accounted for. -/
theorem Spared.sized [CPython] (h : Spared now e e') (hsized : e.store.Sized) : e'.store.Sized := by
  obtain ⟨gone, logged, h⟩ := h
  intro key entry' hget'
  have hthere : key ∉ gone := by
    intro hgone
    rw [h.absent key hgone] at hget'
    cases hget'
  obtain ⟨entry, hget, hcontent⟩ := Store.content_eq_some hget' (h.same key hthere).symm
  obtain ⟨hne, hsize⟩ := hsized key entry hget
  have hvalue : entry.value = entry'.value := congrArg (·.1) hcontent
  have hsame : entry.size = entry'.size := congrArg (·.2.2.1) hcontent
  have hbytes : entry.nbytes = entry'.nbytes := congrArg (·.2.2.2) hcontent
  rw [← hvalue, ← hsame, ← hbytes]
  exact ⟨hne, hsize⟩

variable [EvictionPolicy σ]

theorem Spared.refreshAll [CPython] (h : Spared now e e') (hsized : e.store.Sized) (keys : List Str) :
    Spared now e (e'.refreshAll keys) := by
  have hstore : (e'.refreshAll keys).store = e'.store := (h.sized hsized).refreshAll keys
  refine h.trans (spared_of_same (fun key => ?_) (Eq.refl _) ?_ (phase_refreshAll keys e').flags)
  · rw [hstore]
  · rw [hstore]

theorem spared_expire {key : Str} (hlive : e.replaying = false) (hstale : e.store.Stale now key) : Spared now e (e.expire key) := by
  have hcontent := fun k => e.store.content_remove key k
  refine ⟨[key], [key], nodup_singleton key, ?_, ?_, ?_, .refl _, ?_, ?_,
    (phase_expire key e).flags⟩
  · simpa using hstale
  · intro k hk
    obtain rfl := mem_singleton.mp hk
    rw [expire, store_propagate]
    exact e.store.get?_remove_self k
  · intro k hk
    rw [expire, store_propagate]
    exact (hcontent k).trans (if_neg (by simpa using hk))
  · simp [expire, Engine.propagate, onStore, hlive]
  · rw [expire, store_propagate, map_singleton, sum_singleton]
    exact e.store.usedMemory_remove key

end Engine

/-! ## Looking -/

namespace Engine

variable [CPython] {σ : Type} [EvictionPolicy σ] {e : Engine σ}

theorem spared_of_acts {now : Nat} {e' : Engine σ} (h : Acts now (fun _ => False) e e')
    (hlive : e.replaying = false) : Spared now e e' := by
  induction h with
  | refl => exact .rfl
  | tail _ hact ih =>
    refine ih.trans ?_
    cases hact with
    | change hchange =>
      have hflags := (phase_content hchange.frame).flags
      rcases hchange.idle fun _ h => h.elim with hcore | ⟨key, rfl⟩
      · exact spared_of_same (fun k => by rw [Store.content, hcore.data, Store.content]) rfl
          hcore.usedMemory hflags
      · exact spared_of_same (fun _ => rfl) rfl rfl hflags
    | expire hget hexpired => exact spared_expire (ih.live hlive) ⟨_, hget, hexpired⟩
    | log h | flush h | files _ h | begin _ h | slice _ h => exact h.elim

theorem spared_lookup (hlive : e.replaying = false) (now : Nat) (key : Str) :
    Spared now e (e.lookup now key).2 :=
  spared_of_acts (acts_lookup now key e) hlive

theorem spared_exec (env : Env) {o : Op} (ho : o.Views) (hlive : e.replaying = false) :
    Spared env.now e (exec env o e).2 := by
  refine spared_of_acts (acts_exec env ?_ e) hlive
  cases o <;> simp_all
  case zset _ call => cases call <;> simp_all

theorem spared_program (env : Env) {α : Type} {p : Cmd α} (hp : p.Uses Op.Views)
    (hlive : e.replaying = false) : Spared env.now e (p.run (exec env) e).2 :=
  run_invariant (P := Op.Views) (f := exec env) (I := fun e' => Spared env.now e e')
    (fun _ _ ho h => h.trans (spared_exec env ho (h.live hlive))) hp .rfl

/-- A program that fails after looking. -/
theorem spared_failed (env : Env) {α : Type} {p : Cmd α} {P : Op → Prop} {E : KvError → Prop}
    (hp : p.Obeys P Op.Views E)
    (hlive : e.replaying = false) {err : KvError} (h : (p.run (exec env) e).1 = .error err) :
    Spared env.now e (p.run (exec env) e).2 :=
  hp.run_invariant (f := exec env) (I := fun e' => Spared env.now e e')
    (fun _ _ ho h => h.trans (spared_exec env ho (h.live hlive))) .rfl h

theorem exec_rests (env : Env) {o : Op} (ho : o.Rests) (e : Engine σ) : (exec env o e).2 = e := by
  cases o with
  | zset key call => cases call <;> first | rfl | exact ho.elim
  | now | loading | sample | choices => rfl
  | _ => exact ho.elim

/-- A program that fails after doing nothing. -/
theorem rests_failed (env : Env) {α : Type} {p : Cmd α} {P : Op → Prop} {E : KvError → Prop}
    (hp : p.Obeys P Op.Rests E) {err : KvError} (h : (p.run (exec env) e).1 = .error err) : (p.run (exec env) e).2 = e :=
  hp.run_invariant (f := exec env) (I := fun e' => e' = e)
    (fun _ e' ho h => (exec_rests env ho e').trans h) rfl h

end Engine

/-! ## Failing programs -/

namespace Engine

variable [CPython] {σ : Type} [EvictionPolicy σ] {e : Engine σ} {now : Nat} {key : Str}

omit [CPython] in
/-- A key that is not found is missing, or hidden because it has expired. -/
theorem lookup_none {e' : Engine σ} (h : e.lookup now key = (none, e')) :
    e'.store.data.get? key = none ∨ e'.store.Stale now key := by
  unfold lookup at h
  split at h
  case h_1 hget =>
    cases h
    exact .inl hget
  case h_2 entry hget =>
    split at h
    case isFalse => cases h
    case isTrue hexpired =>
      simp only [Bool.and_eq_true] at hexpired
      split at h
      · cases h
        rw [expire, store_propagate]
        exact .inl (e.store.get?_remove_self key)
      · cases h
        exact .inr ⟨entry, hget, hexpired.2⟩

/-- **A new collection is taken back.** -/
theorem spared_insert_refresh (kind : Kind) (hkind : kind ≠ .str)
    (hmissing : e.store.data.get? key = none ∨ e.store.Stale now key) :
    Spared now e ((e.onStore
      (Store.insert now key (ofSeen kind.emptyValue) emptyContainer)).refreshAll [key]) := by
  -- the entry is there, empty, and so it is removed
  have hempty : (ofSeen kind.emptyValue).isEmpty SortedSet.length = true := by
    cases kind <;> first | rfl | exact absurd rfl hkind
  let inserted := e.store.insert now key (ofSeen kind.emptyValue) emptyContainer
  have hget : inserted.data.get? key = some
      { value := ofSeen kind.emptyValue
        size := Store.entrySize key (ofSeen kind.emptyValue) emptyContainer
        nbytes := emptyContainer
        copied := e.store.snapshotEpoch } := by
    simp [inserted, Store.insert]
  have hstore : ((e.onStore (Store.insert now key (ofSeen kind.emptyValue) emptyContainer)).refreshAll
      [key]).store = inserted.remove key := by
    show inserted.refresh key = inserted.remove key
    simp only [Store.refresh, hget, hempty, if_true]
  have hothers : ∀ k, k ≠ key → (inserted.remove key).content k = e.store.content k := by
    intro k hk
    rw [Store.content_remove, if_neg hk]
    exact Store.content_set hk rfl
  have hmemory : (inserted.remove key).usedMemory = e.store.usedMemory := by
    have hsize : inserted.sizeAt key =
        Store.entrySize key (ofSeen kind.emptyValue) emptyContainer := by
      simp [Store.sizeAt, Store.content, hget, Entry.content]
    rw [Store.usedMemory_remove, hsize]
    simp [inserted, Store.insert]
  have hflags : ((e.onStore (Store.insert now key (ofSeen kind.emptyValue) emptyContainer)).refreshAll
      [key]).flags = e.flags := (phase_refreshAll [key] _).flags
  rcases hmissing with hnone | hstale
  · refine spared_of_same (fun k => ?_) rfl (by rw [hstore, hmemory]) hflags
    rw [hstore]
    by_cases hk : k = key
    · subst hk
      rw [Store.content_remove, if_pos rfl, eq_comm, Store.content_eq_none]
      exact hnone
    · exact hothers k hk
  · -- what was hidden under the key is gone with the collection
    refine ⟨[key], [], nodup_singleton key, by simpa using hstale, fun k hk => ?_, fun k hk => ?_,
      nil_sublist _, by simp [refreshAll, onStore], ?_, hflags⟩
    · obtain rfl := mem_singleton.mp hk
      rw [hstore]
      exact Store.get?_remove_self k inserted
    · rw [hstore]
      exact hothers k (by simpa using hk)
    · rw [hstore, hmemory]
      simp

/-- `write_target` looks, or creates its key. -/
theorem run_writeTarget (env : Env) (key : Str) (kind : Kind) (hlive : e.replaying = false) :
    Spared env.now e ((writeTarget key kind).run (exec env) e).2 ∨
    ∃ e', (writeTarget key kind).run (exec env) e = (.ok kind.emptyValue, e'.onStore
        (Store.insert env.now key (ofSeen kind.emptyValue) emptyContainer)) ∧ Spared env.now e e' ∧
      (e'.store.data.get? key = none ∨ e'.store.Stale env.now key) := by
  have hlooked := spared_lookup hlive env.now key
  rcases hfound : e.lookup env.now key with ⟨found, e'⟩
  rw [hfound] at hlooked
  simp only [writeTarget, bind_eq, perform_bind, run_op, exec, hfound]
  cases found with
  | none => exact .inr ⟨e', rfl, hlooked, lookup_none hfound⟩
  | some entry =>
    left
    simp only [Option.map_some]
    split
    · exact hlooked.trans (spared_of_same (fun _ => rfl) rfl rfl rfl)
    · exact hlooked

/-- **A program that creates its key and fails**, the key being accounted again. -/
theorem spared_creating (env : Env) {α : Type} {p : Cmd α} (hp : Creating key p)
    (hlive : e.replaying = false) (hsized : e.store.Sized) {err : KvError}
    (h : (p.run (exec env) e).1 = .error err) :
    Spared env.now e ((p.run (exec env) e).2.refreshAll [key]) := by
  induction hp generalizing e with
  | plain hp => exact (spared_failed env hp hlive h).refreshAll hsized [key]
  | @bind β p f hp _ ih =>
    have hfirst := spared_program env (hp.mono fun _ ho => by simp [ho]) hlive
    rw [run_bind] at h ⊢
    rcases hrun : p.run (exec env) e with ⟨err' | b, e'⟩
    · rw [hrun] at hfirst
      exact hfirst.refreshAll hsized [key]
    · rw [hrun] at hfirst h
      exact hfirst.trans (ih b (hfirst.live hlive) (hfirst.sized hsized) h)
  | @target kind f hkind hf =>
    rw [run_bind] at h ⊢
    rcases run_writeTarget env key kind hlive with hlooked | ⟨e', hcreated, hspared, hmissing⟩
    · -- the key was there, or is of another type
      rcases hrun : (writeTarget key kind).run (exec env) e with ⟨err' | v, e'⟩
      · rw [hrun] at hlooked
        exact hlooked.refreshAll hsized [key]
      · rw [hrun] at hlooked h
        have hrests : ((f v).run (exec env) e').2 = e' := rests_failed env (hf v) h
        simp only
        rw [hrests]
        exact hlooked.refreshAll hsized [key]
    · -- the key has been created, and goes again
      rw [hcreated] at h ⊢
      simp only at h ⊢
      rw [rests_failed env (hf _) h]
      exact hspared.trans (spared_insert_refresh kind hkind hmissing)

end Engine

/-! ## Failing commands -/

namespace Engine

variable [CPython] {σ : Type} [EvictionPolicy σ] {e : Engine σ}

/-- The handler of a write fails, and the keys are accounted again. -/
theorem spared_run (env : Env) {c : Command} {args : List Str} (hw : c.spec.write = true)
    (harity : c.checkArity args = .ok ()) (hlive : e.replaying = false) (hsized : e.store.Sized)
    {err : KvError} (h : (e.run env c args).1 = .error err) :
    Spared env.now e (e.run env c args).2 := by
  rw [fst_run] at h
  rw [run_write env hw]
  show Spared env.now e (((c.handler args).run (exec env) e).2.refreshAll (c.keyArgs args))
  cases hcreates : c.creates with
  | false =>
    exact (spared_failed env (Command.views_handler harity hw hcreates) hlive h).refreshAll hsized _
  | true =>
    have hc : c.spec.keySpec = some singleKey := by
      cases c <;> simp only [Command.creates, Bool.false_eq_true] at hcreates <;> rfl
    obtain ⟨key, rest, rfl, hkeys⟩ := c.exists_key hc harity
    rw [hkeys]
    exact spared_creating env (c.creating_handler rest hcreates) hlive hsized h

omit [CPython] [EvictionPolicy σ] in
theorem spared_guarded (now : Nat) (c : Command) (args : List Str) (e : Engine σ) :
    Spared now e (e.guarded c args) := by
  unfold guarded
  split
  · exact spared_of_same (fun key => Store.content_barrierAll _ key e.store) rfl
      (Store.usedMemory_barrierAll _ e.store) (phase_barrier _ e).flags
  · exact .rfl

theorem spared_checkMemory (env : Env) (c : Command) (args : List Str) (hlive : e.replaying = false) :
    Spared env.now e (e.checkMemory env c args).2 :=
  checkMemory_induction (I := Spared env.now e)
    (fun key _ h => h.trans (spared_lookup (h.live hlive) env.now key)) c args .rfl

theorem spared_execute {sure : Prop} (harises : e.Arises sure) (env : Env) {c : Command}
    {args : List Str} (hw : c.spec.write = true) {err : KvError}
    (herr : (e.execute env c args).1 = .error err) : Spared env.now e (e.execute env c args).2 := by
  have hlive : e.replaying = false := harises.enforcing.live
  have hsized : e.store.Sized := fun key entry hget =>
    ⟨(harises.kept.entry key entry hget).nonempty not_mem_nil,
      (harises.kept.entry key entry hget).size not_mem_nil⟩
  have hguarded := spared_guarded env.now c args e
  have hchecked := hguarded.trans (spared_checkMemory env c args (hguarded.live hlive))
  have houtcome := outcome env c args e
  rw [herr] at houtcome
  generalize (e.execute env c args).2 = final at houtcome
  cases houtcome with
  | arity | closed => exact .rfl
  | refused _ hcheck => rwa [hcheck] at hchecked
  | failed harity hcheck hfail =>
    rw [hcheck] at hchecked
    have hrun := spared_run env hw harity (hchecked.live hlive) (hchecked.sized hsized)
      (congrArg Prod.fst hfail)
    rw [hfail] at hrun
    exact hchecked.trans hrun

/-- **A write that fails changes nothing**, in every state an engine can be in: a key that is not expired
keeps its value and its deadline, no key is there that was not, and what is logged are deletions of expired
keys, whose memory alone is freed. -/
theorem failed_changes_nothing {sure : Prop} (harises : e.Arises sure) (env : Env) {c : Command}
    {args : List Str} (hw : c.spec.write = true) {err : KvError}
    (herr : (e.execute env c args).1 = .error err) :
    (∀ key entry, e.store.data.get? key = some entry → entry.isExpired env.now = false →
      ∃ entry', (e.execute env c args).2.store.data.get? key = some entry' ∧
        entry'.value = entry.value ∧ entry'.expiresAt = entry.expiresAt) ∧
    (∀ key, e.store.data.get? key = none → (e.execute env c args).2.store.data.get? key = none) ∧
    ∃ logged : List Str, logged.Nodup ∧
      (∀ key ∈ logged, (∃ entry, e.store.data.get? key = some entry ∧ entry.isExpired env.now = true) ∧
        (e.execute env c args).2.store.data.get? key = none) ∧
      (e.execute env c args).2.propagated = e.propagated ++ logged.map Effect.del ∧
      (e.execute env c args).2.store.usedMemory =
        e.store.usedMemory - (logged.map e.store.sizeAt).sum := by
  obtain ⟨gone, logged, h⟩ := spared_execute harises env hw herr
  refine ⟨fun key entry hget hlive => ?_, fun key hnone => ?_, logged, h.nodup.sublist h.sublist,
    fun key hkey => ?_, h.log, h.memory⟩
  · have hthere : key ∉ gone := by
      intro hgone
      obtain ⟨entry', hget', hexpired⟩ := h.stale key hgone
      obtain rfl : entry = entry' := by simpa [hget] using hget'
      rw [hlive] at hexpired
      cases hexpired
    obtain ⟨entry', hget', hcontent⟩ := Store.content_eq_some hget (h.same key hthere)
    exact ⟨entry', hget', congrArg (·.1) hcontent, congrArg (·.2.1) hcontent⟩
  · by_cases hgone : key ∈ gone
    · exact h.absent key hgone
    · rw [← Store.content_eq_none, h.same key hgone, Store.content_eq_none]
      exact hnone
  · exact ⟨h.stale key (h.sublist.subset hkey), h.absent key (h.sublist.subset hkey)⟩

/-- An engine that holds a text and a key whose deadline is after a millisecond. -/
def passingKey : Engine NoEviction :=
  (((new (plainConfig allLow) (Env.quiet 0) none).execute (Env.quiet 0) .set
    [text "k", text "v"]).2.execute (Env.quiet 0) .set [text "z", text "v", text "PX", text "1"]).2

end Engine

/-! ## A command on an expired key -/

section Concrete

noncomputable local instance refusalsPython : CPython := referencePython

/-- LSET on an expired key: the key goes, with a DEL, and nothing else does. -/
theorem failed_changes_nothing_lset :
    (Engine.passingKey.execute (Env.quiet 5000) .lset [text "z", text "0", text "x"]).2.store.keySet =
        {text "k"} ∧
      ∃ entry, (Engine.passingKey.execute (Env.quiet 5000) .lset
        [text "z", text "0", text "x"]).2.store.data.get? (text "k") = some entry := by
  have harises : Engine.passingKey.Arises True :=
    .execute (.execute (.new _ (Env.quiet 0) none ⟨{}, rfl⟩) (Env.quiet 0) .set _ fun _ _ => rfl)
      (Env.quiet 0) .set _ fun _ _ => rfl
  obtain ⟨hkept, -, -⟩ := Engine.failed_changes_nothing harises (Env.quiet 5000) rfl
    (show (Engine.passingKey.execute (Env.quiet 5000) .lset [text "z", text "0", text "x"]).1 =
      .error (.invalidArgument "no such key") by decide +kernel)
  have hlive : (Engine.passingKey.store.data.get? (text "k")).map (fun entry => entry.isExpired 5000) =
      some false := by decide +kernel
  obtain ⟨entry, hget, hnot⟩ := Option.map_eq_some_iff.mp hlive
  obtain ⟨entry', hget', -, -⟩ := hkept _ entry hget hnot
  exact ⟨by decide +kernel, entry', hget'⟩

end Concrete

end KvStore
