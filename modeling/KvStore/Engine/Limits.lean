import KvStore.Engine.Evictions

/-! # The number of keys under `noeviction`

Under `noeviction` a command that may add data is refused before it runs.

* **`Command.sparing_handler`** — a write without the flag `denyoom` adds no key.
* **`Engine.room_of_checkMemory`** — what the check of the limits has made sure of.
* **`Engine.within_maxKeys`** — the number of keys, over any sequence of turns. -/

namespace KvStore

open Commands List Prog

/-! ## Commands that add no key -/

/-- The operations that add no key. -/
@[simp] def Op.Sparing : Op → Prop
  | .insert _ _ | .set _ _ _ | .loadRecord _ _ _ | .startRewrite | .save => False
  | _ => True

theorem Op.Brings.sparing {key : Str} {news : News → Bool} {o : Op} (h : o.Brings key news)
    (hkey : news .key = false) (hvalue : news .value = false) (hrecord : news .record = false) :
    o.Sparing := by
  obtain ⟨⟨hplain, -⟩, hnews⟩ := h
  cases o with
  | insert => exact absurd (hnews .key rfl) (by simp [hkey])
  | set => exact absurd (hnews .value rfl) (by simp [hvalue])
  | loadRecord => exact absurd (hnews .record rfl) (by simp [hrecord])
  | startRewrite | save => exact hplain
  | _ => trivial

/-- **A write without the flag `denyoom` adds no key.** -/
theorem Command.sparing_handler [CPython] {c : Command} {args : List Str}
    (harity : c.checkArity args = .ok ()) (hw : c.spec.write = true)
    (hdeny : c.spec.denyoom = false) : (c.handler args).Uses Op.Sparing := by
  by_cases hc : c.spec.keySpec = some singleKey
  · obtain ⟨key, rest, rfl, -⟩ := c.exists_key hc harity
    have hnews : c ≠ .restore ∧ c.brings .key = false ∧ c.brings .value = false ∧
        c.brings .record = false := by
      cases c <;> first | exact ⟨by simp, rfl, rfl, rfl⟩ | cases hdeny
    obtain ⟨hrestore, hkey, hvalue, hrecord⟩ := hnews
    exact c.uses_write rest hc hw (fun _ ho => ho.sparing hkey hvalue hrecord) fun h => absurd h hrestore
  · refine (c.obeys_several (Q := fun _ => True) args hc hw (fun _ _ => trivial) (fun _ => trivial)
      (fun _ => trivial) fun h => ?_).uses
    rw [hdeny] at h
    cases h

/-! ## The number of keys under `noeviction` -/

namespace Engine

variable [CPython] {σ : Type} [EvictionPolicy σ]

section Keys

variable {e : Engine σ}

/-- Moves while no key may change add none. -/
theorem keySet_of_moves {e' : Engine σ} (h : Store.Moves False [] e.store e'.store) :
    e'.store.keySet ⊆ e.store.keySet := by
  have hgrow := Store.keySet_moves h
  rwa [toFinset_nil, Finset.union_empty] at hgrow

variable {now : Nat}

omit [CPython] in
theorem mem_keySet_lookup {key k : Str} (hk : k ≠ key) (hmem : k ∈ e.store.keySet) :
    k ∈ (e.lookup now key).2.store.keySet := by
  unfold lookup
  split
  · exact hmem
  · split
    · split
      · rw [expire, store_propagate]
        change k ∈ (e.store.remove key).keySet
        rw [Store.keySet_remove]
        exact Finset.mem_erase.mpr ⟨hk, hmem⟩
      · exact hmem
    · exact hmem

omit [CPython] in
/-- A lookup that finds an entry changes nothing. -/
theorem lookup_some {key : Str} {entry : Entry} {e' : Engine σ}
    (h : e.lookup now key = (some entry, e')) : e' = e ∧ e.store.data.get? key = some entry := by
  unfold lookup at h
  split at h
  · cases h
  case h_2 found hget =>
    split at h
    · cases h
    · cases h
      exact ⟨rfl, hget⟩

/-- A change that stores no value adds no key. -/
theorem keySet_of_change {P : Deed → Prop} (hplant : ∀ key, ¬ P (.plant key))
    (hwrite : ∀ key, ¬ P (.write key)) {s s' : Store σ} (h : Store.Change now P s s') :
    s'.keySet ⊆ s.keySet := by
  cases h with
  | aside hcore => rw [Store.keySet, hcore.data, Store.keySet]
  | access => exact subset_rfl
  | plant _ _ hkey => exact absurd hkey (hplant _)
  | insert hkey | replace _ hkey => exact absurd hkey (hwrite _)
  | mutate =>
    unfold Store.mutate
    split
    · exact subset_rfl
    case h_2 entry hget => exact subset_of_eq (Store.keySet_set_of_some hget rfl)
  | setDeadline _ _ hget => exact subset_of_eq (Store.keySet_set_of_some hget rfl)
  | remove =>
    rw [Store.keySet_remove]
    exact Finset.erase_subset _ _

/-- Acts that store no value add no key. -/
theorem keySet_of_acts {P : Deed → Prop} (hplant : ∀ key, ¬ P (.plant key))
    (hwrite : ∀ key, ¬ P (.write key)) {e' : Engine σ} (h : Acts now P e e') :
    e'.store.keySet ⊆ e.store.keySet := by
  induction h with
  | refl => exact subset_rfl
  | tail _ hact ih =>
    refine Finset.Subset.trans ?_ ih
    cases hact with
    | change hchange => exact keySet_of_change hplant hwrite hchange
    | expire => exact keySet_of_moves (moves_expire _ _)
    | log => rw [store_propagate]
    | flush => exact keySet_of_moves (moves_flushAll _)
    | files | begin => exact subset_rfl
    | slice n => exact keySet_of_moves (moves_stepSnapshot n _)

/-- **An operation that adds no key.** -/
theorem keySet_exec (env : Env) {o : Op} (ho : o.Sparing) (e : Engine σ) :
    (exec env o e).2.store.keySet ⊆ e.store.keySet := by
  have hneeds : o.Needs fun d => ∀ key, d ≠ .plant key ∧ d ≠ .write key := by
    cases o <;> simp_all
    case zset _ call => cases call <;> simp
  exact keySet_of_acts (fun key h => (h key).1 rfl) (fun key h => (h key).2 rfl)
    (acts_exec env hneeds e)

/-- A command that only reads adds no key. -/
theorem keySet_reader (env : Env) {α : Type} {p : Cmd α} (hp : p.Uses Op.Reads) (e : Engine σ) :
    (p.run (exec env) e).2.store.keySet ⊆ e.store.keySet :=
  run_invariant (P := Op.Reads) (f := exec env) (I := fun e' => e'.store.keySet ⊆ e.store.keySet)
    (fun _ e' ho h => (keySet_of_acts (by simp) (by simp) (acts_exec env ho.needs e')).trans h) hp subset_rfl

/-- The keys that may be missing are counted, each one once. -/
theorem countNew_spec (env : Env) {keys : List Str} (hnodup : keys.Nodup) (e : Engine σ) :
    ∃ n e', (countNew keys).run (exec env) e = (.ok n, e') ∧
      (∀ key, key ∉ keys → key ∈ e.store.keySet → key ∈ e'.store.keySet) ∧
      (keys.toFinset \ e'.store.keySet).card ≤ n := by
  induction keys generalizing e with
  | nil => exact ⟨0, e, rfl, fun _ _ h => h, by simp⟩
  | cons key rest ih =>
    obtain ⟨hnew, hrest⟩ := nodup_cons.mp hnodup
    obtain ⟨n, e', hrun, hkept, hcount⟩ := ih hrest (e.lookup env.now key).2
    have hothers : ∀ k, k ∉ key :: rest → k ∈ e.store.keySet → k ∈ e'.store.keySet := by
      intro k hk hmem
      rw [mem_cons, not_or] at hk
      obtain ⟨hne, hout⟩ := hk
      exact hkept k hout (mem_keySet_lookup hne hmem)
    have hstep : (countNew (key :: rest)).run (exec env) e =
        (.ok (if (e.lookup env.now key).1.isNone then n + 1 else n), e') := by
      simp only [countNew, bind_eq, perform_bind, run_op, run_bind, exec, hrun, Option.isNone_map]
      rfl
    refine ⟨_, e', hstep, hothers, ?_⟩
    rw [toFinset_cons]
    cases hfound : (e.lookup env.now key).1 with
    | none =>
      simp only [Option.isNone_none, if_true]
      have hinsert : insert key rest.toFinset \ e'.store.keySet ⊆
          insert key (rest.toFinset \ e'.store.keySet) := by
        intro k
        simp only [Finset.mem_sdiff, Finset.mem_insert]
        tauto
      calc (insert key rest.toFinset \ e'.store.keySet).card
          ≤ (insert key (rest.toFinset \ e'.store.keySet)).card := Finset.card_le_card hinsert
        _ ≤ (rest.toFinset \ e'.store.keySet).card + 1 := Finset.card_insert_le _ _
        _ ≤ n + 1 := Nat.succ_le_succ hcount
    | some entry =>
      -- a key that is found stays while the others are looked up
      have hlookup : e.lookup env.now key = (some entry, (e.lookup env.now key).2) :=
        Prod.ext hfound rfl
      obtain ⟨hsame, hget⟩ := lookup_some hlookup
      have hhere : key ∈ (e.lookup env.now key).2.store.keySet := by
        rw [hsame]
        exact (e.store.mem_keySet key).mpr ⟨entry, hget⟩
      rw [if_neg (by simp), Finset.insert_sdiff_of_mem _ (hkept key hnew hhere)]
      exact hcount

/-- The check of the limits adds no key. -/
theorem keySet_checkMemory (env : Env) (c : Command) (args : List Str) (e : Engine σ) :
    (e.checkMemory env c args).2.store.keySet ⊆ e.store.keySet :=
  keySet_of_moves (moves_checkMemory env c args e)

/-- The copies for a running snapshot add no key. -/
theorem keySet_guarded (c : Command) (args : List Str) (e : Engine σ) :
    (e.guarded c args).store.keySet ⊆ e.store.keySet := by
  unfold guarded
  split
  · exact keySet_of_moves (moves_barrier _ e)
  · exact subset_rfl

/-- **What the check of the limits has made sure of**: the keys that a command may add have room. -/
theorem room_of_checkMemory {env : Env} {c : Command} {args : List Str} {checked : Engine σ}
    (hdeny : c.spec.denyoom = true) (hpolicy : EvictionPolicy.evicts e.store.policy = false)
    (hmax : 0 < e.store.maxKeys) (h : e.checkMemory env c args = (.ok (), checked)) :
    checked.store.data.size + ((c.keyArgs args).toFinset \ checked.store.keySet).card ≤
      checked.store.maxKeys := by
  obtain ⟨n, e', hrun, -, hcount⟩ := countNew_spec env (c.keyArgs args).nodup_dedup e
  have hflags := flags_run env (countNew (c.keyArgs args).dedup) e
  rw [hrun] at hflags
  simp only [checkMemory, hdeny, hpolicy, Bool.not_false, Bool.and_true, if_true, hrun] at h
  split at h
  · cases h
  case isFalse hover =>
    cases h
    have hkeys : checked.store.maxKeys ≠ 0 := by
      rw [(limits_of_flags hflags).1]
      omega
    have hroom : checked.store.data.size + n ≤ checked.store.maxKeys := by
      simp only [Store.overLimit, hkeys, ne_eq, not_false_eq_true, decide_true, Bool.true_and,
        Bool.or_eq_true, not_or, decide_eq_true_eq, not_lt, gt_iff_lt] at hover
      exact hover.1
    have hdedup : (c.keyArgs args).dedup.toFinset = (c.keyArgs args).toFinset := by
      ext k
      rw [mem_toFinset, mem_toFinset, mem_dedup]
    rw [hdedup] at hcount
    omega

/-- **A write keeps the number of keys within the limit.** -/
theorem size_run_write {env : Env} {c : Command} {args : List Str} (hw : c.spec.write = true)
    (harity : c.checkArity args = .ok ())
    (hroom : c.spec.denyoom = true → e.store.data.size +
      ((c.keyArgs args).toFinset \ e.store.keySet).card ≤ e.store.maxKeys)
    (hsize : e.store.data.size ≤ e.store.maxKeys) :
    (e.run env c args).2.store.data.size ≤ e.store.maxKeys := by
  have hrefresh : (e.run env c args).2.store.keySet ⊆
      ((c.handler args).run (exec env) e).2.store.keySet := by
    rw [run_write env hw]
    exact Store.keySet_refreshAll _ _
  rw [Store.size_eq_card] at hsize hroom ⊢
  cases hdeny : c.spec.denyoom with
  | false =>
    have hhandler : ((c.handler args).run (exec env) e).2.store.keySet ⊆ e.store.keySet :=
      run_invariant (P := Op.Sparing) (f := exec env)
        (I := fun e' => e'.store.keySet ⊆ e.store.keySet)
        (fun o e' ho h => (keySet_exec env ho e').trans h) (c.sparing_handler harity hw hdeny)
        subset_rfl
    exact (Finset.card_le_card (hrefresh.trans hhandler)).trans hsize
  | true =>
    have hmoves : Store.Moves False (c.keyArgs args) e.store
        ((c.handler args).run (exec env) e).2.store := moves_handler env hw harity nofun
    have hgrow := hrefresh.trans (Store.keySet_moves hmoves)
    calc (e.run env c args).2.store.keySet.card
        ≤ (e.store.keySet ∪ (c.keyArgs args).toFinset).card := Finset.card_le_card hgrow
      _ = e.store.keySet.card + ((c.keyArgs args).toFinset \ e.store.keySet).card := by
          rw [← Finset.union_sdiff_self_eq_union,
            Finset.card_union_of_disjoint Finset.disjoint_sdiff]
      _ ≤ e.store.maxKeys := hroom hdeny

end Keys

/-- **A turn** of the engine: a command, or a cycle of active expiry. -/
inductive Turn
  | execute (env : Env) (c : Command) (args : List Str)
  | expireCycle (env : Env) (sampleSize : Nat)

/-- The engine after a turn. -/
def turn (e : Engine σ) : Turn → Engine σ
  | .execute env c args => (e.execute env c args).2
  | .expireCycle env sampleSize => (e.expireCycle env sampleSize).2

section Limit

variable [LawfulPolicy σ] [CompletePolicy σ] {e : Engine σ}

/-- The engine never evicts, and has no more keys than it may. -/
structure Bounded (maxKeys : Nat) (e : Engine σ) : Prop where
  policy : EvictionPolicy.evicts e.store.policy = false
  limit : e.store.maxKeys = maxKeys
  size : e.store.data.size ≤ maxKeys

variable {maxKeys : Nat}

theorem Bounded.of_keySet {e' : Engine σ} (h : e.Bounded maxKeys)
    (hsteps : Store.Steps False e.store e'.store) (hflags : e'.flags = e.flags)
    (hkeys : e'.store.keySet ⊆ e.store.keySet) : e'.Bounded maxKeys where
  policy := (Store.evicts_steps hsteps).trans h.policy
  limit := (limits_of_flags hflags).1.trans h.limit
  size := by
    have hsize := h.size
    rw [Store.size_eq_card] at hsize ⊢
    exact (Finset.card_le_card hkeys).trans hsize

omit [CPython] [LawfulPolicy σ] [CompletePolicy σ] in
/-- Under a policy that does not evict nothing happens after a write. -/
theorem Bounded.settled (h : e.Bounded maxKeys) (env : Env) (c : Command) (args : List Str) :
    (e.settled env c args).Bounded maxKeys := by
  have hstore : (e.settled env c args).store = e.store := by
    unfold Engine.settled
    simp only
    split
    · simp [evict, Store.evictIfNeeded, h.policy]
    · rfl
  exact ⟨by rw [hstore]; exact h.policy, by rw [hstore]; exact h.limit, by rw [hstore]; exact h.size⟩

/-- **A command keeps the number of keys within the limit**, whether it succeeds or fails. -/
theorem Bounded.execute (hmax : 0 < maxKeys) (h : e.Bounded maxKeys) (env : Env) (c : Command)
    (args : List Str) : (e.execute env c args).2.Bounded maxKeys := by
  have hguarded : (e.guarded c args).Bounded maxKeys := by
    refine h.of_keySet ?_ (flags_guarded c args e) (keySet_guarded c args e)
    unfold guarded
    split
    · exact .quiet (moves_barrier _ e)
    · exact .refl
  have hchecked : ((e.guarded c args).checkMemory env c args).2.Bounded maxKeys :=
    hguarded.of_keySet (.quiet (moves_checkMemory env c args _)) (phase_checkMemory env c args _).flags
      (keySet_checkMemory env c args _)
  have hrun : ∀ checked, c.checkArity args = .ok () →
      (e.guarded c args).checkMemory env c args = (.ok (), checked) →
      (checked.run env c args).2.Bounded maxKeys := by
    intro checked harity hcheck
    rw [hcheck] at hchecked
    have hflags := flags_runCommand env c args checked
    cases hw : c.spec.write with
    | false =>
      have hreads := (reads_handler c args harity hw).uses
      refine hchecked.of_keySet ?_ hflags ?_ <;> rw [run_read env hw]
      · exact steps_reader env hreads checked
      · exact keySet_reader env hreads checked
    | true =>
      have hroom : c.spec.denyoom = true → checked.store.data.size +
          ((c.keyArgs args).toFinset \ checked.store.keySet).card ≤ checked.store.maxKeys :=
        fun hdeny => room_of_checkMemory hdeny hguarded.policy
          (by rw [hguarded.limit]; exact hmax) hcheck
      have hsize : (checked.run env c args).2.store.data.size ≤ checked.store.maxKeys :=
        size_run_write hw harity hroom (by rw [hchecked.limit]; exact hchecked.size)
      refine ⟨?_, (limits_of_flags hflags).1.trans hchecked.limit, hchecked.limit ▸ hsize⟩
      rw [run_write env hw]
      have hmoves : Store.Moves False (c.keyArgs args) checked.store
          ((c.handler args).run (exec env) checked).2.store := moves_handler env hw harity nofun
      exact (Store.evicts_refreshAll _ _).trans ((Store.evicts_moves hmoves).trans hchecked.policy)
  have houtcome := outcome env c args e
  generalize (e.execute env c args).1 = result at houtcome
  generalize (e.execute env c args).2 = final at houtcome
  cases houtcome with
  | arity | closed => exact h
  | refused _ hcheck => rwa [hcheck] at hchecked
  | failed harity hcheck hfail =>
    have hfailed := hrun _ harity hcheck
    rwa [hfail] at hfailed
  | done harity hcheck hdone =>
    have hran := hrun _ harity hcheck
    rw [hdone] at hran
    exact hran.settled env c args

/-- **Every turn keeps it.** -/
theorem Bounded.turn (hmax : 0 < maxKeys) (h : e.Bounded maxKeys) (t : Turn) :
    (e.turn t).Bounded maxKeys := by
  cases t with
  | execute env c args => exact h.execute hmax env c args
  | expireCycle env sampleSize =>
    have hmoves : Store.Moves False [] e.store (e.expireCycle env sampleSize).2.store :=
      moves_expireCycle env sampleSize e
    exact h.of_keySet (.quiet hmoves) (phase_expireCycle env sampleSize e).flags (keySet_of_moves hmoves)

end Limit

/-- **Under `noeviction` the limit on the number of keys is never exceeded**, over any sequence of commands
and cycles of active expiry; and a command without the flag `denyoom` is never refused for want of memory (the
reports on the server, whose texts are not modelled, being taken not to say so). -/
theorem within_maxKeys {e : Engine Policy} (hpolicy : EvictionPolicy.evicts e.store.policy = false)
    (hmax : 0 < e.store.maxKeys) (hstart : e.store.data.size ≤ e.store.maxKeys) (turns : List Turn) :
    (turns.foldl turn e).store.data.size ≤ e.store.maxKeys ∧
      ∀ (env : Env) (c : Command) (args : List Str) (err : KvError),
        (∀ c args err, env.introspect c args = .error err → err.Ordinary) → c.spec.denyoom = false →
          ((turns.foldl turn e).execute env c args).1 = .error err → err.kind ≠ .outOfMemory := by
  have hbounded : (turns.foldl turn e).Bounded e.store.maxKeys := by
    have hrun : ∀ e' : Engine Policy, e'.Bounded e.store.maxKeys →
        (turns.foldl turn e').Bounded e.store.maxKeys := by
      induction turns with
      | nil => exact fun _ h => h
      | cons t rest ih => exact fun e' h => ih _ (h.turn hmax t)
    exact hrun e ⟨hpolicy, rfl, hstart⟩
  refine ⟨hbounded.size, fun env c args err hreports hdeny herr => ?_⟩
  exact ordinary_execute env hreports hdeny herr

end Engine

section Concrete

noncomputable local instance limitsPython : CPython := referencePython

/-- An engine under `noeviction` that may hold one key. -/
def Engine.soleKey : Engine Policy :=
  Engine.new { policy := .noeviction {}, maxKeys := 1, maxmemory := 0, levels := allLow }
    (Env.quiet 0) none

/-- Two keys at once are refused, the same key twice is not. -/
theorem within_maxKeys_mset :
    let turns : List Engine.Turn :=
      [.execute (Env.quiet 0) .mset [text "a", text "1", text "b", text "2"],
        .execute (Env.quiet 0) .mset [text "a", text "1", text "a", text "2"],
        .expireCycle (Env.quiet 1) 20]
    (turns.foldl Engine.turn Engine.soleKey).store.keySet = {text "a"} ∧
      (turns.foldl Engine.turn Engine.soleKey).store.data.size ≤ 1 := by
  intro turns
  exact ⟨by decide +kernel,
    (Engine.within_maxKeys (e := Engine.soleKey) rfl (by decide) (by decide) turns).1⟩

end Concrete

end KvStore
