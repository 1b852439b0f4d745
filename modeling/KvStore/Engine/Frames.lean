import KvStore.Engine.Limits

/-! # What a command leaves alone

* **`Store.Untouched`** — the entry of a key is the same in two stores, or it had expired and is gone.
  `Engine.untouched_of_acts` says which keys the acts of an engine leave untouched, and
  **`Engine.handler_keeps_to_keys`** that no handler touches a key outside those that the command table
  gives for it. -/

namespace KvStore

open Commands

/-- An entry without the stamp of the last snapshot. -/
def Entry.content (entry : Entry) : Value SortedSet × Option Int × Int × Int :=
  (entry.value, entry.expiresAt, entry.size, entry.nbytes)

namespace Store

variable {σ : Type}

/-- What is stored under a key, the stamp of the last snapshot apart. -/
def content (s : Store σ) (key : Str) : Option (Value SortedSet × Option Int × Int × Int) :=
  (s.data.get? key).map Entry.content

/-- A key whose deadline has passed. -/
def Stale (now : Nat) (key : Str) (s : Store σ) : Prop :=
  ∃ entry, s.data.get? key = some entry ∧ entry.isExpired now = true

/-- **The entry of a key is the same, or it had expired and is gone.** -/
def Untouched (now : Nat) (key : Str) (s s' : Store σ) : Prop :=
  s'.content key = s.content key ∨ s.Stale now key ∧ s'.data.get? key = none

section Content

variable {now : Nat} {key k : Str} {s s' s'' : Store σ}

theorem content_eq_none : s.content key = none ↔ s.data.get? key = none := by
  simp [content]

/-- Entries of the same content are looked up alike. -/
theorem content_eq_some {entry : Entry} (h : s.data.get? key = some entry)
    (hsame : s'.content key = s.content key) :
    ∃ entry', s'.data.get? key = some entry' ∧ entry'.content = entry.content := by
  rw [content, content, h, Option.map_some] at hsame
  exact Option.map_eq_some_iff.mp hsame

theorem Stale.of_content (h : s.Stale now key) (hsame : s'.content key = s.content key) :
    s'.Stale now key := by
  obtain ⟨entry, hget, hexpired⟩ := h
  obtain ⟨entry', hget', hcontent⟩ := content_eq_some hget hsame
  have hdeadline : entry'.expiresAt = entry.expiresAt := congrArg (·.2.1) hcontent
  exact ⟨entry', hget', by rw [Entry.isExpired, hdeadline]; exact hexpired⟩

theorem Untouched.of_data (h : s'.data = s.data) : Untouched now key s s' :=
  .inl (by rw [content, content, h])

theorem Untouched.rfl : Untouched now key s s := .of_data (Eq.refl _)

theorem Untouched.trans (h : Untouched now key s s') (h' : Untouched now key s' s'') :
    Untouched now key s s'' := by
  rcases h with hsame | ⟨hstale, hnone⟩
  · rcases h' with hsame' | ⟨hstale', hnone'⟩
    · exact .inl (hsame'.trans hsame)
    · exact .inr ⟨hstale'.of_content hsame.symm, hnone'⟩
  · -- once gone, a key stays away
    refine .inr ⟨hstale, ?_⟩
    rcases h' with hsame' | ⟨-, hnone'⟩
    · rwa [← content_eq_none, hsame', content_eq_none]
    · exact hnone'

/-! ### The operations of the store -/

theorem content_set (hne : k ≠ key) {entry : Entry} (h : s'.data = s.data.set key entry) :
    s'.content k = s.content k := by
  rw [content, content, h, Dict.get?_set, if_neg hne]

@[simp] theorem content_snapshotBarrier (key k : Str) (s : Store σ) :
    (s.snapshotBarrier key).content k = s.content k := by
  unfold snapshotBarrier
  split
  · rfl
  · split
    · rfl
    case h_2 entry hget =>
      split
      · rfl
      · by_cases hk : k = key
        · subst hk
          simp [content, hget, Entry.content]
        · exact content_set hk rfl

/-- Keys copied into the running snapshot. -/
theorem content_barrierAll (keys : List Str) (k : Str) (s : Store σ) :
    (keys.foldl (fun s key => s.snapshotBarrier key) s).content k = s.content k := by
  induction keys generalizing s with
  | nil => rfl
  | cons key rest ih => rw [List.foldl_cons, ih, content_snapshotBarrier]

theorem content_stepSnapshot (n : Nat) (k : Str) (s : Store σ) :
    (s.stepSnapshot n).content k = s.content k := by
  unfold stepSnapshot
  split
  · rfl
  case h_2 job hjob =>
    have hcopied := content_barrierAll (job.pending.take n) k s
    simp only
    split
    · exact hcopied
    · split <;> exact hcopied

variable [EvictionPolicy σ]

theorem content_remove (key k : Str) (s : Store σ) :
    (s.remove key).content k = if k = key then none else s.content k := by
  by_cases hk : k = key
  · subst hk
    rw [if_pos rfl, content_eq_none]
    exact get?_remove_self k s
  · rw [if_neg hk, ← s.content_snapshotBarrier key k]
    unfold remove drop
    split
    · rfl
    · rw [content, content, Dict.get?_erase, if_neg hk]

end Content

end Store

/-! ## The operations of a handler -/

/-- The operations that change the keys `ks` only, and do not clear the keyspace. -/
@[simp] def Op.Within (ks : List Str) : Op → Prop
  | .insert key _ | .mutate key _ | .zset key (.add _ _) | .zset key (.remove _) | .set key _ _
  | .delete key | .setExpiry key _ | .persist key | .loadRecord key _ _ => key ∈ ks
  | .flushAll => False
  | _ => True

theorem Op.At.within {key : Str} {o : Op} (h : o.At key) : o.Within [key] := by
  cases o <;> simp_all
  case zset _ call => cases call <;> simp

theorem Op.Reads.within {o : Op} (h : o.Reads) : o.Within [] := by
  cases o <;> simp_all
  case zset _ call => cases call <;> simp_all

/-- Their deeds. -/
def Deed.Within (ks : List Str) : Deed → Prop
  | .plant key | .write key | .change key | .date key _ | .drop key => key ∈ ks
  | .flush => False
  | _ => True

theorem Op.Within.needs {ks : List Str} {o : Op} (h : o.Within ks) : o.Needs (Deed.Within ks) := by
  cases o <;> simp_all [Deed.Within]
  case zset _ call => cases call <;> exact h

theorem Store.Change.content [CPython] {σ : Type} [EvictionPolicy σ] {now : Nat} {ks : List Str}
    {s s' : Store σ} (h : Store.Change now (Deed.Within ks) s s') {k : Str} (hk : k ∉ ks) :
    s'.content k = s.content k := by
  have hne : ∀ {key}, key ∈ ks → k ≠ key := fun hkey heq => hk (heq ▸ hkey)
  cases h with
  | aside hcore => rw [Store.content, hcore.data, Store.content]
  | access => rfl
  | plant _ _ hkey | insert hkey | replace _ hkey | setDeadline _ hkey =>
    exact content_set (hne hkey) rfl
  | mutate hkey =>
    unfold Store.mutate
    split
    · rfl
    · exact content_set (hne hkey) rfl
  | remove hkey => exact (s.content_remove _ k).trans (if_neg (hne hkey))

namespace Engine

variable {σ : Type} {k : Str} {e e' : Engine σ}

theorem content_stepSnapshot (n : Nat) (k : Str) (e : Engine σ) :
    (e.stepSnapshot n).store.content k = e.store.content k := by
  have hdata : (e.stepSnapshot n).store.data = (e.store.stepSnapshot n).data :=
    (sameCore_handOver (e.onStore (Store.stepSnapshot n))).data
  rw [Store.content, hdata]
  exact e.store.content_stepSnapshot n k

variable [CPython] [EvictionPolicy σ]

/-- **Acts leave the keys untouched that they are not for.** -/
theorem untouched_of_acts {now : Nat} {ks : List Str} (h : Acts now (Deed.Within ks) e e')
    (hk : k ∉ ks) : Store.Untouched now k e.store e'.store := by
  induction h with
  | refl => exact .rfl
  | @tail mid _ _ hact ih =>
    refine ih.trans ?_
    cases hact with
    | change hchange => exact .inl (hchange.content hk)
    | @expire key _ hget hexpired =>
      rw [expire, store_propagate]
      have hremoved := mid.store.content_remove key k
      by_cases hkey : k = key
      · subst hkey
        rw [if_pos rfl, Store.content_eq_none] at hremoved
        exact .inr ⟨⟨_, hget, hexpired⟩, hremoved⟩
      · rw [if_neg hkey] at hremoved
        exact .inl hremoved
    | log => exact .of_data (by rw [store_propagate])
    | flush h => exact h.elim
    | files | begin => exact .of_data rfl
    | slice n => exact .inl (content_stepSnapshot n k _)

theorem untouched_program (env : Env) {ks : List Str} {α : Type} {p : Cmd α}
    (hp : p.Uses (Op.Within ks)) (hk : k ∉ ks) (e : Engine σ) :
    Store.Untouched env.now k e.store (p.run (exec env) e).2.store :=
  Prog.run_invariant (P := Op.Within ks) (f := exec env)
    (I := fun e' => Store.Untouched env.now k e.store e'.store)
    (fun _ e' ho h => h.trans (untouched_of_acts (acts_exec env ho.needs e') hk)) hp .rfl

end Engine

/-! ## The command table -/

/-- **The handler of a write keeps to the keys of the command**, unless it clears the keyspace. -/
theorem Command.within_handler [CPython] (c : Command) (args : List Str)
    (harity : c.checkArity args = .ok ()) (hw : c.spec.write = true) (hall : c ≠ .flushall)
    (hdb : c ≠ .flushdb) : (c.handler args).Uses (Op.Within (c.keyArgs args)) := by
  by_cases hc : c.spec.keySpec = some singleKey
  · obtain ⟨key, rest, rfl, hkeys⟩ := c.exists_key hc harity
    rw [hkeys]
    -- whatever the payload of a RESTORE holds
    exact c.uses_write rest hc hw (fun _ ho => ho.1.within) (by simp)
  · exact (c.obeys_several (Q := fun _ => True) args hc hw (fun _ hkey => hkey)
      (fun h => (h.elim hall hdb).elim) (fun _ => trivial) fun _ _ hkey _ => hkey).uses

namespace Engine

variable [CPython] {σ : Type} [EvictionPolicy σ]

/-- **The command table tells the truth about keys.** -/
theorem handler_keeps_to_keys (env : Env) (e : Engine σ) {c : Command} {args : List Str}
    (harity : c.checkArity args = .ok ()) :
    (c.spec.write = true → c ≠ .flushall → c ≠ .flushdb → ∀ key, key ∉ c.keyArgs args →
      Store.Untouched env.now key e.store ((c.handler args).run (exec env) e).2.store) ∧
    (c.spec.write = false → ∀ key,
      Store.Untouched env.now key e.store ((c.handler args).run (exec env) e).2.store) := by
  constructor
  · intro hw hall hdb key hkey
    exact untouched_program env (c.within_handler args harity hw hall hdb) hkey e
  · intro hw key
    exact untouched_program env ((reads_handler c args harity hw).uses.mono fun _ ho => ho.within)
      List.not_mem_nil e

end Engine

/-! ## MSET beside another key -/

section Concrete

noncomputable local instance framesPython : CPython := referencePython

/-- MSET leaves a key alone that it does not name. -/
theorem handler_keeps_to_keys_mset :
    Store.Untouched 0 (text "a") Engine.lruFull.store
      ((Command.mset.handler [text "b", text "1", text "b", text "2"]).run
        (Engine.exec (Env.quiet 0)) Engine.lruFull).2.store :=
  (Engine.handler_keeps_to_keys (Env.quiet 0) Engine.lruFull
    (show Command.mset.checkArity [text "b", text "1", text "b", text "2"] = .ok () by decide)).1
      rfl nofun nofun (text "a") (by decide)

end Concrete

end KvStore
