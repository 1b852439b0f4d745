import KvStore.Engine.Handlers
import KvStore.Engine.Sizes
import KvStore.Engine.Switches
import Mathlib.Logic.Relation

/-! # What can happen to a store

Everything the engine does to its store is a sequence of a few moves: an entry is inserted, replaced,
changed in place, given a deadline or removed, the eviction policy is told, a snapshot goes on,
everything is cleared, or something aside from the entries changes. `Store.Move sure ks` are the moves while
the keys `ks` may change; **`Store.Moves ks`** are sequences of them.

A write is a `Store.Step`: its keys have been copied into the running snapshot, the handler makes its
moves, and the keys are accounted again. **`Engine.moves_exec`** says which moves the operations of a
handler make. -/

namespace KvStore

open Relation

/-- The deeds of the operations near `ks`. -/
def Deed.Near (ks : List Str) : Deed → Prop
  | .plant _ => False
  | .write key | .change key | .date key _ => key ∈ ks
  | .copy => False
  | _ => True

theorem Op.Near.needs {ks : List Str} {o : Op} (h : o.Near ks) : o.Needs (Deed.Near ks) := by
  cases o <;> simp_all [Deed.Near]
  case zset _ call => cases call <;> exact h

namespace Store

variable [CPython] {σ : Type} [EvictionPolicy σ]

/-! ## Moves -/

/-- **One move**, while the keys `ks` may change. `sure` says that expiry removes what it hides, so
that a key is inserted only where none is. -/
inductive Move (sure : Prop) (ks : List Str) : Store σ → Store σ → Prop
  /-- Counters, switches, random levels, or a snapshot taken by its receiver. -/
  | aside {s s' : Store σ} (h : SameCore s s') : Move sure ks s s'
  | access (now : Nat) (key : Str) (s : Store σ) :
      Move sure ks s { s with policy := EvictionPolicy.onAccess now key s.policy }
  /-- The policy is asked for a victim. -/
  | victim (now : Nat) (protect : List Str) (s : Store σ) :
      Move sure ks s { s with policy := (EvictionPolicy.victim now protect s.policy).2 }
  | insert (now : Nat) {key : Str} {value : Value SortedSet} {nbytes : Int} {s : Store σ}
      (hkey : key ∈ ks) (habsent : sure → s.data.get? key = none)
      (hcounted : Counted value nbytes) :
      Move sure ks s (s.insert now key value nbytes)
  | replace (now : Nat) {key : Str} {value : Value SortedSet} {nbytes : Int} (keepTtl : Bool)
      {old : Entry} {s : Store σ} (hkey : key ∈ ks) (hold : s.data.get? key = some old)
      (hcounted : Counted value nbytes) :
      Move sure ks s (s.replace now key value nbytes keepTtl (some old))
  | mutate {key : Str} {value : Value SortedSet} {nbytes : Int} {s : Store σ} (hkey : key ∈ ks)
      (hcounted : ∀ entry, s.data.get? key = some entry → Counted entry.value entry.nbytes →
        Counted value nbytes) :
      Move sure ks s (s.mutate key value nbytes)
  | setDeadline {key : Str} {entry : Entry} (deadline : Option Int) {s : Store σ} (hkey : key ∈ ks)
      (hget : s.data.get? key = some entry) : Move sure ks s (s.setDeadline key entry deadline)
  /-- A removal: by a command, by expiry or by eviction. -/
  | remove (key : Str) (s : Store σ) : Move sure ks s (s.remove key)
  | clear (s : Store σ) : Move sure ks s s.clear
  /-- A key is copied into the running snapshot. -/
  | barrier (key : Str) (s : Store σ) : Move sure ks s (s.snapshotBarrier key)
  | stepSnapshot (n : Nat) (s : Store σ) : Move sure ks s (s.stepSnapshot n)

/-- **A sequence of moves.** -/
abbrev Moves (sure : Prop) (ks : List Str) : Store σ → Store σ → Prop := ReflTransGen (Move sure ks)

section Moves

variable {sure : Prop} {ks : List Str} {s s' : Store σ}

theorem Moves.aside (h : SameCore s s') : Moves sure ks s s' := .single (.aside h)

theorem Moves.mono {ks' : List Str} (hsub : ks ⊆ ks') (h : Moves sure ks s s') : Moves sure ks' s s' := by
  induction h with
  | refl => exact .refl
  | tail _ hmove ih =>
  refine ih.tail ?_
  cases hmove with
  | aside h => exact .aside h
  | access now key => exact .access now key _
  | victim now protect => exact .victim now protect _
  | insert now hkey habsent hcounted => exact .insert now (hsub hkey) habsent hcounted
  | replace now keepTtl hkey hold hcounted => exact .replace now keepTtl (hsub hkey) hold hcounted
  | mutate hkey hcounted => exact .mutate (hsub hkey) hcounted
  | setDeadline deadline hkey hget => exact .setDeadline deadline (hsub hkey) hget
  | remove key => exact .remove key _
  | clear => exact .clear _
  | barrier key => exact .barrier key _
  | stepSnapshot n => exact .stepSnapshot n _

omit [CPython] [EvictionPolicy σ] in
@[simp] theorem snapshotEpoch_snapshotBarrier (key : Str) (s : Store σ) :
    (s.snapshotBarrier key).snapshotEpoch = s.snapshotEpoch := by
  unfold snapshotBarrier
  split
  · rfl
  · split
    · rfl
    · split <;> rfl

omit [CPython] in
@[simp] theorem snapshotEpoch_remove (key : Str) (s : Store σ) :
    (s.remove key).snapshotEpoch = s.snapshotEpoch := by
  refine Eq.trans ?_ (s.snapshotEpoch_snapshotBarrier key)
  unfold Store.remove drop
  split <;> rfl

theorem Moves.remove (key : Str) (s : Store σ) (h : SameCore (s.remove key) s') : Moves sure ks s s' :=
  (ReflTransGen.single (.remove key s)).tail (.aside h)

/-- Keys copied into the running snapshot. -/
theorem moves_barrier (keys : List Str) (s : Store σ) :
    Moves sure ks s (keys.foldl (fun s key => s.snapshotBarrier key) s) := by
  induction keys generalizing s with
  | nil => exact .refl
  | cons key rest ih => exact .head (.barrier key s) (ih _)

theorem moves_removeAll (keys : List Str) (s : Store σ) :
    Moves sure ks s (keys.foldl (fun s key => s.remove key) s) := by
  induction keys generalizing s with
  | nil => exact .refl
  | cons key rest ih => exact .head (.remove key s) (ih _)

theorem moves_purgeExpired (now : Nat) (s : Store σ) : Moves sure ks s (s.purgeExpired now) :=
  (moves_removeAll _ s).tail (.aside ⟨rfl, rfl, rfl, rfl, rfl, rfl, rfl⟩)

theorem Change.move {now : Nat} (h : Change now (Deed.Near ks) s s')
    (hdef : ∀ {key}, key ∈ ks → sure → s.expiryEnabled = true → s.expiryDeletes = true) :
    Move sure ks s s' := by
  cases h with
  | aside hcore => exact .aside hcore
  | access key => exact .access now key s
  | plant _ _ hkey => exact hkey.elim
  | insert hkey habsent hcounted =>
    exact .insert now hkey (fun hs => habsent (hdef hkey hs)) hcounted
  | replace keepTtl hkey hold hcounted => exact .replace now keepTtl hkey hold hcounted
  | mutate hkey hcounted => exact .mutate hkey hcounted
  | setDeadline deadline hkey hget => exact .setDeadline deadline hkey hget
  | remove => exact .remove _ s

theorem moves_evictIfNeeded (now : Nat) (protect : List Str) (s : Store σ) :
    Moves sure ks s (s.evictIfNeeded now protect).2 := by
  have hloop : ∀ (fuel : Nat) (s : Store σ), Moves sure ks s (s.evictLoop now protect fuel).2 := by
    intro fuel
    induction fuel with
    | zero => exact fun _ => .refl
    | succ fuel ih =>
      intro s
      have hvictim : Move sure ks s _ := .victim now protect s
      rw [evictLoop]
      split
      · split
        case h_1 policy heq =>
          rw [heq] at hvictim
          exact .single hvictim
        case h_2 victim policy heq =>
          rw [heq] at hvictim
          refine .head hvictim (.trans (Moves.remove victim _ ?_) (ih _))
          exact ⟨rfl, rfl, rfl, rfl, rfl, rfl, rfl⟩
      · exact .refl
  unfold evictIfNeeded
  split
  · exact hloop _ s
  · exact .refl

omit [CPython] [EvictionPolicy σ] in
/-- Without a running snapshot a key is not copied. -/
theorem snapshotBarrier_of_none {s : Store σ} (h : s.snapshotJob = none) (key : Str) :
    s.snapshotBarrier key = s := by
  simp [snapshotBarrier, h]

theorem Moves.snapshotJob_eq_none (h : Moves sure ks s s') (hjob : s.snapshotJob = none) :
    s'.snapshotJob = none := by
  induction h with
  | refl => exact hjob
  | tail _ hmove ih =>
    cases hmove with
    | aside h => exact h.snapshotJob.trans ih
    | access | victim | insert | replace => exact ih
    | mutate =>
      unfold mutate
      split <;> exact ih
    | setDeadline => exact ih
    | remove key s =>
      rw [Store.remove, snapshotBarrier_of_none ih, drop]
      split <;> exact ih
    | clear s => simp [clear, stepSnapshot, ih]
    | barrier key s => rwa [snapshotBarrier_of_none ih]
    | stepSnapshot n s => simp [Store.stepSnapshot, ih]

omit [CPython] in
/-- Clearing completes the running snapshot. -/
theorem snapshotJob_clear (s : Store σ) : s.clear.snapshotJob = none := by
  cases hjob : s.snapshotJob with
  | none => simp [clear, stepSnapshot, hjob]
  | some job =>
    simp only [clear, stepSnapshot, remaining, hjob, Option.map_some, Option.getD_some,
      List.drop_length, if_true]
    split
    case h_1 h => exact h
    case h_2 => rfl

end Moves

/-! ## Steps -/

omit [CPython] [EvictionPolicy σ] in
/-- A key is accounted for in the running snapshot. -/
def Copied (key : Str) (s : Store σ) : Prop :=
  ∀ job, s.snapshotJob = some job → ∀ entry, s.data.get? key = some entry → entry.copied = job.epoch

/-- Keys accounted again. -/
def refreshAll (keys : List Str) (s : Store σ) : Store σ :=
  keys.foldl (fun s key => s.refresh key) s

/-- Accounting keys again begins no snapshot. -/
theorem snapshotJob_refreshAll {s : Store σ} (hjob : s.snapshotJob = none) (keys : List Str) :
    (s.refreshAll keys).snapshotJob = none := by
  have hrefresh : ∀ (key : Str) (s : Store σ), s.snapshotJob = none →
      (s.refresh key).snapshotJob = none := by
    intro key s h
    unfold refresh
    split
    · exact h
    · split
      · have hmoves : Moves True [] s (s.remove key) := .single (.remove key s)
        exact hmoves.snapshotJob_eq_none h
      · exact h
  unfold refreshAll
  induction keys generalizing s with
  | nil => exact hjob
  | cons key rest ih => exact ih (hrefresh key s hjob)

/-- Nothing is to be accounted again if the size is right and the value not empty. -/
theorem refresh_of_sized {key : Str} {s : Store σ} {entry : Entry}
    (hget : s.data.get? key = some entry)
    (hsize : entry.size = entrySize key entry.value entry.nbytes)
    (hne : entry.value.isEmpty SortedSet.length = false) : s.refresh key = s := by
  have hsame : s.data.set key { entry with size := entry.size } = s.data :=
    Dict.set_of_get?_eq_some hget
  simp only [refresh, hget, hne, Bool.false_eq_true, if_false, ← hsize, hsame]
  rw [add_sub_cancel_right]

/-- **A step**: moves that change no entry in place, the begin of a snapshot, or a write, whose keys
are accounted for in the running snapshot before and accounted again after. -/
inductive Step (sure : Prop) : Store σ → Store σ → Prop
  | quiet {s s' : Store σ} (h : Moves sure [] s s') : Step sure s s'
  | begin (now : Nat) (receiver : Receiver) {s : Store σ} (hjob : s.snapshotJob = none) :
      Step sure s (s.beginSnapshot now receiver)
  | write (ks : List Str) {s s' : Store σ} (hcopied : ∀ key ∈ ks, s.Copied key)
      (h : Moves sure ks s s') : Step sure s (s'.refreshAll ks)

/-- **A sequence of steps.** -/
abbrev Steps (sure : Prop) : Store σ → Store σ → Prop := ReflTransGen (Step sure)

theorem Steps.quiet {sure : Prop} {s s' : Store σ} (h : Moves sure [] s s') : Steps sure s s' := .single (.quiet h)

theorem Steps.aside {sure : Prop} {s s' : Store σ} (h : SameCore s s') : Steps sure s s' := .quiet (.aside h)

omit [CPython] [EvictionPolicy σ] in
/-- Copying a key makes it accounted for, and keeps the others so. -/
theorem copied_barrier (keys : List Str) (s : Store σ) :
    ∀ key, (key ∈ keys ∨ s.Copied key) →
      Copied key (keys.foldl (fun s key => s.snapshotBarrier key) s) := by
  have hone : ∀ (key k : Str) (s : Store σ), (k = key ∨ s.Copied k) →
      (s.snapshotBarrier key).Copied k := by
    intro key k s hk job hjob entry hget
    cases hj : s.snapshotJob with
    | none => simp [snapshotBarrier, hj] at hjob
    | some job' =>
      cases hg : s.data.get? key with
      | none =>
        rw [show s.snapshotBarrier key = s by simp [snapshotBarrier, hj, hg]] at hjob hget
        rcases hk with rfl | hk
        · simp [hg] at hget
        · exact hk job hjob entry hget
      | some entry' =>
        by_cases hcopied : entry'.copied = job'.epoch
        · rw [show s.snapshotBarrier key = s by simp [snapshotBarrier, hj, hg, hcopied]]
            at hjob hget
          rcases hk with rfl | hk
          · obtain rfl : entry' = entry := by simpa [hg] using hget
            obtain rfl : job' = job := by simpa [hj] using hjob
            exact hcopied
          · exact hk job hjob entry hget
        · simp only [snapshotBarrier, hj, hg, hcopied, if_false, Option.some.injEq] at hjob hget
          have hepoch : job.epoch = job'.epoch := by
            rw [← hjob, SnapshotJob.take]
            split <;> rfl
          rw [Dict.get?_set] at hget
          split at hget
          · simp only [Option.some.injEq] at hget
            rw [← hget, hepoch]
          · rcases hk with rfl | hk
            · exact absurd rfl ‹_›
            · exact (hk job' hj entry hget).trans hepoch.symm
  induction keys generalizing s with
  | nil => simp
  | cons key rest ih =>
    intro k hk
    refine ih _ k ?_
    rcases hk with hk | hk
    · rcases List.mem_cons.mp hk with rfl | hk
      · exact .inr (hone k k s (.inl rfl))
      · exact .inl hk
    · exact .inr (hone key k s (.inr hk))

end Store

namespace Engine

variable [CPython] {σ : Type} [EvictionPolicy σ]

omit [CPython] [EvictionPolicy σ] in
theorem Definite.of_flags {e e' : Engine σ} (h : e.Definite) (hflags : e'.flags = e.flags) :
    e'.Definite := by
  obtain ⟨-, hexpiry, hdeletes⟩ := eq_of_flags hflags
  rw [Definite, hexpiry, hdeletes]
  exact h

section Operations

variable {sure : Prop} {ks : List Str} {now : Nat} {e e' : Engine σ}

theorem moves_expire (key : Str) (e : Engine σ) : Store.Moves sure ks e.store (e.expire key).store := by
  rw [expire, store_propagate]
  exact .remove key e.store ⟨rfl, rfl, rfl, rfl, rfl, rfl, rfl⟩

omit [CPython] [EvictionPolicy σ] in
/-- A completed snapshot taken by its receiver is aside. -/
theorem sameCore_handOver (e : Engine σ) : Store.SameCore e.store e.handOver.store := by
  unfold handOver
  split <;> exact ⟨rfl, rfl, rfl, rfl, rfl, rfl, rfl⟩

theorem moves_flushAll (e : Engine σ) : Store.Moves sure ks e.store e.flushAll.store :=
  (ReflTransGen.single (.clear e.store)).tail (.aside (sameCore_handOver _))

theorem moves_stepSnapshot (n : Nat) (e : Engine σ) :
    Store.Moves sure ks e.store (e.stepSnapshot n).store :=
  (ReflTransGen.single (.stepSnapshot n e.store)).tail (.aside (sameCore_handOver _))

/-- **What acts do to the store.** -/
theorem moves_of_acts (h : Acts now (Deed.Near ks) e e') (hdef : sure → ks = [] ∨ e.Definite) :
    Store.Moves sure ks e.store e'.store := by
  induction h with
  | refl => exact .refl
  | tail hacts hact ih =>
    have hflags := flags_of_acts hacts
    refine ih.trans ?_
    cases hact with
    | change hchange =>
      exact .single (hchange.move fun hkey hs =>
        ((hdef hs).resolve_left (List.ne_nil_of_mem hkey)).of_flags hflags)
    | expire => exact moves_expire _ _
    | log => rw [store_propagate]
    | flush => exact moves_flushAll _
    | files _ hcopy | begin _ hcopy | slice _ hcopy => exact hcopy.elim

/-- A lookup, whatever is done with what it finds. -/
theorem moves_lookup (now : Nat) (key : Str) (e : Engine σ) :
    Store.Moves sure ks e.store (e.lookup now key).2.store :=
  (moves_of_acts (acts_lookup now key e) fun _ => .inl rfl).mono (List.nil_subset ks)

/-- **What an operation of a handler does to the store.** -/
theorem moves_exec (env : Env) {o : Op} (ho : o.Near ks) (hdef : sure → ks = [] ∨ e.Definite) :
    Store.Moves sure ks e.store (exec env o e).2.store :=
  moves_of_acts (acts_exec env ho.needs e) hdef

theorem moves_program (env : Env) {α : Type} {p : Cmd α} (hp : p.Uses (Op.Near ks))
    (hdef : sure → ks = [] ∨ e.Definite) : Store.Moves sure ks e.store (p.run (exec env) e).2.store :=
  (Prog.run_invariant (P := Op.Near ks) (f := exec env)
    (I := fun e' => Store.Moves sure ks e.store e'.store ∧ e'.flags = e.flags)
    (fun o e' ho h => ⟨h.1.trans (moves_exec env ho fun hs => (hdef hs).imp_right (·.of_flags h.2)),
      (flags_exec env o e').trans h.2⟩) hp ⟨.refl, rfl⟩).1

end Operations

end Engine

end KvStore
