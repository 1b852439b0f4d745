import KvStore.Engine.Engine
import KvStore.Engine.Sizes
import Mathlib.Logic.Relation

/-! # What an operation does to an engine

An operation of a handler looks keys up, which removes expired ones, and does a few things to the
store: `Store.Change` are the changes of the store, `Engine.Act` what can happen to the engine, and
**`Engine.acts_exec`** says that every operation is a sequence of acts. What holds for operations is
proved for acts. -/

namespace KvStore

open Commands Relation

/-- What an operation is for, apart from looking keys up. -/
inductive Deed
  /-- Put a collection in place of a missing key. -/
  | plant (key : Str)
  | write (key : Str)
  | change (key : Str)
  /-- Give a key a deadline, or take it away. -/
  | date (key : Str) (deadline : Option Int)
  | drop (key : Str)
  | log (effect : Effect)
  | flush
  /-- Copy the keyspace into the files. -/
  | copy

/-- The operations that need the deeds `P` only. -/
@[simp] def Op.Needs (P : Deed → Prop) : Op → Prop
  | .insert key _ => P (.plant key)
  | .mutate key _ | .zset key (.add _ _) | .zset key (.remove _) => P (.change key)
  | .set key _ _ => P (.write key)
  | .delete key => P (.drop key)
  | .setExpiry key atMs => P (.date key (some atMs))
  | .persist key => P (.date key none)
  | .loadRecord key _ expiresAt => P (.write key) ∧ ∀ d ∈ expiresAt, P (.date key (some d))
  | .propagate effect => P (.log effect)
  | .flushAll => P .flush
  | .startRewrite | .save => P .copy
  | _ => True

theorem Op.needs_true (o : Op) : o.Needs fun _ => True := by
  cases o <;> simp
  case zset _ call => cases call <;> trivial

/-! ## Changes of the store -/

namespace Store

variable [CPython] {σ : Type} [EvictionPolicy σ]

/-- Nothing but what stands aside differs: entries, deadlines, policy, memory and snapshots are the
same. -/
structure SameCore (s s' : Store σ) : Prop where
  data : s'.data = s.data
  volatile : s'.volatile = s.volatile
  policy : s'.policy = s.policy
  usedMemory : s'.usedMemory = s.usedMemory
  snapshotEpoch : s'.snapshotEpoch = s.snapshotEpoch
  snapshotJob : s'.snapshotJob = s.snapshotJob
  delivered : s'.delivered = s.delivered

/-- **One change**, if the deeds `P` are allowed. -/
inductive Change (now : Nat) (P : Deed → Prop) (s : Store σ) : Store σ → Prop
  | aside {s' : Store σ} (hcore : SameCore s s') (hframe : s'.frame = s.frame) : Change now P s s'
  | access (key : Str) :
      Change now P s { s with policy := EvictionPolicy.onAccess now key s.policy }
  | plant {key : Str} (value : Value SortedSet) (nbytes : Int) (hkey : P (.plant key)) :
      Change now P s (s.insert now key value nbytes)
  /-- A new entry. If expiry removes what it hides, there was none. -/
  | insert {key : Str} {value : Value SortedSet} {nbytes : Int} (hkey : P (.write key))
      (habsent : (s.expiryEnabled = true → s.expiryDeletes = true) → s.data.get? key = none)
      (hcounted : Counted value nbytes) : Change now P s (s.insert now key value nbytes)
  | replace {key : Str} {value : Value SortedSet} {nbytes : Int} (keepTtl : Bool) {old : Entry}
      (hkey : P (.write key)) (hold : s.data.get? key = some old) (hcounted : Counted value nbytes) :
      Change now P s (s.replace now key value nbytes keepTtl (some old))
  | mutate {key : Str} {value : Value SortedSet} {nbytes : Int} (hkey : P (.change key))
      (hcounted : ∀ entry, s.data.get? key = some entry → Counted entry.value entry.nbytes →
        Counted value nbytes) :
      Change now P s (s.mutate key value nbytes)
  | setDeadline {key : Str} {entry : Entry} (deadline : Option Int) (hkey : P (.date key deadline))
      (hget : s.data.get? key = some entry) : Change now P s (s.setDeadline key entry deadline)
  | remove {key : Str} (hkey : P (.drop key)) : Change now P s (s.remove key)

theorem Change.frame {now : Nat} {P : Deed → Prop} {s s' : Store σ} (h : Change now P s s') :
    s'.frame = s.frame := by
  cases h with
  | aside _ hframe => exact hframe
  | mutate => exact frame_mutate ..
  | remove => exact s.frame_remove _
  | _ => rfl

/-- Without a deed a key is used at most. -/
theorem Change.idle {now : Nat} {P : Deed → Prop} {s s' : Store σ} (h : Change now P s s')
    (hP : ∀ d, P d → d = .copy) :
    SameCore s s' ∨ ∃ key, s' = { s with policy := EvictionPolicy.onAccess now key s.policy } := by
  cases h with
  | aside hcore => exact .inl hcore
  | access key => exact .inr ⟨key, rfl⟩
  | plant _ _ hkey | insert hkey | replace _ hkey | mutate hkey | setDeadline _ hkey | remove hkey =>
    cases hP _ hkey

omit [CPython] in
theorem get?_remove_self (key : Str) (s : Store σ) : (s.remove key).data.get? key = none := by
  unfold Store.remove drop
  split
  case h_1 hget => exact hget
  case h_2 => simp

end Store

/-! ## Acts of the engine -/

namespace Engine

variable [CPython] {σ : Type} [EvictionPolicy σ]

/-- The switches under which a key that is not found is not there: expiry removes what it hides. -/
def Definite (e : Engine σ) : Prop := e.store.expiryEnabled = true → e.store.expiryDeletes = true

/-- **One act**, if the deeds `P` are allowed. -/
inductive Act (now : Nat) (P : Deed → Prop) (e : Engine σ) : Engine σ → Prop
  /-- The content of the store changes. -/
  | change {s : Store σ} (h : Store.Change now P e.store s) : Act now P e { e with store := s }
  /-- A key whose deadline has passed is removed. -/
  | expire {key : Str} {entry : Entry} (hget : e.store.data.get? key = some entry)
      (hexpired : entry.isExpired now = true) : Act now P e (e.expire key)
  | log {effect : Effect} (heffect : P (.log effect)) : Act now P e (e.propagate effect)
  | flush (h : P .flush) : Act now P e e.flushAll
  | files (p : Option Persistence) (h : P .copy) : Act now P e { e with persistence := p }
  | begin (receiver : Receiver) (h : P .copy) (hjob : e.store.snapshotJob = none) :
      Act now P e (e.onStore (Store.beginSnapshot now receiver))
  | slice (n : Nat) (h : P .copy) : Act now P e (e.stepSnapshot n)

/-- **A sequence of acts.** -/
abbrev Acts (now : Nat) (P : Deed → Prop) : Engine σ → Engine σ → Prop := ReflTransGen (Act now P)

section Operations

variable {now : Nat} {P : Deed → Prop} {key : Str} {e e' : Engine σ}

omit [CPython] [EvictionPolicy σ] in
@[simp] theorem store_propagate (x : Effect) (e : Engine σ) : (e.propagate x).store = e.store := by
  unfold propagate
  split <;> rfl

theorem acts_change {s : Store σ} (h : Store.Change now P e.store s) :
    Acts now P e { e with store := s } := .single (.change h)

/-- A lookup finds an entry and changes nothing, or finds none. -/
theorem lookup_cases (now : Nat) (P : Deed → Prop) (key : Str) (e : Engine σ) :
    (∃ entry, e.store.data.get? key = some entry ∧ e.lookup now key = (some entry, e)) ∨
      (∃ e', e.lookup now key = (none, e') ∧ Acts now P e e' ∧
        (e'.Definite → e'.store.data.get? key = none)) := by
  unfold lookup
  cases hget : e.store.data.get? key with
  | none => exact .inr ⟨e, rfl, .refl, fun _ => hget⟩
  | some entry =>
    simp only
    split
    case isTrue hexpired =>
      rw [Bool.and_eq_true] at hexpired
      refine .inr ⟨_, rfl, ?_⟩
      split
      case isTrue =>
        refine ⟨.single (.expire hget hexpired.2), fun _ => ?_⟩
        rw [expire, store_propagate]
        exact Store.get?_remove_self key e.store
      case isFalse hkeeps => exact ⟨.refl, fun hdef => absurd (hdef hexpired.1) hkeeps⟩
    case isFalse => exact .inl ⟨entry, rfl, rfl⟩

/-- A lookup, whatever is done with what it finds. -/
theorem acts_lookup (now : Nat) (key : Str) (e : Engine σ) : Acts now P e (e.lookup now key).2 := by
  rcases e.lookup_cases now P key with ⟨entry, -, h⟩ | ⟨e', h, hacts, -⟩
  · rw [h]
  · rwa [h]

theorem acts_get (now : Nat) (key : Str) (e : Engine σ) : Acts now P e (e.get now key).2 := by
  unfold Engine.get
  rcases e.lookup_cases now P key with ⟨entry, -, h⟩ | ⟨e', h, hacts, -⟩
  · rw [h]
    exact (acts_change (.access key)).tail (.change (.aside ⟨rfl, rfl, rfl, rfl, rfl, rfl, rfl⟩ rfl))
  · rw [h]
    exact hacts.tail (.change (.aside ⟨rfl, rfl, rfl, rfl, rfl, rfl, rfl⟩ rfl))

theorem acts_set (hkey : P (.write key)) (now : Nat) {value : Value SortedSet} {nbytes : Int}
    (hcounted : Counted value nbytes) (keepTtl : Bool) (e : Engine σ) :
    Acts now P e (e.set now key value nbytes keepTtl) := by
  unfold Engine.set
  split
  case isTrue =>
    rcases e.lookup_cases now P key with ⟨entry, hget, h⟩ | ⟨e', h, hacts, habsent⟩
    · rw [h]
      exact acts_change (.replace true hkey hget hcounted)
    · rw [h]
      exact hacts.tail (.change (.insert hkey habsent hcounted))
  case isFalse =>
    cases hget : e.store.data.get? key with
    | none => exact acts_change (.insert hkey (fun _ => hget) hcounted)
    | some old => exact acts_change (.replace false hkey hget hcounted)

theorem acts_delete (hkey : P (.drop key)) (now : Nat) (e : Engine σ) :
    Acts now P e (e.delete now key).2 := by
  unfold Engine.delete
  rcases e.lookup_cases now P key with ⟨entry, -, h⟩ | ⟨e', h, hacts, -⟩
  · rw [h]
    exact acts_change (.remove hkey)
  · rwa [h]

theorem acts_setExpiry {atMs : Int} (hkey : P (.date key (some atMs))) (now : Nat) (e : Engine σ) :
    Acts now P e (e.setExpiry now key atMs).2 := by
  unfold Engine.setExpiry
  rcases e.lookup_cases now P key with ⟨entry, hget, h⟩ | ⟨e', h, hacts, -⟩
  · rw [h]
    exact acts_change (.setDeadline _ hkey hget)
  · rwa [h]

theorem acts_persist (hkey : P (.date key none)) (now : Nat) (e : Engine σ) :
    Acts now P e (e.persist now key).2 := by
  unfold Engine.persist
  rcases e.lookup_cases now P key with ⟨entry, hget, h⟩ | ⟨e', h, hacts, -⟩
  · rw [h]
    simp only
    split
    · exact .refl
    · exact acts_change (.setDeadline _ hkey hget)
  · rwa [h]

theorem acts_loadRecord (hkey : P (.write key)) {expiresAt : Option Int}
    (hdate : ∀ d ∈ expiresAt, P (.date key (some d))) (now : Nat) (payload : Payload) (e : Engine σ) :
    Acts now P e (e.loadRecord now key payload expiresAt) := by
  have hdrawn : Acts now P e (e.onStore fun s =>
      { s with levels := (Store.buildValue e.store.levels payload).2.2 }) :=
    acts_change (.aside ⟨rfl, rfl, rfl, rfl, rfl, rfl, rfl⟩ rfl)
  have hset := hdrawn.trans (acts_set hkey now (counted_buildValue e.store.levels payload) false _)
  unfold Engine.loadRecord
  cases expiresAt with
  | none => exact hset
  | some atMs => exact hset.trans (acts_setExpiry (hdate atMs rfl) now _)

theorem acts_zsetCall (call : ZCall) (h : Op.Needs P (.zset key call)) (e : Engine σ) :
    Acts now P e (e.zsetCall key call).2 := by
  have hentry : ∀ z, e.store.zsetAt key = some z → ∀ entry, e.store.data.get? key = some entry →
      entry.value = .zset z ∧ e.nbytesAt key = entry.nbytes := by
    intro z hz entry hget
    simp only [Store.zsetAt, hget] at hz
    refine ⟨?_, by simp [nbytesAt, hget]⟩
    split at hz <;> simp_all
  cases call with
  | add member score =>
    simp only [Engine.zsetCall]
    split
    · exact .refl
    case h_2 z hz =>
      have hmutate : Store.Change now P e.store
          (e.store.mutate key (.zset (z.add member score (e.store.levels 0)))
            (Store.zaddBytes z member (e.nbytesAt key))) := by
        refine .mutate h fun entry hget hcounted => ?_
        obtain ⟨hvalue, hbytes⟩ := hentry z hz entry hget
        rw [hbytes]
        exact counted_zadd (hvalue ▸ hcounted) member score _
      exact (acts_change hmutate).tail (.change (.aside ⟨rfl, rfl, rfl, rfl, rfl, rfl, rfl⟩ rfl))
  | remove member =>
    simp only [Engine.zsetCall]
    split
    · exact .refl
    case h_2 z hz =>
      refine acts_change (.mutate h fun entry hget hcounted => ?_)
      obtain ⟨hvalue, hbytes⟩ := hentry z hz entry hget
      rw [hbytes]
      exact counted_zrem (hvalue ▸ hcounted) member
  | _ => exact .refl

theorem acts_edit (hkey : P (.change key)) (edits : List Edit) (e : Engine σ) :
    Acts now P e (e.onStore (Store.edit key edits)) := by
  cases hget : e.store.data.get? key with
  | none =>
    have hsame : e.onStore (Store.edit key edits) = e := by simp [onStore, Store.edit, hget]
    rw [hsame]
  | some entry =>
    refine acts_change ?_
    simp only [Store.edit, hget]
    refine .mutate hkey fun entry' hget' hcounted => ?_
    obtain rfl : entry = entry' := by simpa [hget] using hget'
    exact counted_edits hcounted edits

theorem acts_iterKeys (now : Nat) (keys : List Str) (e : Engine σ) :
    Acts now P e (e.iterKeys now keys).2 := by
  induction keys generalizing e with
  | nil => exact .refl
  | cons key rest ih =>
    unfold iterKeys
    rcases e.lookup_cases now P key with ⟨entry, -, h⟩ | ⟨e', h, hacts, -⟩
    · rw [h]
      exact ih e
    · rw [h]
      exact hacts.trans (ih e')

theorem acts_startRewrite (hcopy : P .copy) (env : Env) (e : Engine σ) :
    Acts env.now P e (e.startRewrite env).2 := by
  unfold startRewrite
  split
  · exact .refl
  · simp only
    split
    · exact .single (.files _ hcopy)
    · split
      case isTrue h =>
        have hjob := Option.isNone_iff_eq_none.mp h.2
        simp only [beginSnapshot, hjob, Option.isSome_none, Bool.false_eq_true, if_false]
        exact .head (.files _ hcopy) (.single (.begin .rewrite hcopy hjob))
      case isFalse => exact .single (.files _ hcopy)

theorem acts_save (hcopy : P .copy) (env : Env) (e : Engine σ) : Acts env.now P e (e.save env).2 := by
  have hstart : Acts env.now P e (e.startRewrite env).2 := acts_startRewrite hcopy env e
  unfold save
  split
  case h_1 heq => rwa [heq] at hstart
  case h_2 heq =>
    rw [heq] at hstart
    simp only
    split <;> exact (hstart.tail (.slice _ hcopy)).tail (.files _ hcopy)

/-- **What an operation does.** -/
theorem acts_exec (env : Env) {o : Op} (ho : o.Needs P) (e : Engine σ) :
    Acts env.now P e (exec env o e).2 := by
  cases o with
  | peek key | record key => exact acts_lookup env.now key e
  | get key => exact acts_get env.now key e
  | touch key => exact acts_change (.access key)
  | insert key value => exact acts_change (.plant _ _ ho)
  | mutate key edits => exact acts_edit ho edits e
  | zset key call => exact acts_zsetCall call ho e
  | set key value keepTtl => exact acts_set ho env.now (counted_str value 0) keepTtl e
  | delete key => exact acts_delete ho env.now e
  | setExpiry key atMs => exact acts_setExpiry ho env.now e
  | persist key => exact acts_persist ho env.now e
  | loadRecord key payload expiresAt => exact acts_loadRecord ho.1 ho.2 env.now payload e
  | flushAll => exact .single (.flush ho)
  | iterKeys => exact acts_iterKeys env.now _ e
  | propagate x => exact .single (.log ho)
  | startRewrite => exact acts_startRewrite ho env e
  | save => exact acts_save ho env e
  | _ => exact .refl

end Operations

end Engine

end KvStore
