import KvStore.Engine.Engine
import Mathlib.Data.Finset.Card
import Mathlib.Data.Finset.Dedup

/-! # The eviction policies

The policies of `engine/eviction/`: least recently used, least frequently used, random, and none. Each
keeps its own record of the keys; the random ones draw from the source of randomness they hold.

* **`LawfulPolicy`** — what the store relies on: a policy that is told of every insertion and removal
  tracks exactly the keys of the store, and names only such keys as victims.
* **`Policy`** — the policy of a node, one of the four (`create_eviction_policy`). -/

namespace KvStore

open List

/-! ## Laws -/

/-- **A lawful policy** tracks the keys it is told of. -/
class LawfulPolicy (σ : Type) [EvictionPolicy σ] where
  /-- The policy tracks exactly the keys of a set. -/
  Tracks : σ → Finset Str → Prop
  clear : ∀ p : σ, Tracks (EvictionPolicy.clear p) ∅
  onInsert : ∀ (now : Nat) {p : σ} {K : Finset Str} {key : Str}, Tracks p K → key ∉ K →
    Tracks (EvictionPolicy.onInsert now key p) (insert key K)
  onAccess : ∀ (now : Nat) {p : σ} {K : Finset Str} (key : Str), Tracks p K →
    Tracks (EvictionPolicy.onAccess now key p) K
  onRemove : ∀ {p : σ} {K : Finset Str} {key : Str}, Tracks p K → key ∈ K →
    Tracks (EvictionPolicy.onRemove key p) (K.erase key)
  /-- `victim` tracks the same keys. -/
  victim : ∀ (now : Nat) (protect : List Str) {p : σ} {K : Finset Str}, Tracks p K →
    Tracks (EvictionPolicy.victim now protect p).2 K
  /-- A victim is a key that is tracked and not protected. -/
  victim_mem : ∀ (now : Nat) (protect : List Str) {p : σ} {K : Finset Str} {key : Str}, Tracks p K →
    (EvictionPolicy.victim now protect p).1 = some key → key ∈ K ∧ key ∉ protect

/-! ## No eviction -/

instance : LawfulPolicy NoEviction where
  Tracks p K := p.count = K.card
  clear _ := rfl
  onInsert _ {p K key} h hkey := by
    change p.count + 1 = _
    rw [h, Finset.card_insert_of_notMem hkey]
    simp
  onAccess _ _ _ _ h := h
  onRemove {p K key} h hkey := by
    change p.count - 1 = _
    have hpos := Finset.card_pos.mpr ⟨key, hkey⟩
    rw [h, Finset.card_erase_of_mem hkey]
    omega
  victim _ _ _ _ h := h
  victim_mem _ _ _ _ _ _ h := by cases h

/-! ## Least recently used -/

/-- `LRUPolicy`: the keys, the one used longest ago first. -/
structure LRU where
  order : List Str
  /-- Every key once. -/
  nodup : order.Nodup

namespace LRU

/-- A key goes to the end: `move_to_end`, after an insertion if it is new. -/
def touch (key : Str) (p : LRU) : LRU where
  order := p.order.erase key ++ [key]
  nodup := by
    refine nodup_append.mpr ⟨p.nodup.erase key, nodup_singleton key, ?_⟩
    rintro a ha b hb rfl
    rw [mem_singleton] at hb
    exact (p.nodup.mem_erase_iff.mp (hb ▸ ha)).1 rfl

/-- A key leaves. -/
def forget (key : Str) (p : LRU) : LRU := ⟨p.order.erase key, p.nodup.erase key⟩

end LRU

instance : EvictionPolicy LRU where
  evicts _ := true
  onInsert _ key p := p.touch key
  onAccess _ key p := if key ∈ p.order then p.touch key else p
  onRemove key p := p.forget key
  victim _ protect p := (p.order.find? fun key => key ∉ protect, p)
  clear _ := ⟨[], nodup_nil⟩

theorem LRU.mem_touch (key k : Str) (p : LRU) : k ∈ (p.touch key).order ↔ k = key ∨ k ∈ p.order := by
  simp only [touch, mem_append, p.nodup.mem_erase_iff, mem_singleton]
  by_cases hk : k = key <;> simp [hk]

instance : LawfulPolicy LRU where
  Tracks p K := ∀ key, key ∈ p.order ↔ key ∈ K
  clear _ key := by simp [EvictionPolicy.clear]
  onInsert _ _ _ key h _ k := by
    rw [Finset.mem_insert, ← h k]
    exact LRU.mem_touch key k _
  onAccess now p K key h k := by
    simp only [EvictionPolicy.onAccess]
    split
    case isTrue hmem =>
      rw [LRU.mem_touch, ← h k]
      exact ⟨fun hk => hk.elim (fun e => e ▸ hmem) id, .inr⟩
    case isFalse => exact h k
  onRemove {p K key} h _ k := by
    change k ∈ p.order.erase key ↔ _
    rw [p.nodup.mem_erase_iff, Finset.mem_erase, h k]
  victim _ _ _ _ h := h
  victim_mem _ protect p K key h hvictim := by
    have hfind : p.order.find? (fun key => key ∉ protect) = some key := hvictim
    exact ⟨(h key).mp (mem_of_find?_eq_some hfind), by simpa using find?_some hfind⟩

/-! ## Random -/

structure RandomPolicy where
  keys : KeySet
  /-- The random choices still to come. -/
  draws : Nat → Sampler

namespace RandomPolicy

/-- The loop of `victim`: up to `n` keys are drawn. It ends with no key (`some none`), with a key that
is not protected, or without a result. -/
def tries (protect : List Str) : Nat → RandomPolicy → Option (Option Str) × RandomPolicy
  | 0, p => (none, p)
  | n + 1, p =>
    let picked := (p.draws 0).pick p.keys.items (min 1 p.keys.size)
    let p := { p with draws := fun i => p.draws (i + 1) }
    match picked with
    | [] => (some none, p)
    | key :: _ => if key ∉ protect then (some (some key), p) else tries protect n p

/-- `victim`: eight tries, then the first key that is not protected. -/
def victim (protect : List Str) (p : RandomPolicy) : Option Str × RandomPolicy :=
  match tries protect 8 p with
  | (some result, p) => (result, p)
  | (none, p) => (p.keys.items.find? fun key => key ∉ protect, p)

end RandomPolicy

instance : EvictionPolicy RandomPolicy where
  evicts _ := true
  onInsert _ key p := { p with keys := p.keys.add key }
  onAccess _ _ p := p
  onRemove key p := { p with keys := p.keys.discard key }
  victim _ protect p := p.victim protect
  clear p := { p with keys := KeySet.empty }

/-- Drawing keys changes none, and draws a key that is there. -/
theorem RandomPolicy.tries_spec (protect : List Str) (n : Nat) (p : RandomPolicy) :
    (p.tries protect n).2.keys = p.keys ∧
      ∀ key, (p.tries protect n).1 = some (some key) → key ∈ p.keys.items ∧ key ∉ protect := by
  induction n generalizing p with
  | zero => exact ⟨rfl, nofun⟩
  | succ n ih =>
    have hpick := ((p.draws 0).subperm p.keys.items (min 1 p.keys.size)).subset
    unfold tries
    simp only
    split
    · exact ⟨rfl, nofun⟩
    case h_2 key rest heq =>
      split
      case isTrue hfree =>
        refine ⟨rfl, fun key' h => ?_⟩
        obtain rfl : key = key' := by simpa using h
        exact ⟨hpick (heq ▸ mem_cons_self), hfree⟩
      case isFalse => exact ih { p with draws := fun i => p.draws (i + 1) }

theorem RandomPolicy.victim_spec (protect : List Str) (p : RandomPolicy) :
    (p.victim protect).2.keys = p.keys ∧
      ∀ key, (p.victim protect).1 = some key → key ∈ p.keys.items ∧ key ∉ protect := by
  obtain ⟨hkeys, hmem⟩ := tries_spec protect 8 p
  unfold victim
  split
  case h_1 result p' heq =>
    rw [heq] at hkeys hmem
    exact ⟨hkeys, fun key h => hmem key (congrArg some h)⟩
  case h_2 p' heq =>
    rw [heq] at hkeys
    refine ⟨hkeys, fun key h => ?_⟩
    simp only at h hkeys
    rw [hkeys] at h
    exact ⟨mem_of_find?_eq_some h, by simpa using find?_some h⟩

instance : LawfulPolicy RandomPolicy where
  Tracks p K := ∀ key, key ∈ p.keys.items ↔ key ∈ K
  clear _ key := by simp [EvictionPolicy.clear, KeySet.empty]
  onInsert _ p K key h _ k := by
    rw [Finset.mem_insert, ← h k]
    exact (p.keys.mem_add key k).trans or_comm
  onAccess _ _ _ _ h := h
  onRemove {p K key} h _ k := by
    rw [Finset.mem_erase, ← h k]
    exact (p.keys.mem_discard key k).trans and_comm
  victim _ protect p K h key := by
    change key ∈ (p.victim protect).2.keys.items ↔ _
    rw [(p.victim_spec protect).1]
    exact h key
  victim_mem _ protect p K key h hvictim := by
    obtain ⟨hmem, hfree⟩ := (p.victim_spec protect).2 key hvictim
    exact ⟨(h key).mp hmem, hfree⟩

/-! ## Least frequently used -/

/-- `LFUPolicy`. -/
structure LFU where
  keys : KeySet
  /-- `_meta`: for every key its counter and the minute of its last change. -/
  counters : Dict Str (Int × Int)
  samples : Nat := 10
  logFactor : Nat := 10
  decayMinutes : Int := 1
  /-- The random samples still to come. -/
  draws : Nat → Sampler
  /-- The random numbers still to come: whether each is below the inverse of a number. -/
  chances : Nat → Nat → Bool

namespace LFU

def initCounter : Int := 5

def maxCounter : Int := 255

def minutes (now : Nat) : Int := (now / 60000000 : Nat)

/-- `counter`: the counter of a key after its decay. (The source raises for a key it does not track.) -/
def counter (now : Nat) (key : Str) (p : LFU) : Int :=
  match p.counters.get? key with
  | none => 0
  | some (counter, last) =>
    max 0 (if p.decayMinutes > 0 then counter - (minutes now - last).fdiv p.decayMinutes else counter)

def increment (counter : Int) (p : LFU) : Int × LFU :=
  if counter ≥ maxCounter then (maxCounter, p)
  else
    let base := (max 0 (counter - initCounter)).toNat
    let p' := { p with chances := fun i => p.chances (i + 1) }
    (if p.chances 0 (base * p.logFactor + 1) then counter + 1 else counter, p')

/-- `on_access`. -/
def use (now : Nat) (key : Str) (p : LFU) : LFU :=
  if (p.counters.get? key).isNone then p
  else
    let (counter, p) := p.increment (p.counter now key)
    { p with counters := p.counters.set key (counter, minutes now) }

/-- `min(candidates, key=…)`: the first of the least. -/
def least (f : Str → Int) : List Str → Option Str
  | [] => none
  | key :: rest => some (rest.foldl (fun best k => if f k < f best then k else best) key)

def victim (now : Nat) (protect : List Str) (p : LFU) : Option Str × LFU :=
  let sample := (p.draws 0).pick p.keys.items (min p.samples p.keys.size)
  let p := { p with draws := fun i => p.draws (i + 1) }
  let candidates := sample.filter fun key => key ∉ protect
  let candidates :=
    if candidates = [] then p.keys.items.filter fun key => key ∉ protect else candidates
  (least (fun key => p.counter now key) candidates, p)

end LFU

instance : EvictionPolicy LFU where
  evicts _ := true
  onInsert now key p :=
    { p with
      keys := p.keys.add key
      counters := p.counters.set key (LFU.initCounter, LFU.minutes now) }
  onAccess now key p := p.use now key
  onRemove key p :=
    if (p.counters.get? key).isNone then p
    else { p with keys := p.keys.discard key, counters := p.counters.erase key }
  victim now protect p := p.victim now protect
  clear p := { p with keys := KeySet.empty, counters := Dict.empty }

/-- The least of some keys is one of them. -/
theorem LFU.least_mem {f : Str → Int} {l : List Str} {key : Str} (h : least f l = some key) :
    key ∈ l := by
  have hfold : ∀ (l : List Str) (best : Str),
      l.foldl (fun best k => if f k < f best then k else best) best ∈ best :: l := by
    intro l
    induction l with
    | nil => simp
    | cons k rest ih =>
      intro best
      rw [foldl_cons]
      split
      · exact mem_cons_of_mem _ (ih k)
      · rcases mem_cons.mp (ih best) with heq | hmem
        · exact mem_cons.mpr (.inl heq)
        · exact mem_cons_of_mem _ (mem_cons_of_mem _ hmem)
  cases l with
  | nil => simp [least] at h
  | cons k rest =>
    obtain rfl : _ = key := by simpa [least] using h
    exact hfold rest k

theorem LFU.victim_mem {now : Nat} {protect : List Str} {p : LFU} {key : Str}
    (h : (p.victim now protect).1 = some key) : key ∈ p.keys.items ∧ key ∉ protect := by
  have hmem := least_mem h
  have hpick := ((p.draws 0).subperm p.keys.items (min p.samples p.keys.size)).subset
  split at hmem <;> simp only [mem_filter, decide_eq_true_eq] at hmem
  · exact hmem
  · exact ⟨hpick hmem.1, hmem.2⟩

/-- Counting an access changes the random numbers only. -/
theorem LFU.increment_spec (counter : Int) (p : LFU) :
    (p.increment counter).2.keys = p.keys ∧ (p.increment counter).2.counters = p.counters := by
  unfold increment
  split <;> exact ⟨rfl, rfl⟩

instance : LawfulPolicy LFU where
  Tracks p K := ∀ key, (key ∈ p.keys.items ↔ key ∈ K) ∧ ((p.counters.get? key).isSome ↔ key ∈ K)
  clear _ key := by simp [EvictionPolicy.clear, KeySet.empty]
  onInsert now p K key h _ k := by
    simp only [EvictionPolicy.onInsert, KeySet.mem_add, Dict.get?_set, Finset.mem_insert, (h k).1]
    refine ⟨or_comm, ?_⟩
    split
    case isTrue hk => simp [hk]
    case isFalse hk => simp [hk, (h k).2]
  onAccess now p K key h k := by
    simp only [EvictionPolicy.onAccess, LFU.use]
    split
    · exact h k
    case isFalse hkey =>
      obtain ⟨hkeys, hcounters⟩ := LFU.increment_spec (p.counter now key) p
      refine ⟨by simpa only [hkeys] using (h k).1, ?_⟩
      simp only [hcounters, Dict.get?_set]
      split
      case isTrue hk =>
        subst hk
        simp only [Option.isSome_some, true_iff]
        exact (h k).2.mp (by simpa [Option.isSome_iff_ne_none] using hkey)
      case isFalse => exact (h k).2
  onRemove {p K key} h hkey k := by
    have hsome := (h key).2.mpr hkey
    have hnone : (p.counters.get? key).isNone = false := by
      rw [← Option.not_isSome, hsome]
      rfl
    simp only [EvictionPolicy.onRemove, hnone, Bool.false_eq_true, if_false, KeySet.mem_discard,
      Dict.get?_erase, Finset.mem_erase, (h k).1]
    refine ⟨and_comm, ?_⟩
    split
    case isTrue hk => simp [hk]
    case isFalse hk => simp [hk, (h k).2]
  victim _ _ _ _ h := h
  victim_mem _ _ p K key h hvictim := by
    obtain ⟨hmem, hfree⟩ := LFU.victim_mem hvictim
    exact ⟨(h key).1.mp hmem, hfree⟩

/-! ## The policy of a node -/

/-- **One of the four policies** (`create_eviction_policy`). -/
inductive Policy
  | lru (p : LRU)
  | lfu (p : LFU)
  | random (p : RandomPolicy)
  | noeviction (p : NoEviction)

instance : EvictionPolicy Policy where
  evicts
    | .lru p => EvictionPolicy.evicts p
    | .lfu p => EvictionPolicy.evicts p
    | .random p => EvictionPolicy.evicts p
    | .noeviction p => EvictionPolicy.evicts p
  onInsert now key
    | .lru p => .lru (EvictionPolicy.onInsert now key p)
    | .lfu p => .lfu (EvictionPolicy.onInsert now key p)
    | .random p => .random (EvictionPolicy.onInsert now key p)
    | .noeviction p => .noeviction (EvictionPolicy.onInsert now key p)
  onAccess now key
    | .lru p => .lru (EvictionPolicy.onAccess now key p)
    | .lfu p => .lfu (EvictionPolicy.onAccess now key p)
    | .random p => .random (EvictionPolicy.onAccess now key p)
    | .noeviction p => .noeviction (EvictionPolicy.onAccess now key p)
  onRemove key
    | .lru p => .lru (EvictionPolicy.onRemove key p)
    | .lfu p => .lfu (EvictionPolicy.onRemove key p)
    | .random p => .random (EvictionPolicy.onRemove key p)
    | .noeviction p => .noeviction (EvictionPolicy.onRemove key p)
  victim now protect
    | .lru p => (EvictionPolicy.victim now protect p).map id .lru
    | .lfu p => (EvictionPolicy.victim now protect p).map id .lfu
    | .random p => (EvictionPolicy.victim now protect p).map id .random
    | .noeviction p => (EvictionPolicy.victim now protect p).map id .noeviction
  clear
    | .lru p => .lru (EvictionPolicy.clear p)
    | .lfu p => .lfu (EvictionPolicy.clear p)
    | .random p => .random (EvictionPolicy.clear p)
    | .noeviction p => .noeviction (EvictionPolicy.clear p)

/-- The keys a policy tracks, as it keeps them. -/
def Policy.Tracks : Policy → Finset Str → Prop
  | .lru p => LawfulPolicy.Tracks p
  | .lfu p => LawfulPolicy.Tracks p
  | .random p => LawfulPolicy.Tracks p
  | .noeviction p => LawfulPolicy.Tracks p

instance : LawfulPolicy Policy where
  Tracks := Policy.Tracks
  clear p := by cases p <;> exact LawfulPolicy.clear _
  onInsert now {p} _ _ h hkey := by cases p <;> exact LawfulPolicy.onInsert now h hkey
  onAccess now {p} _ key h := by cases p <;> exact LawfulPolicy.onAccess now key h
  onRemove {p} _ _ h hkey := by cases p <;> exact LawfulPolicy.onRemove h hkey
  victim now protect {p} _ h := by cases p <;> exact LawfulPolicy.victim now protect h
  victim_mem now protect {p} _ _ h hvictim := by
    cases p <;> exact LawfulPolicy.victim_mem now protect h hvictim

end KvStore
