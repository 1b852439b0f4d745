import KvStore.Engine.Accounts
import KvStore.Engine.Outcomes

/-! # The eviction loop

* **`CompletePolicy`** — what the eviction relies on besides `LawfulPolicy`: a policy that evicts names a
  victim as long as there is a key that is not protected.
* **`Store.Evicts`** — what the eviction loop does to a store; `Store.evictLoop_within` says where it ends.
* **`Store.evicts_steps`**, **`Store.keySet_moves`** — what moves do to the policy and to the keys. -/

namespace KvStore

open Commands List

/-! ## Policies -/

/-- **A complete policy** keeps being one that evicts or not, and if it does, it gives up only when all keys
are protected. -/
class CompletePolicy (σ : Type) [EvictionPolicy σ] [LawfulPolicy σ] : Prop where
  evicts_clear : ∀ p : σ, EvictionPolicy.evicts (EvictionPolicy.clear p) = EvictionPolicy.evicts p
  evicts_onInsert : ∀ (now : Nat) (key : Str) (p : σ),
    EvictionPolicy.evicts (EvictionPolicy.onInsert now key p) = EvictionPolicy.evicts p
  evicts_onAccess : ∀ (now : Nat) (key : Str) (p : σ),
    EvictionPolicy.evicts (EvictionPolicy.onAccess now key p) = EvictionPolicy.evicts p
  evicts_onRemove : ∀ (key : Str) (p : σ),
    EvictionPolicy.evicts (EvictionPolicy.onRemove key p) = EvictionPolicy.evicts p
  evicts_victim : ∀ (now : Nat) (protect : List Str) (p : σ),
    EvictionPolicy.evicts (EvictionPolicy.victim now protect p).2 = EvictionPolicy.evicts p
  /-- Without a victim every key is protected. -/
  victim_none : ∀ (now : Nat) (protect : List Str) {p : σ} {K : Finset Str},
    LawfulPolicy.Tracks p K → EvictionPolicy.evicts p = true →
      (EvictionPolicy.victim now protect p).1 = none → ∀ key ∈ K, key ∈ protect

/-- Nothing is found in a list all of whose elements are protected, and only there. -/
theorem mem_protect_of_find?_eq_none {protect l : List Str}
    (h : l.find? (fun key => key ∉ protect) = none) {key : Str} (hkey : key ∈ l) : key ∈ protect := by
  have hfind := find?_eq_none.mp h key hkey
  simpa using hfind

instance : CompletePolicy NoEviction where
  evicts_clear _ := rfl
  evicts_onInsert _ _ _ := rfl
  evicts_onAccess _ _ _ := rfl
  evicts_onRemove _ _ := rfl
  evicts_victim _ _ _ := rfl
  victim_none _ _ _ _ _ h := by cases h

instance : CompletePolicy LRU where
  evicts_clear _ := rfl
  evicts_onInsert _ _ _ := rfl
  evicts_onAccess _ _ _ := rfl
  evicts_onRemove _ _ := rfl
  evicts_victim _ _ _ := rfl
  victim_none _ _ _ _ h _ hnone key hkey := mem_protect_of_find?_eq_none hnone ((h key).mpr hkey)

/-- The draws find no key only if there is none. -/
theorem RandomPolicy.tries_none {protect : List Str} {n : Nat} {p : RandomPolicy}
    (h : (p.tries protect n).1 = some none) : p.keys.items = [] := by
  induction n generalizing p with
  | zero => cases h
  | succ n ih =>
    unfold tries at h
    simp only at h
    split at h
    case h_1 heq =>
      -- as many keys are drawn as asked for, if there are enough
      have hlength := (p.draws 0).length_eq p.keys.items (min 1 p.keys.size)
      rw [heq, KeySet.size] at hlength
      rw [← length_eq_zero_iff]
      simp only [length_nil] at hlength
      omega
    case h_2 key rest heq =>
      split at h
      · cases h
      · exact ih (p := { p with draws := fun i => p.draws (i + 1) }) h

instance : CompletePolicy RandomPolicy where
  evicts_clear _ := rfl
  evicts_onInsert _ _ _ := rfl
  evicts_onAccess _ _ _ := rfl
  evicts_onRemove _ _ := rfl
  evicts_victim _ _ _ := rfl
  victim_none _ protect p K h _ hnone key hkey := by
    have hmem : key ∈ p.keys.items := (h key).mpr hkey
    obtain ⟨hkeys, -⟩ := p.tries_spec protect 8
    change (p.victim protect).1 = none at hnone
    unfold RandomPolicy.victim at hnone
    split at hnone
    case h_1 result p' heq =>
      cases hnone
      rw [RandomPolicy.tries_none (congrArg Prod.fst heq)] at hmem
      cases hmem
    case h_2 p' heq =>
      rw [heq] at hkeys
      rw [← hkeys] at hmem
      exact mem_protect_of_find?_eq_none hnone hmem

instance : CompletePolicy LFU where
  evicts_clear _ := rfl
  evicts_onInsert _ _ _ := rfl
  evicts_onAccess _ _ _ := rfl
  evicts_onRemove _ _ := rfl
  evicts_victim _ _ _ := rfl
  victim_none _ protect p K h _ hnone key hkey := by
    have hmem : key ∈ p.keys.items := (h key).1.mpr hkey
    -- the least of some keys is missing only if there are none, in the sample and in the scan
    have hleast : ∀ {f : Str → Int} {l : List Str}, LFU.least f l = none → l = [] := by
      intro f l h
      cases l with
      | nil => rfl
      | cons k rest => cases h
    have hcandidates := hleast hnone
    split at hcandidates
    case isTrue =>
      have hfree := filter_eq_nil_iff.mp hcandidates key hmem
      simpa using hfree
    case isFalse hsome => exact absurd hcandidates hsome

instance : CompletePolicy Policy where
  evicts_clear p := by cases p <;> rfl
  evicts_onInsert _ _ p := by cases p <;> rfl
  evicts_onAccess _ _ p := by cases p <;> rfl
  evicts_onRemove _ p := by cases p <;> rfl
  evicts_victim _ _ p := by cases p <;> rfl
  victim_none now protect {p} _ h hevicts hnone := by
    cases p with
    | lru p | lfu p | random p | noeviction p =>
      exact CompletePolicy.victim_none now protect (p := p) h hevicts hnone

/-! ## The eviction loop -/

namespace Store

open Relation

variable {σ : Type} [EvictionPolicy σ]

omit [EvictionPolicy σ] in
theorem size_eq_card (s : Store σ) : s.data.size = s.keySet.card := by
  rw [keySet, Dict.keys, toFinset_card_of_nodup s.data.nodup, Dict.size, length_map]

omit [EvictionPolicy σ] in
/-- Copying a key into the running snapshot changes no other entry. -/
theorem get?_snapshotBarrier_of_ne (s : Store σ) {key k : Str} (hk : k ≠ key) :
    (s.snapshotBarrier key).data.get? k = s.data.get? k := by
  unfold snapshotBarrier
  split
  · rfl
  · split
    · rfl
    · split
      · rfl
      · simp [hk]

theorem get?_remove (s : Store σ) (key k : Str) :
    (s.remove key).data.get? k = if k = key then none else s.data.get? k := by
  split
  case isTrue hk => rw [hk, get?_remove_self]
  case isFalse hk =>
    rw [← s.get?_snapshotBarrier_of_ne hk]
    unfold remove drop
    split
    · rfl
    · simp [hk]

theorem keySet_remove (s : Store σ) (key : Str) : (s.remove key).keySet = s.keySet.erase key := by
  ext k
  rw [Finset.mem_erase, mem_keySet, mem_keySet, get?_remove]
  by_cases hk : k = key <;> simp [hk]

omit [EvictionPolicy σ] in
@[simp] theorem policy_snapshotBarrier (s : Store σ) (key : Str) :
    (s.snapshotBarrier key).policy = s.policy := by
  unfold snapshotBarrier
  split
  · rfl
  · split
    · rfl
    · split <;> rfl

variable [LawfulPolicy σ]

/-- A removal does not make a policy another one. -/
theorem evicts_remove [CompletePolicy σ] (s : Store σ) (key : Str) :
    EvictionPolicy.evicts (s.remove key).policy = EvictionPolicy.evicts s.policy := by
  rw [← s.policy_snapshotBarrier key]
  unfold remove drop
  split
  · rfl
  · exact CompletePolicy.evicts_onRemove key _

/-- **What an eviction does**: the victims are different keys of the store, none of them protected; their
entries are gone and the others are as they were. -/
structure Evicts (protect : List Str) (s : Store σ) (victims : List Str) (s' : Store σ) : Prop where
  nodup : victims.Nodup
  held : ∀ key ∈ victims, key ∈ s.keySet
  spared : ∀ key ∈ victims, key ∉ protect
  data : ∀ key, s'.data.get? key = if key ∈ victims then none else s.data.get? key

section Evicts

variable {now : Nat} {protect victims : List Str} {s s' : Store σ}

section

omit [EvictionPolicy σ] [LawfulPolicy σ]

/-- Nothing is evicted. -/
theorem Evicts.nil (hdata : s'.data = s.data) : Evicts protect s [] s' where
  nodup := nodup_nil
  held := nofun
  spared := nofun
  data := by simp [hdata]

/-- One key is evicted, and then others. -/
theorem Evicts.cons {key : Str} {s₁ : Store σ} (hkey : key ∈ s.keySet) (hfree : key ∉ protect)
    (hdata : ∀ k, s₁.data.get? k = if k = key then none else s.data.get? k)
    (h : Evicts protect s₁ victims s') : Evicts protect s (key :: victims) s' where
  nodup := by
    -- a victim is no longer there when the next ones are chosen
    refine nodup_cons.mpr ⟨fun hmem => ?_, h.nodup⟩
    obtain ⟨entry, hget⟩ := (s₁.mem_keySet key).mp (h.held key hmem)
    simp [hdata] at hget
  held := by
    intro k hk
    rcases mem_cons.mp hk with rfl | hk
    · exact hkey
    · obtain ⟨entry, hget⟩ := (s₁.mem_keySet k).mp (h.held k hk)
      rw [hdata] at hget
      split at hget
      · cases hget
      · exact (s.mem_keySet k).mpr ⟨entry, hget⟩
  spared := by
    intro k hk
    rcases mem_cons.mp hk with rfl | hk
    · exact hfree
    · exact h.spared k hk
  data := by
    intro k
    rw [h.data, hdata]
    by_cases hk : k = key <;> simp [hk]

end

/-- The store after one round of the loop. -/
def evictOne (policy : σ) (victim : Str) (s : Store σ) : Store σ :=
  let s := { s with policy := policy }
  { s.remove victim with evictedKeys := s.evictedKeys + 1 }

section

omit [LawfulPolicy σ]

theorem get?_evictOne (policy : σ) (victim k : Str) (s : Store σ) :
    (s.evictOne policy victim).data.get? k = if k = victim then none else s.data.get? k :=
  get?_remove { s with policy := policy } victim k

theorem keySet_evictOne (policy : σ) (victim : Str) (s : Store σ) :
    (s.evictOne policy victim).keySet = s.keySet.erase victim :=
  keySet_remove { s with policy := policy } victim

theorem size_evictOne (policy : σ) {victim : Str} (h : victim ∈ s.keySet) :
    (s.evictOne policy victim).data.size + 1 = s.data.size := by
  rw [size_eq_card, size_eq_card, keySet_evictOne, Finset.card_erase_add_one h]

end

/-- **One round**: the victim is a key that is not protected, and the accounts stay in order. -/
theorem Balanced.evictOne (h : s.Balanced) {victim : Str} {policy : σ}
    (hvictim : EvictionPolicy.victim now protect s.policy = (some victim, policy)) :
    victim ∈ s.keySet ∧ victim ∉ protect ∧ (s.evictOne policy victim).Balanced := by
  obtain ⟨hmem, hfree⟩ := LawfulPolicy.victim_mem now protect h.tracks (congrArg Prod.fst hvictim)
  have htracks := LawfulPolicy.victim now protect h.tracks
  rw [hvictim] at htracks
  have hasked : Balanced { s with policy := policy } := h.of_eq rfl rfl htracks rfl
  exact ⟨hmem, hfree, (hasked.remove victim).of_eq rfl rfl (hasked.remove victim).tracks rfl⟩

omit [LawfulPolicy σ] in
theorem evictLoop_succ (fuel : Nat) : s.evictLoop now protect (fuel + 1) =
    if s.overLimit 0 then
      match EvictionPolicy.victim now protect s.policy with
      | (none, policy) => ([], { s with policy := policy })
      | (some victim, policy) =>
        (victim :: ((s.evictOne policy victim).evictLoop now protect fuel).1,
          ((s.evictOne policy victim).evictLoop now protect fuel).2)
    else ([], s) := by
  rw [evictLoop]
  split <;> rfl

/-- **What the loop does**, however many rounds it has. -/
theorem evicts_evictLoop (fuel : Nat) (h : s.Balanced) :
    Evicts protect s (s.evictLoop now protect fuel).1 (s.evictLoop now protect fuel).2 := by
  induction fuel generalizing s with
  | zero => exact .nil rfl
  | succ fuel ih =>
    rw [evictLoop_succ]
    split
    case isFalse => exact .nil rfl
    case isTrue =>
      split
      case h_1 policy heq => exact .nil rfl
      case h_2 victim policy heq =>
        obtain ⟨hmem, hfree, hnext⟩ := h.evictOne heq
        exact (ih hnext).cons hmem hfree (get?_evictOne policy victim · s)

/-- An empty store is within its limits. -/
theorem overLimit_of_size_eq_zero (h : s.Balanced) (hsize : s.data.size = 0) :
    s.overLimit 0 = false := by
  have hentries : s.data.entries = [] := length_eq_zero_iff.mp hsize
  have hmemory : s.usedMemory = 0 := by rw [h.memory, totalSize, hentries]; rfl
  simp [overLimit, hsize, hmemory]

/-- **The loop ends**: as many rounds as there are keys are enough, and more change nothing. -/
theorem evictLoop_fuel (h : s.Balanced) {m n : Nat} (hm : s.data.size ≤ m) (hn : s.data.size ≤ n) :
    s.evictLoop now protect m = s.evictLoop now protect n := by
  -- without keys the loop stops at once, whether there is a round left or not
  have hempty : ∀ {s : Store σ} {n : Nat}, s.Balanced → s.data.size = 0 →
      s.evictLoop now protect n = ([], s) := by
    intro s n h hsize
    cases n with
    | zero => rfl
    | succ n => rw [evictLoop_succ, overLimit_of_size_eq_zero h hsize, if_neg Bool.false_ne_true]
  induction m generalizing s n with
  | zero => rw [hempty h (by omega), hempty h (by omega)]
  | succ m ih =>
    cases n with
    | zero => rw [hempty h (by omega), hempty h (by omega)]
    | succ n =>
      rw [evictLoop_succ, evictLoop_succ]
      split
      case isFalse => rfl
      case isTrue =>
        split
        case h_1 => rfl
        case h_2 victim policy heq =>
          obtain ⟨hmem, -, hnext⟩ := h.evictOne heq
          have hsize := size_evictOne policy hmem
          rw [ih (n := n) hnext (by omega) (by omega)]

/-- **Where the loop ends**: within the limits, or with protected keys only. -/
theorem evictLoop_within [CompletePolicy σ] (h : s.Balanced)
    (hevicts : EvictionPolicy.evicts s.policy = true) {fuel : Nat} (hfuel : s.data.size ≤ fuel) :
    (s.evictLoop now protect fuel).2.overLimit 0 = false ∨
      ∀ key ∈ (s.evictLoop now protect fuel).2.keySet, key ∈ protect := by
  induction fuel generalizing s with
  | zero =>
    have hsize : s.data.size = 0 := by omega
    exact .inl (overLimit_of_size_eq_zero h hsize)
  | succ fuel ih =>
    rw [evictLoop_succ]
    split
    case isFalse hwithin => exact .inl (by simpa using hwithin)
    case isTrue =>
      split
      case h_1 policy heq =>
        exact .inr (CompletePolicy.victim_none now protect h.tracks hevicts
          (congrArg Prod.fst heq))
      case h_2 victim policy heq =>
        obtain ⟨hmem, -, hnext⟩ := h.evictOne heq
        have hpolicy : EvictionPolicy.evicts policy = true := by
          have hvictim := CompletePolicy.evicts_victim now protect s.policy
          rw [heq] at hvictim
          exact hvictim.trans hevicts
        have hsize := size_evictOne policy hmem
        refine ih hnext ?_ (by omega)
        exact (evicts_remove { s with policy := policy } victim).trans hpolicy

end Evicts

/-! ## Moves -/

section Moves

variable [CPython] {sure : Prop} {ks : List Str} {s s' : Store σ}

omit [CPython] [EvictionPolicy σ] [LawfulPolicy σ] in
theorem keySet_snapshotBarrier (s : Store σ) (key : Str) :
    (s.snapshotBarrier key).keySet = s.keySet := by
  unfold snapshotBarrier
  split
  · rfl
  · split
    · rfl
    case h_2 entry hget =>
      split
      · rfl
      · exact keySet_set_of_some hget rfl

omit [CPython] [EvictionPolicy σ] [LawfulPolicy σ] in
/-- What a slice of a snapshot leaves alone. -/
theorem stepSnapshot_keeps (n : Nat) (s : Store σ) :
    (s.stepSnapshot n).policy = s.policy ∧ (s.stepSnapshot n).keySet = s.keySet := by
  have hcopies : ∀ (keys : List Str) (s : Store σ),
      (keys.foldl (fun s key => s.snapshotBarrier key) s).policy = s.policy ∧
        keySet (keys.foldl (fun s key => s.snapshotBarrier key) s) = s.keySet := by
    intro keys
    induction keys with
    | nil => exact fun _ => ⟨rfl, rfl⟩
    | cons key rest ih =>
      intro s
      obtain ⟨hpolicy, hkeys⟩ := ih (s.snapshotBarrier key)
      exact ⟨hpolicy.trans (s.policy_snapshotBarrier key),
        hkeys.trans (s.keySet_snapshotBarrier key)⟩
  unfold stepSnapshot
  split
  · exact ⟨rfl, rfl⟩
  case h_2 job _ =>
    have hcopied := hcopies (job.pending.take n) s
    simp only
    split
    · exact hcopied
    · split <;> exact hcopied

/-- No move makes a policy another one. -/
theorem evicts_move [CompletePolicy σ] (h : Move sure ks s s') :
    EvictionPolicy.evicts s'.policy = EvictionPolicy.evicts s.policy := by
  cases h with
  | aside hsame => rw [hsame.policy]
  | access now key => exact CompletePolicy.evicts_onAccess now key _
  | victim now protect => exact CompletePolicy.evicts_victim now protect _
  | insert now => exact CompletePolicy.evicts_onInsert now _ _
  | replace now => exact CompletePolicy.evicts_onAccess now _ _
  | mutate =>
    unfold mutate
    split <;> rfl
  | setDeadline => rfl
  | remove key => exact s.evicts_remove key
  | clear =>
    change EvictionPolicy.evicts (EvictionPolicy.clear s.policy) = _
    exact CompletePolicy.evicts_clear s.policy
  | barrier key => rw [policy_snapshotBarrier]
  | stepSnapshot n => rw [(s.stepSnapshot_keeps n).1]

theorem evicts_moves [CompletePolicy σ] (h : Moves sure ks s s') :
    EvictionPolicy.evicts s'.policy = EvictionPolicy.evicts s.policy := by
  induction h with
  | refl => rfl
  | tail _ hmove ih => exact (evicts_move hmove).trans ih

/-- Accounting keys again does not either, nor does any step. -/
theorem evicts_refreshAll [CompletePolicy σ] (keys : List Str) (s : Store σ) :
    EvictionPolicy.evicts (s.refreshAll keys).policy = EvictionPolicy.evicts s.policy := by
  have hrefresh : ∀ (key : Str) (s : Store σ),
      EvictionPolicy.evicts (s.refresh key).policy = EvictionPolicy.evicts s.policy := by
    intro key s
    unfold refresh
    split
    · rfl
    · split
      · exact s.evicts_remove key
      · rfl
  unfold refreshAll
  induction keys generalizing s with
  | nil => rfl
  | cons key rest ih => exact (ih _).trans (hrefresh key s)

theorem evicts_steps [CompletePolicy σ] (h : Steps sure s s') :
    EvictionPolicy.evicts s'.policy = EvictionPolicy.evicts s.policy := by
  induction h with
  | refl => rfl
  | tail _ hstep ih =>
    refine Eq.trans ?_ ih
    cases hstep with
    | quiet hmoves => exact evicts_moves hmoves
    | begin => rfl
    | write ks _ hmoves => exact (evicts_refreshAll ks _).trans (evicts_moves hmoves)

section

omit [LawfulPolicy σ]

/-- **A move adds only keys that may change.** -/
theorem keySet_move (h : Move sure ks s s') : s'.keySet ⊆ s.keySet ∪ ks.toFinset := by
  have hset : ∀ {key : Str} {entry : Entry} {t : Store σ}, key ∈ ks →
      t.data = s.data.set key entry → t.keySet ⊆ s.keySet ∪ ks.toFinset := by
    intro key entry t hkey hdata k hk
    rw [keySet_set hdata, Finset.mem_insert] at hk
    rcases hk with rfl | hk
    · exact Finset.mem_union_right _ (mem_toFinset.mpr hkey)
    · exact Finset.mem_union_left _ hk
  have hsame : ∀ {t : Store σ}, t.keySet ⊆ s.keySet → t.keySet ⊆ s.keySet ∪ ks.toFinset :=
    fun h => h.trans Finset.subset_union_left
  cases h with
  | aside h => exact hsame (by rw [keySet, h.data]; rfl)
  | access | victim => exact hsame subset_rfl
  | insert now hkey | replace now keepTtl hkey | setDeadline deadline hkey => exact hset hkey rfl
  | @mutate key _ _ _ hkey =>
    unfold mutate
    split
    · exact hsame subset_rfl
    · exact hset hkey rfl
  | remove key => exact hsame (by rw [keySet_remove]; exact Finset.erase_subset _ _)
  | clear => exact hsame (Finset.empty_subset _)
  | barrier key => exact hsame (by rw [keySet_snapshotBarrier])
  | stepSnapshot n => exact hsame (by rw [(s.stepSnapshot_keeps n).2])

theorem keySet_refreshAll (keys : List Str) (s : Store σ) :
    (s.refreshAll keys).keySet ⊆ s.keySet := by
  have hrefresh : ∀ (key : Str) (s : Store σ), (s.refresh key).keySet ⊆ s.keySet := by
    intro key s
    unfold refresh
    split
    · exact subset_rfl
    case h_2 entry hget =>
      split
      · rw [keySet_remove]
        exact Finset.erase_subset _ _
      · exact subset_of_eq (keySet_set_of_some hget rfl)
  unfold refreshAll
  induction keys generalizing s with
  | nil => exact subset_rfl
  | cons key rest ih => exact (ih _).trans (hrefresh key s)

theorem keySet_moves (h : Moves sure ks s s') : s'.keySet ⊆ s.keySet ∪ ks.toFinset := by
  induction h with
  | refl => exact Finset.subset_union_left
  | tail _ hmove ih =>
    exact (keySet_move hmove).trans (Finset.union_subset ih Finset.subset_union_right)

end

end Moves

end Store

/-- An engine under `lru` that may hold one key, and holds it. -/
def Engine.lruFull [CPython] : Engine Policy :=
  ((Engine.new { policy := .lru ⟨[], nodup_nil⟩, maxKeys := 1, maxmemory := 0, levels := allLow }
    (Env.quiet 0) none).execute (Env.quiet 0) .set [text "a", text "1"]).2

end KvStore
