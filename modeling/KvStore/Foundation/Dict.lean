import Mathlib.Data.List.Nodup
import Mathlib.Data.List.Perm.Subperm

/-! # Insertion-ordered finite maps

A `Dict κ ν` is the map a scripting language calls a dictionary: at most one value for each key, and
the keys listed in the order they were first inserted. Assigning to a key that is present replaces
its value *in place*, assigning to an absent key appends it, and a key that is removed and assigned
again goes to the end. The distinctness of the keys is a field of the structure, so that every
`Dict` is well formed. Two dictionaries are compared through `get?`; the order only shows in
`entries` and `keys`. -/

namespace KvStore

open List

variable {κ ν : Type} [DecidableEq κ]

/-! ## Association lists -/

/-- The value a list of pairs gives to `k`: that of the first pair with this key. -/
def assocGet (k : κ) : List (κ × ν) → Option ν
  | [] => none
  | (k', v) :: rest => if k' = k then some v else assocGet k rest

/-- Assignment: replace the value of the pair with key `k`, or append a new pair. -/
def assocSet (k : κ) (v : ν) : List (κ × ν) → List (κ × ν)
  | [] => [(k, v)]
  | (k', v') :: rest => if k' = k then (k, v) :: rest else (k', v') :: assocSet k v rest

/-- Removal of the pairs with key `k`. -/
def assocErase (k : κ) (l : List (κ × ν)) : List (κ × ν) := l.filter fun p => p.1 ≠ k

/-- A key that has a value occurs among the keys, and conversely. -/
theorem assocGet_isSome_iff (k : κ) (l : List (κ × ν)) :
    (assocGet k l).isSome ↔ k ∈ l.map Prod.fst := by
  induction l with
  | nil => simp [assocGet]
  | cons p rest ih =>
    obtain ⟨k', v⟩ := p
    by_cases h : k' = k
    · simp [assocGet, h]
    · have h' : k ≠ k' := fun e => h e.symm
      simp [assocGet, h, h', ih]

variable {k : κ} {l : List (κ × ν)} {v : ν}

/-- A pair of a list with distinct keys is the one `assocGet` finds. -/
theorem assocGet_of_mem (hnd : (l.map Prod.fst).Nodup) (hmem : (k, v) ∈ l) : assocGet k l = some v := by
  induction l with
  | nil => simp at hmem
  | cons p rest ih =>
    obtain ⟨k', v'⟩ := p
    simp only [map_cons, nodup_cons] at hnd
    rcases mem_cons.mp hmem with heq | hrest
    · simp_all [assocGet]
    · have hne : k' ≠ k := by
        rintro rfl
        exact hnd.1 (mem_map_of_mem (f := Prod.fst) hrest)
      simp [assocGet, hne, ih hnd.2 hrest]

/-- What `assocGet` finds is a pair of the list. -/
theorem mem_of_assocGet (h : assocGet k l = some v) : (k, v) ∈ l := by
  induction l with
  | nil => simp [assocGet] at h
  | cons p rest ih =>
    obtain ⟨k', v'⟩ := p
    by_cases hk : k' = k
    · simp_all [assocGet]
    · simp only [assocGet, hk, if_false] at h
      exact mem_cons_of_mem _ (ih h)

/-- With distinct keys the order of the pairs does not matter. -/
theorem assocGet_perm {l' : List (κ × ν)} (hnd : (l.map Prod.fst).Nodup) (hperm : l.Perm l') (k : κ) :
    assocGet k l = assocGet k l' := by
  have hnd' : (l'.map Prod.fst).Nodup := (hperm.map Prod.fst).nodup_iff.mp hnd
  apply Option.ext
  intro v
  constructor
  · intro h
    exact assocGet_of_mem hnd' (hperm.mem_iff.mp (mem_of_assocGet h))
  · intro h
    exact assocGet_of_mem hnd (hperm.mem_iff.mpr (mem_of_assocGet h))

/-- Assignment adds the key at most once. -/
theorem map_fst_assocSet (k : κ) (v : ν) (l : List (κ × ν)) :
    (assocSet k v l).map Prod.fst =
      if k ∈ l.map Prod.fst then l.map Prod.fst else l.map Prod.fst ++ [k] := by
  induction l with
  | nil => simp [assocSet]
  | cons p rest ih =>
    obtain ⟨k', v'⟩ := p
    by_cases h : k' = k
    · simp [assocSet, h]
    · have h' : k ≠ k' := fun e => h e.symm
      simp only [assocSet, h, if_false, map_cons, ih, mem_cons, h', false_or]
      split <;> simp

/-- Assigning to an absent key appends it. -/
theorem assocSet_of_not_mem (h : k ∉ l.map Prod.fst) : assocSet k v l = l ++ [(k, v)] := by
  induction l with
  | nil => rfl
  | cons p rest ih =>
    obtain ⟨k', v'⟩ := p
    simp only [map_cons, mem_cons, not_or] at h
    have hne : k' ≠ k := fun e => h.1 e.symm
    rw [assocSet, if_neg hne, ih h.2, cons_append]

/-- Assignment determines the value of `k` and of no other key. -/
theorem assocGet_assocSet (k k' : κ) (v : ν) (l : List (κ × ν)) :
    assocGet k' (assocSet k v l) = if k' = k then some v else assocGet k' l := by
  induction l with
  | nil =>
    by_cases h : k' = k
    · simp [assocSet, assocGet, h]
    · have h' : k ≠ k' := fun e => h e.symm
      simp [assocSet, assocGet, h, h']
  | cons p rest ih =>
    obtain ⟨k₀, v₀⟩ := p
    by_cases h₀ : k₀ = k
    · subst h₀
      by_cases h : k' = k₀
      · simp [assocSet, assocGet, h]
      · have h' : k₀ ≠ k' := fun e => h e.symm
        simp [assocSet, assocGet, h, h']
    · simp only [assocSet, h₀, if_false, assocGet, ih]
      by_cases h : k₀ = k'
      · subst h
        simp [h₀]
      · simp [h]

/-- Removal forgets `k` and no other key. -/
theorem assocGet_assocErase (k k' : κ) (l : List (κ × ν)) :
    assocGet k' (assocErase k l) = if k' = k then none else assocGet k' l := by
  induction l with
  | nil => simp [assocErase, assocGet]
  | cons p rest ih =>
    obtain ⟨k₀, v₀⟩ := p
    simp only [assocErase] at ih ⊢
    by_cases h₀ : k₀ = k
    · subst h₀
      by_cases h : k' = k₀
      · simpa [assocGet, h] using ih
      · have h' : k₀ ≠ k' := fun e => h e.symm
        simpa [assocGet, h, h'] using ih
    · simp only [ne_eq, h₀, not_false_eq_true, decide_true, filter_cons_of_pos, assocGet]
      by_cases h : k₀ = k'
      · subst h
        simp [h₀]
      · simpa [h] using ih

/-- Removal of a key from the middle of a list with distinct keys. -/
theorem assocErase_append_cons {l₁ l₂ : List (κ × ν)}
    (hnd : ((l₁ ++ (k, v) :: l₂).map Prod.fst).Nodup) :
    assocErase k (l₁ ++ (k, v) :: l₂) = l₁ ++ l₂ := by
  rw [map_append, map_cons, nodup_append] at hnd
  obtain ⟨-, h₂, hdisj⟩ := hnd
  have hkeep₁ : ∀ p ∈ l₁, p.1 ≠ k := fun p hp =>
    hdisj p.1 (mem_map_of_mem hp) k (by simp)
  have hkeep₂ : ∀ p ∈ l₂, p.1 ≠ k := by
    intro p hp heq
    exact (nodup_cons.mp h₂).1 (mem_map.mpr ⟨p, hp, heq⟩)
  have hfilter : ∀ l : List (κ × ν), (∀ p ∈ l, p.1 ≠ k) → l.filter (fun p => p.1 ≠ k) = l := by
    intro l hl
    simpa [filter_eq_self] using hl
  simp only [assocErase, filter_append, hfilter l₁ hkeep₁]
  rw [filter_cons_of_neg (by simp), hfilter l₂ hkeep₂]

/-! ## Dictionaries -/

/-- **An insertion-ordered map**: pairs with pairwise distinct keys. -/
structure Dict (κ ν : Type) where
  /-- The pairs, oldest key first. -/
  entries : List (κ × ν)
  nodup : (entries.map Prod.fst).Nodup

namespace Dict

variable {d : Dict κ ν}

omit [DecidableEq κ] in
@[ext] theorem ext {d' : Dict κ ν} (h : d.entries = d'.entries) : d = d' := by
  cases d; cases d'; simp_all

instance [DecidableEq ν] : DecidableEq (Dict κ ν) := fun d d' =>
  decidable_of_iff (d.entries = d'.entries) ⟨ext, fun h => h ▸ rfl⟩

/-- The empty dictionary. -/
def empty : Dict κ ν := ⟨[], by simp⟩

/-- The value of a key, if it is present. -/
def get? (d : Dict κ ν) (k : κ) : Option ν := assocGet k d.entries

/-- `d[k] = v`. -/
def set (d : Dict κ ν) (k : κ) (v : ν) : Dict κ ν where
  entries := assocSet k v d.entries
  nodup := by
    rw [map_fst_assocSet]
    split
    · exact d.nodup
    · rename_i h
      exact nodup_append.mpr ⟨d.nodup, nodup_singleton k, by
        intro a ha b hb
        rw [mem_singleton] at hb
        rintro rfl
        exact h (hb ▸ ha)⟩

/-- `d.pop(k, None)`, as a state change. -/
def erase (d : Dict κ ν) (k : κ) : Dict κ ν where
  entries := assocErase k d.entries
  nodup := d.nodup.sublist ((filter_sublist).map Prod.fst)

/-- The keys, oldest first. -/
def keys (d : Dict κ ν) : List κ := d.entries.map Prod.fst

/-- The number of keys. -/
def size (d : Dict κ ν) : Nat := d.entries.length

@[simp] theorem get?_empty (k : κ) : (empty : Dict κ ν).get? k = none := rfl

@[simp] theorem get?_set (d : Dict κ ν) (k k' : κ) (v : ν) :
    (d.set k v).get? k' = if k' = k then some v else d.get? k' :=
  assocGet_assocSet k k' v d.entries

@[simp] theorem get?_erase (d : Dict κ ν) (k k' : κ) :
    (d.erase k).get? k' = if k' = k then none else d.get? k' :=
  assocGet_assocErase k k' d.entries

theorem mem_keys_iff (d : Dict κ ν) (k : κ) : k ∈ d.keys ↔ ∃ v, d.get? k = some v := by
  rw [keys, ← assocGet_isSome_iff, Option.isSome_iff_exists]
  rfl

/-- The pairs are the keys with their values. -/
theorem mem_entries_iff (d : Dict κ ν) (k : κ) (v : ν) :
    (k, v) ∈ d.entries ↔ d.get? k = some v :=
  ⟨assocGet_of_mem d.nodup, mem_of_assocGet⟩

omit [DecidableEq κ] in
theorem nodup_entries (d : Dict κ ν) : d.entries.Nodup := d.nodup.of_map _

/-- Up to order, a dictionary is one of its pairs and the rest. -/
theorem entries_perm {k : κ} {v : ν} (h : d.get? k = some v) :
    d.entries.Perm ((k, v) :: (d.erase k).entries) := by
  have hnd : ((k, v) :: (d.erase k).entries).Nodup := by
    simp [(d.erase k).nodup_entries, mem_entries_iff]
  rw [perm_ext_iff_of_nodup d.nodup_entries hnd]
  rintro ⟨k', v'⟩
  rw [mem_cons, mem_entries_iff, mem_entries_iff, get?_erase, Prod.mk.injEq]
  by_cases hk : k' = k
  · simp [hk, h, eq_comm]
  · simp [hk]

/-- Up to order, assignment puts one pair before what other keys have. -/
theorem entries_set_perm (d : Dict κ ν) (k : κ) (v : ν) :
    (d.set k v).entries.Perm ((k, v) :: (d.erase k).entries) := by
  have herase : (d.set k v).erase k = d.erase k := by
    have : ∀ l : List (κ × ν), assocErase k (assocSet k v l) = assocErase k l := by
      intro l
      induction l with
      | nil => simp [assocSet, assocErase]
      | cons p rest ih =>
        obtain ⟨k', v'⟩ := p
        simp only [assocErase] at ih ⊢
        by_cases hk : k' = k
        · simp [assocSet, hk]
        · simpa [assocSet, hk] using ih
    exact Dict.ext (this d.entries)
  have h := entries_perm (show (d.set k v).get? k = some v by simp)
  rwa [herase] at h

/-- Assigning the value a key has changes nothing. -/
theorem set_of_get?_eq_some {k : κ} {v : ν} (h : d.get? k = some v) : d.set k v = d := by
  have : ∀ l : List (κ × ν), assocGet k l = some v → assocSet k v l = l := by
    intro l
    induction l with
    | nil => simp [assocGet]
    | cons p rest ih =>
      obtain ⟨k', v'⟩ := p
      intro hl
      by_cases hk : k' = k
      · simp_all [assocGet, assocSet]
      · simp only [assocGet, hk, if_false] at hl
        simp [assocSet, hk, ih hl]
  exact Dict.ext (this d.entries h)

/-- Removing an absent key changes nothing. -/
theorem erase_of_get?_eq_none {k : κ} (h : d.get? k = none) : d.erase k = d := by
  apply Dict.ext
  refine filter_eq_self.mpr fun p hp => decide_eq_true ?_
  rintro rfl
  rw [(d.mem_entries_iff p.1 p.2).mp hp] at h
  simp at h

end Dict

end KvStore
