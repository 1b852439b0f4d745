import KvStore.Engine.SortedSet
import KvStore.Foundation.TowerEdits

/-! # The skip list, link by link

`engine/datatypes/skiplist.py` at the level of its nodes: what `insert` and `delete` do to the links,
the spans and the level of the list, and how the searches follow them. `none` stands for an index out
of range or a search that does not end; neither happens (`Holds.insert`, `Holds.delete`).

* **`Linked.SkipList`** — the nodes at their addresses, the header among them.
* **`Holds l xs`** — the nodes at the addresses `xs` are the elements of `l`, in this order: on every
  level the links lead to the next node that has the level, their spans are the differences of the
  positions, the links back mirror the lowest level, `tail` is the last node, `length` the number of
  nodes and `level` the highest level in use.
* **`Holds.insert`**, **`Holds.delete`** — both keep this up, whatever the scores and the levels drawn,
  NaN included: a search may then end at an odd place, but on all levels at the same.
* **`position_eq`** — the place found is the one that the plain list of nodes of `SkipList.position` says.

With it, `SortedSet` can forget about links. -/

namespace KvStore

open Towers List

/-- The comparisons of scores. They need not be those of an order: a NaN compares with nothing. -/
class Comparable (S : Type) where
  /-- `x < y`. -/
  lt : S → S → Bool
  /-- `x <= y`. -/
  le : S → S → Bool
  /-- `x == y`. -/
  eq : S → S → Bool

instance : Comparable Double := ⟨Double.lt, Double.le, Double.eq⟩

namespace Linked

/-- **A skip list**: nodes at addresses. The header stands at address 0. -/
structure SkipList (M S : Type) where
  /-- The nodes. -/
  heap : Heap (M × S)
  /-- The number of nodes made, and so the address of the next one. -/
  fresh : Nat
  tail : Option Nat
  level : Nat
  length : Nat

/-- The address of the header. -/
def header : Nat := 0

variable {M S : Type}

/-- `Node(level, member, score)`. -/
def newNode (level : Nat) (member : M) (score : S) : Cell (M × S) :=
  ⟨(member, score), none, List.replicate level none, List.replicate level 0⟩

namespace SkipList

/-- `SkipList()`. The element of the header is not looked at. -/
def new [Inhabited M] [Zero S] : SkipList M S :=
  ⟨fun _ => newNode maxLevel default 0, 1, none, 1, 0⟩

section Definitions

variable [LinearOrder M] [Comparable S] (l : SkipList M S)

def before (score : S) (member : M) (_ : Int) (e : M × S) : Bool :=
  Comparable.lt e.2 score || (Comparable.eq e.2 score && decide (e.1 < member))

/-- A search through all levels: where it stopped on each. -/
def search (go : Int → M × S → Bool) : Option (List (Nat × Int)) :=
  descend l.heap go l.fresh l.level (header, 0)

/-- `update[i]` after a search, which is the header where nothing was assigned. -/
def update (stops : List (Nat × Int)) (i : Nat) : Nat := (stops[i]?.getD (header, 0)).1

/-- `rank[i]` after a search. -/
def rankAt (stops : List (Nat × Int)) (i : Nat) : Int := (stops[i]?.getD (header, 0)).2

/-- `insert`, the levels that come into use. -/
def openLevels (level : Nat) : Option (SkipList M S) :=
  if l.level < level then
    (forRange l.level level (fun i heap => some (heap.setGap header i l.length)) l.heap).map fun heap =>
      { l with heap := heap, level := level }
  else some l

/-- `insert`, a level that the new node has. -/
def linkLevel (stops : List (Nat × Int)) (node i : Nat) (heap : Heap (M × S)) :
    Option (Heap (M × S)) :=
  let prev := update stops i
  let d := rankAt stops 0 - rankAt stops i
  (heap.next prev i).bind fun next => (heap.gap prev i).map fun gap =>
    (((heap.setNext node i next).setNext prev i (some node)).setGap node i (gap - d)).setGap prev i (d + 1)

/-- `insert`, a level above the new node. -/
def growLevel (stops : List (Nat × Int)) (i : Nat) (heap : Heap (M × S)) : Option (Heap (M × S)) :=
  let prev := update stops i
  (heap.gap prev i).map fun gap => heap.setGap prev i (gap + 1)

/-- **`insert`**, at a randomly drawn level. -/
def insert (score : S) (member : M) (top : Fin maxLevel) : Option (SkipList M S × Nat) := do
  let stops ← l.search (before score member)
  let level : Nat := top + 1
  let l ← l.openLevels level
  let node := l.fresh
  let heap := l.heap.alloc node (newNode level member score)
  let heap ← forRange 0 level (linkLevel stops node) heap
  let heap ← forRange level l.level (growLevel stops) heap
  let heap := heap.setBackward node (if update stops 0 = header then none else some (update stops 0))
  match ← heap.next node 0 with
  | some after =>
    return ({ l with heap := heap.setBackward after (some node), fresh := node + 1,
                     length := l.length + 1 }, node)
  | none =>
    return ({ l with heap := heap, fresh := node + 1, tail := some node,
                     length := l.length + 1 }, node)

def unlinkLevel (stops : List (Nat × Int)) (node i : Nat) (heap : Heap (M × S)) :
    Option (Heap (M × S)) :=
  let prev := update stops i
  (heap.next prev i).bind fun next => (heap.gap prev i).bind fun gap =>
    if next = some node then
      (heap.gap node i).bind fun gap' => (heap.next node i).map fun next' =>
        (heap.setGap prev i (gap + (gap' - 1))).setNext prev i next'
    else some (heap.setGap prev i (gap - 1))

/-- `_unlink`, the levels that are no longer in use. -/
def closeLevels (heap : Heap (M × S)) : Nat → Option Nat
  | n + 2 => (heap.next header (n + 1)).bind fun next =>
    if next = none then closeLevels heap (n + 1) else some (n + 2)
  | n => some n

def unlink (stops : List (Nat × Int)) (node : Nat) : Option (SkipList M S) := do
  let heap ← forRange 0 l.level (unlinkLevel stops node) l.heap
  let backward := (heap node).backward
  let (heap, tail) ← match ← heap.next node 0 with
    | some after => some (heap.setBackward after backward, l.tail)
    | none => some (heap, backward)
  let level ← closeLevels heap l.level
  return { l with heap := heap, tail := tail, level := level, length := l.length - 1 }

/-- **`delete`**: whether the element was found, and the list after. -/
def delete (score : S) (member : M) : Option (Bool × SkipList M S) := do
  let stops ← l.search (before score member)
  match ← l.heap.next (update stops 0) 0 with
  | none => return (false, l)
  | some target =>
    let e := (l.heap target).value
    if !Comparable.eq e.2 score || e.1 ≠ member then return (false, l)
    else return (true, ← l.unlink stops target)

end Definitions

/-! ## Loops over the levels -/

section Loops

variable (h : Heap (M × S)) (stops : List (Nat × Int)) (node : Nat)

/-- A loop that only writes spans of one cell for each level. -/
theorem forRange_setGap {a b : Nat} (body : Nat → Heap (M × S) → Option (Heap (M × S)))
    (cell : Nat → Nat) (value : Nat → Int) (hab : a ≤ b)
    (hcell : ∀ i, a ≤ i → i < b → ∃ g, h.gap (cell i) i = some g)
    (hbody : ∀ i s, a ≤ i → i < b → s.gap (cell i) i = h.gap (cell i) i →
      body i s = some (s.setGap (cell i) i (value i))) :
    ∃ h', forRange a b body h = some h' ∧ h.Frame h' ∧ (∀ x i, h'.next x i = h.next x i) ∧
      ∀ x i, h'.gap x i = if a ≤ i ∧ i < b then
        if x = cell i then some (value i) else h.gap x i else h.gap x i := by
  obtain ⟨h', heq, hframe, hnext, hgap⟩ :
      ∃ h', forRange a b body h = some h' ∧ h.Frame h' ∧
        (∀ x i, h'.next x i = if a ≤ i ∧ i < b then h.next x i else h.next x i) ∧
        ∀ x i, h'.gap x i = if a ≤ i ∧ i < b then
          if x = cell i then some (value i) else h.gap x i else h.gap x i := by
    refine forRange_levels (fun i x => h.next x i) _ hab fun i s hai hib hframe hs hg => ?_
    obtain ⟨g, hgi⟩ := hcell i hai hib
    refine ⟨_, hbody i s hai hib (hg _), hframe.setGap _ _ _, fun x j => ?_, fun x j => ?_⟩
    · by_cases hj : j = i
      · simp [hj, hs]
      · simp [hj]
    · rw [Heap.gap_setGap]
      by_cases hj : j = i
      · subst hj
        simp [hg, hgi]
      · simp [hj]
  exact ⟨h', heq, hframe, fun x i => by rw [hnext, ite_self], hgap⟩

/-- Linking the lowest `n` levels of a node. -/
theorem forRange_linkLevel (n : Nat) (hne : ∀ i < n, update stops i ≠ node)
    (hprev : ∀ i < n, ∃ y g, h.next (update stops i) i = some y ∧ h.gap (update stops i) i = some g)
    (hnode : ∀ i < n, ∃ y g, h.next node i = some y ∧ h.gap node i = some g) :
    ∃ h', forRange 0 n (linkLevel stops node) h = some h' ∧ h.Frame h' ∧
      (∀ x i, h'.next x i = if 0 ≤ i ∧ i < n then
          if x = update stops i then some (some node)
          else if x = node then h.next (update stops i) i
          else h.next x i
        else h.next x i) ∧
      ∀ x i, h'.gap x i = if 0 ≤ i ∧ i < n then
          if x = update stops i then some (rankAt stops 0 - rankAt stops i + 1)
          else if x = node then
            (h.gap (update stops i) i).map (· - (rankAt stops 0 - rankAt stops i))
          else h.gap x i
        else h.gap x i := by
  refine forRange_levels _ _ (Nat.zero_le n) fun i s _ hi hframe hs hg => ?_
  obtain ⟨y, g, hy, hgy⟩ := hprev i hi
  obtain ⟨y', g', hy', hgy'⟩ := hnode i hi
  refine ⟨_, by simp only [linkLevel, hs, hg, hy, hgy, Option.bind_some, Option.map_some]; rfl,
    hframe.setNext _ _ _ |>.setNext _ _ _ |>.setGap _ _ _ |>.setGap _ _ _, fun x j => ?_, fun x j => ?_⟩
  · simp only [Heap.next_setGap, Heap.next_setNext]
    by_cases hj : j = i
    · subst hj
      simp [hs, hy, hy', hne j hi]
    · simp [hj]
  · simp only [Heap.gap_setGap, Heap.gap_setNext]
    by_cases hj : j = i
    · subst hj
      simp [hg, hgy, hgy', hne j hi]
    · simp [hj]

/-- Longer links on the levels above a new node. -/
theorem forRange_growLevel {a b : Nat} (hab : a ≤ b)
    (hprev : ∀ i, a ≤ i → i < b → ∃ g, h.gap (update stops i) i = some g) :
    ∃ h', forRange a b (growLevel stops) h = some h' ∧ h.Frame h' ∧
      (∀ x i, h'.next x i = h.next x i) ∧
      ∀ x i, h'.gap x i = if a ≤ i ∧ i < b then
        if x = update stops i then (h.gap x i).map (· + 1) else h.gap x i else h.gap x i := by
  obtain ⟨h', heq, hframe, hnext, hgap⟩ := forRange_setGap h (growLevel stops) (update stops)
    (fun i => ((h.gap (update stops i) i).getD 0) + 1) hab hprev fun i s hai hib hs => by
      obtain ⟨g, hg⟩ := hprev i hai hib
      simp [growLevel, hs, hg]
  refine ⟨h', heq, hframe, hnext, fun x i => ?_⟩
  rw [hgap]
  split
  · rename_i hi
    split
    · rename_i hx
      obtain ⟨g, hg⟩ := hprev i hi.1 hi.2
      rw [hx, hg]
      rfl
    · rfl
  · rfl

/-- Unlinking a node on the lowest `n` levels. -/
theorem forRange_unlinkLevel (n : Nat)
    (hprev : ∀ i < n, ∃ y g, h.next (update stops i) i = some y ∧ h.gap (update stops i) i = some g)
    (hnode : ∀ i < n, h.next (update stops i) i = some (some node) →
      ∃ y g, h.next node i = some y ∧ h.gap node i = some g) :
    ∃ h', forRange 0 n (unlinkLevel stops node) h = some h' ∧ h.Frame h' ∧
      (∀ x i, h'.next x i = if 0 ≤ i ∧ i < n then
          if x = update stops i ∧ h.next x i = some (some node) then h.next node i else h.next x i
        else h.next x i) ∧
      ∀ x i, h'.gap x i = if 0 ≤ i ∧ i < n then
          if x = update stops i then
            if h.next x i = some (some node) then
              (h.gap x i).bind fun a => (h.gap node i).map fun b => a + (b - 1)
            else (h.gap x i).map (· - 1)
          else h.gap x i
        else h.gap x i := by
  refine forRange_levels (fun i x => if x = update stops i ∧ h.next x i = some (some node) then
      h.next node i else h.next x i)
    (fun i x => if x = update stops i then
        if h.next x i = some (some node) then
          (h.gap x i).bind fun a => (h.gap node i).map fun b => a + (b - 1)
        else (h.gap x i).map (· - 1)
      else h.gap x i) (Nat.zero_le n) fun i s _ hi hframe hs hg => ?_
  obtain ⟨y, g, hy, hgy⟩ := hprev i hi
  by_cases hhit : y = some node
  · subst hhit
    obtain ⟨y', g', hy', hgy'⟩ := hnode i hi hy
    refine ⟨_, by
      simp only [unlinkLevel, hs, hg, hy, hgy, hy', hgy', Option.bind_some, Option.map_some, if_true]; rfl,
      hframe.setGap _ _ _ |>.setNext _ _ _, fun x j => ?_, fun x j => ?_⟩
    · simp only [Heap.next_setGap, Heap.next_setNext]
      by_cases hj : j = i
      · subst hj
        by_cases hx : x = update stops j
        · simp [hx, hs, hy, hy']
        · simp [hx, hs]
      · simp [hj]
    · simp only [Heap.gap_setGap, Heap.gap_setNext]
      by_cases hj : j = i
      · subst hj
        by_cases hx : x = update stops j
        · simp [hx, hg, hy, hgy, hgy']
        · simp [hx, hg]
      · simp [hj]
  · refine ⟨_, by
      simp only [unlinkLevel, hs, hg, hy, hgy, Option.bind_some, hhit, if_false]; rfl,
      hframe.setGap _ _ _, fun x j => ?_, fun x j => ?_⟩
    · simp only [Heap.next_setGap]
      by_cases hj : j = i
      · subst hj
        by_cases hx : x = update stops j
        · simp [hx, hs, hy, hhit]
        · simp [hx, hs]
      · simp [hj]
    · simp only [Heap.gap_setGap]
      by_cases hj : j = i
      · subst hj
        by_cases hx : x = update stops j
        · simp [hx, hg, hy, hgy, hhit]
        · simp [hx, hg]
      · simp [hj]

end Loops

/-! ## What a skip list holds -/

/-- **The nodes at some addresses are the elements of the skip list**, in this order. -/
structure Holds (l : SkipList M S) (xs : List Nat) : Prop where
  /-- Links and spans, on all levels in use. -/
  chain : Chain l.heap l.level header (header :: xs)
  mirror : Mirrored l.heap l.tail xs
  length_eq : l.length = xs.length
  fresh : ∀ x ∈ header :: xs, x < l.fresh
  /-- The header has all levels there can be. -/
  top : l.heap.height header = maxLevel
  used : l.level = 1 ∨ ∃ x ∈ xs, l.heap.height x = l.level

theorem holds_new [Inhabited M] [Zero S] : (new : SkipList M S).Holds [] := by
  have hheight : ∀ x, (new : SkipList M S).heap.height x = maxLevel := fun x => by
    simp [new, newNode, Heap.height]
  refine ⟨?_, ⟨by simp, rfl⟩, rfl, by simp [new, header], hheight header, .inl rfl⟩
  refine ⟨rfl, nodup_singleton header, Nat.one_pos, ?_, ?_, by simp, ?_, ?_⟩
  · rw [hheight]
    exact (by decide : 1 ≤ maxLevel)
  · simp [new, newNode, Heap.height]
  · intro i _ hi
    rw [hheight] at hi
    simp [new, newNode, Heap.next, hi]
  · intro k x hx i hi hlt
    obtain ⟨rfl, rfl⟩ : k = 0 ∧ header = x := by
      rcases k with _ | k
      · exact ⟨rfl, by simpa using hx⟩
      · simp at hx
    rw [hheight] at hlt
    constructor
    · simp [new, newNode, Heap.next, hlt, ahead]
    · simp [new, newNode, Heap.gap, hlt, ahead]

variable {l : SkipList M S} {xs : List Nat}

theorem Holds.fuel (hl : l.Holds xs) : (header :: xs).length ≤ l.fresh := by
  have hsub : header :: xs ⊆ List.range l.fresh := fun x hx => mem_range.mpr (hl.fresh x hx)
  simpa using (subperm_of_subset hl.chain.nodup hsub).length_le

variable (l xs) in
/-- The number of elements a search goes past. -/
def place (go : Int → M × S → Bool) : Nat :=
  descent l.heap.height (fun j y => go j (l.heap y).value) (header :: xs) l.level 0

/-- **What a search has found**: with `t` elements before the place, it stopped on every level at the
last node of the level among them. -/
structure Found (l : SkipList M S) (xs : List Nat) (t : Nat) (stops : List (Nat × Int)) : Prop where
  le : t ≤ xs.length
  length : stops.length = l.level
  /-- Where the search stopped, and that it counted right. -/
  stop : ∀ i < maxLevel, StopsAt l.heap i (header :: xs.take t) (update stops i) (rankAt stops i).toNat ∧
    0 ≤ rankAt stops i
  rank_zero : rankAt stops 0 = t
  node : (header :: xs)[t]? = some (update stops 0)

theorem Holds.search (hl : l.Holds xs) (go : Int → M × S → Bool) :
    ∃ stops, l.search go = some stops ∧ Found l xs (l.place xs go) stops := by
  obtain ⟨stops, hdesc, hlength, hstops⟩ := hl.chain.search go hl.fuel
  have hlt : l.place xs go < (header :: xs).length := descent_lt _ (Nat.succ_pos _)
  have hstop : ∀ i < maxLevel,
      StopsAt l.heap i (header :: xs.take (l.place xs go)) (update stops i) (rankAt stops i).toNat ∧
        0 ≤ rankAt stops i := by
    intro i hi
    obtain ⟨y, j, hget, hs⟩ := hstops i (by rwa [hl.top])
    rw [update, rankAt, hget]
    exact ⟨hs, Int.natCast_nonneg j⟩
  obtain ⟨hzero, hnonneg⟩ := hstop 0 (by decide)
  obtain ⟨hrank, hnode⟩ := hl.chain.stopsAt_zero hlt hzero
  refine ⟨stops, hdesc, ⟨Nat.le_of_lt_succ hlt, hlength, hstop, ?_, hnode⟩⟩
  omega

variable {t : Nat}

/-- The last of the elements before the place, as `insert` reads it off `update[0]`. -/
theorem Found.getLast?_take {stops : List (Nat × Int)} (hf : Found l xs t stops)
    (hnd : (header :: xs).Nodup) :
    (if update stops 0 = header then none else some (update stops 0)) = (xs.take t).getLast? := by
  have hnode := hf.node
  rcases t with _ | t
  · have hheader : update stops 0 = header := by simpa using hnode.symm
    rw [if_pos hheader]
    rfl
  · rw [getElem?_cons_succ] at hnode
    have hne : update stops 0 ≠ header := by
      intro heq
      exact (nodup_cons.mp hnd).1 (heq ▸ mem_of_getElem? hnode)
    have hlt : t < xs.length := (List.getElem?_eq_some_iff.mp hnode).1
    rw [if_neg hne, List.getLast?_take, if_neg (Nat.succ_ne_zero t), Nat.add_sub_cancel, hnode]
    rfl

variable {level : Nat}

theorem Holds.openLevels (hl : l.Holds xs) (hlevel : level ≤ maxLevel) :
    ∃ h, l.openLevels level = some { l with heap := h, level := max l.level level } ∧
      l.heap.Frame h ∧ Chain h (max l.level level) header (header :: xs) := by
  by_cases hlt : l.level < level
  · have hroom : level ≤ (l.heap header).span.length := by rw [hl.chain.room, hl.top]; exact hlevel
    obtain ⟨h, heq, hframe, hnext, hgap⟩ := forRange_setGap l.heap
      (fun i heap => some (heap.setGap header i l.length)) (fun _ => header) (fun _ => l.length)
      (le_of_lt hlt) (fun i _ hi => ⟨_, getElem?_eq_getElem (Nat.lt_of_lt_of_le hi hroom)⟩)
      (fun _ _ _ _ _ => rfl)
    refine ⟨h, ?_, hframe, ?_⟩
    · rw [SkipList.openLevels, if_pos hlt, heq, max_eq_right (le_of_lt hlt)]
      rfl
    · rw [max_eq_right (le_of_lt hlt)]
      refine hl.chain.raise (le_of_lt hlt) hframe.height (by rw [hl.top]; exact hlevel)
        (hframe.room header) hnext ?_ ?_
      · intro i hi hi'
        rw [hgap, if_pos ⟨hi, hi'⟩, if_pos rfl, hl.length_eq, length_cons]
        congr 1
        omega
      · intro x i hi
        rw [hgap, if_neg (by omega)]
  · refine ⟨l.heap, ?_, .refl _, ?_⟩
    · rw [SkipList.openLevels, if_neg hlt, max_eq_left (not_lt.mp hlt)]
    · rw [max_eq_left (not_lt.mp hlt)]
      exact hl.chain

/-- **What `insert` does to the links and spans**, once the levels are open: the new node is put in at
the place found. -/
theorem Holds.link (hl : l.Holds xs) {stops : List (Nat × Int)} (hf : Found l xs t stops)
    {h₁ : Heap (M × S)} (hframe₁ : l.heap.Frame h₁) (hchain₁ : Chain h₁ level header (header :: xs))
    (member : M) (score : S) {height : Nat} (hpos : 0 < height) (hle : height ≤ level) :
    ∃ h₃ h₄, forRange 0 height (linkLevel stops l.fresh)
          (h₁.alloc l.fresh (newNode height member score)) = some h₃ ∧
        forRange height level (growLevel stops) h₃ = some h₄ ∧
        (h₁.alloc l.fresh (newNode height member score)).Frame h₄ ∧
        Chain h₄ level header (header :: xs.take t ++ l.fresh :: xs.drop t) := by
  have hmax : level ≤ maxLevel := by rw [← hl.top, ← hframe₁.height]; exact hchain₁.level_le
  have hcells : header :: xs = header :: xs.take t ++ xs.drop t := by simp
  have hnew : l.fresh ∉ header :: xs := fun hmem => Nat.lt_irrefl _ (hl.fresh _ hmem)
  have hstop : ∀ i < level,
      StopsAt h₁ i (header :: xs.take t) (update stops i) (rankAt stops i).toNat := fun i hi =>
    (hf.stop i (Nat.lt_of_lt_of_le hi hmax)).1.of_height hframe₁.height
  have hmem : ∀ i < level, update stops i ∈ header :: xs := fun i hi => by
    rw [hcells]
    exact mem_append_left _ (hstop i hi).mem
  have hne : ∀ i < level, update stops i ≠ l.fresh := fun i hi e => hnew (e ▸ hmem i hi)
  -- the new node is not reached yet, so the others are as before
  have hold : ∀ x, x ≠ l.fresh → ∀ i,
      (h₁.alloc l.fresh (newNode height member score)).next x i = h₁.next x i ∧
        (h₁.alloc l.fresh (newNode height member score)).gap x i = h₁.gap x i := fun x hx i => by
    rw [Heap.next, Heap.gap, Heap.alloc_of_ne _ _ _ hx]
    exact ⟨rfl, rfl⟩
  have hread : ∀ i < level, ∃ y g,
      (h₁.alloc l.fresh (newNode height member score)).next (update stops i) i = some y ∧
        (h₁.alloc l.fresh (newNode height member score)).gap (update stops i) i = some g := fun i hi => by
    rw [(hold _ (hne i hi) i).1, (hold _ (hne i hi) i).2]
    exact hchain₁.exists_links (hmem i hi) hi (hstop i hi).tall
  obtain ⟨h₃, heq₃, hframe₃, hnext₃, hgap₃⟩ := forRange_linkLevel
    (h₁.alloc l.fresh (newNode height member score)) stops l.fresh height
    (fun i hi => hne i (by omega)) (fun i hi => hread i (by omega)) (fun i hi => by
      simp [Heap.next, Heap.gap, newNode, hi])
  obtain ⟨h₄, heq₄, hframe₄, hnext₄, hgap₄⟩ := forRange_growLevel h₃ stops hle
    (fun i hi hi' => by
      rw [hgap₃, if_neg (by omega)]
      obtain ⟨-, g, -, hg⟩ := hread i hi'
      exact ⟨g, hg⟩)
  refine ⟨h₃, h₄, heq₃, heq₄, hframe₃.trans hframe₄, ?_⟩
  -- the spans are computed from the positions that the search has counted
  have hrank : ∀ i < level, rankAt stops 0 - rankAt stops i =
      (((header :: xs.take t).length : Nat) : Int) - 1 - ((rankAt stops i).toNat : Int) := fun i hi => by
    have := (hf.stop i (Nat.lt_of_lt_of_le hi hmax)).2
    rw [hf.rank_zero, length_cons, length_take, min_eq_left hf.le]
    omega
  have hheight : ∀ x, x ≠ l.fresh → h₄.height x = h₁.height x := fun x hx => by
    rw [hframe₄.height, hframe₃.height, Heap.height, Heap.alloc_of_ne _ _ _ hx]
    rfl
  have hheader : header ≠ l.fresh := fun e => hnew (e ▸ mem_cons_self)
  rw [hcells] at hchain₁ hnew
  refine hchain₁.splice hnew hstop ?_ hpos hle hheight ?_ ?_ ?_ ?_ ?_
  · rw [hframe₄.height, hframe₃.height, Heap.height, Heap.alloc_self]
    simp [newNode]
  · rw [hframe₄.room, hframe₃.room, Heap.alloc_of_ne _ _ _ hheader]
  · intro i hi
    have hi' : i < level := by omega
    have hnot : ¬ l.fresh = update stops i := fun e => hne i hi' e.symm
    constructor
    · rw [hnext₄, hnext₃, if_pos ⟨Nat.zero_le i, hi⟩, if_neg hnot, if_pos rfl, (hold _ (hne i hi') i).1]
    · rw [hgap₄, if_neg (by omega), hgap₃, if_pos ⟨Nat.zero_le i, hi⟩, if_neg hnot, if_pos rfl,
        (hold _ (hne i hi') i).2, hrank i hi']
  · intro i hi
    constructor
    · rw [hnext₄, hnext₃, if_pos ⟨Nat.zero_le i, hi⟩, if_pos rfl]
    · rw [hgap₄, if_neg (by omega), hgap₃, if_pos ⟨Nat.zero_le i, hi⟩, if_pos rfl, hrank i (by omega)]
  · intro i hi hi'
    constructor
    · rw [hnext₄, hnext₃, if_neg (by omega), (hold _ (hne i hi') i).1]
    · rw [hgap₄, if_pos ⟨hi, hi'⟩, if_pos rfl, hgap₃, if_neg (by omega), (hold _ (hne i hi') i).2]
  · intro x i hx hor
    constructor
    · rw [hnext₄, hnext₃, (hold x hx i).1]
      split
      · rename_i hi
        rw [if_neg (hor.resolve_right (by omega))]
      · rfl
    · rw [hgap₄, hgap₃, (hold x hx i).2]
      rcases hor with hne' | hhigh
      · simp only [if_neg hne', if_neg hx, ite_self]
      · rw [if_neg (by omega), if_neg (by omega)]

/-- **The elements stay as they are** from one state of the skip list to another. -/
def Keeps (l l' : SkipList M S) (xs : List Nat) : Prop :=
  ∀ x ∈ xs, (l'.heap x).value = (l.heap x).value ∧ l'.heap.height x = l.heap.height x

/-- The link of the lowest level of the node that was put in. -/
theorem Found.next_node {stops : List (Nat × Int)} (hf : Found l xs t stops) {h : Heap (M × S)}
    {node : Nat} (hc : Chain h level header (header :: xs.take t ++ node :: xs.drop t)) :
    h.next node 0 = some (xs.drop t).head? := by
  have hlength : (header :: xs.take t).length = t + 1 := by
    rw [length_cons, length_take, min_eq_left hf.le]
  have hat : (header :: xs.take t ++ node :: xs.drop t)[t + 1]? = some node := by
    rw [getElem?_append_right (le_of_eq hlength), hlength, Nat.sub_self]
    rfl
  rw [hc.next_zero hat, getElem?_append_right (by omega), hlength, Nat.add_sub_cancel_left,
    getElem?_cons_succ, head?_eq_getElem?]

/-- The nodes after one more was put in. -/
theorem mem_spliced {x : Nat} : x ∈ xs.take t ++ l.fresh :: xs.drop t ↔ x = l.fresh ∨ x ∈ xs := by
  rw [perm_middle.mem_iff, mem_cons, take_append_drop]

/-- What is left to say once a node was put into the chain: the others are as they were. -/
theorem Holds.spliced (hl : l.Holds xs) {height : Nat} {h : Heap (M × S)} {tail : Option Nat}
    (hsame : ∀ x, x ≠ l.fresh → h.height x = l.heap.height x) (hnew : h.height l.fresh = height)
    (hchain : Chain h (max l.level height) header (header :: xs.take t ++ l.fresh :: xs.drop t))
    (hmirror : Mirrored h tail (xs.take t ++ l.fresh :: xs.drop t)) :
    (⟨h, l.fresh + 1, tail, max l.level height, l.length + 1⟩ : SkipList M S).Holds
      (xs.take t ++ l.fresh :: xs.drop t) := by
  have hold : ∀ x ∈ header :: xs, x ≠ l.fresh := fun x hx => Nat.ne_of_lt (hl.fresh x hx)
  refine ⟨hchain, hmirror, ?_, ?_, ?_, ?_⟩
  · rw [perm_middle.length_eq, length_cons, take_append_drop, hl.length_eq]
  · intro x hx
    rcases mem_cons.mp hx with rfl | hx
    · exact Nat.lt_succ_of_lt (hl.fresh header mem_cons_self)
    · rcases mem_spliced.mp hx with rfl | hx
      · exact Nat.lt_succ_self _
      · exact Nat.lt_succ_of_lt (hl.fresh x (mem_cons_of_mem _ hx))
  · rw [hsame header (hold header mem_cons_self), hl.top]
  · -- the highest level in use is that of the new node, or the one it was
    by_cases hlt : l.level < height
    · exact .inr ⟨l.fresh, mem_spliced.mpr (.inl rfl), by rw [hnew, max_eq_right (le_of_lt hlt)]⟩
    · rw [max_eq_left (not_lt.mp hlt)]
      refine hl.used.imp_right ?_
      rintro ⟨x, hx, hxl⟩
      exact ⟨x, mem_spliced.mpr (.inr hx), by rw [hsame x (hold x (mem_cons_of_mem _ hx)), hxl]⟩

/-- **`insert` puts a node in** at the place where the search ends. -/
theorem Holds.insert [LinearOrder M] [Comparable S] (hl : l.Holds xs) (score : S) (member : M)
    (top : Fin maxLevel) :
    ∃ l', l.insert score member top = some (l', l.fresh) ∧
      l'.Holds (xs.take (l.place xs (before score member)) ++
        l.fresh :: xs.drop (l.place xs (before score member))) ∧
      Keeps l l' xs ∧ (l'.heap l.fresh).value = (member, score) ∧
      l'.heap.height l.fresh = top + 1 := by
  obtain ⟨stops, hsearch, hf⟩ := hl.search (before score member)
  generalize l.place xs (before score member) = t at hf ⊢
  obtain ⟨h₁, hopen, hframe₁, hchain₁⟩ := hl.openLevels (Nat.succ_le_of_lt top.isLt)
  obtain ⟨h₃, h₄, heq₃, heq₄, hframe₄, hchain₄⟩ := hl.link hf hframe₁ hchain₁ member score
    (Nat.succ_pos top) (le_max_right _ _)
  -- the links back are set last
  let h₅ := h₄.setBackward l.fresh (xs.take t).getLast?
  let last := h₅.rebind l.tail (xs.drop t).head? (some l.fresh)
  have hrun : l.insert score member top =
      some (⟨last.1, l.fresh + 1, last.2, max l.level (top + 1), l.length + 1⟩, l.fresh) := by
    have hafter := hf.next_node hchain₄
    simp only [SkipList.insert, hsearch, hopen, heq₃, heq₄, Option.bind_eq_bind, Option.bind_some,
      hf.getLast?_take hl.chain.nodup, Heap.next_setBackward, hafter, last, h₅]
    cases (xs.drop t).head? <;> rfl
  have hkeep : ∀ x, x ≠ l.fresh → (last.1 x).value = (l.heap x).value ∧
      last.1.height x = l.heap.height x ∧ (h₅ x).backward = (l.heap x).backward := fun x hx => by
    rw [Heap.value_rebind, Heap.height_rebind, Heap.value_setBackward, Heap.height_setBackward,
      Heap.backward_setBackward, if_neg hx, hframe₄.value, hframe₄.height, hframe₄.backward, Heap.height,
      Heap.alloc_of_ne _ _ _ hx, hframe₁.value, hframe₁.backward]
    exact ⟨rfl, hframe₁.height x, rfl⟩
  have hnode : (last.1 l.fresh).value = (member, score) ∧ last.1.height l.fresh = top + 1 := by
    rw [Heap.value_rebind, Heap.height_rebind, Heap.value_setBackward, Heap.height_setBackward,
      hframe₄.value, hframe₄.height, Heap.height, Heap.alloc_self]
    exact ⟨rfl, length_replicate⟩
  have hmirror : Mirrored l.heap l.tail (xs.take t ++ xs.drop t) := by
    rw [take_append_drop]
    exact hl.mirror
  have hback : (h₅ l.fresh).backward = (xs.take t).getLast? := by
    rw [Heap.backward_setBackward, if_pos rfl]
  refine ⟨_, hrun, hl.spliced (fun x hx => (hkeep x hx).2.1) hnode.2 ?_ ?_, fun x hx => ?_, hnode⟩
  · exact (hchain₄.setBackward _ _).rebind _ _ _ _
  · exact hmirror.splice (nodup_cons.mp hchain₄.nodup).2 hback fun x hx => (hkeep x hx).2.2
  · have hx' : x ≠ l.fresh := Nat.ne_of_lt (hl.fresh x (mem_cons_of_mem _ hx))
    exact ⟨(hkeep x hx').1, (hkeep x hx').2.1⟩

/-- Closing the levels that no node has. -/
theorem closeLevels_spec {h : Heap (M × S)} {cells : List Nat} (hc : Chain h level header cells) :
    ∃ level', closeLevels h level = some level' ∧ Chain h level' header cells ∧
      (level' = 1 ∨ ∃ x ∈ cells.tail, h.height x = level') := by
  induction level with
  | zero => exact absurd hc.pos (Nat.lt_irrefl 0)
  | succ n ih =>
    rcases n with _ | n
    · exact ⟨1, rfl, hc, .inl rfl⟩
    · have hmem : header ∈ cells := mem_of_mem_head? hc.head
      obtain ⟨y, -, hnext, -⟩ := hc.exists_links hmem (Nat.lt_succ_self (n + 1)) hc.level_le
      cases y with
      | none =>
        obtain ⟨level', heq, hspec⟩ := ih (hc.lower (Nat.succ_pos n) hnext)
        exact ⟨level', by rw [closeLevels, hnext, Option.bind_some, if_pos rfl, heq], hspec⟩
      | some y =>
        obtain ⟨hy, htall⟩ := hc.tall_of_next hmem (Nat.lt_succ_self (n + 1)) hc.level_le hnext
        refine ⟨n + 2, by rw [closeLevels, hnext, Option.bind_some, if_neg (by simp)], hc,
          .inr ⟨y, hy, le_antisymm (hc.heights y hy).2 htall⟩⟩

/-- **What `_unlink` does to the links and spans**: the node behind the place found is taken out. -/
theorem Holds.unchain (hl : l.Holds xs) {stops : List (Nat × Int)} (hf : Found l xs t stops)
    {node : Nat} (hnode : xs[t]? = some node) (hsplit : xs = xs.take t ++ node :: xs.drop (t + 1)) :
    ∃ h, forRange 0 l.level (unlinkLevel stops node) l.heap = some h ∧ l.heap.Frame h ∧
      Chain h l.level header (header :: xs.take t ++ xs.drop (t + 1)) ∧
      h.next node 0 = some (xs.drop (t + 1)).head? := by
  have hstop : ∀ i < l.level,
      StopsAt l.heap i (header :: xs.take t) (update stops i) (rankAt stops i).toNat := fun i hi =>
    (hf.stop i (Nat.lt_of_lt_of_le hi (hl.top ▸ hl.chain.level_le))).1
  have hmem : ∀ i < l.level, update stops i ∈ header :: xs := fun i hi => by
    have hfront := (hstop i hi).mem
    rw [hsplit, ← cons_append]
    exact mem_append_left _ hfront
  have hchain : Chain l.heap l.level header (header :: xs.take t ++ node :: xs.drop (t + 1)) := by
    rw [cons_append, ← hsplit]
    exact hl.chain
  obtain ⟨h, heq, hframe, hnext, hgap⟩ := forRange_unlinkLevel l.heap stops node l.level
    (fun i hi => hl.chain.exists_links (hmem i hi) hi (hstop i hi).tall)
    (fun i hi hhit => by
      have htall := (hl.chain.tall_of_next (hmem i hi) hi (hstop i hi).tall hhit).2
      exact hl.chain.exists_links (mem_cons_of_mem _ (mem_of_getElem? hnode)) hi htall)
  refine ⟨h, heq, hframe, hchain.unlink hstop hframe.height (hframe.room header) ?_ ?_ ?_, ?_⟩
  · intro i a b hi hhit ha hb
    constructor
    · rw [hnext, if_pos ⟨Nat.zero_le i, hi⟩, if_pos ⟨rfl, hhit⟩]
    · rw [hgap, if_pos ⟨Nat.zero_le i, hi⟩, if_pos rfl, if_pos hhit, ha, hb]
      rfl
  · intro i hi hmiss
    constructor
    · rw [hnext, if_pos ⟨Nat.zero_le i, hi⟩, if_neg fun h => hmiss h.2]
    · rw [hgap, if_pos ⟨Nat.zero_le i, hi⟩, if_pos rfl, if_neg hmiss]
  · intro x i hor
    rw [hnext, hgap]
    split
    · have hne : x ≠ update stops i := hor.resolve_right (by omega)
      exact ⟨if_neg fun h => hne h.1, if_neg hne⟩
    · exact ⟨rfl, rfl⟩
  · have hnot : node ≠ update stops 0 := by
      intro e
      have hfront := (hstop 0 hl.chain.pos).mem
      rw [← e] at hfront
      exact (nodup_append.mp hchain.nodup).2.2 node hfront node mem_cons_self rfl
    rw [hnext, if_pos ⟨le_rfl, hl.chain.pos⟩, if_neg fun h => hnot h.1,
      hl.chain.next_zero (show (header :: xs)[t + 1]? = some node by simpa using hnode),
      head?_drop, getElem?_cons_succ]

/-- **`_unlink` takes a node out** that stands right behind the place found. -/
theorem Holds.unlink (hl : l.Holds xs) {stops : List (Nat × Int)} (hf : Found l xs t stops)
    {node : Nat} (hnode : xs[t]? = some node) :
    ∃ l', l.unlink stops node = some l' ∧ l'.Holds (xs.take t ++ xs.drop (t + 1)) ∧ Keeps l l' xs := by
  have hsplit : xs = xs.take t ++ node :: xs.drop (t + 1) := by
    obtain ⟨hlt, rfl⟩ := List.getElem?_eq_some_iff.mp hnode
    rw [getElem_cons_drop, take_append_drop]
  obtain ⟨h₁, heq, hframe, hchain₁, hafter⟩ := hl.unchain hf hnode hsplit
  let last := h₁.rebind l.tail (xs.drop (t + 1)).head? (l.heap node).backward
  obtain ⟨level, hclose, hchain, hused⟩ := closeLevels_spec
    (hchain₁.rebind _ l.tail (xs.drop (t + 1)).head? (l.heap node).backward)
  have hrun : l.unlink stops node = some ⟨last.1, l.fresh, last.2, level, l.length - 1⟩ := by
    simp only [SkipList.unlink, heq, Option.bind_eq_bind, Option.bind_some, hafter, hframe.backward, last]
    cases hhead : (xs.drop (t + 1)).head? <;> (rw [hhead] at hclose; simp [Heap.rebind] at hclose ⊢)
    · simp [hclose]
    · simp [hclose]
  have hsame : ∀ x, (last.1 x).value = (l.heap x).value ∧ last.1.height x = l.heap.height x := fun x => by
    rw [Heap.value_rebind, Heap.height_rebind, hframe.value, hframe.height]
    exact ⟨rfl, rfl⟩
  have hnodup : (xs.take t ++ node :: xs.drop (t + 1)).Nodup :=
    hsplit ▸ (nodup_cons.mp hl.chain.nodup).2
  have hmirror : Mirrored l.heap l.tail (xs.take t ++ node :: xs.drop (t + 1)) := hsplit ▸ hl.mirror
  refine ⟨_, hrun, ⟨hchain, hmirror.unlink hnodup hframe.backward, ?_, ?_, ?_, hused⟩, fun x _ => hsame x⟩
  · have hlength := congrArg List.length hsplit
    rw [perm_middle.length_eq, length_cons] at hlength
    show l.length - 1 = _
    rw [hl.length_eq]
    omega
  · intro x hx
    rcases mem_cons.mp hx with rfl | hx
    · exact hl.fresh header mem_cons_self
    · refine hl.fresh x (mem_cons_of_mem _ ?_)
      exact (mem_append.mp hx).elim mem_of_mem_take mem_of_mem_drop
  · rw [(hsame header).2, hl.top]

/-- **`delete` takes the node out** that stands at the place where the search ends, if it is the one
that is meant. -/
theorem Holds.delete [LinearOrder M] [Comparable S] (hl : l.Holds xs) (score : S) (member : M) :
    (∃ node, xs[l.place xs (before score member)]? = some node ∧
        Comparable.eq (l.heap node).value.2 score = true ∧ (l.heap node).value.1 = member ∧
        ∃ l', l.delete score member = some (true, l') ∧
          l'.Holds (xs.take (l.place xs (before score member)) ++
            xs.drop (l.place xs (before score member) + 1)) ∧ Keeps l l' xs) ∨
      (¬ ∃ node, xs[l.place xs (before score member)]? = some node ∧
        Comparable.eq (l.heap node).value.2 score = true ∧ (l.heap node).value.1 = member) ∧
        l.delete score member = some (false, l) := by
  obtain ⟨stops, hsearch, hf⟩ := hl.search (before score member)
  generalize l.place xs (before score member) = t at hf ⊢
  have hnext : l.heap.next (update stops 0) 0 = some xs[t]? := by
    rw [hl.chain.next_zero hf.node, getElem?_cons_succ]
  cases hnode : xs[t]? with
  | none =>
    refine .inr ⟨by simp, ?_⟩
    simp [SkipList.delete, hsearch, hnext, hnode]
  | some node =>
    by_cases hmeant : Comparable.eq (l.heap node).value.2 score = true ∧ (l.heap node).value.1 = member
    · obtain ⟨l', hunlink, hholds, hkeeps⟩ := hl.unlink hf hnode
      refine .inl ⟨node, rfl, hmeant.1, hmeant.2, l', ?_, hholds, hkeeps⟩
      simp [SkipList.delete, hsearch, hnext, hnode, hmeant, hunlink]
    · refine .inr ⟨?_, ?_⟩
      · rintro ⟨node', heq, hrest⟩
        obtain rfl : node = node' := Option.some.inj heq
        exact hmeant hrest
      · have hcond : (!Comparable.eq (l.heap node).value.2 score ||
            decide ((l.heap node).value.1 ≠ member)) = true := by
          simpa [imp_iff_not_or, not_and_or] using hmeant
        simp only [SkipList.delete, hsearch, hnext, hnode, Option.bind_eq_bind, Option.bind_some]
        rw [if_pos hcond]
        rfl

/-! ## The list of nodes -/

section Nodes

/-- Texts in their order. -/
@[reducible] def strOrder : LinearOrder Str :=
  { LinearOrder.lift' strKey strKey_injective with
    toDecidableEq := inferInstance
    compare_eq_compareOfLessAndEq := fun a b => by
      convert (LinearOrder.lift' strKey strKey_injective).compare_eq_compareOfLessAndEq a b }

attribute [local instance] strOrder

variable {l : SkipList Str Double} {xs : List Nat}

/-- A node without its links. -/
def nodeAt (l : SkipList Str Double) (x : Nat) : KvStore.Node :=
  ⟨(l.heap x).value.1, (l.heap x).value.2,
    ⟨(l.heap.height x - 1) % maxLevel, Nat.mod_lt _ (by decide)⟩⟩

/-- The level of a node is the one it was drawn at. -/
theorem Holds.nodeAt_top (hl : l.Holds xs) {x : Nat} (hx : x ∈ xs) :
    ((l.nodeAt x).top : Nat) + 1 = l.heap.height x := by
  have hheight := hl.chain.heights x hx
  have hmax : l.level ≤ maxLevel := hl.top ▸ hl.chain.level_le
  have htop : ((l.nodeAt x).top : Nat) = (l.heap.height x - 1) % maxLevel := rfl
  rw [htop, Nat.mod_eq_of_lt (by omega)]
  omega

theorem Holds.level_eq (hl : l.Holds xs) : KvStore.SkipList.level (xs.map l.nodeAt) = l.level := by
  have hle : ∀ ys ⊆ xs, KvStore.SkipList.level (ys.map l.nodeAt) ≤ l.level := by
    intro ys
    induction ys with
    | nil => exact fun _ => hl.chain.pos
    | cons y ys ih =>
      intro hsub
      have hy := hl.nodeAt_top (hsub mem_cons_self)
      have hheight := (hl.chain.heights y (hsub mem_cons_self)).2
      refine max_le (by omega) (ih fun z hz => hsub (mem_cons_of_mem y hz))
  have hge : ∀ ys : List Nat, ∀ y ∈ ys, ((l.nodeAt y).top : Nat) + 1 ≤
      KvStore.SkipList.level (ys.map l.nodeAt) := by
    intro ys
    induction ys with
    | nil => simp
    | cons z ys ih =>
      intro y hy
      rcases mem_cons.mp hy with rfl | hy
      · exact le_max_left _ _
      · exact le_trans (ih y hy) (le_max_right _ _)
  refine le_antisymm (hle xs (List.Subset.refl xs)) ?_
  rcases hl.used with hone | ⟨x, hx, hheight⟩
  · rw [hone]
    exact KvStore.SkipList.one_le_level _
  · rw [← hheight, ← hl.nodeAt_top hx]
    exact hge xs x hx

/-- A walk along a level, in both lists. -/
theorem Holds.advance_eq (hl : l.Holds xs) (i : Nat) (p : KvStore.Node → Bool) {ys : List Nat}
    (hsub : ys ⊆ xs) (k : Nat) :
    advance (fun y => decide (i < l.heap.height y)) (fun _ y => p (l.nodeAt y)) k ys =
      KvStore.SkipList.advance i p (ys.map l.nodeAt) := by
  induction ys generalizing k with
  | nil => rfl
  | cons y ys ih =>
    have hy := hl.nodeAt_top (hsub mem_cons_self)
    have hiff : i < l.heap.height y ↔ i ≤ ((l.nodeAt y).top : Nat) := by omega
    rw [advance, map_cons, KvStore.SkipList.advance, ih fun z hz => hsub (mem_cons_of_mem y hz)]
    by_cases hi : i < l.heap.height y
    · exact (if_pos (decide_eq_true hi)).trans (if_pos (hiff.mp hi)).symm
    · exact (if_neg (by simpa using hi)).trans (if_neg (hiff.not.mp hi)).symm

theorem Holds.descent_eq (hl : l.Holds xs) (p : KvStore.Node → Bool) (n k : Nat) :
    descent l.heap.height (fun _ y => p (l.nodeAt y)) (header :: xs) n k =
      k + KvStore.SkipList.descend p n ((xs.map l.nodeAt).drop k) := by
  induction n generalizing k with
  | zero => rfl
  | succ i ih =>
    have hsub : (header :: xs).drop (k + 1) ⊆ xs := fun x hx => mem_of_mem_drop hx
    rw [descent, KvStore.SkipList.descend, ih, hl.advance_eq i p hsub, drop_succ_cons,
      map_drop, drop_drop, Nat.add_assoc]

/-- **The place a search finds is the one in the plain list of nodes**, also where a score is NaN. -/
theorem Holds.place_eq (hl : l.Holds xs) (score : Double) (member : Str) :
    l.place xs (before score member) = KvStore.SkipList.position (xs.map l.nodeAt) score member := by
  have hgo : (fun (j : Nat) y => before score member (j : Int) (l.heap y).value) =
      fun _ y => KvStore.SkipList.before score member (l.nodeAt y) := rfl
  rw [place, hgo, hl.descent_eq, KvStore.SkipList.position, hl.level_eq, Nat.zero_add, drop_zero]

theorem Keeps.map_nodeAt {l' : SkipList Str Double} (hk : Keeps l l' xs) {ys : List Nat}
    (hsub : ys ⊆ xs) : ys.map l'.nodeAt = ys.map l.nodeAt := by
  refine map_congr_left fun y hy => ?_
  obtain ⟨hvalue, hheight⟩ := hk y (hsub hy)
  simp only [nodeAt, hvalue, hheight]

/-- **`insert` link by link is `insert` in the plain list.** -/
theorem Holds.nodes_insert (hl : l.Holds xs) (score : Double) (member : Str) (top : Fin maxLevel) :
    ∃ l' xs', l.insert score member top = some (l', l.fresh) ∧ l'.Holds xs' ∧
      xs'.map l'.nodeAt = KvStore.SkipList.insert (xs.map l.nodeAt) score member top := by
  obtain ⟨l', hinsert, hholds, hkeeps, hvalue, hheight⟩ := hl.insert score member top
  refine ⟨l', _, hinsert, hholds, ?_⟩
  have hnode : l'.nodeAt l.fresh = ⟨member, score, top⟩ := by
    simp only [nodeAt, hvalue, hheight, Nat.add_sub_cancel, Nat.mod_eq_of_lt top.isLt]
  rw [hl.place_eq, KvStore.SkipList.insert]
  generalize hpos : KvStore.SkipList.position (xs.map l.nodeAt) score member = t
  have hle : t ≤ xs.length := by
    rw [← hpos, ← hl.place_eq]
    obtain ⟨_, _, hf⟩ := hl.search (before score member)
    exact hf.le
  rw [map_append, map_cons, hnode, hkeeps.map_nodeAt (take_subset _ _),
    hkeeps.map_nodeAt (drop_subset _ _), map_take, map_drop]
  have hlength : ((xs.map l.nodeAt).take t).length = t := by simpa using hle
  have hinsertIdx := SortedSet.insertIdx_append ((xs.map l.nodeAt).take t) ((xs.map l.nodeAt).drop t)
    ⟨member, score, top⟩
  rwa [take_append_drop, hlength, eq_comm] at hinsertIdx

/-- **`delete` link by link is `delete` in the plain list.** -/
theorem Holds.nodes_delete (hl : l.Holds xs) (score : Double) (member : Str) :
    ∃ found l' xs', l.delete score member = some (found, l') ∧ l'.Holds xs' ∧
      xs'.map l'.nodeAt = KvStore.SkipList.delete (xs.map l.nodeAt) score member := by
  have hget : ∀ t : Nat, (xs.map l.nodeAt)[t]? = (xs[t]?).map l.nodeAt := fun t => getElem?_map
  rcases hl.delete score member with
    ⟨node, hnode, hscore, hmember, l', hdelete, hholds, hkeeps⟩ | ⟨hnone, hdelete⟩
  · refine ⟨true, l', _, hdelete, hholds, ?_⟩
    rw [hl.place_eq] at hnode ⊢
    have hmeant : (l.nodeAt node).score.eq score = true ∧ (l.nodeAt node).member = member :=
      ⟨hscore, hmember⟩
    simp only [KvStore.SkipList.delete, hget, hnode, Option.map_some, if_pos hmeant]
    rw [map_append, hkeeps.map_nodeAt (take_subset _ _),
      hkeeps.map_nodeAt (drop_subset _ _), map_take, map_drop, eraseIdx_eq_take_drop_succ]
  · refine ⟨false, l, xs, hdelete, hl, ?_⟩
    rw [hl.place_eq] at hnone
    simp only [KvStore.SkipList.delete, hget]
    cases hnode : xs[KvStore.SkipList.position (xs.map l.nodeAt) score member]? with
    | none => rfl
    | some node =>
      have hmeant : ¬ ((l.nodeAt node).score.eq score = true ∧ (l.nodeAt node).member = member) :=
        fun hm => hnone ⟨node, hnode, hm.1, hm.2⟩
      simp only [Option.map_some, if_neg hmeant]

end Nodes

end SkipList

end Linked

end KvStore
