import KvStore.Foundation.Binary
import KvStore.Foundation.Dict
import Mathlib.Data.List.Sort
import Mathlib.Data.Prod.Lex

/-! # Sorted sets

A sorted set (`engine/datatypes/zset.py`) is a dictionary from members to scores together with a skip
list (`engine/datatypes/skiplist.py`) that orders them by score and then by member.

* **`SortedSet`** — the two structures side by side, as the source updates them. A skip list is the
  list of its nodes in level-0 order, each with the highest level it is linked at, drawn at random
  when the node is inserted. A search starts at the highest level in use and moves right as long as
  the next node *of that level* comes before the target.
* **`Ranking`** — what a sorted set is for: members with their scores, no score being NaN, listed by
  score and member.

`SortedSet.Models z r` says that `z` represents `r`. The operations preserve it
(`Models.add`, `Models.remove`), so that the random levels cannot be observed, **as long as no score
is NaN**: a NaN compares false with everything, and where a search passes it depends on the
levels. -/

namespace KvStore

open List

/-! ## Rankings -/

/-- The key by which elements are ordered: the score, then the member. -/
def entryKey (e : Str × Double) : ℤ ×ₗ (List Nat ×ₗ List Nat) := toLex (e.2.rank, strKey e.1)

theorem entryKey_injective : Function.Injective entryKey := by
  rintro ⟨m, s⟩ ⟨m', s'⟩ h
  obtain ⟨hrank, hkey⟩ := Prod.mk.inj (toLex.injective h)
  exact Prod.ext (strKey_injective hkey) (Double.rank_injective hrank)

/-- One element may stand before another. -/
def entryLe (a b : Str × Double) : Prop := entryKey a ≤ entryKey b

instance : DecidableRel entryLe := fun a b => inferInstanceAs (Decidable (entryKey a ≤ entryKey b))

instance : IsTrans (Str × Double) entryLe := ⟨fun _ _ _ h h' => le_trans h h'⟩

instance : Std.Total entryLe := ⟨fun a b => le_total (entryKey a) (entryKey b)⟩

/-- **Members with scores, in order.** -/
structure Ranking where
  /-- The elements, lowest first. -/
  items : List (Str × Double)
  /-- No score is NaN. -/
  real : ∀ e ∈ items, e.2.isNan = false
  /-- Ascending by score and member. -/
  sorted : items.Pairwise entryLe
  /-- No member occurs twice. -/
  nodup : (items.map Prod.fst).Nodup

namespace Ranking

@[ext] theorem ext {r r' : Ranking} (h : r.items = r'.items) : r = r' := by
  cases r; cases r'; simp_all

instance : DecidableEq Ranking := fun r r' =>
  decidable_of_iff (r.items = r'.items) ⟨ext, fun h => h ▸ rfl⟩

/-- The empty ranking. -/
def empty : Ranking := ⟨[], by simp, List.Pairwise.nil, by simp⟩

/-- The score of a member. -/
def score (r : Ranking) (member : Str) : Option Double := assocGet member r.items

/-- Forget a member. -/
def remove (r : Ranking) (member : Str) : Ranking where
  items := assocErase member r.items
  real := fun e he => r.real e (mem_of_mem_filter he)
  sorted := r.sorted.sublist filter_sublist
  nodup := r.nodup.sublist ((filter_sublist).map Prod.fst)

/-- A member that was removed is absent. -/
theorem not_mem_remove (r : Ranking) (member : Str) :
    member ∉ (r.remove member).items.map Prod.fst := by
  intro h
  obtain ⟨e, he, heq⟩ := mem_map.mp h
  simp only [remove, assocErase, mem_filter, decide_eq_true_eq] at he
  exact he.2 heq

/-- Insert an absent member. -/
def insert (r : Ranking) (member : Str) (s : Double) (hs : s.isNan = false)
    (hm : member ∉ r.items.map Prod.fst) : Ranking where
  items := r.items.orderedInsert entryLe (member, s)
  real := by
    intro e he
    rcases (mem_orderedInsert entryLe).mp he with rfl | he
    · exact hs
    · exact r.real e he
  sorted := r.sorted.orderedInsert _ _
  nodup := by
    have hperm := (perm_orderedInsert entryLe (member, s) r.items).map Prod.fst
    rw [hperm.nodup_iff, map_cons, nodup_cons]
    exact ⟨hm, r.nodup⟩

/-- Give a member a score: insert it, or move it. A score that is NaN is refused. -/
def add (r : Ranking) (member : Str) (s : Double) : Ranking :=
  if hs : s.isNan = false then
    if r.score member = some s then r
    else (r.remove member).insert member s hs (r.not_mem_remove member)
  else r

/-- A member has a score exactly when it is listed. -/
theorem score_eq_none_iff (r : Ranking) (member : Str) :
    r.score member = none ↔ member ∉ r.items.map Prod.fst := by
  rw [← assocGet_isSome_iff, Option.not_isSome_iff_eq_none]
  rfl

/-- Removing an absent member changes nothing. -/
theorem remove_of_score_none {r : Ranking} {member : Str} (h : r.score member = none) :
    r.remove member = r := by
  apply ext
  rw [score_eq_none_iff] at h
  simp only [remove, assocErase, filter_eq_self, decide_eq_true_eq]
  intro e he heq
  exact h (mem_map.mpr ⟨e, he, heq⟩)

/-- A new element that comes after all others is appended. -/
theorem items_add_last {r : Ranking} {member : Str} {s : Double} (hs : s.isNan = false)
    (hnew : r.score member = none) (hlast : ∀ e ∈ r.items, entryLe e (member, s)) :
    (r.add member s).items = r.items ++ [(member, s)] := by
  have hne : ¬ r.score member = some s := by simp [hnew]
  rw [add, dif_pos hs, if_neg hne]
  simp only [insert, remove_of_score_none hnew]
  have hnot : ∀ e ∈ r.items, ¬ entryLe (member, s) e := by
    intro e he hle
    have heq : e = (member, s) := entryKey_injective (le_antisymm (hlast e he) hle)
    rw [score_eq_none_iff] at hnew
    exact hnew (mem_map.mpr ⟨e, he, by rw [heq]⟩)
  clear hne hnew hlast
  generalize r.items = l at hnot
  induction l with
  | nil => rfl
  | cons e rest ih =>
    rw [orderedInsert_of_not_le entryLe _ (hnot e (by simp)),
      ih fun x hx => hnot x (by simp [hx]), cons_append]

theorem score_add (r : Ranking) (member m : Str) {s : Double} (hs : s.isNan = false) :
    (r.add member s).score m = if m = member then some s else r.score m := by
  rw [add, dif_pos hs]
  split
  · rename_i h
    split
    · rename_i hm
      rw [hm, h]
    · rfl
  · have hperm := perm_orderedInsert entryLe (member, s) (r.remove member).items
    have hget := assocGet_perm
      ((r.remove member).insert member s hs (r.not_mem_remove member)).nodup hperm m
    rw [score, hget, remove, assocGet, assocGet_assocErase]
    by_cases h : member = m
    · simp [h]
    · have h' : m ≠ member := fun e => h e.symm
      simp [h, h', score]

theorem score_remove (r : Ranking) (member m : Str) :
    (r.remove member).score m = if m = member then none else r.score m :=
  assocGet_assocErase member m r.items

end Ranking

/-! ## Skip lists -/

def maxLevel : Nat := 32

/-- A node: its element, and the highest level (counted from 0) it is linked at. -/
structure Node where
  member : Str
  score : Double
  /-- The highest level of the node. -/
  top : Fin maxLevel
  deriving DecidableEq

namespace SkipList

/-- `_before`: whether a node is ordered strictly before a score and member. -/
def before (score : Double) (member : Str) (node : Node) : Bool :=
  node.score.lt score || (node.score.eq score && strLt node.member member)

/-- Moving right on level `i`: how many nodes the walk goes past, when it follows the links of that
level as long as the next node satisfies `p`. Nodes that do not reach the level are jumped over. -/
def advance (i : Nat) (p : Node → Bool) : List Node → Nat
  | [] => 0
  | node :: rest =>
    if i ≤ node.top then
      if p node then advance i p rest + 1 else 0
    else match advance i p rest with
      | 0 => 0
      | n + 1 => n + 2

/-- The search through `levels` levels, from the highest down to level 0: the number of nodes that
stand before the position found. -/
def descend (p : Node → Bool) : Nat → List Node → Nat
  | 0, _ => 0
  | i + 1, nodes =>
    let n := advance i p nodes
    n + descend p i (nodes.drop n)

/-- The number of levels in use, at least one. -/
def level (nodes : List Node) : Nat := nodes.foldr (fun node n => max (node.top + 1) n) 1

/-- The position of a score and member, as a search finds it. -/
def position (nodes : List Node) (score : Double) (member : Str) : Nat :=
  descend (before score member) (level nodes) nodes

/-- `insert`, at a randomly drawn level. -/
def insert (nodes : List Node) (score : Double) (member : Str) (top : Fin maxLevel) : List Node :=
  nodes.insertIdx (position nodes score member) ⟨member, score, top⟩

/-- `delete`: unlink the node found, if it is the one meant. -/
def delete (nodes : List Node) (score : Double) (member : Str) : List Node :=
  let pos := position nodes score member
  match nodes[pos]? with
  | none => nodes
  | some target =>
    if target.score.eq score ∧ target.member = member then nodes.eraseIdx pos else nodes

/-- A walk does not pass a node that fails the test, if all later ones fail it too. -/
theorem advance_le (i : Nat) (p : Node → Bool) (pre post : List Node)
    (hpost : ∀ n ∈ post, p n = false) : advance i p (pre ++ post) ≤ pre.length := by
  induction pre with
  | nil =>
    rw [nil_append, length_nil, Nat.le_zero]
    induction post with
    | nil => rfl
    | cons node rest ih =>
      have hnode : p node = false := hpost node (by simp)
      have hrest := ih fun n hn => hpost n (by simp [hn])
      simp [advance, hnode, hrest]
  | cons node rest ih =>
    rw [cons_append, advance, length_cons]
    split
    · split <;> omega
    · split <;> omega

/-- On level 0 every node is linked, so the walk goes past exactly those that satisfy the test. -/
theorem advance_zero (p : Node → Bool) (pre post : List Node) (hpre : ∀ n ∈ pre, p n = true)
    (hpost : ∀ n ∈ post, p n = false) : advance 0 p (pre ++ post) = pre.length := by
  induction pre with
  | nil => exact Nat.le_zero.mp (advance_le 0 p [] post hpost)
  | cons node rest ih =>
    have hnode : p node = true := hpre node (by simp)
    have hrest := ih fun n hn => hpre n (by simp [hn])
    simp [advance, hnode, hrest]

/-- **A search ends where the test starts to fail**, whatever the levels. -/
theorem descend_eq (p : Node → Bool) (i : Nat) (pre post : List Node)
    (hpre : ∀ n ∈ pre, p n = true) (hpost : ∀ n ∈ post, p n = false) :
    descend p (i + 1) (pre ++ post) = pre.length := by
  induction i generalizing pre with
  | zero => simp [descend, advance_zero p pre post hpre hpost]
  | succ i ih =>
    have hle := advance_le (i + 1) p pre post hpost
    rw [descend, drop_append_of_le_length hle,
      ih _ (fun n hn => hpre n (mem_of_mem_drop hn)), length_drop]
    omega

theorem one_le_level (nodes : List Node) : 1 ≤ level nodes := by
  unfold level
  induction nodes with
  | nil => rfl
  | cons node rest ih =>
    rw [foldr_cons]
    exact le_trans ih (le_max_right _ _)

/-- The position found splits the nodes into those before and those not before the target. -/
theorem position_eq {score : Double} {member : Str} (pre post : List Node)
    (hpre : ∀ n ∈ pre, before score member n = true)
    (hpost : ∀ n ∈ post, before score member n = false) :
    position (pre ++ post) score member = pre.length := by
  have hlevel := one_le_level (pre ++ post)
  obtain ⟨i, hi⟩ := Nat.exists_eq_add_of_le hlevel
  rw [position, hi, Nat.add_comm]
  exact descend_eq _ i pre post hpre hpost

end SkipList

/-- The element a node holds. -/
def Node.entry (node : Node) : Str × Double := (node.member, node.score)

/-- Without NaN, `_before` is the order of the keys. -/
theorem SkipList.before_iff {score : Double} {member : Str} {node : Node}
    (hn : node.score.isNan = false) (hs : score.isNan = false) :
    SkipList.before score member node = true ↔ entryKey node.entry < entryKey (member, score) := by
  rw [SkipList.before, entryKey, entryKey, Prod.Lex.toLex_lt_toLex, Bool.or_eq_true,
    Bool.and_eq_true, Double.lt_iff hn hs, Double.eq_iff hn hs, strLt, decide_eq_true_eq,
    ← Double.rank_injective.eq_iff]
  rfl

/-! ## Sorted sets -/

/-- **A sorted set**: the dictionary of scores and the skip list. -/
structure SortedSet where
  scores : Dict Str Double
  /-- `_list`, as its nodes in level-0 order. -/
  nodes : List Node

namespace SortedSet

/-- The empty sorted set. -/
def empty : SortedSet := ⟨Dict.empty, []⟩

def score (z : SortedSet) (member : Str) : Option Double := z.scores.get? member

def length (z : SortedSet) : Nat := z.scores.size

/-- `items`: the elements in the order of the skip list. -/
def items (z : SortedSet) : List (Str × Double) := z.nodes.map Node.entry

/-- `add`: insert a member, or move it to its new score. `top` is the level drawn for the node. -/
def add (z : SortedSet) (member : Str) (score : Double) (top : Fin maxLevel) : SortedSet :=
  match z.scores.get? member with
  | none => ⟨z.scores.set member score, SkipList.insert z.nodes score member top⟩
  | some old =>
    if old.eq score then z
    else ⟨z.scores.set member score,
      SkipList.insert (SkipList.delete z.nodes old member) score member top⟩

def remove (z : SortedSet) (member : Str) : SortedSet :=
  match z.scores.get? member with
  | none => z
  | some old => ⟨z.scores.erase member, SkipList.delete z.nodes old member⟩

/-- **Representation**: the skip list holds the elements of the ranking in order, and the dictionary
the same scores. -/
structure Models (z : SortedSet) (r : Ranking) : Prop where
  items_eq : z.items = r.items
  /-- The dictionary knows the same scores. -/
  score_eq : ∀ member, z.score member = r.score member

/-- The empty sorted set represents the empty ranking. -/
theorem models_empty : Models empty Ranking.empty := ⟨rfl, fun _ => rfl⟩

variable {r : Ranking}

/-- The dictionary has as many members as the ranking. -/
theorem Models.length_eq {z : SortedSet} (h : z.Models r) : z.length = r.items.length := by
  have hmem : ∀ member, member ∈ z.scores.keys ↔ member ∈ r.items.map Prod.fst := by
    intro member
    rw [Dict.mem_keys_iff, ← Option.isSome_iff_exists, ← assocGet_isSome_iff]
    exact iff_of_eq (congrArg (fun o => (Option.isSome o : Prop)) (h.score_eq member))
  have hperm := (perm_ext_iff_of_nodup z.scores.nodup r.nodup).mpr hmem
  simpa [length, Dict.size, Dict.keys] using hperm.length_eq

/-- An ordered list of nodes splits, at any element, into the nodes before it and the others. -/
theorem exists_split {nodes : List Node} (hsorted : (nodes.map Node.entry).Pairwise entryLe)
    (e : Str × Double) : ∃ pre post, nodes = pre ++ post ∧
      (∀ n ∈ pre, ¬ entryLe e n.entry) ∧ ∀ n ∈ post, entryLe e n.entry := by
  induction nodes with
  | nil => exact ⟨[], [], rfl, by simp, by simp⟩
  | cons node rest ih =>
    obtain ⟨hfirst, hrest⟩ := pairwise_cons.mp hsorted
    by_cases hle : entryLe e node.entry
    · refine ⟨[], node :: rest, rfl, by simp, ?_⟩
      intro n hn
      rcases mem_cons.mp hn with rfl | hn
      · exact hle
      · exact le_trans hle (hfirst _ (mem_map_of_mem hn))
    · obtain ⟨pre, post, rfl, hpre, hpost⟩ := ih hrest
      refine ⟨node :: pre, post, rfl, ?_, hpost⟩
      intro n hn
      rcases mem_cons.mp hn with rfl | hn
      · exact hle
      · exact hpre n hn

/-- Insertion between the smaller and the other elements. -/
theorem orderedInsert_append {e : Str × Double} {l₁ l₂ : List (Str × Double)}
    (h₁ : ∀ x ∈ l₁, ¬ entryLe e x) (h₂ : ∀ x ∈ l₂, entryLe e x) :
    (l₁ ++ l₂).orderedInsert entryLe e = l₁ ++ e :: l₂ := by
  induction l₁ with
  | nil =>
    cases l₂ with
    | nil => rfl
    | cons x rest => exact orderedInsert_cons_of_le entryLe rest (h₂ x (by simp))
  | cons x rest ih =>
    rw [cons_append, orderedInsert_of_not_le entryLe _ (h₁ x (by simp)),
      ih fun y hy => h₁ y (by simp [hy])]
    rfl

/-- Insertion at the end of the first part of a list. -/
theorem insertIdx_append (pre post : List Node) (node : Node) :
    (pre ++ post).insertIdx pre.length node = pre ++ node :: post := by
  induction pre with
  | nil => simp
  | cons first rest ih => simp [ih]

variable {s : Double}

/-- Without NaN, a search for an element stops right after the smaller ones. -/
theorem position_append {pre post : List Node} {member : Str} (hs : s.isNan = false)
    (hreal : ∀ n ∈ pre ++ post, n.score.isNan = false)
    (hpre : ∀ n ∈ pre, ¬ entryLe (member, s) n.entry)
    (hpost : ∀ n ∈ post, entryLe (member, s) n.entry) :
    SkipList.position (pre ++ post) s member = pre.length := by
  refine SkipList.position_eq pre post ?_ ?_
  · intro n hn
    rw [SkipList.before_iff (hreal n (by simp [hn])) hs]
    exact lt_of_not_ge (hpre n hn)
  · intro n hn
    rw [Bool.eq_false_iff, Ne, SkipList.before_iff (hreal n (by simp [hn])) hs]
    exact not_lt_of_ge (hpost n hn)

/-- Insertion of an absent member, at its place in the order. -/
theorem map_entry_insert {nodes : List Node} (hitems : nodes.map Node.entry = r.items)
    (member : Str) (hs : s.isNan = false) (top : Fin maxLevel) :
    (SkipList.insert nodes s member top).map Node.entry =
      r.items.orderedInsert entryLe (member, s) := by
  obtain ⟨pre, post, rfl, hpre, hpost⟩ := exists_split (hitems ▸ r.sorted) (member, s)
  have hreal : ∀ n ∈ pre ++ post, n.score.isNan = false := fun n hn =>
    r.real n.entry (hitems ▸ mem_map_of_mem hn)
  rw [SkipList.insert, position_append hs hreal hpre hpost, ← hitems, map_append,
    orderedInsert_append]
  · simp [insertIdx_append, Node.entry]
  · intro x hx
    obtain ⟨n, hn, rfl⟩ := mem_map.mp hx
    exact hpre n hn
  · intro x hx
    obtain ⟨n, hn, rfl⟩ := mem_map.mp hx
    exact hpost n hn

/-- Deletion of a member that is listed with this score. -/
theorem map_entry_delete {nodes : List Node} (hitems : nodes.map Node.entry = r.items)
    {member : Str} (hscore : r.score member = some s) :
    (SkipList.delete nodes s member).map Node.entry = (r.remove member).items := by
  have hmem : (member, s) ∈ r.items := mem_of_assocGet hscore
  have hs : s.isNan = false := r.real _ hmem
  obtain ⟨pre, post, rfl, hpre, hpost⟩ := exists_split (hitems ▸ r.sorted) (member, s)
  have hreal : ∀ n ∈ pre ++ post, n.score.isNan = false := fun n hn =>
    r.real n.entry (hitems ▸ mem_map_of_mem hn)
  -- the element itself is the first of the others
  have hpost_mem : (member, s) ∈ post.map Node.entry := by
    rw [← hitems, map_append, mem_append] at hmem
    rcases hmem with h | h
    · obtain ⟨n, hn, hentry⟩ := mem_map.mp h
      exact absurd (le_of_eq (by rw [hentry])) (hpre n hn)
    · exact h
  have hsorted : (post.map Node.entry).Pairwise entryLe := by
    have := r.sorted
    rw [← hitems, map_append] at this
    exact (pairwise_append.mp this).2.1
  match post with
  | [] => simp at hpost_mem
  | target :: rest =>
    have htarget : target.entry = (member, s) := by
      rw [map_cons, mem_cons] at hpost_mem
      rcases hpost_mem with h | h
      · exact h.symm
      · have hle := (pairwise_cons.mp hsorted).1 _ h
        exact entryKey_injective (le_antisymm hle (hpost target (by simp)))
    have hmember : target.member = member := congrArg Prod.fst htarget
    have heq : target.score.eq s = true := by
      rw [show target.score = s from congrArg Prod.snd htarget, Double.eq_iff hs hs]
    have hget : (pre ++ target :: rest)[pre.length]? = some target := by simp
    have hrest : (pre ++ rest).map Node.entry = (r.remove member).items := by
      have hnodup := r.nodup
      simp only [map_append, map_cons, htarget] at hitems ⊢
      change _ = assocErase member r.items
      rw [← hitems] at hnodup ⊢
      exact (assocErase_append_cons hnodup).symm
    rw [SkipList.delete, position_append hs hreal hpre hpost]
    simp only [hget, heq, hmember, and_self, if_true, ← hrest]
    simp [eraseIdx_append_of_length_le]

/-- **Adding** to a sorted set adds to the ranking it represents, at every level drawn. -/
theorem Models.add {z : SortedSet} (h : z.Models r) (member : Str) (hs : s.isNan = false)
    (top : Fin maxLevel) : (z.add member s top).Models (r.add member s) := by
  have hget : z.scores.get? member = r.score member := h.score_eq member
  have hscores : ∀ m, (z.scores.set member s).get? m = (r.add member s).score m := by
    intro m
    rw [Dict.get?_set, Ranking.score_add r member m hs]
    congr 1
    exact h.score_eq m
  cases hold : r.score member with
  | none =>
    rw [SortedSet.add, hget, hold]
    refine ⟨?_, hscores⟩
    have hne : ¬ r.score member = some s := by simp [hold]
    rw [Ranking.add, dif_pos hs, if_neg hne]
    simp only [Ranking.insert, Ranking.remove_of_score_none hold]
    exact map_entry_insert h.items_eq member hs top
  | some old =>
    have hreal : old.isNan = false := r.real _ (mem_of_assocGet hold)
    rw [SortedSet.add, hget, hold]
    by_cases heq : old = s
    · have hsame : old.eq s = true := (Double.eq_iff hreal hs).mpr heq
      simp only [hsame, if_true]
      rwa [Ranking.add, dif_pos hs, if_pos (heq ▸ hold)]
    · have hdiff : ¬ old.eq s = true := fun e => heq ((Double.eq_iff hreal hs).mp e)
      simp only [if_neg hdiff]
      refine ⟨?_, hscores⟩
      have hne : ¬ r.score member = some s := by simp [hold, heq]
      rw [Ranking.add, dif_pos hs, if_neg hne]
      exact map_entry_insert (map_entry_delete h.items_eq hold) member hs top

/-- **Removing** a member likewise. -/
theorem Models.remove {z : SortedSet} (h : z.Models r) (member : Str) :
    (z.remove member).Models (r.remove member) := by
  have hget : z.scores.get? member = r.score member := h.score_eq member
  cases hold : r.score member with
  | none =>
    rw [SortedSet.remove, hget, hold, Ranking.remove_of_score_none hold]
    exact h
  | some old =>
    rw [SortedSet.remove, hget, hold]
    refine ⟨map_entry_delete h.items_eq hold, ?_⟩
    intro m
    rw [score, Dict.get?_erase, Ranking.score_remove]
    congr 1
    exact h.score_eq m

end SortedSet

end KvStore
