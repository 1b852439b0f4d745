import KvStore.Engine.SkipListQueries
import Mathlib.Data.Finset.Insert

/-! # The representation invariant of the skip list

What `check_invariants` tests of a skip list, read off its links: on each level the nodes that
`x.forward[i]` leads to from the header, the spans, the links back, `tail`, `length` and `level`.

* **`levelNodes`** — the nodes of a level, in the order of its links.
* **`Invariant`** — the invariant. It follows from `Holds` and `Ascending` (`Holds.invariant`).
* **`withSpans`** — other spans of the header on levels that are not in use. A later `insert` does not
  notice them (`Holds.insertsAlike`).
* **`invariant_of_updates`** — the invariant after any `insert`s of new members and `delete`s.

Scores are from any linear order; the floats other than NaN are one (`RealScore`). -/

namespace KvStore

open Towers List

namespace Linked

namespace SkipList

variable {M S : Type}

/-! ## Levels -/

/-- The nodes that the links of level `i` lead to from `x`, up to `None`. -/
def follow (heap : Heap (M × S)) (i : Nat) : Nat → Nat → Option (List Nat)
  | 0, _ => none
  | fuel + 1, x =>
    match heap.next x i with
    | none => none
    | some none => some []
    | some (some y) => (follow heap i fuel y).map (y :: ·)

/-- **The nodes of a level.** -/
def levelNodes (l : SkipList M S) (i : Nat) : Option (List Nat) := follow l.heap i l.fresh header

/-- On a chain the links lead to the cells that have the level. -/
theorem follow_eq {heap : Heap (M × S)} {level first : Nat} {cells : List Nat}
    (hc : Chain heap level first cells) {i k x fuel : Nat} (hx : cells[k]? = some x) (hi : i < level)
    (hheight : i < heap.height x) (hfuel : cells.length ≤ k + fuel) :
    follow heap i fuel x = some ((cells.drop (k + 1)).filter (heap.tall i)) := by
  induction fuel generalizing k x with
  | zero =>
    have hk : k < cells.length := (List.getElem?_eq_some_iff.mp hx).1
    omega
  | succ fuel ih =>
    have hnext := (hc.links k x hx i hi hheight).next
    rcases ahead_cases (heap.tall i) (cells.drop (k + 1)) with
      ⟨mid, y, rest, hsplit, hmid, hy, hahead⟩ | ⟨hnone, hahead⟩
    · have hget : cells[k + 1 + mid.length]? = some y := by
        rw [← getElem?_drop, hsplit]
        simp
      have hrest : cells.drop (k + 1 + mid.length + 1) = rest := by
        rw [Nat.add_assoc (k + 1), ← drop_drop, hsplit]
        simp
      have hskip : mid.filter (heap.tall i) = [] := by
        rw [filter_eq_nil_iff]
        exact fun z hz => by simp [hmid z hz]
      rw [hahead] at hnext
      rw [follow, hnext]
      simp only
      rw [ih hget (Heap.tall_eq_true.mp hy) (by omega), hrest, hsplit, filter_append, hskip,
        filter_cons_of_pos hy]
      rfl
    · have hnil : (cells.drop (k + 1)).filter (heap.tall i) = [] := by
        rw [filter_eq_nil_iff]
        exact fun z hz => by simp [hnone z hz]
      rw [hahead] at hnext
      rw [follow, hnext, hnil]

variable {l : SkipList M S} {xs : List Nat}

/-- A level has the nodes that are higher. -/
theorem Holds.levelNodes (hl : l.Holds xs) {i : Nat} (hi : i < l.level) :
    l.levelNodes i = some (xs.filter (l.heap.tall i)) := by
  have hheight : i < l.heap.height header := Nat.lt_of_lt_of_le hi hl.chain.level_le
  exact follow_eq hl.chain (k := 0) rfl hi hheight (by simpa using hl.fuel)

theorem Holds.levelNodes_zero (hl : l.Holds xs) : l.levelNodes 0 = some xs := by
  rw [hl.levelNodes hl.chain.pos, filter_eq_self.mpr]
  exact fun x hx => Heap.tall_eq_true.mpr (hl.chain.heights x hx).1

/-! ## Stale spans -/

/-- The same list, with other spans of the header. -/
def withSpans (l : SkipList M S) (spans : List Int) : SkipList M S :=
  { l with heap := l.heap.modify header fun cell => { cell with span := spans } }

section Spans

variable (l) (spans : List Int) (x i : Nat)

@[simp] theorem height_withSpans : (l.withSpans spans).heap.height x = l.heap.height x := by
  by_cases hx : x = header <;> simp [withSpans, Heap.modify, Heap.height, hx]

@[simp] theorem next_withSpans : (l.withSpans spans).heap.next x i = l.heap.next x i := by
  by_cases hx : x = header <;> simp [withSpans, Heap.modify, Heap.next, hx]

@[simp] theorem value_withSpans : ((l.withSpans spans).heap x).value = (l.heap x).value := by
  by_cases hx : x = header <;> simp [withSpans, Heap.modify, hx]

@[simp] theorem backward_withSpans : ((l.withSpans spans).heap x).backward = (l.heap x).backward := by
  by_cases hx : x = header <;> simp [withSpans, Heap.modify, hx]

theorem gap_withSpans :
    (l.withSpans spans).heap.gap x i = if x = header then spans[i]? else l.heap.gap x i := by
  by_cases hx : x = header <;> simp [withSpans, Heap.modify, Heap.gap, hx]

end Spans

/-- Nothing depends on the spans of the header on the levels that are not in use. -/
theorem Holds.withSpans (hl : l.Holds xs) {spans : List Int} (hroom : spans.length = maxLevel)
    (hspans : ∀ i < l.level, spans[i]? = l.heap.gap header i) : (l.withSpans spans).Holds xs where
  chain := by
    refine hl.chain.raise le_rfl (height_withSpans l spans) hl.chain.level_le ?_
      (next_withSpans l spans) (fun i hi hlt => absurd hlt (Nat.not_lt.mpr hi)) fun x i hi => ?_
    · rw [hl.chain.room, hl.top]
      exact hroom
    · rw [gap_withSpans]
      split
      case isTrue hx => rw [hx, hspans i hi]
      case isFalse => rfl
  mirror := ⟨fun k x hx => (backward_withSpans l spans x).trans (hl.mirror.backward k x hx), hl.mirror.last⟩
  length_eq := hl.length_eq
  fresh := hl.fresh
  top := by rw [height_withSpans, hl.top]
  used := by
    refine hl.used.imp_right ?_
    rintro ⟨x, hx, hlevel⟩
    exact ⟨x, hx, (height_withSpans l spans x).trans hlevel⟩

theorem place_withSpans (l : SkipList M S) (spans : List Int) (go : Int → M × S → Bool) :
    (l.withSpans spans).place xs go = l.place xs go := by
  have hheight : (l.withSpans spans).heap.height = l.heap.height :=
    funext fun x => height_withSpans l spans x
  simp only [place, hheight, value_withSpans]
  rfl

section Ordered

variable [LinearOrder M] [LinearOrder S]

attribute [local instance] orderComparable

/-- **The representation invariant** of a skip list with the nodes `xs`. -/
structure Invariant (l : SkipList M S) (xs : List Nat) : Prop where
  lists : l.levelNodes 0 = some xs
  /-- They are strictly ascending by score and member. -/
  ascending : Ascending (l.elements xs)
  /-- Each higher level is a subsequence of the one below. -/
  thinner : ∀ i, i + 1 < l.level → ∃ ys zs, l.levelNodes i = some ys ∧
    l.levelNodes (i + 1) = some zs ∧ zs.Sublist ys
  /-- The span of a link is the difference of the ranks of its ends, the header having rank 0. -/
  span : ∀ i < l.level, ∀ k x y : Nat, (header :: xs)[k]? = some x → l.heap.next x i = some (some y) →
    ∃ k' : Nat, (header :: xs)[k']? = some y ∧ l.heap.gap x i = some ((k' : Int) - k)
  /-- The link back of a node leads to the one before it on level 0. -/
  backward : ∀ k x, xs[k]? = some x → (l.heap x).backward = (xs.take k).getLast?
  tail : l.tail = xs.getLast?
  length : l.length = xs.length
  /-- `level` is the highest level of a node, or 1. -/
  level : IsGreatest {n | n = 1 ∨ ∃ x ∈ xs, n = l.heap.height x} l.level
  unused : ∀ i, l.level ≤ i → i < maxLevel → l.heap.next header i = some none

/-- **A skip list that holds ascending elements has the invariant.** -/
theorem Holds.invariant (hl : l.Holds xs) (hasc : Ascending (l.elements xs)) : l.Invariant xs where
  lists := hl.levelNodes_zero
  ascending := hasc
  thinner := by
    intro i hi
    refine ⟨_, _, hl.levelNodes (by omega), hl.levelNodes hi, ?_⟩
    refine monotone_filter_right xs fun x hx => ?_
    rw [Heap.tall_eq_true] at hx ⊢
    omega
  span := by
    intro i hi k x y hx hnext
    have hmem : x ∈ header :: xs := mem_of_getElem? hx
    have hheight : i < l.heap.height x := (List.getElem?_eq_some_iff.mp hnext).1
    have hlinks := hl.chain.links k x hx i hi hheight
    rcases ahead_cases (l.heap.tall i) ((header :: xs).drop (k + 1)) with
      ⟨mid, z, rest, hsplit, -, -, hahead⟩ | ⟨-, hahead⟩
    · obtain rfl : z = y := by
        have hnext' := hlinks.next
        rw [hahead, hnext, Option.some.injEq, Option.some.injEq] at hnext'
        exact hnext'.symm
      refine ⟨k + 1 + mid.length, ?_, ?_⟩
      · rw [← getElem?_drop, hsplit]
        simp
      · rw [hlinks.gap, hahead]
        congr 1
        push_cast
        ring
    · have hnext' := hlinks.next
      rw [hahead, hnext] at hnext'
      simp at hnext'
  backward := hl.mirror.backward
  tail := hl.mirror.last
  length := hl.length_eq
  level := by
    constructor
    · rcases hl.used with hone | ⟨x, hx, hheight⟩
      · exact .inl hone
      · exact .inr ⟨x, hx, hheight.symm⟩
    · rintro n (rfl | ⟨x, hx, rfl⟩)
      · exact hl.chain.pos
      · exact (hl.chain.heights x hx).2
  unused := by
    intro i hi hlt
    exact hl.chain.clear i hi (by rwa [hl.top])

/-- **`insert` does not notice other spans of the header**: with and without them the invariant holds
afterwards, and the nodes, their elements, `level` and all links and spans in use are the same. -/
def InsertsAlike (l : SkipList M S) (spans : List Int) (score : S) (member : M)
    (top : Fin maxLevel) : Prop :=
  ∃ l₁ l₂ ys, l.insert score member top = some (l₁, l.fresh) ∧
    (l.withSpans spans).insert score member top = some (l₂, l.fresh) ∧
    l₁.Invariant ys ∧ l₂.Invariant ys ∧ l₂.elements ys = l₁.elements ys ∧ l₂.level = l₁.level ∧
    ∀ x ∈ header :: ys, ∀ i < l₁.level, i < l₁.heap.height x →
      l₂.heap.next x i = l₁.heap.next x i ∧ l₂.heap.gap x i = l₁.heap.gap x i

/-- **A later `insert` does not notice stale spans.** -/
theorem Holds.insertsAlike (hl : l.Holds xs) (hasc : Ascending (l.elements xs)) {spans : List Int}
    (hroom : spans.length = maxLevel) (hspans : ∀ i < l.level, spans[i]? = l.heap.gap header i)
    {member : M} {score : S} (hnew : (member, score) ∉ l.elements xs) (top : Fin maxLevel) :
    l.InsertsAlike spans score member top := by
  obtain ⟨l₁, hinsert₁, hholds₁, hkeeps₁, hvalue₁, hheight₁⟩ := hl.insert score member top
  obtain ⟨l₂, hinsert₂, hholds₂, hkeeps₂, hvalue₂, hheight₂⟩ :=
    (hl.withSpans hroom hspans).insert score member top
  rw [place_withSpans, show (l.withSpans spans).fresh = l.fresh from rfl] at hholds₂
  -- the order of the elements
  have hasc₁ : Ascending (l₁.elements (xs.take (l.place xs (before score member)) ++
      l.fresh :: xs.drop (l.place xs (before score member)))) := by
    obtain ⟨l', ys, hinsert, hholds, hascending, -⟩ := hl.insert_ascending hasc hnew top
    obtain rfl : l₁ = l' := congrArg Prod.fst (Option.some.inj (hinsert₁.symm.trans hinsert))
    rwa [Option.some.inj (hholds₁.levelNodes_zero.symm.trans hholds.levelNodes_zero)]
  have hsub : ∀ x ∈ xs.take (l.place xs (before score member)) ++
      l.fresh :: xs.drop (l.place xs (before score member)), x = l.fresh ∨ x ∈ xs := by
    intro x hx
    rcases mem_append.mp hx with hx | hx
    · exact .inr (mem_of_mem_take hx)
    · exact (mem_cons.mp hx).imp_right mem_of_mem_drop
  generalize xs.take (l.place xs (before score member)) ++
    l.fresh :: xs.drop (l.place xs (before score member)) = ys at hholds₁ hholds₂ hasc₁ hsub
  have hsame : ∀ x ∈ ys, (l₂.heap x).value = (l₁.heap x).value ∧
      l₂.heap.height x = l₁.heap.height x := by
    intro x hx
    rcases hsub x hx with rfl | hx
    · exact ⟨hvalue₂.trans hvalue₁.symm, hheight₂.trans hheight₁.symm⟩
    · obtain ⟨hv₁, hh₁⟩ := hkeeps₁ x hx
      obtain ⟨hv₂, hh₂⟩ := hkeeps₂ x hx
      rw [value_withSpans] at hv₂
      rw [height_withSpans] at hh₂
      exact ⟨hv₂.trans hv₁.symm, hh₂.trans hh₁.symm⟩
  have helements : l₂.elements ys = l₁.elements ys := map_congr_left fun x hx => (hsame x hx).1
  have hinv₁ := hholds₁.invariant hasc₁
  have hinv₂ := hholds₂.invariant (helements ▸ hasc₁)
  have hlevel : l₂.level = l₁.level := by
    have hlevels : {n | n = 1 ∨ ∃ x ∈ ys, n = l₂.heap.height x} =
        {n | n = 1 ∨ ∃ x ∈ ys, n = l₁.heap.height x} := by
      ext n
      refine or_congr_right (exists_congr fun x => and_congr_right fun hx => ?_)
      rw [(hsame x hx).2]
    have hgreatest := hinv₂.level
    rw [hlevels] at hgreatest
    exact hgreatest.unique hinv₁.level
  refine ⟨l₁, l₂, ys, hinsert₁, hinsert₂, hinv₁, hinv₂, helements, hlevel, fun x hx i hi hheight => ?_⟩
  obtain ⟨k, hk⟩ := mem_iff_getElem?.mp hx
  have hheight' : l₂.heap.height x = l₁.heap.height x := by
    rcases mem_cons.mp hx with rfl | hx
    · rw [hholds₁.top, hholds₂.top]
    · exact (hsame x hx).2
  obtain ⟨hnext₁, hgap₁⟩ := hholds₁.chain.links k x hk i hi hheight
  obtain ⟨hnext₂, hgap₂⟩ := hholds₂.chain.links k x hk i (by omega) (by omega)
  have hahead : ahead (l₂.heap.tall i) ((header :: ys).drop (k + 1)) =
      ahead (l₁.heap.tall i) ((header :: ys).drop (k + 1)) := by
    refine ahead_congr fun y hy => ?_
    rw [Heap.tall, Heap.tall, (hsame y (mem_of_mem_drop hy)).2]
  rw [hnext₁, hgap₁, hnext₂, hgap₂, hahead]
  exact ⟨rfl, rfl⟩

/-! ## Updates -/

/-- A `delete` of what is not there changes nothing. -/
theorem Holds.delete_of_not_mem (hl : l.Holds xs) {member : M} {score : S}
    (hout : (member, score) ∉ l.elements xs) : l.delete score member = some (false, l) := by
  rcases hl.delete score member with ⟨node, hnode, hscore, hmember, -⟩ | ⟨-, hdelete⟩
  · refine absurd (mem_map.mpr ⟨node, mem_of_getElem? hnode, ?_⟩) hout
    exact Prod.ext hmember (of_decide_eq_true hscore)
  · exact hdelete

/-- **A call of a method that changes the list.** -/
inductive Update (M S : Type)
  /-- `insert`, and the level drawn for the node. -/
  | insert (score : S) (member : M) (top : Fin maxLevel)
  | delete (score : S) (member : M)

namespace Update

/-- The list after a call. -/
def run (l : SkipList M S) : Update M S → Option (SkipList M S)
  | .insert score member top => (l.insert score member top).map Prod.fst
  | .delete score member => (l.delete score member).map Prod.snd

/-- What a call does to the set of elements. -/
def meaning (X : Finset (M × S)) : Update M S → Finset (M × S)
  | .insert score member _ => Insert.insert (member, score) X
  | .delete score member => X.erase (member, score)

/-- A member that is inserted is not present. -/
def New (X : Finset (M × S)) : Update M S → Prop
  | .insert _ member _ => ∀ e ∈ X, e.1 ≠ member
  | .delete _ _ => True

/-- In a sequence of calls every member that is inserted is not present. -/
def AllNew : Finset (M × S) → List (Update M S) → Prop
  | _, [] => True
  | X, u :: updates => u.New X ∧ AllNew (u.meaning X) updates

/-- **One call** puts an element in or takes it out. -/
theorem step (u : Update M S) (hl : l.Holds xs) (hasc : Ascending (l.elements xs)) {X : Finset (M × S)}
    (hX : ∀ e, e ∈ l.elements xs ↔ e ∈ X) (hnew : u.New X) :
    ∃ l' ys, u.run l = some l' ∧ l'.Holds ys ∧ Ascending (l'.elements ys) ∧
      ∀ e, e ∈ l'.elements ys ↔ e ∈ u.meaning X := by
  cases u with
  | insert score member top =>
    have hout : (member, score) ∉ l.elements xs := fun hmem => hnew _ ((hX _).mp hmem) rfl
    obtain ⟨l', ys, hinsert, hholds, hascending, hperm⟩ := hl.insert_ascending hasc hout top
    refine ⟨l', ys, by rw [run, hinsert]; rfl, hholds, hascending, fun e => ?_⟩
    rw [hperm.mem_iff, mem_cons, hX, meaning, Finset.mem_insert]
  | delete score member =>
    by_cases hmem : (member, score) ∈ l.elements xs
    · obtain ⟨l', ys, hdelete, hholds, hascending, hperm⟩ := hl.delete_ascending hasc hmem
      refine ⟨l', ys, by rw [run, hdelete]; rfl, hholds, hascending, fun e => ?_⟩
      have hnodup : ((member, score) :: l'.elements ys).Nodup :=
        hperm.nodup_iff.mp (hasc.imp fun hlt he => absurd (he ▸ hlt) (lt_irrefl _))
      rw [meaning, Finset.mem_erase, ← hX, hperm.mem_iff, mem_cons]
      constructor
      · intro he
        exact ⟨fun heq => (nodup_cons.mp hnodup).1 (heq ▸ he), .inr he⟩
      · rintro ⟨hne, he⟩
        exact he.resolve_left hne
    · refine ⟨l, xs, by rw [run, hl.delete_of_not_mem hmem]; rfl, hl, hasc, fun e => ?_⟩
      rw [meaning, Finset.erase_eq_of_notMem fun hin => hmem ((hX _).mpr hin), hX]

/-- **Any calls.** -/
theorem steps {updates : List (Update M S)} (hl : l.Holds xs) (hasc : Ascending (l.elements xs))
    {X : Finset (M × S)} (hX : ∀ e, e ∈ l.elements xs ↔ e ∈ X) (hnew : AllNew X updates) :
    ∃ l' ys, updates.foldlM run l = some l' ∧ l'.Holds ys ∧ Ascending (l'.elements ys) ∧
      ∀ e, e ∈ l'.elements ys ↔ e ∈ updates.foldl meaning X := by
  induction updates generalizing l xs X with
  | nil => exact ⟨l, xs, rfl, hl, hasc, hX⟩
  | cons u updates ih =>
    obtain ⟨l₁, ys, hrun, hl₁, hasc₁, hX₁⟩ := u.step hl hasc hX hnew.1
    rw [foldlM_cons, hrun, foldl_cons]
    exact ih hl₁ hasc₁ hX₁ hnew.2

end Update

/-- **The representation invariant of the skip list.** After any `insert`s of members that are not present
and `delete`s, at any levels, the list has the invariant and its elements are those put in and not taken out;
and whatever the header's spans above `level` are, a later `insert` makes the same of it. -/
theorem invariant_of_updates [Inhabited M] [Zero S] {updates : List (Update M S)}
    (hnew : Update.AllNew ∅ updates) :
    ∃ (l : SkipList M S) (xs : List Nat), updates.foldlM Update.run new = some l ∧ l.Invariant xs ∧
      (∀ e, e ∈ l.elements xs ↔ e ∈ updates.foldl Update.meaning ∅) ∧
      ∀ (spans : List Int) (score : S) (member : M) (top : Fin maxLevel), spans.length = maxLevel →
        (∀ i < l.level, spans[i]? = l.heap.gap header i) → (∀ e ∈ l.elements xs, e.1 ≠ member) →
        l.InsertsAlike spans score member top := by
  obtain ⟨l, xs, hrun, hl, hasc, hX⟩ :=
    Update.steps (X := ∅) (holds_new (M := M) (S := S)) List.Pairwise.nil (by simp [elements]) hnew
  refine ⟨l, xs, hrun, hl.invariant hasc, hX, fun spans score member top hroom hspans hout => ?_⟩
  exact hl.insertsAlike hasc hroom hspans (fun hmem => hout _ hmem rfl) top

end Ordered

/-! ## Floats -/

/-- **A score that is not NaN.** -/
def RealScore : Type := { x : Double // x.isNan = false }

namespace RealScore

theorem rank_val_injective : Function.Injective fun x : RealScore => x.val.rank :=
  Double.rank_injective.comp Subtype.val_injective

/-- Scores in their order. -/
instance : LinearOrder RealScore := LinearOrder.lift' _ rank_val_injective

/-- The score of the header. -/
instance : Zero RealScore := ⟨Double.zero, rfl⟩

attribute [local instance] orderComparable

/-- The comparisons of the order are those of the floats. -/
theorem comparable_val (x y : RealScore) :
    Comparable.lt x y = Comparable.lt x.val y.val ∧ Comparable.le x y = Comparable.le x.val y.val ∧
      Comparable.eq x y = Comparable.eq x.val y.val := by
  have hlt : (x < y) ↔ x.val.rank < y.val.rank := Iff.rfl
  have heq : x = y ↔ x.val.rank = y.val.rank := rank_val_injective.eq_iff.symm
  refine ⟨?_, ?_, ?_⟩
  · simp [Comparable.lt, Double.lt, x.property, y.property, hlt]
  · simp [Comparable.le, Double.le, Double.lt, Double.eq, x.property, y.property, le_iff_lt_or_eq, hlt, heq]
  · simp [Comparable.eq, Double.eq, x.property, y.property, heq]

end RealScore

section Floats

attribute [local instance] strOrder orderComparable

/-- A member is deleted and put in again, higher than before. -/
def readded : List (Update Str RealScore) :=
  [.insert 0 [97] (Fin.ofNat 32 3), .insert 0 [98] (Fin.ofNat 32 0), .delete 0 [97],
    .insert 0 [97] (Fin.last 31)]

theorem allNew_readded : Update.AllNew ∅ readded := by
  refine ⟨?_, ?_, trivial, ?_, trivial⟩
  · simp [Update.New]
  · simp [Update.New, Update.meaning]
  · rintro ⟨member, score⟩ hmem rfl
    simp [Update.meaning] at hmem

theorem invariant_of_updates_readded : ∃ (l : SkipList Str RealScore) (xs : List Nat),
    readded.foldlM Update.run new = some l ∧ l.Invariant xs ∧ ([98], 0) ∈ l.elements xs := by
  obtain ⟨l, xs, hrun, hinv, hmem, -⟩ := invariant_of_updates allNew_readded
  refine ⟨l, xs, hrun, hinv, (hmem _).mpr ?_⟩
  simp [readded, Update.meaning]

end Floats

end SkipList

end Linked

end KvStore
