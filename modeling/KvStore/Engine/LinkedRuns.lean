import KvStore.Engine.Listings

/-! # Sorted sets over whole runs

* **`Linked.SortedSet.Represents.pop`** — popping takes the first elements of the listing.
* **`Linked.SortedSet.refines`** — whatever was done to a sorted set, and whatever levels were drawn,
  every query is what it is of the listing.
* **`Linked.SortedSet.simulates_writes`** — the sorted sets of the engine, which hold a plain list of nodes, are
  linked sorted sets. -/

namespace KvStore

open Towers List

namespace Linked

namespace SortedSet

variable {M S : Type}

/-! ## Popping -/

namespace Represents

variable [LinearOrder M] [LinearOrder S] {f : Finmap fun _ : M => S} {z : SortedSet M S} {xs : List Nat}

attribute [local instance] SkipList.orderComparable

open Linked.SkipList (Ascending)

/-- The listing without its first element, in either direction. -/
theorem view_listing_erase (hr : z.Represents f xs) {fromMax : Bool} {e : M × S} {rest : List (M × S)}
    (h : view fromMax (listing f) = e :: rest) : view fromMax (listing (f.erase e.1)) = rest := by
  have hasc : Ascending (listing f) := by
    rw [hr.lists.listing_eq]
    exact hr.lists.ascending
  have hnd : ((listing f).map Prod.fst).Nodup := by
    rw [hr.lists.listing_eq]
    exact hr.lists.nodup
  have hmem : ∀ m s, (m, s) ∈ listing f ↔ f.lookup m = some s := by
    rw [hr.lists.listing_eq]
    exact hr.lists.mem_iff
  have hperm : (listing f).Perm (e :: rest) := by
    rw [← h]
    cases fromMax
    · exact .refl _
    · exact (reverse_perm _).symm
  have hsub : (view fromMax rest).Sublist (listing f) := by
    cases fromMax with
    | false => exact (show listing f = e :: rest from h) ▸ sublist_cons_self e rest
    | true => exact reverse_sublist.mp (by
        rw [view_true, reverse_reverse, show (listing f).reverse = e :: rest from h]
        exact sublist_cons_self e rest)
  -- the rest is ascending, and has the other pairs
  have heq : listing (f.erase e.1) = view fromMax rest := by
    refine SortedSet.listing_eq (hasc.sublist hsub) fun m s => ?_
    have hview : (m, s) ∈ view fromMax rest ↔ (m, s) ∈ rest := by cases fromMax <;> simp
    have hiff := hmem m s
    rw [hperm.mem_iff, mem_cons] at hiff
    have hndrest := (hperm.map Prod.fst).nodup_iff.mp hnd
    rw [hview, lookup_erase]
    by_cases hm : m = e.1
    · rw [if_pos hm]
      refine iff_of_false (fun hin => ?_) (by simp)
      exact (nodup_cons.mp hndrest).1 (mem_map.mpr ⟨(m, s), hin, hm⟩)
    · have hne : ¬ (m, s) = e := fun he => hm (congrArg Prod.fst he)
      rw [if_neg hm, ← hiff]
      simp [hne]
  rw [heq]
  cases fromMax <;> simp

/-- The first node, in either direction. -/
theorem endNode (hr : z.Represents f xs) (fromMax : Bool) :
    (if fromMax then some z.list.tail else z.list.heap.next header 0) = some (view fromMax xs).head? := by
  cases fromMax with
  | false =>
    rw [if_neg (by simp), hr.lists.holds.chain.next_zero hr.lists.holds.chain.zero_eq,
      getElem?_cons_succ, view_false, head?_eq_getElem?]
  | true => rw [if_pos rfl, hr.lists.holds.mirror.last, view_true, head?_reverse]

theorem popLoop (hr : z.Represents f xs) (fromMax : Bool) (count : Nat) :
    ∃ z' xs', SortedSet.popLoop fromMax count z = some ((view fromMax (listing f)).take count, z') ∧
      z'.Represents (((view fromMax (listing f)).take count).foldl (fun f e => f.erase e.1) f) xs' := by
  induction count generalizing z f xs with
  | zero => exact ⟨z, xs, rfl, hr⟩
  | succ count ih =>
    have hview : view fromMax (listing f) = z.list.elements (view fromMax xs) := by
      rw [hr.lists.listing_eq, elements_view]
    have hsize : z.scores.size = (view fromMax xs).length := by
      rw [show z.scores.size = xs.length from hr.length_eq]
      cases fromMax <;> simp
    cases hxs : view fromMax xs with
    | nil =>
      rw [hxs] at hview hsize
      have hempty : view fromMax (listing f) = [] := hview
      refine ⟨z, xs, ?_, ?_⟩
      · rw [SortedSet.popLoop, if_pos (show z.scores.size = 0 from hsize), hempty]
        rfl
      · rw [hempty]
        exact hr
    | cons x rest =>
      rw [hxs] at hview hsize
      have hcons : view fromMax (listing f) = (z.list.heap x).value :: z.list.elements rest := hview
      obtain ⟨z₁, xs₁, hremove, hr₁⟩ := hr.remove (z.list.heap x).value.1
      obtain ⟨z', xs', hpop, hr'⟩ := ih hr₁
      rw [hr.view_listing_erase hcons] at hpop hr'
      refine ⟨z', xs', ?_, ?_⟩
      · have hne : ¬ z.scores.size = 0 := by rw [hsize]; simp
        rw [SortedSet.popLoop, if_neg hne, hr.endNode fromMax, hxs]
        simp only [Option.bind_some, head?_cons, hremove, hpop, Option.map_some, hcons,
          take_succ_cons]
      · rw [hcons, take_succ_cons, foldl_cons]
        exact hr'

/-- **`pop`** returns and removes the first `count` elements, from the end asked for. -/
theorem pop (hr : z.Represents f xs) (count : Int) (fromMax : Bool) :
    ∃ z' xs', z.pop count fromMax = some ((view fromMax (listing f)).take count.toNat, z') ∧
      z'.Represents (((view fromMax (listing f)).take count.toNat).foldl (fun f e => f.erase e.1) f) xs' :=
  hr.popLoop fromMax count.toNat

end Represents

/-! ## Whole runs -/

/-- What is done to a sorted set. A level is drawn for the node that may have to be made. -/
inductive Change (M S : Type)
  | add (member : M) (score : S) (top : Fin maxLevel)
  | incr (member : M) (delta : S) (top : Fin maxLevel)
  | remove (member : M)
  | pop (count : Int) (fromMax : Bool)

/-- What comes back. -/
inductive Answer (M S : Type)
  /-- Whether a member is new, or was there. -/
  | flag (b : Bool)
  | score (s : S)
  | elements (es : List (M × S))
  | error (e : KvError)

section Runs

variable [LinearOrder M] [Add S] [Zero S]

def change [Comparable S] (z : SortedSet M S) : Change M S → Option (Answer M S × SortedSet M S)
  | .add member score top => (z.add member score top).map fun r => (.flag r.1, r.2)
  | .incr member delta top => (z.incr member delta top).map fun r => match r.1 with
      | .ok score => (.score score, r.2)
      | .error e => (.error e, r.2)
  | .remove member => (z.remove member).map fun r => (.flag r.1, r.2)
  | .pop count fromMax => (z.pop count fromMax).map fun r => (.elements r.1, r.2)

/-- One after the other. -/
def changes [Comparable S] (z : SortedSet M S) : List (Change M S) → Option (List (Answer M S) × SortedSet M S)
  | [] => some ([], z)
  | c :: rest => (z.change c).bind fun r => (changes r.2 rest).map fun rs => (r.1 :: rs.1, rs.2)

variable [LinearOrder S]

/-- **What a change means** for the map. -/
def Change.meaning (f : Finmap fun _ : M => S) : Change M S → Answer M S × Finmap fun _ : M => S
  | .add member score _ => (.flag (f.lookup member).isNone, f.insert member score)
  | .incr member delta _ =>
    (.score ((f.lookup member).getD 0 + delta), f.insert member ((f.lookup member).getD 0 + delta))
  | .remove member => (.flag (f.lookup member).isSome, f.erase member)
  | .pop count fromMax =>
    let popped := (view fromMax (listing f)).take count.toNat
    (.elements popped, popped.foldl (fun f e => f.erase e.1) f)

/-- What a sequence of changes means. -/
def meanings (f : Finmap fun _ : M => S) : List (Change M S) → List (Answer M S) × Finmap fun _ : M => S
  | [] => ([], f)
  | c :: rest => ((c.meaning f).1 :: (meanings (c.meaning f).2 rest).1, (meanings (c.meaning f).2 rest).2)

attribute [local instance] SkipList.orderComparable

variable {f : Finmap fun _ : M => S} {z : SortedSet M S} {xs : List Nat}

theorem Represents.change (hr : z.Represents f xs) (c : Change M S) :
    ∃ z' xs', z.change c = some ((c.meaning f).1, z') ∧ z'.Represents (c.meaning f).2 xs' := by
  cases c with
  | add member score top =>
    obtain ⟨z', xs', hadd, hr'⟩ := hr.add member score top
    exact ⟨z', xs', by rw [SortedSet.change, hadd]; rfl, hr'⟩
  | incr member delta top =>
    obtain ⟨z', xs', hincr, hr'⟩ := hr.incr member delta top
    exact ⟨z', xs', by rw [SortedSet.change, hincr]; rfl, hr'⟩
  | remove member =>
    obtain ⟨z', xs', hremove, hr'⟩ := hr.remove member
    exact ⟨z', xs', by rw [SortedSet.change, hremove]; rfl, hr'⟩
  | pop count fromMax =>
    obtain ⟨z', xs', hpop, hr'⟩ := hr.pop count fromMax
    exact ⟨z', xs', by rw [SortedSet.change, hpop]; rfl, hr'⟩

theorem Represents.changes (hr : z.Represents f xs) (cs : List (Change M S)) :
    ∃ z' xs', z.changes cs = some ((meanings f cs).1, z') ∧ z'.Represents (meanings f cs).2 xs' := by
  induction cs generalizing z f xs with
  | nil => exact ⟨z, xs, rfl, hr⟩
  | cons c rest ih =>
    obtain ⟨z₁, xs₁, hchange, hr₁⟩ := hr.change c
    obtain ⟨z', xs', hchanges, hr'⟩ := ih hr₁
    refine ⟨z', xs', ?_, hr'⟩
    rw [SortedSet.changes, hchange, Option.bind_some, hchanges]
    rfl

omit [LinearOrder M] [Add S] [Zero S] in
theorem contains_eq_within (r : SkipList.Range S) (score : S) : r.contains score = within r score := by
  rw [Bool.eq_iff_iff, within, decide_eq_true_eq, SkipList.Range.contains, Bool.and_eq_true,
    SkipList.gteMin_iff, SkipList.lteMax_iff]

/-- **A sorted set answers as its map does.** -/
structure AnswersAs (z : SortedSet M S) (f : Finmap fun _ : M => S) : Prop where
  /-- The dictionary holds the pairs of the map. -/
  scores : ∀ m, z.scores.get? m = f.lookup m
  /-- The skip list holds them too, in order. -/
  items : z.items = some (listing f)
  /-- `rank` and the rank from the other end. -/
  rank : ∀ member reverse, z.rank member reverse =
    some (((view reverse (listing f)).findIdx? fun e => e.1 = member).map fun r : Nat => (r : Int))
  rangeByRank : ∀ start stop reverse, (z.rangeByRank start stop reverse).map z.list.elements =
    some (slice (view reverse (listing f)) start stop)
  rangeByScore : ∀ r reverse offset count,
    (z.rangeByScore r reverse offset count).map z.list.elements =
      some (limit count ((view reverse ((listing f).filter fun e => within r e.2)).drop offset.toNat))
  countInRange : ∀ r, z.countInRange r = some (((listing f).filter fun e => within r e.2).length : Int)

omit [Add S] [Zero S] in
theorem Represents.answersAs (hr : z.Represents f xs) : z.AnswersAs f where
  scores := hr.score_eq
  items := hr.items
  rank := hr.rank
  rangeByRank := hr.rangeByRank
  rangeByScore r reverse offset count := by
    simp only [← contains_eq_within]
    exact hr.rangeByScore r reverse offset count
  countInRange r := by
    simp only [← contains_eq_within]
    exact hr.countInRange r

/-- **A sorted set is its mathematical model.** After any changes, at any levels drawn, none of which
fails and each of which answers as it should, every query is what it is of the listing of the map. -/
theorem refines [Inhabited M] (cs : List (Change M S)) :
    ∃ z, (new : SortedSet M S).changes cs = some ((meanings ∅ cs).1, z) ∧
      z.AnswersAs (meanings ∅ cs).2 := by
  obtain ⟨z, xs, hchanges, hr⟩ := (Represents.new (M := M) (S := S)).changes cs
  exact ⟨z, hchanges, hr.answersAs⟩

end Runs

/-! ## The sorted sets of the engine -/

section Engine

attribute [local instance] SkipList.strOrder

variable {z : SortedSet Str Double} {z₀ : KvStore.SortedSet}

/-- **A linked sorted set is one of the engine's**: the same dictionary, and the same nodes. -/
def Simulates (z : SortedSet Str Double) (z₀ : KvStore.SortedSet) : Prop :=
  z.scores = z₀.scores ∧ ∃ xs, z.list.Holds xs ∧ xs.map z.list.nodeAt = z₀.nodes

/-- **`add`**, whatever the scores. -/
theorem Simulates.add (hs : z.Simulates z₀) (member : Str) (score : Double) (top : Fin maxLevel) :
    ∃ b z', z.add member score top = some (b, z') ∧ z'.Simulates (z₀.add member score top) := by
  obtain ⟨hscores, xs, hl, hnodes⟩ := hs
  cases hget : z₀.scores.get? member with
  | none =>
    obtain ⟨l', xs', hinsert, hl', hnodes'⟩ := hl.nodes_insert score member top
    refine ⟨true, ⟨z.scores.set member score, l'⟩, ?_, ?_, xs', hl', ?_⟩
    · rw [SortedSet.add, hscores, hget]
      simp [hinsert]
    · simp [KvStore.SortedSet.add, hget, hscores]
    · simp [KvStore.SortedSet.add, hget, hnodes', hnodes]
  | some old =>
    by_cases heq : old.eq score = true
    · refine ⟨false, z, ?_, ?_⟩
      · rw [SortedSet.add, hscores, hget]
        exact if_pos heq
      · rw [KvStore.SortedSet.add, hget]
        simp only [heq, if_true]
        exact ⟨hscores, xs, hl, hnodes⟩
    · obtain ⟨found, l₁, xs₁, hdelete, hl₁, hnodes₁⟩ := hl.nodes_delete old member
      obtain ⟨l', xs', hinsert, hl', hnodes'⟩ := hl₁.nodes_insert score member top
      refine ⟨false, ⟨z.scores.set member score, l'⟩, ?_, ?_, xs', hl', ?_⟩
      · rw [SortedSet.add, hscores, hget]
        refine (if_neg heq).trans ?_
        rw [hdelete, Option.bind_some, hinsert]
        rfl
      · simp [KvStore.SortedSet.add, hget, hscores, heq]
      · simp [KvStore.SortedSet.add, hget, heq, hnodes', hnodes₁, hnodes]

/-- **`remove`**, whatever the scores. -/
theorem Simulates.remove (hs : z.Simulates z₀) (member : Str) :
    ∃ b z', z.remove member = some (b, z') ∧ z'.Simulates (z₀.remove member) := by
  obtain ⟨hscores, xs, hl, hnodes⟩ := hs
  cases hget : z₀.scores.get? member with
  | none =>
    refine ⟨false, z, ?_, ?_⟩
    · rw [SortedSet.remove, hscores, hget]
    · rw [KvStore.SortedSet.remove, hget]
      exact ⟨hscores, xs, hl, hnodes⟩
  | some old =>
    obtain ⟨found, l', xs', hdelete, hl', hnodes'⟩ := hl.nodes_delete old member
    refine ⟨true, ⟨z.scores.erase member, l'⟩, ?_, ?_, xs', hl', ?_⟩
    · rw [SortedSet.remove, hscores, hget]
      simp [hdelete]
    · simp [KvStore.SortedSet.remove, hget, hscores]
    · simp [KvStore.SortedSet.remove, hget, hnodes', hnodes]

/-- A change of a sorted set: a member gets a score, with the level drawn for it, or goes. -/
inductive Write
  | add (member : Str) (score : Double) (top : Fin maxLevel)
  | remove (member : Str)

/-- The change, link by link. -/
def write (z : SortedSet Str Double) : Write → Option (SortedSet Str Double)
  | .add member score top => (z.add member score top).map Prod.snd
  | .remove member => (z.remove member).map Prod.snd

/-- The change, in the list of nodes. -/
def Write.plain (z₀ : KvStore.SortedSet) : Write → KvStore.SortedSet
  | .add member score top => z₀.add member score top
  | .remove member => z₀.remove member

theorem Simulates.write (hs : z.Simulates z₀) (w : Write) :
    ∃ z', z.write w = some z' ∧ z'.Simulates (w.plain z₀) := by
  cases w with
  | add member score top =>
    obtain ⟨b, z', hadd, hs'⟩ := hs.add member score top
    exact ⟨z', by simp [SortedSet.write, hadd], hs'⟩
  | remove member =>
    obtain ⟨b, z', hremove, hs'⟩ := hs.remove member
    exact ⟨z', by simp [SortedSet.write, hremove], hs'⟩

theorem Simulates.writes (hs : z.Simulates z₀) (ws : List Write) :
    ∃ z', ws.foldlM SortedSet.write z = some z' ∧ z'.Simulates (ws.foldl Write.plain z₀) := by
  induction ws generalizing z z₀ with
  | nil => exact ⟨z, rfl, hs⟩
  | cons w ws ih =>
    obtain ⟨z₁, hwrite, hs₁⟩ := hs.write w
    obtain ⟨z', hwrites, hs'⟩ := ih hs₁
    exact ⟨z', by simp [hwrite, hwrites], hs'⟩

/-- The score of the header. -/
local instance headerScore : Zero Double := ⟨Double.zero⟩

/-- **The sorted sets of the engine are linked sorted sets.** After any changes, whatever the scores
(NaN too) and the levels drawn, no step through the links fails, the dictionary is that of the plain sorted
set, and the nodes along level 0 are its list of nodes. -/
theorem simulates_writes (ws : List Write) :
    ∃ z, ws.foldlM SortedSet.write (new : SortedSet Str Double) = some z ∧
      z.Simulates (ws.foldl Write.plain .empty) :=
  Simulates.writes ⟨rfl, [], SkipList.holds_new, rfl⟩ ws

end Engine

end SortedSet

end Linked

end KvStore
