import KvStore.Engine.LinkedSets
import Mathlib.Data.Finmap
import Mathlib.Data.Multiset.Sort

/-! # What a sorted set is for

A sorted set is a finite map from members to scores, listed by score and member.

* **`Linked.SortedSet.listing`** — the listing of a map.
* **`Linked.SortedSet.Represents`** — the dictionary is the map, and the skip list its listing. The changes keep
  it up (`Represents.add`, `Represents.remove`), and the queries answer by the listing
  (`Represents.rank`, `Represents.rangeByRank`, `Represents.rangeByScore`, `Represents.countInRange`). -/

namespace KvStore

open Towers List

namespace Linked

namespace SortedSet

variable {M S : Type}

/-! ## Maps and their listings -/

/-- **A finite map listed by score and member.** -/
def listing [LinearOrder M] [LinearOrder S] (f : Finmap fun _ : M => S) : List (M × S) :=
  ((f.entries.map fun e => SkipList.keyOf (e.1, e.2)).sort (· ≤ ·)).map fun k => ((ofLex k).2, (ofLex k).1)

/-- A score lies between the bounds of a range. -/
def within [LinearOrder S] (r : SkipList.Range S) (score : S) : Bool :=
  decide ((if r.loEx then r.lo < score else r.lo ≤ score) ∧
    if r.hiEx then score < r.hi else score ≤ r.hi)

section Ordered

variable [LinearOrder M] [LinearOrder S] {f : Finmap fun _ : M => S}

attribute [local instance] SkipList.orderComparable

open Linked.SkipList (keyOf keyOf_injective Ascending)

/-- **There is one such list**: ascending, with the pairs of the map. -/
theorem listing_eq {es : List (M × S)} (hasc : Ascending es)
    (hmem : ∀ m s, (m, s) ∈ es ↔ f.lookup m = some s) : listing f = es := by
  have hnodup : es.Nodup := hasc.imp fun hlt heq => absurd (heq ▸ hlt) (lt_irrefl _)
  have hentries : f.entries = ((es.map fun e => (⟨e.1, e.2⟩ : Sigma fun _ : M => S) : List _) : Multiset _) := by
    refine (Multiset.Nodup.ext f.nodup_entries ?_).mpr fun e => ?_
    · exact Multiset.coe_nodup.mpr (hnodup.map fun a b hab => by
        obtain ⟨h₁, h₂⟩ := Sigma.mk.inj hab
        exact Prod.ext h₁ (eq_of_heq h₂))
    · rw [← Finmap.mem_lookup_iff, Option.mem_def, ← hmem, Multiset.mem_coe, mem_map]
      constructor
      · exact fun h => ⟨(e.1, e.2), h, rfl⟩
      · rintro ⟨e', he', rfl⟩
        exact he'
  -- both lists are sorted, with the same keys
  have hsort : (f.entries.map fun e => keyOf (e.1, e.2)).sort (· ≤ ·) = es.map keyOf := by
    have hperm : ((f.entries.map fun e => keyOf (e.1, e.2)).sort (· ≤ ·)).Perm (es.map keyOf) := by
      rw [← Multiset.coe_eq_coe, Multiset.sort_eq, hentries, Multiset.map_coe, map_map]
      rfl
    have hasc' : (es.map keyOf).Pairwise (· ≤ ·) := pairwise_map.mpr (hasc.imp le_of_lt)
    exact hperm.eq_of_pairwise' (Multiset.pairwise_sort _ _) hasc'
  rw [listing, hsort, map_map]
  exact map_id'' (fun _ => rfl) es

omit [LinearOrder S] in
theorem lookup_insert (f : Finmap fun _ : M => S) (member m : M) (score : S) :
    (f.insert member score).lookup m = if m = member then some score else f.lookup m := by
  split
  · rename_i hm
    rw [hm, Finmap.lookup_insert]
  · rename_i hm
    exact Finmap.lookup_insert_of_ne f hm

omit [LinearOrder S] in
theorem lookup_erase (f : Finmap fun _ : M => S) (member m : M) :
    (f.erase member).lookup m = if m = member then none else f.lookup m := by
  split
  · rename_i hm
    rw [hm, Finmap.lookup_erase]
  · rename_i hm
    exact Finmap.lookup_erase_ne hm

/-! ## Representation -/

/-- **A skip list lists the pairs of a map in order.** -/
structure Lists (l : SkipList M S) (f : Finmap fun _ : M => S) (xs : List Nat) : Prop where
  holds : l.Holds xs
  ascending : Ascending (l.elements xs)
  mem_iff : ∀ m s, (m, s) ∈ l.elements xs ↔ f.lookup m = some s

namespace Lists

variable {l : SkipList M S} {xs : List Nat}

theorem listing_eq (hl : Lists l f xs) : listing f = l.elements xs :=
  SortedSet.listing_eq hl.ascending hl.mem_iff

theorem insert (hl : Lists l f xs) {member : M} (habsent : f.lookup member = none) (score : S)
    (top : Fin maxLevel) :
    ∃ l' xs', l.insert score member top = some (l', l.fresh) ∧ Lists l' (f.insert member score) xs' := by
  have hnew : (member, score) ∉ l.elements xs := by
    rw [hl.mem_iff, habsent]
    simp
  obtain ⟨l', xs', hinsert, hholds, hasc, hperm⟩ := hl.holds.insert_ascending hl.ascending hnew top
  refine ⟨l', xs', hinsert, hholds, hasc, fun m s => ?_⟩
  rw [hperm.mem_iff, mem_cons, hl.mem_iff, Prod.mk.injEq, lookup_insert]
  by_cases hm : m = member
  · subst hm
    simp [habsent, eq_comm]
  · simp [hm]

theorem delete (hl : Lists l f xs) {member : M} {score : S} (hpresent : f.lookup member = some score) :
    ∃ l' xs', l.delete score member = some (true, l') ∧ Lists l' (f.erase member) xs' := by
  obtain ⟨l', xs', hdelete, hholds, hasc, hperm⟩ :=
    hl.holds.delete_ascending hl.ascending ((hl.mem_iff member score).mpr hpresent)
  refine ⟨l', xs', hdelete, hholds, hasc, fun m s => ?_⟩
  have hnodup : ((member, score) :: l'.elements xs').Nodup :=
    hperm.nodup_iff.mp (hl.ascending.imp fun hlt heq => absurd (heq ▸ hlt) (lt_irrefl _))
  have hiff := hl.mem_iff m s
  rw [hperm.mem_iff, mem_cons, Prod.mk.injEq] at hiff
  rw [lookup_erase]
  by_cases hm : m = member
  · -- the other pairs have other members
    subst hm
    rw [if_pos rfl]
    refine iff_of_false (fun hmem => ?_) (by simp)
    obtain rfl : score = s := by simpa [hpresent] using hiff.mp (.inr hmem)
    exact (nodup_cons.mp hnodup).1 hmem
  · rw [if_neg hm, ← hiff]
    simp [hm]

theorem nodup (hl : Lists l f xs) : ((l.elements xs).map Prod.fst).Nodup := by
  refine List.Nodup.map_on (fun e he e' he' heq => ?_)
    (hl.ascending.imp fun hlt heq => absurd (heq ▸ hlt) (lt_irrefl _))
  have h := (hl.mem_iff e.1 e.2).mp he
  have h' := (hl.mem_iff e'.1 e'.2).mp he'
  rw [heq, h'] at h
  exact Prod.ext heq (Option.some.inj h).symm

end Lists

/-- **A sorted set represents a map**: the dictionary is the map, and the skip list lists it. -/
structure Represents (z : SortedSet M S) (f : Finmap fun _ : M => S) (xs : List Nat) : Prop where
  lists : Lists z.list f xs
  score_eq : ∀ m, z.scores.get? m = f.lookup m

namespace Represents

variable {z z' : SortedSet M S} {xs : List Nat}

theorem new [Inhabited M] [Zero S] : (new : SortedSet M S).Represents ∅ [] where
  lists := ⟨SkipList.holds_new, List.Pairwise.nil, fun m s => by simp [SkipList.elements]⟩
  score_eq m := by rfl

/-- The dictionary after an assignment. -/
theorem score_set (hr : z.Represents f xs) (member : M) (score : S) (m : M) :
    (z.scores.set member score).get? m = (f.insert member score).lookup m := by
  rw [Dict.get?_set, lookup_insert, hr.score_eq]

/-- **`add`** assigns the score. -/
theorem add (hr : z.Represents f xs) (member : M) (score : S) (top : Fin maxLevel) :
    ∃ z' xs', z.add member score top = some ((f.lookup member).isNone, z') ∧
      z'.Represents (f.insert member score) xs' := by
  have hget := hr.score_eq member
  cases hold : f.lookup member with
  | none =>
    obtain ⟨l', xs', hinsert, hlists⟩ := hr.lists.insert hold score top
    refine ⟨⟨z.scores.set member score, l'⟩, xs', ?_, hlists, hr.score_set member score⟩
    rw [SortedSet.add, hget, hold]
    simp [hinsert]
  | some old =>
    by_cases heq : old = score
    · subst heq
      have hsame : f.insert member old = f := by
        refine Finmap.ext_lookup fun m => ?_
        rw [lookup_insert]
        split
        · rename_i hm
          rw [hm, hold]
        · rfl
      refine ⟨z, xs, ?_, hsame.symm ▸ hr⟩
      rw [SortedSet.add, hget, hold]
      simp [SkipList.comparable_eq]
    · obtain ⟨l₁, xs₁, hdelete, hlists₁⟩ := hr.lists.delete hold
      obtain ⟨l', xs', hinsert, hlists⟩ := hlists₁.insert (by rw [lookup_erase, if_pos rfl]) score top
      have hsame : (f.erase member).insert member score = f.insert member score := by
        refine Finmap.ext_lookup fun m => ?_
        rw [lookup_insert, lookup_insert, lookup_erase]
        split <;> rfl
      refine ⟨⟨z.scores.set member score, l'⟩, xs', ?_, hsame ▸ hlists, hr.score_set member score⟩
      rw [SortedSet.add, hget, hold]
      simp [SkipList.comparable_eq, heq, hdelete, hinsert]

/-- **`remove`** forgets the member. -/
theorem remove (hr : z.Represents f xs) (member : M) :
    ∃ z' xs', z.remove member = some ((f.lookup member).isSome, z') ∧
      z'.Represents (f.erase member) xs' := by
  have hget := hr.score_eq member
  cases hold : f.lookup member with
  | none =>
    have hsame : f.erase member = f := by
      refine Finmap.ext_lookup fun m => ?_
      rw [lookup_erase]
      split
      · rename_i hm
        rw [hm, hold]
      · rfl
    refine ⟨z, xs, ?_, hsame.symm ▸ hr⟩
    rw [SortedSet.remove, hget, hold]
    rfl
  | some score =>
    obtain ⟨l', xs', hdelete, hlists⟩ := hr.lists.delete hold
    refine ⟨⟨z.scores.erase member, l'⟩, xs', ?_, hlists, fun m => ?_⟩
    · rw [SortedSet.remove, hget, hold]
      simp [hdelete]
    · rw [Dict.get?_erase, lookup_erase, hr.score_eq]

/-- **`incr`** adds to the score, which is 0 for a new member. -/
theorem incr [Add S] [Zero S] (hr : z.Represents f xs) (member : M) (delta : S) (top : Fin maxLevel) :
    ∃ z' xs', z.incr member delta top = some (.ok ((f.lookup member).getD 0 + delta), z') ∧
      z'.Represents (f.insert member ((f.lookup member).getD 0 + delta)) xs' := by
  obtain ⟨z', xs', hadd, hr'⟩ := hr.add member ((f.lookup member).getD 0 + delta) top
  refine ⟨z', xs', ?_, hr'⟩
  simp [SortedSet.incr, SkipList.comparable_eq, hr.score_eq, hadd]

/-! ### Queries -/

/-- The dictionary is as long as the list. -/
theorem length_eq (hr : z.Represents f xs) : z.length = xs.length := by
  have hmem : ∀ m, m ∈ z.scores.keys ↔ m ∈ (z.list.elements xs).map Prod.fst := by
    intro m
    rw [Dict.mem_keys_iff, hr.score_eq, mem_map]
    constructor
    · rintro ⟨s, hs⟩
      exact ⟨(m, s), (hr.lists.mem_iff m s).mpr hs, rfl⟩
    · rintro ⟨e, he, rfl⟩
      exact ⟨e.2, (hr.lists.mem_iff e.1 e.2).mp he⟩
  have hperm := (perm_ext_iff_of_nodup z.scores.nodup hr.lists.nodup).mpr hmem
  simpa [SortedSet.length, Dict.size, SkipList.elements] using hperm.length_eq

omit [LinearOrder S] in
/-- Where a member stands in a list without repetitions. -/
theorem findIdx?_member {es : List (M × S)} (hnd : (es.map Prod.fst).Nodup) {r : Nat} {e : M × S}
    (hr : es[r]? = some e) : es.findIdx? (fun e' => e'.1 = e.1) = some r := by
  obtain ⟨hlt, rfl⟩ := List.getElem?_eq_some_iff.mp hr
  refine findIdx?_eq_some_iff_getElem.mpr ⟨hlt, by simp, fun j hj => ?_⟩
  have hne := pairwise_iff_getElem.mp hnd j r (by simp; omega) (by simpa using hlt) hj
  simpa using hne

/-- **`rank`** is the position in the listing. -/
theorem rank (hr : z.Represents f xs) (member : M) (reverse : Bool) :
    z.rank member reverse = some (((view reverse (listing f)).findIdx? fun e => e.1 = member).map
      fun r : Nat => (r : Int)) := by
  have hget := hr.score_eq member
  rw [hr.lists.listing_eq]
  cases hold : f.lookup member with
  | none =>
    have hnone : ∀ e ∈ z.list.elements xs, e.1 ≠ member := fun e he heq => by
      have := (hr.lists.mem_iff e.1 e.2).mp he
      rw [heq, hold] at this
      simp at this
    have hfind : (view reverse (z.list.elements xs)).findIdx? (fun e => e.1 = member) = none := by
      refine findIdx?_eq_none_iff.mpr fun e he => decide_eq_false (hnone e ?_)
      cases reverse
      · exact he
      · exact mem_reverse.mp he
    rw [SortedSet.rank, hget, hold, hfind]
    rfl
  | some score =>
    obtain ⟨r, hrget⟩ := mem_iff_getElem?.mp ((hr.lists.mem_iff member score).mpr hold)
    have hlt : r < xs.length := by
      have := (List.getElem?_eq_some_iff.mp hrget).1
      simpa [SkipList.elements] using this
    have hlength : (z.list.elements xs).length = xs.length := length_map _
    rw [SortedSet.rank, hget, hold]
    simp only [hr.lists.holds.rank hr.lists.ascending hr.lists.nodup hrget, Option.map_some, hr.length_eq]
    cases reverse with
    | false =>
      have hfind : (z.list.elements xs).findIdx? (fun e => e.1 = member) = some r :=
        findIdx?_member hr.lists.nodup hrget
      rw [view_false, hfind]
      simp
    | true =>
      have hrev : (z.list.elements xs).reverse[xs.length - 1 - r]? = some (member, score) := by
        rw [getElem?_reverse (by omega), hlength, ← hrget]
        congr 1
        omega
      have hnd : ((z.list.elements xs).reverse.map Prod.fst).Nodup := by
        rw [map_reverse, nodup_reverse]
        exact hr.lists.nodup
      have hfind : (z.list.elements xs).reverse.findIdx? (fun e => e.1 = member) =
          some (xs.length - 1 - r) := findIdx?_member hnd hrev
      rw [view_true, hfind]
      simp only [if_true, Option.map_some, Option.some.injEq]
      omega

omit [LinearOrder M] [LinearOrder S] in
theorem elements_view (l : SkipList M S) (reverse : Bool) (xs : List Nat) :
    l.elements (view reverse xs) = view reverse (l.elements xs) := by
  cases reverse
  · rfl
  · exact map_reverse

/-- **`range_by_rank`** is the inclusive slice of the listing. -/
theorem rangeByRank (hr : z.Represents f xs) (start stop : Int) (reverse : Bool) :
    (z.rangeByRank start stop reverse).map z.list.elements =
      some (slice (view reverse (listing f)) start stop) := by
  have hlength : (view reverse (z.list.elements xs)).length = xs.length := by
    cases reverse <;> simp [view, SkipList.elements]
  rw [hr.lists.listing_eq, slice, hlength, SortedSet.rangeByRank, hr.length_eq]
  generalize hstart : (if start < 0 then max 0 ((xs.length : Int) + start) else start) = a
  generalize hstop : min (if stop < 0 then stop + (xs.length : Int) else stop) ((xs.length : Int) - 1) = b
  have ha : 0 ≤ a := by
    rw [← hstart]
    split
    · exact le_max_left _ _
    · omega
  by_cases hempty : a > b ∨ a ≥ xs.length
  · rw [if_pos hempty]
    have hnil : ((view reverse (z.list.elements xs)).drop a.toNat).take (b - a + 1).toNat = [] := by
      rcases hempty with h | h
      · rw [show (b - a + 1).toNat = 0 by omega, take_zero]
      · rw [drop_eq_nil_of_le (by omega), take_nil]
    rw [hnil]
    rfl
  · rw [if_neg hempty]
    have hlt : a.toNat < xs.length := by omega
    have hnode : z.list.byRank (if reverse then (xs.length : Int) - a else a + 1) =
        some (view reverse xs)[a.toNat]? := by
      cases reverse with
      | false =>
        have := hr.lists.holds.byRank hlt
        rw [show ((a.toNat : Nat) : Int) + 1 = a + 1 by omega] at this
        exact this
      | true =>
        have := hr.lists.holds.byRank (show xs.length - 1 - a.toNat < xs.length by omega)
        rw [show ((xs.length - 1 - a.toNat : Nat) : Int) + 1 = (xs.length : Int) - a by omega] at this
        rw [if_pos rfl, this, view, if_pos rfl, getElem?_reverse hlt]
    dsimp only
    rw [hnode, Option.bind_some, (trail hr.lists.holds reverse).walk, Option.map_some,
      ← elements_view, SkipList.elements, SkipList.elements, map_take, map_drop]

/-- **The elements in a range stand together**, in either direction. -/
theorem exists_middle (hr : z.Represents f xs) (r : SkipList.Range S) (reverse : Bool) :
    ∃ low mid high, view reverse xs = low ++ mid ++ high ∧
      (∀ x ∈ low, r.contains (z.list.heap x).value.2 = false) ∧
      (∀ x ∈ mid, r.contains (z.list.heap x).value.2 = true) ∧
      ∀ x ∈ high, r.contains (z.list.heap x).value.2 = false := by
  obtain ⟨low, rest, rfl, hlow, hrest⟩ := hr.lists.ascending.split
    (fun e => !SkipList.gteMin e.2 r.lo r.loEx) fun e e' hlt he => by
      rw [Bool.not_eq_true', Bool.eq_false_iff] at he ⊢
      exact fun h => he (SkipList.gteMin_mono (SkipList.score_le_of_keyOf_le (le_of_lt hlt)) h)
  have hasc : Ascending (z.list.elements rest) := by
    have := hr.lists.ascending
    rw [SkipList.elements, map_append] at this
    exact (pairwise_append.mp this).2.1
  obtain ⟨mid, high, rfl, hmid, hhigh⟩ := hasc.split (fun e => SkipList.lteMax e.2 r.hi r.hiEx)
    fun e e' hlt he => SkipList.lteMax_mono (SkipList.score_le_of_keyOf_le (le_of_lt hlt)) he
  have hlow' : ∀ x ∈ low, r.contains (z.list.heap x).value.2 = false := fun x hx => by
    have := hlow x hx
    rw [Bool.not_eq_true'] at this
    simp [SkipList.Range.contains, this]
  have hmid' : ∀ x ∈ mid, r.contains (z.list.heap x).value.2 = true := fun x hx => by
    have := hrest x (mem_append_left _ hx)
    rw [Bool.not_eq_false'] at this
    simp [SkipList.Range.contains, this, hmid x hx]
  have hhigh' : ∀ x ∈ high, r.contains (z.list.heap x).value.2 = false := fun x hx => by
    simp [SkipList.Range.contains, hhigh x hx]
  cases reverse with
  | false => exact ⟨low, mid, high, by simp [view], hlow', hmid', hhigh'⟩
  | true =>
    refine ⟨high.reverse, mid.reverse, low.reverse, by simp [view], ?_, ?_, ?_⟩
    · exact fun x hx => hhigh' x (mem_reverse.mp hx)
    · exact fun x hx => hmid' x (mem_reverse.mp hx)
    · exact fun x hx => hlow' x (mem_reverse.mp hx)

/-- The first node in a range, in either direction. -/
theorem endOfRange (hr : z.Represents f xs) (r : SkipList.Range S) (reverse : Bool) :
    (if reverse then z.list.lastInRange r else z.list.firstInRange r) =
      some ((view reverse xs).find? fun x => r.contains (z.list.heap x).value.2) := by
  cases reverse
  · exact hr.lists.holds.firstInRange hr.lists.ascending r
  · exact hr.lists.holds.lastInRange hr.lists.ascending r

omit [LinearOrder M] [LinearOrder S] in
/-- The first of the elements that stand together. -/
theorem find?_middle {p : Nat → Bool} {low mid high : List Nat} (hlow : ∀ x ∈ low, p x = false)
    (hmid : ∀ x ∈ mid, p x = true) (hhigh : ∀ x ∈ high, p x = false) :
    (low ++ mid ++ high).find? p = mid.head? := by
  have hskip : low.find? p = none := find?_eq_none.mpr fun x hx => by simp [hlow x hx]
  have hskip' : high.find? p = none := find?_eq_none.mpr fun x hx => by simp [hhigh x hx]
  rw [find?_append, find?_append, hskip, hskip', Option.none_or, Option.or_none]
  cases mid with
  | nil => rfl
  | cons x rest => rw [find?_cons, hmid x mem_cons_self, head?_cons]

theorem filter_listing (hr : z.Represents f xs) (r : SkipList.Range S) (reverse : Bool)
    {low mid high : List Nat} (hsplit : view reverse xs = low ++ mid ++ high)
    (hlow : ∀ x ∈ low, r.contains (z.list.heap x).value.2 = false)
    (hmid : ∀ x ∈ mid, r.contains (z.list.heap x).value.2 = true)
    (hhigh : ∀ x ∈ high, r.contains (z.list.heap x).value.2 = false) :
    view reverse ((listing f).filter fun e => r.contains e.2) = z.list.elements mid := by
  have hview : view reverse ((listing f).filter fun e => r.contains e.2) =
      (view reverse (listing f)).filter fun e => r.contains e.2 := by
    cases reverse
    · rfl
    · exact filter_reverse.symm
  rw [hview, hr.lists.listing_eq, ← elements_view, hsplit, SkipList.elements, filter_map,
    filter_append, filter_append]
  have hlow' : low.filter ((fun e : M × S => r.contains e.2) ∘ fun x => (z.list.heap x).value) = [] :=
    filter_eq_nil_iff.mpr fun x hx => by simp [hlow x hx]
  have hmid' : mid.filter ((fun e : M × S => r.contains e.2) ∘ fun x => (z.list.heap x).value) = mid :=
    filter_eq_self.mpr fun x hx => hmid x hx
  have hhigh' : high.filter ((fun e : M × S => r.contains e.2) ∘ fun x => (z.list.heap x).value) = [] :=
    filter_eq_nil_iff.mpr fun x hx => by simp [hhigh x hx]
  rw [hlow', hmid', hhigh', nil_append, append_nil]
  rfl

/-- **`range_by_score`** is the listing filtered, reversed if asked, without the first `offset`
elements, and of the rest `count`. -/
theorem rangeByScore (hr : z.Represents f xs) (r : SkipList.Range S) (reverse : Bool)
    (offset count : Int) :
    (z.rangeByScore r reverse offset count).map z.list.elements =
      some (limit count ((view reverse ((listing f).filter fun e => r.contains e.2)).drop
        offset.toNat)) := by
  obtain ⟨low, mid, high, hsplit, hlow, hmid, hhigh⟩ := hr.exists_middle r reverse
  rw [hr.filter_listing r reverse hsplit hlow hmid hhigh]
  have hfind : (view reverse xs).find? (fun x => r.contains (z.list.heap x).value.2) = mid.head? := by
    rw [hsplit]
    exact find?_middle hlow hmid hhigh
  rw [SortedSet.rangeByScore, hr.endOfRange r reverse, hfind, Option.bind_some]
  rcases mid with _ | ⟨x, rest⟩
  · have hnone : z.skip reverse offset.toNat none = some none := by cases offset.toNat <;> rfl
    simp [hnone, SortedSet.collect, limit, SkipList.elements]
  · -- behind the elements in the range there is at most one out of it to look at
    have hstart : (view reverse xs)[low.length]? = some x := by rw [hsplit]; simp
    have htrail := trail hr.lists.holds reverse
    have hfuel : (view reverse xs).length ≤ low.length + offset.toNat + z.list.fresh := by
      have := hr.lists.holds.fuel
      have hlength : (view reverse xs).length = xs.length := by cases reverse <;> simp [view]
      rw [length_cons] at this
      omega
    have hcollected : ((view reverse xs).drop (low.length + offset.toNat)).takeWhile
        (fun x => r.contains (z.list.heap x).value.2) = (x :: rest).drop offset.toNat := by
      rw [hsplit, append_assoc, ← drop_drop, drop_left, drop_append]
      have hout : ∀ l ⊆ high, l.takeWhile (fun x => r.contains (z.list.heap x).value.2) = [] := by
        intro l hl
        cases l with
        | nil => rfl
        | cons y rest => rw [takeWhile_cons, hhigh y (hl mem_cons_self), if_neg (by simp)]
      rw [takeWhile_append_of_pos fun y hy => hmid y (mem_of_mem_drop hy),
        hout _ (drop_subset _ _), append_nil]
    rw [head?_cons, ← hstart, htrail.skip, Option.bind_some, htrail.collect r hfuel, hcollected,
      Option.map_some, SkipList.elements, limit, limit, SkipList.elements, ← map_drop]
    split
    · rfl
    · rw [map_take]

/-- **`count_in_range`** is the number of elements in the range. -/
theorem countInRange (hr : z.Represents f xs) (r : SkipList.Range S) :
    z.countInRange r = some (((listing f).filter fun e => r.contains e.2).length : Int) := by
  obtain ⟨low, mid, high, hsplit, hlow, hmid, hhigh⟩ := hr.exists_middle r false
  have hfilter := hr.filter_listing r false hsplit hlow hmid hhigh
  rw [view_false] at hsplit hfilter
  have hfirst : xs.find? (fun x => r.contains (z.list.heap x).value.2) = mid.head? := by
    rw [hsplit]
    exact find?_middle hlow hmid hhigh
  have hlast : xs.reverse.find? (fun x => r.contains (z.list.heap x).value.2) = mid.getLast? := by
    rw [hsplit, reverse_append, reverse_append, ← append_assoc, getLast?_eq_head?_reverse]
    exact find?_middle (fun x hx => hhigh x (mem_reverse.mp hx))
      (fun x hx => hmid x (mem_reverse.mp hx)) fun x hx => hlow x (mem_reverse.mp hx)
  -- positions in the listing
  have hrank : ∀ k x : Nat, xs[k]? = some x →
      z.list.rank (z.list.heap x).value.2 (z.list.heap x).value.1 = some ((k : Int) + 1) := by
    intro k x hx
    refine hr.lists.holds.rank hr.lists.ascending hr.lists.nodup ?_
    rw [SkipList.elements, getElem?_map, hx]
    rfl
  have hlength : (z.list.elements mid).length = mid.length := length_map _
  rw [hfilter, hlength, SortedSet.countInRange, hr.lists.holds.firstInRange hr.lists.ascending,
    hr.lists.holds.lastInRange hr.lists.ascending, hfirst, hlast, Option.bind_some]
  rcases eq_nil_or_concat mid with rfl | ⟨init, last, rfl⟩
  · rfl
  · rw [concat_eq_append] at *
    obtain ⟨first, rest, hcons⟩ : ∃ first rest, init ++ [last] = first :: rest :=
      exists_cons_of_ne_nil (by simp)
    have hx : xs[low.length]? = some first := by rw [hsplit, hcons]; simp
    have hy : xs[low.length + init.length]? = some last := by
      rw [hsplit, append_assoc, append_assoc, getElem?_append_right (Nat.le_add_right _ _),
        Nat.add_sub_cancel_left]
      simp
    have hhead : (init ++ [last]).head? = some first := by rw [hcons]; rfl
    have hend : (init ++ [last]).getLast? = some last := by simp
    rw [hhead, hend]
    simp only [Option.bind_some, hrank _ _ hx, hrank _ _ hy, Option.map_some, length_append,
      length_singleton, Option.some.injEq]
    omega

/-- **`items`** is the listing. -/
theorem items (hr : z.Represents f xs) : z.items = some (listing f) := by
  have hfirst : z.list.heap.next header 0 = some xs[0]? := by
    rw [hr.lists.holds.chain.next_zero hr.lists.holds.chain.zero_eq, getElem?_cons_succ]
  have hfuel : xs.length ≤ 0 + z.list.fresh := by
    have := hr.lists.holds.fuel
    rw [length_cons] at this
    omega
  have hiterate : z.iterate z.list.fresh xs[0]? = some (xs.drop 0) :=
    (trail hr.lists.holds false).iterate hfuel
  rw [SortedSet.items, hfirst, Option.bind_some, hiterate, hr.lists.listing_eq]
  rfl

end Represents

end Ordered

end SortedSet

end Linked

end KvStore
