import KvStore.Foundation.Towers

/-! # Putting a cell into a chain and taking one out

Which changes of links and spans open and close levels (`Chain.raise`, `Chain.lower`), put a cell in at the
place a search has found and take one out (`Chain.splice`, `Chain.unlink`). The argument is made link by link:
a link stays, leads to the new cell, or leads over it (`Links.enter`, `Links.across`), and leads past the cell that
goes, or becomes shorter (`Links.past`, `Links.under`).

**`Mirrored`** — the links back mirror the list. `Heap.rebind` sets the one behind the place of the change. -/

namespace KvStore

open List

namespace Towers

variable {α : Type*} {h h' : Heap α} {level first i m x : Nat} {cells front back mid : List Nat}

/-! ## One link -/

namespace Links

/-- A link that nothing has happened to. -/
theorem stays {behind behind' : List Nat} (hl : Links h i x behind)
    (hsame : h'.next x i = h.next x i ∧ h'.gap x i = h.gap x i)
    (hahead : ahead (h'.tall i) behind' = ahead (h.tall i) behind) : Links h' i x behind' :=
  ⟨by rw [hsame.1, hl.next, hahead], by rw [hsame.2, hl.gap, hahead]⟩

/-- A link to a cell that was put in. -/
theorem enter (hmid : ∀ y ∈ mid, h'.tall i y = false) (hm : h'.tall i m = true)
    (hnext : h'.next x i = some (some m)) (hgap : h'.gap x i = some ((mid.length : Int) + 1)) :
    Links h' i x (mid ++ m :: back) := by
  have hahead : ahead (h'.tall i) (mid ++ m :: back) = (some m, mid.length + 1) := by
    rw [ahead_append_of_not_tall hmid, ahead_cons_of_tall hm]
  exact ⟨by rw [hnext, hahead], by rw [hgap, hahead]; rfl⟩

/-- A cell that does not have the level is not met. -/
theorem ahead_over (hmid : ∀ y ∈ mid, h.tall i y = false) (hm : h.tall i m = false) :
    ahead (h.tall i) (mid ++ m :: back) =
      ((ahead (h.tall i) (mid ++ back)).1, (ahead (h.tall i) (mid ++ back)).2 + 1) := by
  rw [ahead_append_of_not_tall hmid, ahead_append_of_not_tall hmid, ahead, if_neg (by simp [hm])]
  rfl

/-- A link over a cell that was put in, and does not have the level. -/
theorem across (hl : Links h i x (mid ++ back)) (hmid : ∀ y ∈ mid, h'.tall i y = false)
    (hahead : ahead (h'.tall i) (mid ++ back) = ahead (h.tall i) (mid ++ back))
    (hm : h'.tall i m = false) (hnext : h'.next x i = h.next x i)
    (hgap : h'.gap x i = (h.gap x i).map (· + 1)) : Links h' i x (mid ++ m :: back) := by
  constructor
  · rw [hnext, hl.next, ahead_over hmid hm, hahead]
  · rw [hgap, hl.gap, ahead_over hmid hm, hahead]
    rfl

/-- The link of a cell that was put in is the one that led over its place. -/
theorem leave {m : Nat} (hl : Links h i x (mid ++ back)) (hmid : ∀ y ∈ mid, h.tall i y = false)
    (hahead : ahead (h'.tall i) back = ahead (h.tall i) back) (hnext : h'.next m i = h.next x i)
    (hgap : h'.gap m i = (h.gap x i).map (· - (mid.length : Int))) : Links h' i m back := by
  obtain ⟨hn, hg⟩ := hl
  rw [ahead_append_of_not_tall hmid] at hn hg
  refine ⟨by rw [hnext, hn, hahead], ?_⟩
  rw [hgap, hg, hahead, Option.map_some, Option.some.injEq]
  push_cast
  omega

/-- A link to a cell that is taken out takes over its link. -/
theorem past {a b : Int} (hl : Links h i x (mid ++ m :: back)) (hm : Links h i m back)
    (hmid : ∀ y ∈ mid, h.tall i y = false) (htall : h.tall i m = true) (hsame : h'.tall i = h.tall i)
    (ha : h.gap x i = some a) (hb : h.gap m i = some b) (hnext : h'.next x i = h.next m i)
    (hgap : h'.gap x i = some (a + (b - 1))) : Links h' i x (mid ++ back) := by
  have hx := hl.gap
  have hy := hm.gap
  rw [ahead_append_of_not_tall hmid, ahead_cons_of_tall htall, ha, Option.some.injEq] at hx
  rw [hb, Option.some.injEq] at hy
  constructor
  · rw [hnext, hm.next, hsame, ahead_append_of_not_tall hmid]
  · rw [hgap, hsame, ahead_append_of_not_tall hmid, Option.some.injEq]
    push_cast at hx hy ⊢
    omega

/-- A link over a cell that is taken out becomes shorter. -/
theorem under (hl : Links h i x (mid ++ m :: back)) (hmid : ∀ y ∈ mid, h.tall i y = false)
    (hm : h.tall i m = false) (hsame : h'.tall i = h.tall i) (hnext : h'.next x i = h.next x i)
    (hgap : h'.gap x i = (h.gap x i).map (· - 1)) : Links h' i x (mid ++ back) := by
  obtain ⟨hn, hg⟩ := hl
  rw [ahead_over hmid hm] at hn hg
  refine ⟨by rw [hnext, hn, hsame], ?_⟩
  rw [hgap, hg, hsame, Option.map_some, Option.some.injEq]
  push_cast
  omega

end Links

/-! ## More and fewer levels -/

namespace Chain


/-- **Higher levels are opened** by giving the first cell their spans: the way to the end. -/
theorem raise {level' : Nat} (hc : Chain h level first cells) (hle : level ≤ level')
    (hheight : ∀ x, h'.height x = h.height x) (htop : level' ≤ h.height first)
    (hroom : (h' first).span.length = (h first).span.length)
    (hnext : ∀ x i, h'.next x i = h.next x i)
    (hnew : ∀ i, level ≤ i → i < level' → h'.gap first i = some ((cells.length : Int) - 1))
    (hgap : ∀ x, ∀ i < level, h'.gap x i = h.gap x i) :
    Chain h' level' first cells where
  head := hc.head
  nodup := hc.nodup
  pos := Nat.lt_of_lt_of_le hc.pos hle
  level_le := by rwa [hheight]
  room := by rw [hroom, hheight, hc.room]
  heights x hx := by
    rw [hheight]
    exact ⟨(hc.heights x hx).1, le_trans (hc.heights x hx).2 hle⟩
  clear i hi hlt := by
    rw [hnext]
    exact hc.clear i (le_trans hle hi) (by rwa [hheight] at hlt)
  links k x hx i hi hlt := by
    have htall : h'.tall i = h.tall i := by
      funext y
      rw [Heap.tall, Heap.tall, hheight]
    rw [hheight] at hlt
    by_cases hold : i < level
    · obtain ⟨hn, hg⟩ := hc.links k x hx i hold hlt
      exact ⟨by rw [hnext, htall, hn], by rw [hgap x i hold, htall, hg]⟩
    · -- only the first cell is that high
      have hfirst : k = 0 := by
        refine Nat.eq_zero_of_not_pos fun hpos => ?_
        have := (hc.heights x (mem_tail_of_pos hpos hx)).2
        omega
      subst hfirst
      obtain rfl : first = x := Option.some.inj (hc.zero_eq.symm.trans hx)
      have hnone : ∀ y ∈ cells.drop (0 + 1), h'.tall i y = false := by
        intro y hy
        have := (hc.heights y (mem_tail_of_mem_drop hy)).2
        rw [htall, Heap.tall_eq_false]
        omega
      have hlength := hc.length_pos
      refine ⟨?_, ?_⟩
      · rw [ahead_of_not_tall hnone, hnext, hc.clear i (not_lt.mp hold) hlt]
      · rw [ahead_of_not_tall hnone, hnew i (not_lt.mp hold) hi, length_drop]
        congr 1
        omega

/-- Links back are a matter of their own. -/
theorem setBackward (hc : Chain h level first cells) (x : Nat) (y : Option Nat) :
    Chain (h.setBackward x y) level first cells := by
  refine hc.raise le_rfl (fun z => ?_) hc.level_le ?_ (fun z i => ?_) (fun i hi hlt => ?_)
    fun z i _ => ?_
  · exact Heap.height_setBackward h x z y
  · exact Heap.span_length_setBackward h x first y
  · exact Heap.next_setBackward h x z i y
  · omega
  · exact Heap.gap_setBackward h x z i y

/-- **A level that is not used is closed.** -/
theorem lower (hc : Chain h (level + 1) first cells) (hpos : 0 < level)
    (hnext : h.next first level = some none) : Chain h level first cells where
  head := hc.head
  nodup := hc.nodup
  pos := hpos
  level_le := le_trans (Nat.le_succ level) hc.level_le
  room := hc.room
  heights x hx := by
    refine ⟨(hc.heights x hx).1, not_lt.mp fun htall => ?_⟩
    -- the first cell would be linked to `x`, or to one before it
    have hlink := (hc.links 0 first hc.zero_eq level (Nat.lt_succ_self level) hc.level_le).next
    rcases ahead_cases (h.tall level) (cells.drop (0 + 1)) with
      ⟨mid, y, rest, -, -, -, hahead⟩ | ⟨hnone, -⟩
    · rw [hnext, hahead] at hlink
      simp at hlink
    · have hmem : x ∈ cells.drop (0 + 1) := by simpa using hx
      have := Heap.tall_eq_false.mp (hnone x hmem)
      omega
  clear i hi hlt := by
    rcases Nat.eq_or_lt_of_le hi with rfl | hgt
    · exact hnext
    · exact hc.clear i hgt hlt
  links k x hx i hi hlt := hc.links k x hx i (Nat.lt_succ_of_lt hi) hlt

/-! ## Putting a cell in and taking one out -/

variable {height : Nat} {prev pos : Nat → Nat}

/-- **A cell is put in** behind `front`: on its own levels between the places where a search stopped and
the cells they were linked to; on the levels above, the links that now lead over it become longer. -/
theorem splice (hc : Chain h level first (front ++ back)) (hm : m ∉ front ++ back)
    (hstop : ∀ i < level, StopsAt h i front (prev i) (pos i))
    (hnew : h'.height m = height) (hpos : 0 < height) (hle : height ≤ level)
    (hheight : ∀ x, x ≠ m → h'.height x = h.height x)
    (hroom : (h' first).span.length = (h first).span.length)
    (hnode : ∀ i < height, h'.next m i = h.next (prev i) i ∧
      h'.gap m i = (h.gap (prev i) i).map (· - ((front.length : Int) - 1 - pos i)))
    (hlow : ∀ i < height, h'.next (prev i) i = some (some m) ∧
      h'.gap (prev i) i = some ((front.length : Int) - 1 - pos i + 1))
    (hhigh : ∀ i, height ≤ i → i < level → h'.next (prev i) i = h.next (prev i) i ∧
      h'.gap (prev i) i = (h.gap (prev i) i).map (· + 1))
    (hother : ∀ x i, x ≠ m → x ≠ prev i ∨ level ≤ i →
      h'.next x i = h.next x i ∧ h'.gap x i = h.gap x i) :
    Chain h' level first (front ++ m :: back) := by
  have hfront : front ≠ [] := ne_nil_of_mem (hstop 0 hc.pos).mem
  have hfirst : first ≠ m := by
    rintro rfl
    exact hm (mem_of_mem_head? hc.head)
  have hout : ∀ y ∈ front ++ back, y ≠ m := fun y hy e => hm (e ▸ hy)
  have hahead : ∀ i l, l ⊆ front ++ back → ahead (h'.tall i) l = ahead (h.tall i) l := by
    intro i l hl
    refine ahead_congr fun y hy => ?_
    rw [Heap.tall, Heap.tall, hheight y (hout y (hl hy))]
  -- the way from where the search stopped on a level to the place found
  have hway : ∀ i < level, ((front.drop (pos i + 1)).length : Int) = (front.length : Int) - 1 - pos i := by
    intro i hi
    have := (hstop i hi).lt
    rw [length_drop]
    omega
  have hmid : ∀ i < level, ∀ y ∈ front.drop (pos i + 1), h'.tall i y = false := by
    intro i hi y hy
    rw [Heap.tall_eq_false, hheight y (hout y (mem_append_left _ (mem_of_mem_drop hy)))]
    exact (hstop i hi).last y hy
  obtain ⟨hin, hbehind⟩ := (forall_behind_append front back).mp hc.links
  refine ⟨?_, nodup_middle.mpr (nodup_cons.mpr ⟨hm, hc.nodup⟩), hc.pos, ?_, ?_, ?_, ?_, ?_⟩
  · have hhead := hc.head
    rwa [head?_append_of_ne_nil _ hfront] at hhead ⊢
  · rw [hheight _ hfirst]
    exact hc.level_le
  · rw [hroom, hheight _ hfirst, hc.room]
  · intro x hx
    rw [tail_append_of_ne_nil hfront, mem_append, mem_cons] at hx
    by_cases hxm : x = m
    · rw [hxm, hnew]
      exact ⟨hpos, hle⟩
    · rw [hheight x hxm]
      refine hc.heights x ?_
      rw [tail_append_of_ne_nil hfront, mem_append]
      exact hx.imp_right fun h => h.resolve_left hxm
  · intro i hi hlt
    rw [hheight _ hfirst] at hlt
    rw [(hother first i hfirst (.inr hi)).1]
    exact hc.clear i hi hlt
  · refine (forall_behind_append front (m :: back)).mpr
      ⟨fun k x hx i hi hlt => ?_, fun k x hx i hi hlt => ?_⟩
    · -- a cell of the front part
      have hxm : x ≠ m := hout x (mem_append_left _ (mem_of_getElem? hx))
      have hsub : front.drop (k + 1) ⊆ front ++ back := fun y hy =>
        mem_append_left _ (mem_of_mem_drop hy)
      rw [hheight x hxm] at hlt
      have hl := hin k x hx i hi hlt
      rcases (hstop i hi).cases (nodup_append.mp hc.nodup).1 hx hlt with ⟨rfl, rfl⟩ | ⟨hne, y, hy, hyt⟩
      · -- the one where the search stopped
        by_cases hi' : i < height
        · exact .enter (hmid i hi) (Heap.tall_eq_true.mpr (hnew ▸ hi')) (hlow i hi').1
            ((hlow i hi').2.trans (by rw [hway i hi]))
        · obtain ⟨hn, hg⟩ := hhigh i (not_lt.mp hi') hi
          refine hl.across (hmid i hi) (hahead i _ ?_) (Heap.tall_eq_false.mpr ?_) hn hg
          · exact append_subset.mpr ⟨hsub, subset_append_right _ _⟩
          · rw [hnew]
            exact not_lt.mp hi'
      · -- another one: the next cell of the level is in the front part too
        refine hl.stays (hother x i hxm (.inl hne)) ?_
        have hyt' : h'.tall i y = true := by
          rwa [Heap.tall, hheight y (hout y (hsub hy))]
        rw [ahead_append_of_tall hy hyt, ahead_append_of_tall hy hyt', hahead i _ hsub]
    · have hs := hstop i hi
      rcases k with _ | k
      · -- the new cell
        obtain rfl : m = x := by simpa using hx
        obtain ⟨hn, hg⟩ := hnode i (by rwa [hnew] at hlt)
        rw [← hway i hi] at hg
        exact (hin (pos i) (prev i) hs.here i hi hs.tall).leave hs.not_tall
          (hahead i back (subset_append_right _ _)) hn hg
      · -- a cell behind it
        rw [getElem?_cons_succ] at hx
        have hxmem : x ∈ back := mem_of_getElem? hx
        have hxm : x ≠ m := hout x (mem_append_right _ hxmem)
        have hne : x ≠ prev i := fun e =>
          (nodup_append.mp hc.nodup).2.2 (prev i) hs.mem x hxmem e.symm
        rw [hheight x hxm] at hlt
        exact (hbehind k x hx i hi hlt).stays (hother x i hxm (.inl hne))
          (hahead i _ fun y hy => mem_append_right _ (mem_of_mem_drop hy))

/-- **A cell is taken out** behind `front`: where the search stopped at a cell that is linked to it, that
cell takes over its link; the other links over it become shorter. -/
theorem unlink (hc : Chain h level first (front ++ m :: back))
    (hstop : ∀ i < level, StopsAt h i front (prev i) (pos i))
    (hheight : ∀ x, h'.height x = h.height x)
    (hroom : (h' first).span.length = (h first).span.length)
    (hhit : ∀ i a b, i < level → h.next (prev i) i = some (some m) → h.gap (prev i) i = some a →
      h.gap m i = some b → h'.next (prev i) i = h.next m i ∧ h'.gap (prev i) i = some (a + (b - 1)))
    (hmiss : ∀ i, i < level → h.next (prev i) i ≠ some (some m) →
      h'.next (prev i) i = h.next (prev i) i ∧ h'.gap (prev i) i = (h.gap (prev i) i).map (· - 1))
    (hother : ∀ x i, x ≠ prev i ∨ level ≤ i → h'.next x i = h.next x i ∧ h'.gap x i = h.gap x i) :
    Chain h' level first (front ++ back) := by
  have hfront : front ≠ [] := ne_nil_of_mem (hstop 0 hc.pos).mem
  have htall : ∀ i, h'.tall i = h.tall i := by
    intro i
    funext y
    rw [Heap.tall, Heap.tall, hheight]
  have hnd := nodup_append.mp hc.nodup
  obtain ⟨hin, hbehind⟩ := (forall_behind_append front (m :: back)).mp hc.links
  refine ⟨?_, (nodup_cons.mp (nodup_middle.mp hc.nodup)).2, hc.pos, ?_, ?_, ?_, ?_, ?_⟩
  · have hhead := hc.head
    rwa [head?_append_of_ne_nil _ hfront] at hhead ⊢
  · rw [hheight]
    exact hc.level_le
  · rw [hroom, hheight, hc.room]
  · intro x hx
    rw [hheight]
    refine hc.heights x ?_
    rw [tail_append_of_ne_nil hfront, mem_append] at hx ⊢
    exact hx.imp_right (mem_cons_of_mem m)
  · intro i hi hlt
    rw [hheight] at hlt
    rw [(hother first i (.inr hi)).1]
    exact hc.clear i hi hlt
  · refine (forall_behind_append front back).mpr ⟨fun k x hx i hi hlt => ?_, fun k x hx i hi hlt => ?_⟩
    · have hs := hstop i hi
      rw [hheight] at hlt
      have hl := hin k x hx i hi hlt
      rcases hs.cases hnd.1 hx hlt with ⟨rfl, rfl⟩ | ⟨hne, y, hy, hyt⟩
      · by_cases hmt : h.tall i m = true
        · -- it is linked to the cell that goes
          have hml : Links h i m back := hbehind 0 m rfl i hi (Heap.tall_eq_true.mp hmt)
          have hnext := hl.next
          rw [ahead_append_of_not_tall hs.not_tall, ahead_cons_of_tall hmt] at hnext
          obtain ⟨hn, hg⟩ := hhit i _ _ hi hnext hl.gap hml.gap
          exact hl.past hml hs.not_tall hmt (htall i) hl.gap hml.gap hn hg
        · have hmt' : h.tall i m = false := by simpa using hmt
          have hnot : h.next (prev i) i ≠ some (some m) := by
            intro heq
            rw [hl.next] at heq
            exact hmt (mem_of_ahead (Option.some.inj heq)).2
          obtain ⟨hn, hg⟩ := hmiss i hi hnot
          exact hl.under hs.not_tall hmt' (htall i) hn hg
      · refine hl.stays (hother x i (.inl hne)) ?_
        rw [htall, ahead_append_of_tall hy hyt, ahead_append_of_tall hy hyt]
    · have hne : x ≠ prev i := fun e =>
        hnd.2.2 (prev i) (hstop i hi).mem x (mem_cons_of_mem m (mem_of_getElem? hx)) e.symm
      rw [hheight] at hlt
      exact (hbehind (k + 1) x hx i hi hlt).stays (hother x i (.inl hne)) (by rw [htall]; rfl)

end Chain

/-! ## Links back -/

/-- The link back of a cell leads to the last of those before it. -/
def Back (h : Heap α) (x : Nat) (before : List Nat) : Prop := (h x).backward = before.getLast?

/-- **The links back mirror a list of cells**, and its last cell is known. -/
structure Mirrored (h : Heap α) (tail : Option Nat) (cells : List Nat) : Prop where
  backward : ∀ k x, cells[k]? = some x → Back h x (cells.take k)
  last : tail = cells.getLast?

/-- What stands behind a place gets `y` as the one before it: the next cell, or else the end of the list. -/
def Heap.rebind (h : Heap α) (tail after y : Option Nat) : Heap α × Option Nat :=
  match after with
  | some z => (h.setBackward z y, tail)
  | none => (h, y)

section Rebind

variable (h) (tail after y : Option Nat)

theorem Heap.value_rebind (x : Nat) : ((h.rebind tail after y).1 x).value = (h x).value := by
  cases after <;> simp [rebind]

theorem Heap.height_rebind (x : Nat) : (h.rebind tail after y).1.height x = h.height x := by
  cases after <;> simp [rebind]

/-- Links back are a matter of their own. -/
theorem Chain.rebind (hc : Chain h level first cells) :
    Chain (h.rebind tail after y).1 level first cells := by
  cases after with
  | none => exact hc
  | some z => exact hc.setBackward z y

theorem Heap.backward_rebind (x : Nat) : ((h.rebind tail after y).1 x).backward =
    if after = some x then y else (h x).backward := by
  cases after with
  | none => rfl
  | some z => simp [rebind, Heap.backward_setBackward, eq_comm]

end Rebind

namespace Mirrored

variable {tail : Option Nat} {k : Nat}

/-- A later cell is not the first, and there are cells before it. -/
theorem not_first (hnd : back.Nodup) (hx : back[k + 1]? = some x) :
    back.head? ≠ some x ∧ back.take (k + 1) ≠ [] := by
  constructor
  · intro hhead
    rw [head?_eq_getElem?] at hhead
    have := (getElem?_inj (List.getElem?_eq_some_iff.mp hhead).1 hnd).mp (hhead.trans hx.symm)
    omega
  · have hlt := (List.getElem?_eq_some_iff.mp hx).1
    rw [Ne, take_eq_nil_iff]
    rintro (h | rfl)
    · omega
    · simp at hlt

/-- A cell is put in behind `front`. -/
theorem splice (hb : Mirrored h tail (front ++ back)) (hnd : (front ++ m :: back).Nodup)
    (hnew : (h' m).backward = front.getLast?)
    (hother : ∀ x, x ≠ m → (h' x).backward = (h x).backward) :
    Mirrored (h'.rebind tail back.head? (some m)).1 (h'.rebind tail back.head? (some m)).2
      (front ++ m :: back) := by
  obtain ⟨hin, hbehind⟩ := (forall_before_append front back).mp hb.backward
  obtain ⟨-, hndback, hdisj⟩ := nodup_append.mp hnd
  obtain ⟨hmback, hndrest⟩ := nodup_cons.mp hndback
  refine ⟨(forall_before_append front (m :: back)).mpr ⟨fun k x hx => ?_, fun k x hx => ?_⟩, ?_⟩
  · have hmem := mem_of_getElem? hx
    have hxhead : back.head? ≠ some x := fun e =>
      hdisj x hmem x (mem_cons_of_mem m (mem_of_mem_head? e)) rfl
    rw [Back, Heap.backward_rebind, if_neg hxhead, hother x (hdisj x hmem m mem_cons_self)]
    exact hin k x hx
  · rcases k with _ | _ | k
    · obtain rfl : m = x := by simpa using hx
      have hmhead : back.head? ≠ some m := fun e => hmback (mem_of_mem_head? e)
      rw [Back, Heap.backward_rebind, if_neg hmhead, hnew, take_zero, append_nil]
    · have hhead : back.head? = some x := by rw [head?_eq_getElem?]; simpa using hx
      rw [Back, Heap.backward_rebind, if_pos hhead]
      simp
    · -- the cell before is the same as it was
      rw [getElem?_cons_succ] at hx
      have hxm : x ≠ m := fun e => hmback (e ▸ mem_of_getElem? hx)
      obtain ⟨hxhead, hne⟩ := not_first hndrest hx
      have hold := hbehind (k + 1) x hx
      rw [Back, getLast?_append_of_ne_nil _ hne] at hold
      rw [Back, Heap.backward_rebind, if_neg hxhead, hother x hxm, hold, take_succ_cons,
        append_cons, getLast?_append_of_ne_nil _ hne]
  · rcases back with _ | ⟨y, back⟩
    · simp [Heap.rebind]
    · simp [Heap.rebind, hb.last, getLast?_append]

/-- A cell is taken out behind `front`. -/
theorem unlink (hb : Mirrored h tail (front ++ m :: back)) (hnd : (front ++ m :: back).Nodup)
    (hsame : ∀ x, (h' x).backward = (h x).backward) :
    Mirrored (h'.rebind tail back.head? (h m).backward).1
      (h'.rebind tail back.head? (h m).backward).2 (front ++ back) := by
  obtain ⟨hin, hbehind⟩ := (forall_before_append front (m :: back)).mp hb.backward
  obtain ⟨-, hndback, hdisj⟩ := nodup_append.mp hnd
  have hm : (h m).backward = front.getLast? := by simpa [Back] using hbehind 0 m rfl
  refine ⟨(forall_before_append front back).mpr ⟨fun k x hx => ?_, fun k x hx => ?_⟩, ?_⟩
  · have hxhead : back.head? ≠ some x := fun e =>
      hdisj x (mem_of_getElem? hx) x (mem_cons_of_mem m (mem_of_mem_head? e)) rfl
    rw [Back, Heap.backward_rebind, if_neg hxhead, hsame]
    exact hin k x hx
  · rcases k with _ | k
    · have hhead : back.head? = some x := by rwa [head?_eq_getElem?]
      rw [Back, Heap.backward_rebind, if_pos hhead, hm]
      simp
    · obtain ⟨hxhead, hne⟩ := not_first (nodup_cons.mp hndback).2 hx
      have hold := hbehind (k + 2) x hx
      rw [Back, take_succ_cons, append_cons, getLast?_append_of_ne_nil _ hne] at hold
      rw [Back, Heap.backward_rebind, if_neg hxhead, hsame, hold, getLast?_append_of_ne_nil _ hne]
  · rcases back with _ | ⟨y, back⟩
    · simpa [Heap.rebind] using hm
    · simp [Heap.rebind, hb.last, getLast?_append]

end Mirrored

end Towers

end KvStore
