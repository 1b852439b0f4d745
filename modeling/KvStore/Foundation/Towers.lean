import KvStore.Foundation.TowerSearch
import Mathlib.Data.List.Perm.Subperm

/-! # Linked towers with spans

A list of cells that are linked on several levels. A cell of height `n` has `n` forward links, the one
of level `i` leading to the next cell that is higher than `i`, and with every link goes its span, the
number of cells it moves on.

* **`Heap`** — cells at addresses, with `walk` and `descend`, which follow the links.
* **`Chain`** — the links and the spans are those of a list of addresses. On a chain the searches of the
  heap are those of the list (`Chain.walk_eq`, `Chain.descend_eq`), and where they stopped on each level
  is right before the place found (`StopsAt`), whatever the test. -/

namespace KvStore

open List

namespace Towers

/-! ## Loops over a range of levels -/

/-- `for i in range(a, b)`, with a body that may fail. -/
def forRange {σ : Type*} (a b : Nat) (body : Nat → σ → Option σ) (s : σ) : Option σ :=
  (List.range' a (b - a)).foldlM (fun s i => body i s) s

/-- **The rule for such loops**: an invariant that each round takes one level further holds at the
end, and the loop does end. -/
theorem forRange_invariant {σ : Type*} {a b : Nat} {body : Nat → σ → Option σ} {s : σ}
    (I : Nat → σ → Prop) (hab : a ≤ b) (hstart : I a s)
    (hstep : ∀ i s, a ≤ i → i < b → I i s → ∃ s', body i s = some s' ∧ I (i + 1) s') :
    ∃ s', forRange a b body s = some s' ∧ I b s' := by
  obtain ⟨n, rfl⟩ := Nat.exists_eq_add_of_le hab
  rw [forRange, Nat.add_sub_cancel_left]
  clear hab
  induction n generalizing a s with
  | zero => exact ⟨s, rfl, hstart⟩
  | succ n ih =>
    obtain ⟨s₁, hbody, h₁⟩ := hstep a s le_rfl (by omega) hstart
    obtain ⟨s', hrest, h'⟩ := ih h₁ fun i t hi hlt hI => hstep i t (by omega) (by omega) hI
    refine ⟨s', ?_, by rwa [show a + (n + 1) = a + 1 + n by omega]⟩
    rw [range'_succ, foldlM_cons, hbody]
    exact hrest

/-! ## Cells -/

/-- **A cell**: what it holds, a link back, and the forward links of its levels with their spans. -/
structure Cell (α : Type*) where
  value : α
  backward : Option Nat
  forward : List (Option Nat)
  /-- How many cells each link moves on. -/
  span : List Int

/-- Cells at addresses. -/
abbrev Heap (α : Type*) := Nat → Cell α

variable {α : Type*}

namespace Heap

/-- `x.forward[i]`, which may be out of range. -/
def next (h : Heap α) (x i : Nat) : Option (Option Nat) := (h x).forward[i]?

/-- `x.span[i]`, which may be out of range. -/
def gap (h : Heap α) (x i : Nat) : Option Int := (h x).span[i]?

/-- The number of levels of a cell. -/
def height (h : Heap α) (x : Nat) : Nat := (h x).forward.length

/-- A change of one cell. -/
def modify (h : Heap α) (x : Nat) (f : Cell α → Cell α) : Heap α :=
  fun z => if z = x then f (h z) else h z

/-- `x.forward[i] = y`. -/
def setNext (h : Heap α) (x i : Nat) (y : Option Nat) : Heap α :=
  h.modify x fun c => { c with forward := c.forward.set i y }

/-- `x.span[i] = n`. -/
def setGap (h : Heap α) (x i : Nat) (n : Int) : Heap α :=
  h.modify x fun c => { c with span := c.span.set i n }

/-- `x.backward = y`. -/
def setBackward (h : Heap α) (x : Nat) (y : Option Nat) : Heap α :=
  h.modify x fun c => { c with backward := y }

/-- A new cell. -/
def alloc (h : Heap α) (x : Nat) (cell : Cell α) : Heap α := h.modify x fun _ => cell

variable (h : Heap α) (x z i j : Nat) (y : Option Nat) (n : Int)

theorem next_setNext : (h.setNext x i y).next z j =
    if z = x ∧ j = i then (h.next x i).map fun _ => y else h.next z j := by
  by_cases hz : z = x
  · subst hz
    by_cases hj : j = i
    · subst hj
      simp only [next, setNext, modify, and_self, if_true, getElem?_set_self']
      rfl
    · have hj' : i ≠ j := fun e => hj e.symm
      simp [next, setNext, modify, hj, hj']
  · simp [next, setNext, modify, hz]

theorem gap_setGap : (h.setGap x i n).gap z j =
    if z = x ∧ j = i then (h.gap x i).map fun _ => n else h.gap z j := by
  by_cases hz : z = x
  · subst hz
    by_cases hj : j = i
    · subst hj
      simp only [gap, setGap, modify, and_self, if_true, getElem?_set_self']
      rfl
    · have hj' : i ≠ j := fun e => hj e.symm
      simp [gap, setGap, modify, hj, hj']
  · simp [gap, setGap, modify, hz]

@[simp] theorem next_setGap : (h.setGap x i n).next z j = h.next z j := by
  by_cases hz : z = x <;> simp [next, setGap, modify, hz]

@[simp] theorem gap_setNext : (h.setNext x i y).gap z j = h.gap z j := by
  by_cases hz : z = x <;> simp [gap, setNext, modify, hz]

@[simp] theorem next_setBackward : (h.setBackward x y).next z j = h.next z j := by
  by_cases hz : z = x <;> simp [next, setBackward, modify, hz]

@[simp] theorem gap_setBackward : (h.setBackward x y).gap z j = h.gap z j := by
  by_cases hz : z = x <;> simp [gap, setBackward, modify, hz]

@[simp] theorem height_setNext : (h.setNext x i y).height z = h.height z := by
  by_cases hz : z = x <;> simp [height, setNext, modify, hz]

@[simp] theorem height_setGap : (h.setGap x i n).height z = h.height z := by
  by_cases hz : z = x <;> simp [height, setGap, modify, hz]

@[simp] theorem height_setBackward : (h.setBackward x y).height z = h.height z := by
  by_cases hz : z = x <;> simp [height, setBackward, modify, hz]

@[simp] theorem value_setNext : ((h.setNext x i y) z).value = (h z).value := by
  by_cases hz : z = x <;> simp [setNext, modify, hz]

@[simp] theorem value_setGap : ((h.setGap x i n) z).value = (h z).value := by
  by_cases hz : z = x <;> simp [setGap, modify, hz]

@[simp] theorem value_setBackward : ((h.setBackward x y) z).value = (h z).value := by
  by_cases hz : z = x <;> simp [setBackward, modify, hz]

@[simp] theorem backward_setNext : ((h.setNext x i y) z).backward = (h z).backward := by
  by_cases hz : z = x <;> simp [setNext, modify, hz]

@[simp] theorem backward_setGap : ((h.setGap x i n) z).backward = (h z).backward := by
  by_cases hz : z = x <;> simp [setGap, modify, hz]

theorem backward_setBackward :
    ((h.setBackward x y) z).backward = if z = x then y else (h z).backward := by
  by_cases hz : z = x <;> simp [setBackward, modify, hz]

@[simp] theorem span_length_setNext : ((h.setNext x i y) z).span.length = (h z).span.length := by
  by_cases hz : z = x <;> simp [setNext, modify, hz]

@[simp] theorem span_length_setGap : ((h.setGap x i n) z).span.length = (h z).span.length := by
  by_cases hz : z = x <;> simp [setGap, modify, hz]

@[simp] theorem span_length_setBackward :
    ((h.setBackward x y) z).span.length = (h z).span.length := by
  by_cases hz : z = x <;> simp [setBackward, modify, hz]

/-- **Only links and spans change.** -/
structure Frame (h h' : Heap α) : Prop where
  height : ∀ x, h'.height x = h.height x
  value : ∀ x, (h' x).value = (h x).value
  backward : ∀ x, (h' x).backward = (h x).backward
  room : ∀ x, (h' x).span.length = (h x).span.length

theorem Frame.refl : Frame h h := ⟨fun _ => rfl, fun _ => rfl, fun _ => rfl, fun _ => rfl⟩

theorem Frame.trans {h h' h'' : Heap α} (hf : Frame h h') (hf' : Frame h' h'') : Frame h h'' where
  height x := (hf'.height x).trans (hf.height x)
  value x := (hf'.value x).trans (hf.value x)
  backward x := (hf'.backward x).trans (hf.backward x)
  room x := (hf'.room x).trans (hf.room x)

theorem Frame.setNext {h h' : Heap α} (hf : Frame h h') : Frame h (h'.setNext x i y) :=
  hf.trans ⟨by simp, by simp, by simp, by simp⟩

theorem Frame.setGap {h h' : Heap α} (hf : Frame h h') : Frame h (h'.setGap x i n) :=
  hf.trans ⟨by simp, by simp, by simp, by simp⟩

@[simp] theorem alloc_self (cell : Cell α) : h.alloc x cell x = cell := by simp [alloc, modify]

theorem alloc_of_ne (cell : Cell α) {z : Nat} (hz : z ≠ x) : h.alloc x cell z = h z := by
  simp [alloc, modify, hz]

end Heap

/-- **A loop over levels, each round of which works on its own level.** -/
theorem forRange_levels {h : Heap α} {a b : Nat} {body : Nat → Heap α → Option (Heap α)}
    (next : Nat → Nat → Option (Option Nat)) (gap : Nat → Nat → Option Int) (hab : a ≤ b)
    (hbody : ∀ i s, a ≤ i → i < b → h.Frame s →
      (∀ x, s.next x i = h.next x i) → (∀ x, s.gap x i = h.gap x i) →
      ∃ s', body i s = some s' ∧ h.Frame s' ∧
        (∀ x j, s'.next x j = if j = i then next i x else s.next x j) ∧
        ∀ x j, s'.gap x j = if j = i then gap i x else s.gap x j) :
    ∃ h', forRange a b body h = some h' ∧ h.Frame h' ∧
      (∀ x j, h'.next x j = if a ≤ j ∧ j < b then next j x else h.next x j) ∧
      ∀ x j, h'.gap x j = if a ≤ j ∧ j < b then gap j x else h.gap x j := by
  -- the levels below `i` are done, the others as they were
  refine forRange_invariant (fun i s => h.Frame s ∧
      (∀ x j, s.next x j = if a ≤ j ∧ j < i then next j x else h.next x j) ∧
      ∀ x j, s.gap x j = if a ≤ j ∧ j < i then gap j x else h.gap x j) hab ?_ ?_
  · have hnone : ∀ j, ¬ (a ≤ j ∧ j < a) := by omega
    exact ⟨.refl h, fun x j => (if_neg (hnone j)).symm, fun x j => (if_neg (hnone j)).symm⟩
  · rintro i s hai hib ⟨hframe, hnext, hgap⟩
    have hi : ¬ (a ≤ i ∧ i < i) := by omega
    obtain ⟨s', heq, hframe', hnext', hgap'⟩ := hbody i s hai hib hframe
      (fun x => by rw [hnext, if_neg hi]) (fun x => by rw [hgap, if_neg hi])
    have hsucc : ∀ j, j ≠ i → ((a ≤ j ∧ j < i + 1) ↔ (a ≤ j ∧ j < i)) := by omega
    refine ⟨s', heq, hframe', fun x j => ?_, fun x j => ?_⟩
    · by_cases hj : j = i
      · subst hj
        rw [hnext', if_pos rfl, if_pos ⟨hai, Nat.lt_succ_self j⟩]
      · rw [hnext', if_neg hj, hnext]
        simp only [hsucc j hj]
    · by_cases hj : j = i
      · subst hj
        rw [hgap', if_pos rfl, if_pos ⟨hai, Nat.lt_succ_self j⟩]
      · rw [hgap', if_neg hj, hgap]
        simp only [hsucc j hj]

/-! ## Walks and searches -/

/-- **A walk along level `i`** from a cell and its position. The next cell is entered if `go` holds of
its position and of what it holds. `none` if a cell lacks the level, or if the walk takes too long. -/
def walk (h : Heap α) (go : Int → α → Bool) (i : Nat) : Nat → Nat × Int → Option (Nat × Int)
  | 0, _ => none
  | fuel + 1, (x, traversed) =>
    match h.next x i with
    | none => none
    | some none => some (x, traversed)
    | some (some y) =>
      match h.gap x i with
      | none => none
      | some n =>
        if go (traversed + n) (h y).value then walk h go i fuel (y, traversed + n)
        else some (x, traversed)

/-- **A search** through the levels below `n`: where it stopped on each of them, level 0 first. -/
def descend (h : Heap α) (go : Int → α → Bool) (fuel : Nat) :
    Nat → Nat × Int → Option (List (Nat × Int))
  | 0, _ => some []
  | i + 1, start =>
    (walk h go i fuel start).bind fun stop =>
      (descend h go fuel i stop).map fun stops => stops ++ [stop]

/-- A search that ends as soon as a place where it stops on a level is the one looked for. -/
def seek (h : Heap α) (go : Int → α → Bool) (found : Nat × Int → Bool) (fuel : Nat) :
    Nat → Nat × Int → Option (Option (Nat × Int))
  | 0, _ => some none
  | i + 1, start =>
    (walk h go i fuel start).bind fun stop =>
      if found stop then some (some stop) else seek h go found fuel i stop

/-- The place found is the first, from the highest level down. -/
theorem seek_of_descend {h : Heap α} {go : Int → α → Bool} {fuel n : Nat} {start : Nat × Int}
    {stops : List (Nat × Int)} (hdesc : descend h go fuel n start = some stops)
    (found : Nat × Int → Bool) :
    seek h go found fuel n start = some (stops.reverse.find? found) := by
  induction n generalizing start stops with
  | zero =>
    obtain rfl : stops = [] := by simpa [descend] using hdesc.symm
    rfl
  | succ i ih =>
    obtain ⟨stop, hwalk, hrest⟩ := Option.bind_eq_some_iff.mp hdesc
    obtain ⟨below, hbelow, rfl⟩ := Option.map_eq_some_iff.mp hrest
    rw [seek, hwalk, Option.bind_some, reverse_append, reverse_singleton,
      singleton_append, find?_cons, ih hbelow]
    cases found stop <;> rfl

/-! ## Chains -/

/-- A cell is linked on level `i`. -/
def Heap.tall (h : Heap α) (i x : Nat) : Bool := decide (i < h.height x)

theorem Heap.tall_eq_false {h : Heap α} {i x : Nat} : h.tall i x = false ↔ h.height x ≤ i := by
  simp [Heap.tall]

theorem Heap.tall_eq_true {h : Heap α} {i x : Nat} : h.tall i x = true ↔ i < h.height x := by
  simp [Heap.tall]

/-- The link of a cell on a level, and its span, when `behind` are the cells that follow it. -/
structure Links (h : Heap α) (i x : Nat) (behind : List Nat) : Prop where
  /-- The link leads to the next cell of the level. -/
  next : h.next x i = some (ahead (h.tall i) behind).1
  /-- The span is the way there, or to the end. -/
  gap : h.gap x i = some ((ahead (h.tall i) behind).2 : Int)

/-- All the links of a cell on the lowest levels. -/
def Linked (h : Heap α) (level x : Nat) (behind : List Nat) : Prop :=
  ∀ i < level, i < h.height x → Links h i x behind

/-- **The cells at some addresses are linked in this order**, beginning with a cell `first` that has
links of the lowest `level` levels at least, and is as high as it needs to be. -/
structure Chain (h : Heap α) (level first : Nat) (cells : List Nat) : Prop where
  head : cells.head? = some first
  nodup : cells.Nodup
  pos : 0 < level
  /-- The first cell has all the levels in use. -/
  level_le : level ≤ h.height first
  /-- It has a span for each of its links. -/
  room : (h first).span.length = h.height first
  /-- The others have at least one level, and only such that are in use. -/
  heights : ∀ x ∈ cells.tail, 0 < h.height x ∧ h.height x ≤ level
  /-- The higher links of the first cell are empty. -/
  clear : ∀ i, level ≤ i → i < h.height first → h.next first i = some none
  links : ∀ k x, cells[k]? = some x → Linked h level x (cells.drop (k + 1))

variable {h h' : Heap α} {level first : Nat} {cells : List Nat}

/-- **A walk on a chain** is a walk along the list. -/
theorem Chain.walk_eq (hc : Chain h level first cells) (go : Int → α → Bool) {i k x fuel : Nat}
    (hx : cells[k]? = some x) (hi : i < level) (hheight : i < h.height x)
    (hfuel : cells.length ≤ k + fuel) :
    ∃ y, cells[k + advance (h.tall i) (fun j y => go j (h y).value) (k + 1) (cells.drop (k + 1))]? =
        some y ∧ i < h.height y ∧
      walk h go i fuel (x, (k : Int)) = some (y,
        ((k + advance (h.tall i) (fun j y => go j (h y).value) (k + 1) (cells.drop (k + 1)) : Nat) :
          Int)) := by
  induction fuel generalizing k x with
  | zero =>
    have := (List.getElem?_eq_some_iff.mp hx).1
    omega
  | succ fuel ih =>
    have hlinks := hc.links k x hx i hi hheight
    rw [walk, hlinks.next, hlinks.gap]
    rcases ahead_cases (h.tall i) (cells.drop (k + 1)) with
      ⟨mid, y, rest, heq, hmid, hy, hahead⟩ | ⟨hnone, hahead⟩
    · -- the link leads to `y`, which is entered or refused
      simp only [hahead]
      have hat : cells[k + mid.length + 1]? = some y := by
        have : (cells.drop (k + 1))[mid.length]? = some y := by rw [heq]; simp
        rwa [getElem?_drop, show k + 1 + mid.length = k + mid.length + 1 by omega] at this
      have hrest : cells.drop (k + mid.length + 1 + 1) = rest := by
        rw [show k + mid.length + 1 + 1 = k + 1 + (mid.length + 1) by omega, ← drop_drop, heq]
        simp
      have hpos : (k : Int) + ((mid.length + 1 : Nat) : Int) = ((k + mid.length + 1 : Nat) : Int) := by
        push_cast
        omega
      rw [heq, advance_append_cons hmid hy, hpos, show k + 1 + mid.length = k + mid.length + 1 by omega]
      by_cases hgo : go ((k + mid.length + 1 : Nat) : Int) (h y).value = true
      · obtain ⟨z, hz, htall, hwalk⟩ := ih hat (Heap.tall_eq_true.mp hy) (by omega)
        rw [hrest] at hz hwalk
        rw [if_pos hgo, if_pos hgo, hwalk, ← Nat.add_assoc, ← Nat.add_assoc]
        exact ⟨z, hz, htall, rfl⟩
      · rw [if_neg hgo, if_neg hgo]
        exact ⟨x, hx, hheight, rfl⟩
    · simp only [hahead]
      rw [advance_of_not_tall hnone]
      exact ⟨x, hx, hheight, rfl⟩

/-- **Where a search stops on level `i`**, if it ends at the last cell of `front`: at the last cell of
`front` that has the level. -/
structure StopsAt (h : Heap α) (i : Nat) (front : List Nat) (x k : Nat) : Prop where
  here : front[k]? = some x
  tall : i < h.height x
  last : ∀ y ∈ front.drop (k + 1), h.height y ≤ i

variable {i : Nat} {front back : List Nat} {x x' k k' : Nat}

theorem StopsAt.mem (hs : StopsAt h i front x k) : x ∈ front := mem_of_getElem? hs.here

theorem StopsAt.lt (hs : StopsAt h i front x k) : k < front.length :=
  (List.getElem?_eq_some_iff.mp hs.here).1

/-- A cell of the level does not come later. -/
theorem StopsAt.le (hs : StopsAt h i front x k) (hx' : front[k']? = some x') (htall : i < h.height x') :
    k' ≤ k := by
  refine not_lt.mp fun hlt => ?_
  have hmem : x' ∈ front.drop (k + 1) := by
    refine mem_iff_getElem?.mpr ⟨k' - (k + 1), ?_⟩
    rwa [getElem?_drop, show k + 1 + (k' - (k + 1)) = k' by omega]
  have := hs.last x' hmem
  omega

/-- A cell of the level is where the search stops, or there is another one behind it. -/
theorem StopsAt.cases (hs : StopsAt h i front x k) (hnd : front.Nodup) (hx' : front[k']? = some x')
    (htall : i < h.height x') :
    x' = x ∧ k' = k ∨ x' ≠ x ∧ ∃ y ∈ front.drop (k' + 1), h.tall i y = true := by
  rcases Nat.eq_or_lt_of_le (hs.le hx' htall) with rfl | hlt
  · exact .inl ⟨Option.some.inj (hx'.symm.trans hs.here), rfl⟩
  · refine .inr ⟨?_, x, mem_iff_getElem?.mpr ⟨k - (k' + 1), ?_⟩, Heap.tall_eq_true.mpr hs.tall⟩
    · rintro rfl
      have heq := (getElem?_inj (List.getElem?_eq_some_iff.mp hx').1 hnd).mp
        (hx'.trans hs.here.symm)
      omega
    · rw [getElem?_drop, show k' + 1 + (k - (k' + 1)) = k by omega]
      exact hs.here

theorem StopsAt.of_height (hs : StopsAt h i front x k) (hheight : ∀ x, h'.height x = h.height x) :
    StopsAt h' i front x k :=
  ⟨hs.here, by rw [hheight]; exact hs.tall, fun y hy => by rw [hheight]; exact hs.last y hy⟩

theorem StopsAt.not_tall (hs : StopsAt h i front x k) : ∀ y ∈ front.drop (k + 1), h.tall i y = false :=
  fun y hy => Heap.tall_eq_false.mpr (hs.last y hy)

/-- **A search on a chain** is a search in the list, and on every level it stops at the last cell
before the place found. -/
theorem Chain.descend_eq (hc : Chain h level first cells) (go : Int → α → Bool) {n fuel : Nat}
    (hx : cells[k]? = some x) (hn : n ≤ level) (hheight : n ≤ h.height x)
    (hfuel : cells.length ≤ fuel) :
    ∃ stops, descend h go fuel n (x, (k : Int)) = some stops ∧ stops.length = n ∧
      ∀ i < n, ∃ y j, stops[i]? = some (y, ((j : Nat) : Int)) ∧ StopsAt h i
        (cells.take (descent h.height (fun j y => go j (h y).value) cells n k + 1)) y j := by
  induction n generalizing x k with
  | zero => exact ⟨[], rfl, rfl, fun i hi => absurd hi (Nat.not_lt_zero i)⟩
  | succ n ih =>
    obtain ⟨y, hy, htall, hwalk⟩ := hc.walk_eq go hx hn hheight (show cells.length ≤ k + fuel by omega)
    obtain ⟨stops, hdesc, hlength, hstops⟩ := ih hy (by omega) (le_of_lt htall)
    refine ⟨_, by rw [descend, hwalk, Option.bind_some, hdesc, Option.map_some], by simp [hlength],
      fun i hi => ?_⟩
    rcases Nat.lt_succ_iff_lt_or_eq.mp hi with hlt | rfl
    · obtain ⟨z, j, hget, hstop⟩ := hstops i hlt
      exact ⟨z, j, by rwa [getElem?_append_left (by omega)], hstop⟩
    · refine ⟨y, _, by rw [getElem?_append_right (by omega), hlength, Nat.sub_self]; rfl, ?_,
        htall, fun z hz => ?_⟩
      · have hle : k + advance (h.tall i) (fun j y => go j (h y).value) (k + 1) (cells.drop (k + 1)) ≤
            descent h.height (fun j y => go j (h y).value) cells (i + 1) k := le_descent i _
        rw [getElem?_take_of_lt (Nat.lt_succ_of_le hle)]
        exact hy
      · obtain ⟨d, hd⟩ := mem_iff_getElem?.mp hz
        rw [getElem?_drop, getElem?_take] at hd
        split at hd
        · rename_i hend
          exact height_le_of_le_descent hd (Nat.lt_of_lt_of_le (Nat.lt_succ_self _)
            (Nat.le_add_right _ d)) (Nat.le_of_lt_succ hend)
        · simp at hd

namespace Chain

theorem zero_eq (hc : Chain h level first cells) : cells[0]? = some first := by
  rw [← head?_eq_getElem?]
  exact hc.head

theorem length_pos (hc : Chain h level first cells) : 0 < cells.length :=
  (List.getElem?_eq_some_iff.mp hc.zero_eq).1

theorem mem_tail_of_pos (hk : 0 < k) (hx : cells[k]? = some x) : x ∈ cells.tail := by
  refine mem_iff_getElem?.mpr ⟨k - 1, ?_⟩
  rwa [getElem?_tail, Nat.sub_add_cancel hk]

theorem mem_tail_of_mem_drop (hx : x ∈ cells.drop (k + 1)) : x ∈ cells.tail := by
  rw [← drop_one]
  exact (drop_sublist_drop_left cells (by omega)).subset hx

theorem height_pos (hc : Chain h level first cells) (hx : x ∈ cells) : 0 < h.height x := by
  obtain ⟨k, hk⟩ := mem_iff_getElem?.mp hx
  rcases k with _ | k
  · obtain rfl : first = x := Option.some.inj (hc.zero_eq.symm.trans hk)
    exact Nat.lt_of_lt_of_le hc.pos hc.level_le
  · exact (hc.heights x (mem_tail_of_pos (Nat.succ_pos k) hk)).1

theorem exists_links (hc : Chain h level first cells) (hx : x ∈ cells) (hi : i < level)
    (hlt : i < h.height x) : ∃ y g, h.next x i = some y ∧ h.gap x i = some g := by
  obtain ⟨k, hk⟩ := mem_iff_getElem?.mp hx
  obtain ⟨hnext, hgap⟩ := hc.links k x hk i hi hlt
  exact ⟨_, _, hnext, hgap⟩

/-- A link leads to a later cell of its level. -/
theorem tall_of_next {y : Nat} (hc : Chain h level first cells) (hx : x ∈ cells) (hi : i < level)
    (hlt : i < h.height x) (hnext : h.next x i = some (some y)) : y ∈ cells.tail ∧ i < h.height y := by
  obtain ⟨k, hk⟩ := mem_iff_getElem?.mp hx
  rw [(hc.links k x hk i hi hlt).next] at hnext
  obtain ⟨hmem, htall⟩ := mem_of_ahead (Option.some.inj hnext)
  exact ⟨mem_tail_of_mem_drop hmem, Heap.tall_eq_true.mp htall⟩

/-- The link of the lowest level leads to the next cell. -/
theorem next_zero (hc : Chain h level first cells) (hx : cells[k]? = some x) :
    h.next x 0 = some cells[k + 1]? := by
  have hmem := mem_of_getElem? hx
  rw [(hc.links k x hx 0 hc.pos (hc.height_pos hmem)).next, ← head?_drop]
  cases hdrop : cells.drop (k + 1) with
  | nil => rfl
  | cons y rest =>
    have hy : y ∈ cells := mem_of_mem_drop (hdrop ▸ mem_cons_self)
    rw [ahead_cons_of_tall (Heap.tall_eq_true.mpr (hc.height_pos hy))]
    rfl

/-- On the lowest level a search stops at the place it finds. -/
theorem stopsAt_zero {t : Nat} (hc : Chain h level first cells) (ht : t < cells.length)
    (hs : StopsAt h 0 (cells.take (t + 1)) x k) : k = t ∧ cells[t]? = some x := by
  have hlast : (cells.take (t + 1))[t]? = cells[t]? := getElem?_take_of_lt (Nat.lt_succ_self t)
  have hget : cells[t]? = some (cells.get ⟨t, ht⟩) := getElem?_eq_getElem ht
  have hle : t ≤ k := hs.le (hlast.trans hget) (hc.height_pos (get_mem cells ⟨t, ht⟩))
  have hlt : k < t + 1 := Nat.lt_of_lt_of_le hs.lt (length_take_le _ _)
  obtain rfl : k = t := by omega
  exact ⟨rfl, hlast ▸ hs.here⟩

/-- Above the levels in use a search would stop at the first cell. -/
theorem stopsAt_first {t : Nat} (hc : Chain h level first cells) (hi : level ≤ i)
    (hheight : i < h.height first) : StopsAt h i (cells.take (t + 1)) first 0 where
  here := by
    rw [getElem?_take_of_lt (Nat.succ_pos t)]
    exact hc.zero_eq
  tall := hheight
  last y hy := by
    have hmem : y ∈ cells.tail := by
      rw [drop_take] at hy
      exact mem_tail_of_mem_drop (mem_of_mem_take hy)
    exact le_trans (hc.heights y hmem).2 hi

/-- **A whole search.** With the first cell for the levels that are not in use, it stopped everywhere
right before the place it found. -/
theorem search (hc : Chain h level first cells) (go : Int → α → Bool) {fuel : Nat}
    (hfuel : cells.length ≤ fuel) :
    ∃ stops, descend h go fuel level (first, 0) = some stops ∧ stops.length = level ∧
      ∀ i < h.height first, ∃ y j, stops[i]?.getD (first, 0) = (y, ((j : Nat) : Int)) ∧ StopsAt h i
        (cells.take (descent h.height (fun j y => go j (h y).value) cells level 0 + 1)) y j := by
  obtain ⟨stops, hdesc, hlength, hstops⟩ :=
    hc.descend_eq go hc.zero_eq le_rfl hc.level_le hfuel
  refine ⟨stops, by simpa using hdesc, hlength, fun i hi => ?_⟩
  by_cases hlevel : i < level
  · obtain ⟨y, j, hget, hstop⟩ := hstops i hlevel
    exact ⟨y, j, by rw [hget]; rfl, hstop⟩
  · refine ⟨first, 0, ?_, hc.stopsAt_first (not_lt.mp hlevel) hi⟩
    rw [getElem?_eq_none (by omega)]
    rfl

end Chain

end Towers

end KvStore
