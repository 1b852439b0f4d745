import KvStore.Foundation.Incremental

/-! # Scanning a stream unit by unit

A parser that keeps its progress reads a stream in units, each of which moves it to another state and
may complete a value. Between two units it knows only its state and what it has not read yet.

* **`Scanner`** — one unit. What it makes of a unit depends on the bytes of the unit alone, and what
  cannot be read stays so.
* **`Scanner.Reaches`** — the places a scanner passes in a stream, with the values read on the way.
* **`Scanner.drain`**, **`Scanner.receive`** — the values found in what has arrived, and those found
  piece by piece, where the scanner may give up on a unit that has not arrived in full.
* **`Scanner.receive_eq_iff`** — the pieces make no difference exactly if the scanner, once it gives up
  on a part of a unit, gives up on all that comes behind too. -/

namespace KvStore

open List

variable {S β α ε : Type*}

/-- **A scanner**: the next unit of a stream, from a state. -/
structure Scanner (S β α ε : Type*) where
  /-- The unit at the begin of what is unread: the state behind it, and the value it completes. -/
  step : S → Parser β (S × Option α) ε
  /-- A unit is read off its own bytes. -/
  unit : ∀ {st s q rest}, step st s = .done q rest →
    ∃ code, code ≠ [] ∧ s = code ++ rest ∧ ∀ rest', step st (code ++ rest') = .done q rest'
  /-- What cannot be read cannot be read with more behind it either. -/
  malformed : ∀ {st s e}, step st s = .malformed e → ∀ more, step st (s ++ more) = .malformed e

namespace Scanner

variable {m : Scanner S β α ε} {st st' : S} {s u : List β} {vs : List α}

/-! ## Places -/

/-- **The scanner comes from one place to another**, reading these values. -/
inductive Reaches (m : Scanner S β α ε) : S → List β → List α → S → List β → Prop
  | refl (st : S) (s : List β) : Reaches m st s [] st s
  | step {st st₁ st₂ : S} {s rest u : List β} {v : Option α} {vs : List α}
      (hstep : m.step st s = .done (st₁, v) rest) (hmore : Reaches m st₁ rest vs st₂ u) :
      Reaches m st s (v.toList ++ vs) st₂ u

/-- What is read up to a place is read whatever comes behind it. -/
theorem Reaches.exists_code (h : m.Reaches st s vs st' u) :
    ∃ code, s = code ++ u ∧ ∀ u', m.Reaches st (code ++ u') vs st' u' := by
  induction h with
  | refl st s => exact ⟨[], rfl, fun u' => .refl st u'⟩
  | step hstep _ ih =>
    obtain ⟨unit, -, hs, hunit⟩ := m.unit hstep
    obtain ⟨code, hrest, hcode⟩ := ih
    refine ⟨unit ++ code, by rw [hs, hrest, append_assoc], fun u' => ?_⟩
    rw [append_assoc]
    exact .step (hunit _) (hcode u')

theorem Reaches.append (h : m.Reaches st s vs st' u) (more : List β) :
    m.Reaches st (s ++ more) vs st' (u ++ more) := by
  obtain ⟨code, rfl, hcode⟩ := h.exists_code
  rw [append_assoc]
  exact hcode _

theorem Reaches.trans {st₂ : S} {u₂ : List β} {vs₂ : List α} (h : m.Reaches st s vs st' u)
    (h₂ : m.Reaches st' u vs₂ st₂ u₂) : m.Reaches st s (vs ++ vs₂) st₂ u₂ := by
  induction h with
  | refl st s => exact h₂
  | step hstep _ ih =>
    rw [append_assoc]
    exact .step hstep (ih h₂)

/-- What is left at a place is no longer than what there was. -/
theorem Reaches.length_le (h : m.Reaches st s vs st' u) : u.length ≤ s.length := by
  obtain ⟨code, rfl, -⟩ := h.exists_code
  simp

/-- On the way to a value something is read. -/
theorem Reaches.length_lt (h : m.Reaches st s vs st' u) (hne : vs ≠ []) : u.length < s.length := by
  cases h with
  | refl => exact absurd rfl hne
  | step hstep hmore =>
    obtain ⟨code, hcode, rfl, -⟩ := m.unit hstep
    have hpos := length_pos_iff.mpr hcode
    have hle := hmore.length_le
    rw [length_append]
    omega

/-- A property that every unit keeps holds at every place. -/
theorem Reaches.invariant (P : S → List β → Prop)
    (hunit : ∀ {st s st' v rest}, P st s → m.step st s = .done (st', v) rest → P st' rest)
    (h : m.Reaches st s vs st' u) (hs : P st s) : P st' u := by
  induction h with
  | refl st s => exact hs
  | step hstep _ ih => exact ih (hunit hs hstep)

/-! ## Piece by piece -/

/-- The values found in what has arrived, the place where the scanner stops, and its error. Where a
unit has not arrived in full, `giveUp` says whether it waits. -/
def drain (m : Scanner S β α ε) (giveUp : S → List β → Option ε) :
    Nat → S → List β → List α × S × List β × Option ε
  | 0, st, s => ([], st, s, none)
  | fuel + 1, st, s =>
    match m.step st s with
    | .notReady => ([], st, s, giveUp st s)
    | .malformed e => ([], st, s, some e)
    | .done (st', v) rest =>
      let (vs, stop) := drain m giveUp fuel st' rest
      (v.toList ++ vs, stop)

/-- The values found as pieces arrive, until the scanner stops: where it stands then, with all of the
stream that it has not read, and its error. -/
def receive (m : Scanner S β α ε) (giveUp : S → List β → Option ε) :
    List (List β) → S → List β → List α × S × List β × Option ε
  | [], st, s => ([], st, s, none)
  | piece :: pieces, st, s =>
    match m.drain giveUp ((s ++ piece).length + 1) st (s ++ piece) with
    | (vs, st', u, some e) => (vs, st', u ++ pieces.flatten, some e)
    | (vs, st', u, none) =>
      let (more, stop) := receive m giveUp pieces st' u
      (vs ++ more, stop)

variable {giveUp : S → List β → Option ε}

/-- **Where a scanner stops**: it waits, gives up or cannot read on. -/
def StopsAt (m : Scanner S β α ε) (giveUp : S → List β → Option ε) (st : S) (s : List β)
    (err : Option ε) : Prop :=
  (m.step st s = .notReady ∧ err = giveUp st s) ∨ ∃ e, m.step st s = .malformed e ∧ err = some e

theorem StopsAt.drain {err : Option ε} (h : m.StopsAt giveUp st s err) (fuel : Nat) :
    m.drain giveUp (fuel + 1) st s = ([], st, s, err) := by
  rw [Scanner.drain]
  rcases h with ⟨hstep, rfl⟩ | ⟨e, hstep, rfl⟩
  · rw [hstep]
  · rw [hstep]

/-- On the way to a place it finds the values there. -/
theorem Reaches.drain (h : m.Reaches st s vs st' u) {fuel fuel' : Nat} (hfuel : s.length < fuel)
    (hfuel' : u.length < fuel') (hstop : ∀ {n}, u.length < n →
      m.drain giveUp n st' u = m.drain giveUp fuel' st' u) :
    m.drain giveUp fuel st s =
      (vs ++ (m.drain giveUp fuel' st' u).1, (m.drain giveUp fuel' st' u).2) := by
  induction h generalizing fuel with
  | refl st s => rw [hstop hfuel, nil_append]
  | @step st st₁ st₂ s rest u v vs hstep hmore ih =>
    obtain ⟨code, hne, hs, -⟩ := m.unit hstep
    have hlength : rest.length < s.length := by
      rw [hs, length_append]
      have := length_pos_iff.mpr hne
      omega
    obtain ⟨fuel, rfl⟩ := Nat.exists_eq_succ_of_ne_zero (Nat.ne_zero_of_lt hfuel)
    have hfuel₁ : rest.length < fuel := by omega
    rw [Scanner.drain, hstep]
    simp only
    rw [ih hfuel₁ hfuel' hstop, append_assoc]

/-- **The scanner stops at one place**, with the values found on the way. -/
theorem exists_stop (m : Scanner S β α ε) (giveUp : S → List β → Option ε) (st : S) (s : List β) :
    ∃ vs st' u err, m.Reaches st s vs st' u ∧ m.StopsAt giveUp st' u err := by
  induction hn : s.length using Nat.strongRecOn generalizing st s with
  | _ n ih =>
    cases hstep : m.step st s with
    | notReady => exact ⟨[], st, s, _, .refl st s, .inl ⟨hstep, rfl⟩⟩
    | malformed e => exact ⟨[], st, s, _, .refl st s, .inr ⟨e, hstep, rfl⟩⟩
    | done q rest =>
      obtain ⟨st₁, v⟩ := q
      obtain ⟨code, hne, hs, -⟩ := m.unit hstep
      have hlength : rest.length < n := by
        rw [← hn, hs, length_append]
        have := length_pos_iff.mpr hne
        omega
      obtain ⟨vs, st', u, err, hmore, hstop⟩ := ih rest.length hlength st₁ rest rfl
      exact ⟨_, st', u, err, .step hstep hmore, hstop⟩

/-- What the scanner finds on the way to the place where it stops. -/
theorem drain_of_stop {err : Option ε} (h : m.Reaches st s vs st' u)
    (hstop : m.StopsAt giveUp st' u err) {fuel : Nat} (hfuel : s.length < fuel) :
    m.drain giveUp fuel st s = (vs, st', u, err) := by
  have hend : ∀ {n}, u.length < n → m.drain giveUp n st' u = ([], st', u, err) := by
    intro n hn
    obtain ⟨n, rfl⟩ := Nat.exists_eq_succ_of_ne_zero (Nat.ne_zero_of_lt hn)
    exact hstop.drain n
  rw [h.drain hfuel (Nat.lt_succ_self _) (fun hn => by rw [hend hn, hend (Nat.lt_succ_self _)]),
    hend (Nat.lt_succ_self _), append_nil]

/-- The values on the way to any place are the first of those found. -/
theorem Reaches.drain_append {fuel : Nat} (h : m.Reaches st s vs st' u) (hfuel : s.length < fuel) :
    m.drain giveUp fuel st s = (vs ++ (m.drain giveUp (u.length + 1) st' u).1,
      (m.drain giveUp (u.length + 1) st' u).2) := by
  refine h.drain hfuel (Nat.lt_succ_self _) fun {n} hn => ?_
  obtain ⟨vs', st₂, u₂, err, hmore, hstop⟩ := exists_stop m giveUp st' u
  rw [drain_of_stop hmore hstop hn, drain_of_stop hmore hstop (Nat.lt_succ_self _)]

/-! ## Whether the pieces make a difference -/

/-- **Giving up is for good**: where the scanner gives up on a part of what is to come, it gives up on
all of it. -/
def GivesUpForGood (m : Scanner S β α ε) (giveUp : S → List β → Option ε) (st : S) (s : List β) :
    Prop :=
  ∀ vs st' u, m.Reaches st s vs st' u → ∀ part more, u = part ++ more → ∀ e,
    m.step st' part = .notReady → giveUp st' part = some e →
    m.step st' u = .notReady ∧ giveUp st' u = some e

theorem GivesUpForGood.reaches (hgood : m.GivesUpForGood giveUp st s)
    (h : m.Reaches st s vs st' u) : m.GivesUpForGood giveUp st' u :=
  fun _ _ _ hmore => hgood _ _ _ (h.trans hmore)

/-- The pieces make no difference where giving up is for good. -/
theorem receive_eq_drain {pieces : List (List β)} (hwaits : m.StopsAt giveUp st s none)
    (hgood : m.GivesUpForGood giveUp st (s ++ pieces.flatten)) :
    m.receive giveUp pieces st s = m.drain giveUp ((s ++ pieces.flatten).length + 1) st
      (s ++ pieces.flatten) := by
  induction pieces generalizing st s with
  | nil =>
    rw [flatten_nil, append_nil]
    exact (hwaits.drain _).symm
  | cons piece pieces ih =>
    rw [flatten_cons, ← append_assoc] at hgood ⊢
    obtain ⟨vs, st', u, err, hreaches, hstop⟩ := exists_stop m giveUp st (s ++ piece)
    have hall := hreaches.append pieces.flatten
    rw [receive, drain_of_stop hreaches hstop (Nat.lt_succ_self _),
      hall.drain_append (Nat.lt_succ_self _)]
    cases err with
    | none =>
      simp only
      rw [ih hstop (hgood.reaches hall)]
    | some e =>
      -- the scanner would stop there for the same reason if all had arrived
      have hstop' : m.StopsAt giveUp st' (u ++ pieces.flatten) (some e) := by
        rcases hstop with ⟨hstep, hgive⟩ | ⟨e', hstep, he⟩
        · obtain ⟨hstep', hgive'⟩ := hgood _ _ _ hall u pieces.flatten rfl e hstep hgive.symm
          exact .inl ⟨hstep', hgive'.symm⟩
        · exact .inr ⟨e', m.malformed hstep _, he⟩
      rw [hstop'.drain, append_nil]

/-- A part of a unit on which the scanner gives up is where it stops, whatever comes behind. -/
theorem receive_part {code part more : List β} {e : ε} (h : ∀ u, m.Reaches st (code ++ u) vs st' u)
    (hstep : m.step st' part = .notReady) (hgive : giveUp st' part = some e) :
    m.receive giveUp [code ++ part, more] st [] = (vs, st', part ++ more, some e) := by
  rw [receive, nil_append, drain_of_stop (h part) (.inl ⟨hstep, hgive.symm⟩)
    (Nat.lt_succ_self _)]
  simp

theorem receive_single (m : Scanner S β α ε) (giveUp : S → List β → Option ε) (st : S) (s : List β) :
    m.receive giveUp [s] st [] = m.drain giveUp (s.length + 1) st s := by
  rw [receive, nil_append]
  rcases m.drain giveUp (s.length + 1) st s with ⟨vs, st', u, _ | e⟩ <;> simp [receive]

/-- **The pieces make no difference exactly if giving up is for good**: the values, what is not read
and the error are the same for all. The errors of giving up are none of those of what cannot be read. -/
theorem receive_eq_iff (hwaits : m.StopsAt giveUp st [] none)
    (herr : ∀ {st s part e}, m.step st s = .malformed e → giveUp st part ≠ some e) :
    (∀ pieces, pieces.flatten = s →
      (m.receive giveUp pieces st []).1 = (m.receive giveUp [s] st []).1 ∧
      (m.receive giveUp pieces st []).2.2 = (m.receive giveUp [s] st []).2.2) ↔
      m.GivesUpForGood giveUp st s := by
  constructor
  · intro hsame vs st' u hreaches part more hu e hstep hgive
    obtain ⟨code, hs, hcode⟩ := hreaches.exists_code
    obtain ⟨-, hwhole⟩ := hsame [code ++ part, more] (by simp [hs, hu])
    obtain ⟨vs₁, st₁, u₁, err, hreaches₁, hstop⟩ := exists_stop m giveUp st' u
    rw [receive_part hcode hstep hgive, receive_single, hreaches.drain_append (Nat.lt_succ_self _),
      drain_of_stop hreaches₁ hstop (Nat.lt_succ_self _), ← hu] at hwhole
    -- nothing more was read behind this place
    obtain ⟨rfl, rfl⟩ : u = u₁ ∧ some e = err := by simpa using hwhole
    cases hreaches₁ with
    | refl =>
      rcases hstop with ⟨hstep', hgive'⟩ | ⟨e', hstep', he'⟩
      · exact ⟨hstep', hgive'.symm⟩
      · rw [Option.some.injEq] at he'
        exact absurd hgive (he' ▸ herr hstep')
    | step hstep' hmore =>
      obtain ⟨unit, hne, hunit, -⟩ := m.unit hstep'
      have hlength := hmore.length_le
      rw [hunit, length_append] at hlength
      have := length_pos_iff.mpr hne
      omega
  · intro hgood pieces hpieces
    have hall : m.receive giveUp pieces st [] = m.receive giveUp [s] st [] := by
      rw [receive_eq_drain hwaits (by rwa [nil_append, hpieces]), nil_append, hpieces,
        receive_single]
    rw [hall]
    exact ⟨rfl, rfl⟩

end Scanner

end KvStore
