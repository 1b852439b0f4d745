import Mathlib.Data.List.Basic
import KvStore.Foundation.Runs

/-! # Parsing a stream that arrives in pieces

An incremental parser looks at what has arrived so far and either finds a value at its begin, or needs
more, or gives up (`Parsed`).

* **`Reads p code value`** — the parser finds `value` when it has seen all of `code`, whatever comes
  behind it, and needs more as long as it has seen only a part.
* **`Parser.times`** — as many values as asked for, one behind the other; it reads the codes joined
  (`Reads.times`).
* **`Parser.drain`**, **`Parser.receive`** — the values found in what has arrived, and those found piece
  by piece. However a stream of codes is cut into pieces, its values come out, each once and in order
  (`Parser.receive_stream`). -/

namespace KvStore

open List

/-- What a parser makes of the begin of a stream of `β`. -/
inductive Parsed (β α ε : Type*)
  /-- More has to arrive. -/
  | notReady
  /-- The stream cannot be read. -/
  | malformed (err : ε)
  /-- A value, and what is left behind it. -/
  | done (value : α) (rest : List β)

/-- **An incremental parser.** -/
abbrev Parser (β α ε : Type*) := List β → Parsed β α ε

variable {β α ε : Type*} {p : Parser β α ε}

/-- **`code` is read as `value`.** -/
structure Reads (p : Parser β α ε) (code : List β) (value : α) : Prop where
  done : ∀ rest, p (code ++ rest) = .done value rest
  notReady : ∀ s, s <+: code → s ≠ code → p s = .notReady

/-- The first part of a code with something behind it is a part of the code, or all of it with a first
part of the rest. -/
theorem prefix_cases {s a b : List β} (h : s <+: a ++ b) :
    (s <+: a ∧ s ≠ a) ∨ ∃ s', s = a ++ s' ∧ s' <+: b := by
  by_cases heq : s = a
  · exact .inr ⟨[], by rw [heq, append_nil], List.nil_prefix⟩
  · exact (prefix_append_cases h).imp (fun hs => ⟨hs, heq⟩) id

namespace Parser

/-! ## Several values -/

/-- `n` values, one behind the other. -/
def times (p : Parser β α ε) : Nat → Parser β (List α) ε
  | 0, s => .done [] s
  | n + 1, s =>
    match p s with
    | .notReady => .notReady
    | .malformed err => .malformed err
    | .done value rest =>
      match times p n rest with
      | .notReady => .notReady
      | .malformed err => .malformed err
      | .done values rest => .done (value :: values) rest

/-- The codes joined. -/
def stream (l : List (List β × α)) : List β := (l.map Prod.fst).flatten

theorem stream_cons (code : List β) (value : α) (l : List (List β × α)) :
    stream ((code, value) :: l) = code ++ stream l := by
  simp [stream]

/-- **Codes that are read one by one are read together.** -/
theorem reads_times {l : List (List β × α)} (h : ∀ q ∈ l, Reads p q.1 q.2) :
    Reads (p.times l.length) (stream l) (l.map Prod.snd) := by
  induction l with
  | nil =>
    refine ⟨fun rest => by simp [times, stream], fun s hs hne => absurd ?_ hne⟩
    exact prefix_nil.mp (by simpa [stream] using hs)
  | cons q rest ih =>
    obtain ⟨code, value⟩ := q
    have hq : Reads p code value := h (code, value) mem_cons_self
    have hrest := ih fun q' hq' => h q' (mem_cons_of_mem _ hq')
    refine ⟨fun tail => ?_, fun s hs hne => ?_⟩
    · simp only [length_cons, times, stream_cons, append_assoc, hq.done, hrest.done, map_cons]
    · rw [stream_cons] at hs hne
      rcases prefix_cases hs with ⟨hpart, hpartne⟩ | ⟨s', rfl, hs'⟩
      · simp only [length_cons, times, hq.notReady s hpart hpartne]
      · have hne' : s' ≠ stream rest := fun heq => hne (by rw [heq])
        simp only [length_cons, times, hq.done, hrest.notReady s' hs' hne']

/-- Parsers that agree on streams up to some length read the same values in them. -/
theorem times_congr {q : Parser β α ε} {bound : Nat} (hpq : ∀ s, s.length ≤ bound → p s = q s)
    (hp : ∀ s value rest, p s = .done value rest → rest <:+ s) (n : Nat) {s : List β}
    (hs : s.length ≤ bound) : p.times n s = q.times n s := by
  induction n generalizing s with
  | zero => rfl
  | succ n ih =>
    rw [times, times, ← hpq s hs]
    cases hparse : p s with
    | notReady | malformed err => rfl
    | done value rest =>
      have hrest := (hp s value rest hparse).length_le
      simp only [ih (Nat.le_trans hrest hs)]

/-- What is left behind several values is the end of what there was. -/
theorem times_suffix (hp : ∀ s value rest, p s = .done value rest → rest <:+ s) (n : Nat)
    {s rest : List β} {values : List α} (h : p.times n s = .done values rest) : rest <:+ s := by
  induction n generalizing s values with
  | zero =>
    cases h
    exact suffix_refl _
  | succ n ih =>
    rw [times] at h
    cases hparse : p s with
    | notReady | malformed err => simp [hparse] at h
    | done value rest₁ =>
      cases hmore : p.times n rest₁ with
      | notReady | malformed err => simp [hparse, hmore] at h
      | done values' rest₂ =>
        simp only [hparse, hmore, Parsed.done.injEq] at h
        obtain ⟨-, rfl⟩ := h
        exact (ih hmore).trans (hp s value rest₁ hparse)

/-! ## Piece by piece -/

/-- The values found in what has arrived, up to `fuel` of them, what is left, and the error that ended
the search. -/
def drain (p : Parser β α ε) : Nat → List β → List α × List β × Option ε
  | 0, s => ([], s, none)
  | fuel + 1, s =>
    match p s with
    | .notReady => ([], s, none)
    | .malformed err => ([], s, some err)
    | .done value rest =>
      let (values, left, err) := drain p fuel rest
      (value :: values, left, err)

/-- The values found as pieces arrive, until the stream cannot be read. -/
def receive (p : Parser β α ε) : List (List β) → List β → List α × List β × Option ε
  | [], s => ([], s, none)
  | piece :: pieces, s =>
    match p.drain ((s ++ piece).length + 1) (s ++ piece) with
    | (values, left, some err) => (values, left, some err)
    | (values, left, none) =>
      let (more, left, err) := receive p pieces left
      (values ++ more, left, err)

/-- What has arrived of the codes that are still to be read is not all of the next one. -/
def Waiting (l : List (List β × α)) (s : List β) : Prop :=
  match l with
  | [] => s = []
  | q :: _ => s <+: q.1 ∧ s ≠ q.1

/-- **What has arrived is read as far as it is complete.** -/
theorem drain_stream (hnil : p [] = .notReady) {l : List (List β × α)}
    (h : ∀ q ∈ l, Reads p q.1 q.2) (hne : ∀ q ∈ l, q.1 ≠ []) {s : List β} (hs : s <+: stream l)
    {fuel : Nat} (hfuel : s.length < fuel) :
    ∃ l₁ l₂ left, l = l₁ ++ l₂ ∧ s = stream l₁ ++ left ∧ Waiting l₂ left ∧
      p.drain fuel s = (l₁.map Prod.snd, left, none) := by
  induction l generalizing s fuel with
  | nil =>
    obtain rfl : s = [] := prefix_nil.mp (by simpa [stream] using hs)
    obtain ⟨fuel, rfl⟩ := Nat.exists_eq_succ_of_ne_zero (Nat.ne_zero_of_lt hfuel)
    exact ⟨[], [], [], rfl, rfl, rfl, by simp [drain, hnil]⟩
  | cons q rest ih =>
    obtain ⟨code, value⟩ := q
    have hq : Reads p code value := h (code, value) mem_cons_self
    obtain ⟨fuel, rfl⟩ := Nat.exists_eq_succ_of_ne_zero (Nat.ne_zero_of_lt hfuel)
    rw [stream_cons] at hs
    rcases prefix_cases hs with ⟨hpart, hpartne⟩ | ⟨s', rfl, hs'⟩
    · exact ⟨[], _, s, rfl, by simp [stream], ⟨hpart, hpartne⟩,
        by simp [drain, hq.notReady s hpart hpartne]⟩
    · have hpos := length_pos_iff.mpr (hne (code, value) mem_cons_self)
      simp only [length_append] at hfuel hpos
      obtain ⟨l₁, l₂, left, hl, hleft, hwaiting, hdrain⟩ :=
        ih (fun q' hq' => h q' (mem_cons_of_mem _ hq'))
          (fun q' hq' => hne q' (mem_cons_of_mem _ hq')) hs'
          (show s'.length < fuel by omega)
      refine ⟨(code, value) :: l₁, l₂, left, by rw [hl, cons_append], ?_, hwaiting, ?_⟩
      · rw [stream_cons, hleft, append_assoc]
      · simp [drain, hq.done, hdrain]

/-- **However a stream is cut into pieces, its values come out**, each once and in order, and nothing
is left. -/
theorem receive_stream (hnil : p [] = .notReady) {l : List (List β × α)}
    (h : ∀ q ∈ l, Reads p q.1 q.2) (hne : ∀ q ∈ l, q.1 ≠ []) {pieces : List (List β)}
    {s : List β} (hwaiting : Waiting l s) (hpieces : s ++ pieces.flatten = stream l) :
    p.receive pieces s = (l.map Prod.snd, [], none) := by
  induction pieces generalizing l s with
  | nil =>
    rw [flatten_nil, append_nil] at hpieces
    cases l with
    | nil => simp [receive, show s = [] from hwaiting]
    | cons q rest =>
      -- all of the next code would have arrived
      obtain ⟨code, value⟩ := q
      rw [stream_cons] at hpieces
      have hlength : s.length ≤ code.length := hwaiting.1.length_le
      rw [hpieces, length_append] at hlength
      obtain hnone : stream rest = [] := length_eq_zero_iff.mp (by omega)
      rw [hnone, append_nil] at hpieces
      exact absurd hpieces hwaiting.2
  | cons piece pieces ih =>
    rw [flatten_cons, ← append_assoc] at hpieces
    obtain ⟨l₁, l₂, left, rfl, hleft, hwaiting', hdrain⟩ :=
      drain_stream hnil h hne (s := s ++ piece) ⟨pieces.flatten, hpieces⟩ (Nat.lt_succ_self _)
    have hrest : left ++ pieces.flatten = stream l₂ := by
      have hsplit : stream (l₁ ++ l₂) = stream l₁ ++ stream l₂ := by simp [stream]
      rw [hleft, hsplit, append_assoc] at hpieces
      exact append_cancel_left hpieces
    have hmore := ih (fun q hq => h q (mem_append_right _ hq))
      (fun q hq => hne q (mem_append_right _ hq)) hwaiting' hrest
    simp only [receive, hdrain, hmore, map_append]

end Parser

end KvStore
