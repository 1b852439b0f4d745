import KvStore.Foundation.Scanner
import KvStore.Protocol.Resp
import Mathlib.Data.List.DropRight

/-! # Requests on the wire

A request is an array of bulk strings, or one line of words (`protocol/resp.py`). The server's parser
is fed what arrives and keeps its progress through a request that is not complete.

* **`encodeCommand`** — a request as bytes.
* **`RequestParser`** — the parser: `feed`, `nextCommand`, and `receiveAll`, which takes every complete
  command after each chunk.
* **`Request.scanner`** — the grammar of requests, one line or bulk string at a time, without the limit
  on the length of a line. `RequestParser` scans by it (`RequestParser.nextCommand_spec`). -/

namespace KvStore

open List

/-! ## The encoding -/

/-- A bulk string. -/
def encodeBulk (data : Str) : Option Str := do
  return 36 :: (← formatInt data.length) ++ crlf ++ data ++ crlf

/-- **`encode_command`** of byte strings. -/
def encodeCommand (args : List Str) : Option Str := do
  return 42 :: (← formatInt args.length) ++ crlf ++ (← args.mapM encodeBulk).flatten

/-! ## The parser -/

def maxInline : Nat := 64 * 1024

def maxArray : Nat := 1024 * 1024

def defaultMaxBulk : Nat := 64 * 1024 * 1024

def chrByte (b : UInt8) : Str := if b < 128 then [b] else [0xC0 + b / 64, 0x80 + b % 64]

/-- White space as `bytes.split` sees it. -/
def isSpaceByte (b : UInt8) : Bool := b = 32 || (9 ≤ b && b ≤ 13)

/-- `line.split()` of bytes. -/
def splitWords (line : Str) : List Str :=
  (line.splitOnP isSpaceByte).filter fun word => !word.isEmpty

/-- The first line and what follows it, a line ending in a newline (`buf.find(b"\n")`). -/
def splitNewline : Str → Option (Str × Str)
  | [] => none
  | b :: rest =>
    if b = 10 then some ([], rest)
    else (splitNewline rest).map fun (line, after) => (b :: line, after)

/-- The words of an inline command. -/
def inlineWords (line : Str) : List Str := splitWords (line.rdropWhile (· = 13))

/-- The error of a line that does not end. -/
def tooBigLine : WireError := protocolError (text "too big request line")

/-- The error of an array length. -/
def badMultibulk : WireError := protocolError (text "invalid multibulk length")

/-- The error of a bulk length. -/
def badBulk : WireError := protocolError (text "invalid bulk length")

/-- The error of a bulk string without its end. -/
def badTerminator : WireError := protocolError (text "invalid bulk string terminator")

/-- The error of an item that is no bulk string. -/
def notBulk (b : UInt8) : WireError :=
  protocolError (text "expected '$', got '" ++ chrByte b ++ text "'")

/-- **The parser of requests.** -/
structure RequestParser where
  buf : Str
  pos : Nat
  maxBulk : Nat
  /-- `_pending`: the arguments so far of a request that is not complete. -/
  pending : Option (List Str)
  /-- `_remaining`: how many are to come. -/
  remaining : Nat
  /-- No more is read than arrived. -/
  pos_le : pos ≤ buf.length
  /-- A request that is not complete lacks an argument. -/
  remaining_pos : pending.isSome = true → 0 < remaining

namespace RequestParser

theorem pos_le_nil : 0 ≤ ([] : Str).length := le_rfl

theorem remaining_pos_none : (none : Option (List Str)).isSome = true → 0 < 0 := by simp

/-- A new parser. -/
def init (maxBulk : Nat) : RequestParser := ⟨[], 0, maxBulk, none, 0, pos_le_nil, remaining_pos_none⟩

def feed (p : RequestParser) (data : Str) : RequestParser :=
  { p with buf := p.buf ++ data, pos_le := p.pos_le.trans (by simp) }

/-- The bytes that are not read yet. -/
def unread (p : RequestParser) : Str := p.buf.drop p.pos

/-- **`_compact`**: what was read is dropped, when it is all there is or a lot. -/
def compact (p : RequestParser) : RequestParser :=
  if p.pos = p.buf.length then { p with buf := [], pos := 0, pos_le := pos_le_nil }
  else if 64 * 1024 < p.pos then
    { p with buf := p.buf.drop p.pos, pos := 0, pos_le := Nat.zero_le _ }
  else p

/-- All but `rest` is read. -/
def advance (p : RequestParser) (rest : Str) : RequestParser :=
  { p with pos := p.buf.length - rest.length, pos_le := Nat.sub_le _ _ }

/-- A request with these arguments so far and `more + 1` to come. -/
def hold (p : RequestParser) (args : List Str) (more : Nat) : RequestParser :=
  { p with pending := some args, remaining := more + 1, remaining_pos := fun _ => Nat.succ_pos _ }

/-- No request is pending. -/
def release (p : RequestParser) : RequestParser :=
  { p with pending := none, remaining := 0, remaining_pos := remaining_pos_none }

/-- **`_check_line_length`**, and then `None`: the end of a line has not arrived. -/
def checkLineLength (p : RequestParser) : Except WireError (Option (List Str)) :=
  if maxInline < p.buf.length - p.pos then .error tooBigLine else .ok none

def parseInline (p : RequestParser) : Except WireError (Option (List Str)) × RequestParser :=
  match splitNewline p.unread with
  | none => (p.checkLineLength, p)
  | some (line, rest) => (.ok (some (inlineWords line)), (p.advance rest).compact)

/-- The loop of `next_command` over the bulk strings of a request. -/
def bulks : Nat → List Str → RequestParser →
    Except WireError (Option (List Str)) × RequestParser
  | 0, args, p => (.ok (some args), p.release.compact)
  | more + 1, args, p =>
    match p.unread with
    | [] => (.ok none, p.hold args more)
    | b :: _ =>
      if b ≠ 36 then (.error (notBulk b), p.hold args more)
      else
        match splitLine p.unread with
        | none => (p.checkLineLength, p.hold args more)
        | some (line, rest) =>
          match intOfBytes line.tail with
          | none => (.error badBulk, p.hold args more)
          | some size =>
            if size < 0 ∨ (p.maxBulk : Int) < size then (.error badBulk, p.hold args more)
            else if rest.length < size.toNat + 2 then (.ok none, p.hold args more)
            else if (rest.drop size.toNat).take 2 ≠ crlf then
              (.error badTerminator, p.hold args more)
            else bulks more (args ++ [rest.take size.toNat])
              (p.advance (rest.drop (size.toNat + 2)))

/-- **`next_command`**: the next complete command (`[]` for an empty line), `none` when more has to
arrive, or the error that is raised; and the parser then. -/
def nextCommand (p : RequestParser) : Except WireError (Option (List Str)) × RequestParser :=
  match p.pending with
  | some args => bulks p.remaining args p
  | none =>
    match p.unread with
    | [] => (.ok none, p.compact)
    | b :: _ =>
      if b ≠ 42 then p.parseInline
      else
        match splitLine p.unread with
        | none => (p.checkLineLength, p)
        | some (line, rest) =>
          match intOfBytes line.tail with
          | none => (.error badMultibulk, p)
          | some count =>
            if count ≤ 0 then (.ok (some []), p.advance rest)
            else if (maxArray : Int) < count then (.error badMultibulk, p.advance rest)
            else bulks count.toNat [] (p.advance rest)

/-- `next_command` until there is none: the commands, the parser, and the error that ended it. -/
def drain : Nat → RequestParser → List (List Str) × RequestParser × Option WireError
  | 0, p => ([], p, none)
  | fuel + 1, p =>
    match p.nextCommand with
    | (.error e, p) => ([], p, some e)
    | (.ok none, p) => ([], p, none)
    | (.ok (some command), p) =>
      let (commands, p, e) := drain fuel p
      (command :: commands, p, e)

/-- **Chunks arrive one by one**, and after each every complete command is taken, until an error: the
commands, all of the stream that is not read then, and the error. -/
def receiveAll : List Str → RequestParser → List (List Str) × Str × Option WireError
  | [], p => ([], p.unread, none)
  | data :: chunks, p =>
    match drain ((p.feed data).unread.length + 1) (p.feed data) with
    | (commands, p, some e) => (commands, p.unread ++ chunks.flatten, some e)
    | (commands, p, none) =>
      let (more, stop) := receiveAll chunks p
      (commands ++ more, stop)

end RequestParser

/-! ## The grammar -/

namespace Request

/-- Where in a request a stream stands. -/
inductive Stage
  /-- At the begin of a request. -/
  | idle
  /-- Behind some arguments of an array, with `more + 1` to come. -/
  | items (args : List Str) (more : Nat)
  /-- Behind the length of an array that is too long. -/
  | oversized

/-- **The line a stream begins with**, where a request has one: a line of words ends in a newline, the
length of an array or a bulk string in CRLF. -/
def cutLine : Stage → Str → Option (Str × Str)
  | .idle, s => if s.head? = some 42 then splitLine s else splitNewline s
  | .items _ _, s => if s.head? = some 36 then splitLine s else none
  | .oversized, _ => none

/-- What cannot follow. -/
def refuse : Stage → Str → Option WireError
  | .idle, _ => none
  | .items _ _, s => s.head?.bind fun b => if b = 36 then none else some (notBulk b)
  | .oversized, _ => some badMultibulk

/-- The stage behind one more argument, and the command it completes. -/
def Stage.take (args : List Str) (more : Nat) (arg : Str) : Stage × Option (List Str) :=
  match more with
  | 0 => (.idle, some (args ++ [arg]))
  | more + 1 => (.items (args ++ [arg]) more, none)

/-- What is behind the length of an array. -/
def header (line : Str) : Parser UInt8 (Stage × Option (List Str)) WireError := fun rest =>
  match intOfBytes line.tail with
  | none => .malformed badMultibulk
  | some count =>
    if count ≤ 0 then .done (.idle, some []) rest
    else if (maxArray : Int) < count then .done (.oversized, none) rest
    else .done (.items [] (count.toNat - 1), none) rest

/-- What is behind the length of a bulk string. -/
def bulk (maxBulk : Nat) (args : List Str) (more : Nat) (line : Str) :
    Parser UInt8 (Stage × Option (List Str)) WireError := fun rest =>
  match intOfBytes line.tail with
  | none => .malformed badBulk
  | some size =>
    if size < 0 ∨ (maxBulk : Int) < size then .malformed badBulk
    else if rest.length < size.toNat + 2 then .notReady
    else if (rest.drop size.toNat).take 2 ≠ crlf then .malformed badTerminator
    else .done (Stage.take args more (rest.take size.toNat)) (rest.drop (size.toNat + 2))

/-- What is behind a line. -/
def behind (maxBulk : Nat) : Stage → Str → Parser UInt8 (Stage × Option (List Str)) WireError
  | .idle, line => if line.head? = some 42 then header line else
      fun rest => .done (.idle, some (inlineWords line)) rest
  | .items args more, line => bulk maxBulk args more line
  | .oversized, _ => fun _ => .notReady

/-- One unit of a request. -/
def step (maxBulk : Nat) (st : Stage) : Parser UInt8 (Stage × Option (List Str)) WireError := fun s =>
  match refuse st s with
  | some e => .malformed e
  | none =>
    match cutLine st s with
    | none => .notReady
    | some (line, rest) => behind maxBulk st line rest

/-- **The limit on a line that has not ended.** -/
def giveUp (st : Stage) (s : Str) : Option WireError :=
  if cutLine st s = none ∧ maxInline < s.length then some tooBigLine else none

/-! ### Lines -/

variable {line : Str}

theorem splitNewline_append (h : 10 ∉ line) (rest : Str) :
    splitNewline (line ++ 10 :: rest) = some (line, rest) := by
  induction line with
  | nil => simp [splitNewline]
  | cons b line ih =>
    rw [mem_cons, not_or] at h
    rw [cons_append, splitNewline, if_neg (Ne.symm h.1), ih h.2]
    rfl

theorem splitNewline_eq_none (h : 10 ∉ line) : splitNewline line = none := by
  induction line with
  | nil => rfl
  | cons b line ih =>
    rw [mem_cons, not_or] at h
    rw [splitNewline, if_neg (Ne.symm h.1), ih h.2]
    rfl

/-- **A line is found in its own bytes**, and not before its end has come. -/
structure Cuts (cut : Str → Option (Str × Str)) (code line : Str) : Prop where
  found : ∀ rest, cut (code ++ rest) = some (line, rest)
  open_ : ∀ s, s <+: code → s ≠ code → cut s = none

variable {rest : Str}

theorem cuts_splitLine {s : Str} (h : splitLine s = some (line, rest)) :
    Cuts splitLine (line ++ crlf) line := by
  induction s generalizing line with
  | nil => cases h
  | cons b s ih =>
    rw [splitLine] at h
    split at h
    · cases h
      refine ⟨fun rest => by simp [splitLine, crlf], fun s hs hne => ?_⟩
      exact splitLine_eq_none (by simp) hs hne
    · rename_i hb
      cases hcut : splitLine s with
      | none => simp [hcut] at h
      | some q =>
        obtain ⟨line', after⟩ := q
        simp only [hcut, Option.map_some, Option.some.injEq, Prod.mk.injEq] at h
        obtain ⟨rfl, rfl⟩ := h
        have hs : s = line' ++ crlf ++ after := eq_of_splitLine hcut
        obtain ⟨hfound, hopen⟩ := ih hcut
        -- the byte before the line is no line end, whatever comes behind
        have hhead : ∀ s' : Str, s' <+: line' ++ crlf ++ s'.drop (line' ++ crlf).length →
            s'.head? = some 10 → s.head? = some 10 := by
          intro s' hs' hten
          cases s' with
          | nil => cases hten
          | cons c s' =>
            cases hten
            rw [hs]
            cases line' with
            | nil =>
              rw [nil_append, crlf, cons_append, cons_prefix_cons] at hs'
              exact absurd hs'.1 (by decide)
            | cons d line' =>
              rw [cons_append, cons_append, cons_prefix_cons] at hs'
              rw [← hs'.1]
              rfl
        refine ⟨fun rest => ?_, fun s' hs' hne => ?_⟩
        · rw [cons_append, cons_append, splitLine, if_neg, hfound rest]
          · rfl
          · rintro ⟨rfl, hten⟩
            refine hb ⟨rfl, hhead _ ?_ hten⟩
            rw [drop_left]
        · cases s' with
          | nil => rfl
          | cons c s' =>
            rw [cons_append, cons_prefix_cons] at hs'
            obtain ⟨rfl, hs'⟩ := hs'
            have hne' : s' ≠ line' ++ crlf := fun heq => hne (by rw [heq, cons_append])
            rw [splitLine, if_neg, hopen s' hs' hne']
            · rfl
            · rintro ⟨rfl, hten⟩
              refine hb ⟨rfl, hhead s' ?_ hten⟩
              exact hs'.trans (prefix_append _ _)

theorem cuts_splitNewline {s : Str} (h : splitNewline s = some (line, rest)) :
    s = line ++ [10] ++ rest ∧ Cuts splitNewline (line ++ [10]) line := by
  induction s generalizing line with
  | nil => cases h
  | cons b s ih =>
    rw [splitNewline] at h
    split at h
    · rename_i hb
      cases h
      refine ⟨by rw [hb]; rfl, fun rest => by simp [splitNewline], fun s' hs' hne => ?_⟩
      cases s' with
      | nil => rfl
      | cons c s' =>
        refine absurd (hs'.eq_of_length_le ?_) hne
        simp
    · rename_i hb
      cases hcut : splitNewline s with
      | none => simp [hcut] at h
      | some q =>
        obtain ⟨line', after⟩ := q
        simp only [hcut, Option.map_some, Option.some.injEq, Prod.mk.injEq] at h
        obtain ⟨rfl, rfl⟩ := h
        obtain ⟨hs, hfound, hopen⟩ := ih hcut
        refine ⟨by rw [hs]; rfl, fun rest => ?_, fun s' hs' hne => ?_⟩
        · rw [cons_append, cons_append, splitNewline, if_neg hb, hfound rest]
          rfl
        · cases s' with
          | nil => rfl
          | cons c s' =>
            rw [cons_append, cons_prefix_cons] at hs'
            obtain ⟨rfl, hs'⟩ := hs'
            have hne' : s' ≠ line' ++ [10] := fun heq => hne (by rw [heq, cons_append])
            rw [splitNewline, if_neg hb, hopen s' hs' hne']
            rfl

/-- The line a stream begins with, with its bytes. -/
theorem cuts_cutLine {st : Stage} {s : Str} (h : cutLine st s = some (line, rest)) :
    ∃ code, code ≠ [] ∧ s = code ++ rest ∧ code.head? = s.head? ∧ Cuts (cutLine st) code line := by
  -- a line found by `cut` where the stream begins with a byte that `st` looks for
  have hlift : ∀ {cut : Str → Option (Str × Str)} {code : Str}, code ≠ [] → s = code ++ rest →
      Cuts cut code line → (∀ s' : Str, s'.head? = s.head? → cutLine st s' = cut s') →
      cutLine st [] = none →
      ∃ code, code ≠ [] ∧ s = code ++ rest ∧ code.head? = s.head? ∧ Cuts (cutLine st) code line := by
    intro cut code hne hs hcuts hsame hnil
    have hhead : ∀ more, (code ++ more).head? = s.head? := by
      obtain ⟨b, code, rfl⟩ := exists_cons_of_ne_nil hne
      rw [hs]
      exact fun more => rfl
    refine ⟨code, hne, hs, by simpa using hhead [], fun more => ?_, fun s' hs' hne' => ?_⟩
    · rw [hsame _ (hhead more)]
      exact hcuts.found more
    · cases s' with
      | nil => exact hnil
      | cons b s' =>
        obtain ⟨more, rfl⟩ := hs'
        rw [hsame _ (by simpa using hhead [])]
        exact hcuts.open_ _ (prefix_append _ _) hne'
  cases st with
  | idle =>
    rw [cutLine] at h
    by_cases hstar : s.head? = some 42
    · rw [if_pos hstar] at h
      refine hlift (by simp [crlf]) (eq_of_splitLine h) (cuts_splitLine h) (fun s' hs' => ?_) rfl
      rw [cutLine, if_pos (hs'.trans hstar)]
    · rw [if_neg hstar] at h
      obtain ⟨hs, hcuts⟩ := cuts_splitNewline h
      refine hlift (by simp) hs hcuts (fun s' hs' => ?_) rfl
      rw [cutLine, if_neg (hs' ▸ hstar)]
  | items args more =>
    rw [cutLine] at h
    by_cases hbulk : s.head? = some 36
    · rw [if_pos hbulk] at h
      refine hlift (by simp [crlf]) (eq_of_splitLine h) (cuts_splitLine h) (fun s' hs' => ?_) rfl
      rw [cutLine, if_pos (hs'.trans hbulk)]
    · rw [if_neg hbulk] at h
      cases h
  | oversized => cases h

/-- What can follow is told by the first byte. -/
theorem refuse_congr {st : Stage} {s s' : Str} (h : s.head? = s'.head?) :
    refuse st s = refuse st s' := by
  cases st with
  | idle | oversized => rfl
  | items args more => rw [refuse, refuse, h]

/-- What is behind a line is read off its own bytes too. -/
theorem behind_local {maxBulk : Nat} {st : Stage} {s : Str} {q : Stage × Option (List Str)}
    (h : behind maxBulk st line s = .done q rest) :
    ∃ code, s = code ++ rest ∧ ∀ rest', behind maxBulk st line (code ++ rest') = .done q rest' := by
  cases st with
  | idle =>
    rw [behind] at h
    by_cases hstar : line.head? = some 42
    · rw [if_pos hstar, header] at h
      cases hcount : intOfBytes line.tail with
      | none => simp [hcount] at h
      | some count =>
        simp only [hcount] at h
        refine ⟨[], ?_, fun rest' => ?_⟩
        · split_ifs at h <;> cases h <;> rfl
        · rw [behind, if_pos hstar, header, hcount]
          simp only
          split_ifs at h ⊢ <;> cases h <;> rfl
    · rw [if_neg hstar] at h
      cases h
      exact ⟨[], rfl, fun rest' => by rw [behind, if_neg hstar, nil_append]⟩
  | items args more =>
    rw [behind, bulk] at h
    cases hsize : intOfBytes line.tail with
    | none => simp [hsize] at h
    | some size =>
      simp only [hsize] at h
      split_ifs at h with hbound hshort hend
      cases h
      rw [not_not] at hend
      refine ⟨s.take (size.toNat + 2), (take_append_drop _ _).symm, fun rest' => ?_⟩
      have hlength : (s.take (size.toNat + 2)).length = size.toNat + 2 := by
        rw [length_take]
        omega
      have htake : (s.take (size.toNat + 2) ++ rest').take size.toNat = s.take size.toNat := by
        rw [take_append_of_le_length (by omega), take_take, min_eq_left (by omega)]
      have hdrop : ((s.take (size.toNat + 2) ++ rest').drop size.toNat).take 2 = crlf := by
        rw [drop_append_of_le_length (by omega), take_append_of_le_length (by
          rw [length_drop]
          omega), take_drop, take_take, min_self, ← hend, take_drop]
      have hrest : (s.take (size.toNat + 2) ++ rest').drop (size.toNat + 2) = rest' := by
        rw [drop_append_of_le_length (by omega), drop_eq_nil_of_le (by omega), nil_append]
      have hlong : ¬ (s.take (size.toNat + 2) ++ rest').length < size.toNat + 2 := by
        rw [length_append]
        omega
      rw [behind, bulk, hsize]
      simp only
      rw [if_neg hbound, if_neg hlong, if_neg (by rw [not_not]; exact hdrop), htake, hrest]
  | oversized => cases h

/-- What cannot be read behind a line stays so. -/
theorem behind_malformed {maxBulk : Nat} {st : Stage} {s : Str} {e : WireError}
    (h : behind maxBulk st line s = .malformed e) (more : Str) :
    behind maxBulk st line (s ++ more) = .malformed e := by
  cases st with
  | idle =>
    rw [behind] at h ⊢
    by_cases hstar : line.head? = some 42
    · rw [if_pos hstar, header] at h ⊢
      cases hcount : intOfBytes line.tail with
      | none => simpa [hcount] using h
      | some count =>
        simp only [hcount] at h
        split_ifs at h
    · rw [if_neg hstar] at h
      cases h
  | items args rest =>
    rw [behind, bulk] at h ⊢
    cases hsize : intOfBytes line.tail with
    | none => simpa [hsize] using h
    | some size =>
      simp only [hsize] at h ⊢
      split_ifs at h with hbound hshort hend
      · rw [if_pos hbound]
        exact h
      · have hdrop : ((s ++ more).drop size.toNat).take 2 = (s.drop size.toNat).take 2 := by
          rw [drop_append_of_le_length (by omega), take_append_of_le_length (by
            rw [length_drop]
            omega)]
        have hlong : ¬ (s ++ more).length < size.toNat + 2 := by
          rw [length_append]
          omega
        rw [if_neg hbound, if_neg hlong, hdrop, if_pos hend]
        exact h
  | oversized => cases h

/-- **The grammar of requests.** -/
def scanner (maxBulk : Nat) : Scanner Stage UInt8 (List Str) WireError where
  step := step maxBulk
  unit := by
    intro st s q rest h
    unfold step at h
    cases hrefuse : refuse st s with
    | some e => simp [hrefuse] at h
    | none =>
      cases hcut : cutLine st s with
      | none => simp [hrefuse, hcut] at h
      | some found =>
        obtain ⟨line, after⟩ := found
        simp only [hrefuse, hcut] at h
        obtain ⟨code, hne, rfl, hhead, hcuts⟩ := cuts_cutLine hcut
        obtain ⟨code', rfl, hbehind⟩ := behind_local h
        refine ⟨code ++ code', by simp [hne], by rw [append_assoc], fun rest' => ?_⟩
        have hhead' : (code ++ code' ++ rest').head? = (code ++ (code' ++ rest)).head? := by
          obtain ⟨b, code, rfl⟩ := exists_cons_of_ne_nil hne
          rfl
        rw [step, refuse_congr hhead', hrefuse, append_assoc, hcuts.found]
        exact hbehind rest'
  malformed := by
    intro st s e h more
    unfold step at h
    cases hrefuse : refuse st s with
    | some e' =>
      simp only [hrefuse] at h
      cases h
      have hmore : refuse st (s ++ more) = some e := by
        cases s with
        | nil =>
          cases st with
          | idle | items args n => cases hrefuse
          | oversized => exact hrefuse
        | cons b s =>
          rw [← hrefuse]
          exact refuse_congr rfl
      rw [step, hmore]
    | none =>
      cases hcut : cutLine st s with
      | none => simp [hrefuse, hcut] at h
      | some found =>
        obtain ⟨line, after⟩ := found
        simp only [hrefuse, hcut] at h
        obtain ⟨code, hne, rfl, hhead, hcuts⟩ := cuts_cutLine hcut
        have hhead' : (code ++ after ++ more).head? = (code ++ after).head? := by
          obtain ⟨b, code, rfl⟩ := exists_cons_of_ne_nil hne
          rfl
        rw [step, refuse_congr hhead', hrefuse, append_assoc, hcuts.found]
        exact behind_malformed h more

theorem scanner_step (maxBulk : Nat) (st : Stage) (s : Str) :
    (scanner maxBulk).step st s = step maxBulk st s := rfl

end Request

/-! ## The parser scans by the grammar -/

namespace RequestParser

open Request

/-- Where in a request the parser stands. -/
def stage (p : RequestParser) : Stage :=
  match p.pending with
  | none => .idle
  | some args => .items args (p.remaining - 1)

@[simp] theorem unread_hold (p : RequestParser) (args : List Str) (more : Nat) :
    (p.hold args more).unread = p.unread := rfl

@[simp] theorem stage_hold (p : RequestParser) (args : List Str) (more : Nat) :
    (p.hold args more).stage = .items args more := rfl

@[simp] theorem unread_release (p : RequestParser) : p.release.unread = p.unread := rfl

@[simp] theorem stage_release (p : RequestParser) : p.release.stage = .idle := rfl

theorem unread_compact (p : RequestParser) : p.compact.unread = p.unread := by
  unfold compact
  split
  · rename_i h
    simp [unread, h]
  · split
    · simp [unread]
    · rfl

theorem stage_compact (p : RequestParser) : p.compact.stage = p.stage := by
  unfold compact
  split
  · rfl
  · split <;> rfl

theorem maxBulk_compact (p : RequestParser) : p.compact.maxBulk = p.maxBulk := by
  unfold compact
  split
  · rfl
  · split <;> rfl

variable {p : RequestParser}

theorem unread_advance {rest : Str} (h : rest <:+ p.unread) : (p.advance rest).unread = rest :=
  (suffix_iff_eq_drop.mp (h.trans (drop_suffix _ _))).symm

/-- **What a call of `next_command` did**, in terms of the grammar: it reads up to a place, with the
command it completes; it waits there; or it stops there with an error. -/
def Scans (m : Scanner Stage UInt8 (List Str) WireError) (st : Stage) (s : Str)
    (r : Except WireError (Option (List Str)) × RequestParser) : Prop :=
  match r.1 with
  | .ok (some command) => m.Reaches st s [command] r.2.stage r.2.unread
  | .ok none => m.Reaches st s [] r.2.stage r.2.unread ∧
      m.StopsAt giveUp r.2.stage r.2.unread none
  | .error e => ∃ st', m.Reaches st s [] st' r.2.unread ∧
      m.StopsAt giveUp st' r.2.unread (some e)

variable {m : Scanner Stage UInt8 (List Str) WireError} {st : Stage} {s : Str}

theorem Scans.after {st' : Stage} {rest : Str}
    {r : Except WireError (Option (List Str)) × RequestParser}
    (hstep : m.step st s = .done (st', none) rest) (h : Scans m st' rest r) : Scans m st s r := by
  obtain ⟨result, p⟩ := r
  match result, h with
  | .ok (some command), h => exact .step hstep h
  | .ok none, h => exact ⟨.step hstep h.1, h.2⟩
  | .error e, ⟨st₁, hreaches, hstop⟩ => exact ⟨st₁, .step hstep hreaches, hstop⟩

/-- A line that has not ended: the parser waits, or gives up. -/
theorem scans_checkLineLength {p' : RequestParser} {maxBulk : Nat} (hstage : p'.stage = st)
    (hunread : p'.unread = p.unread) (hrefuse : refuse st p.unread = none)
    (hcut : cutLine st p.unread = none) :
    Scans (scanner maxBulk) st p.unread (p.checkLineLength, p') := by
  have hstep : (scanner maxBulk).step st p.unread = .notReady := by
    rw [scanner_step, step, hrefuse, hcut]
  have hlength : p.unread.length = p.buf.length - p.pos := length_drop
  unfold checkLineLength
  by_cases hlong : maxInline < p.buf.length - p.pos
  · rw [if_pos hlong]
    refine ⟨st, hunread ▸ .refl _ _, .inl ⟨hunread ▸ hstep, ?_⟩⟩
    rw [hunread, giveUp, if_pos ⟨hcut, hlength ▸ hlong⟩]
  · rw [if_neg hlong]
    refine ⟨?_, ?_⟩
    · rw [hstage, hunread]
      exact .refl _ _
    · rw [hstage, hunread]
      refine .inl ⟨hstep, ?_⟩
      rw [giveUp, if_neg fun h => hlong (hlength ▸ h.2)]

/-- Where the grammar stops with an error, so does the parser. -/
theorem scans_error {p' : RequestParser} {e : WireError} (hunread : p'.unread = p.unread)
    (hstep : m.step st p.unread = .malformed e) : Scans m st p.unread (.error e, p') :=
  ⟨st, hunread ▸ .refl _ _, .inr ⟨e, hunread ▸ hstep, rfl⟩⟩

/-- One round of the loop over the bulk strings, given what the others do. -/
theorem scans_bulks_succ {more : Nat} {args : List Str} (hnext : ∀ data rest, rest <:+ p.unread →
      (scanner p.maxBulk).step (.items args more) p.unread = .done (Stage.take args more data) rest →
      Scans (scanner p.maxBulk) (.items args more) p.unread
        (bulks more (args ++ [data]) (p.advance rest))) :
    Scans (scanner p.maxBulk) (.items args more) p.unread (bulks (more + 1) args p) := by
  have hstep : (scanner p.maxBulk).step (.items args more) p.unread =
      step p.maxBulk (.items args more) p.unread := rfl
  rw [bulks]
  cases hunread : p.unread with
  | nil =>
    refine ⟨?_, .inl ⟨?_, ?_⟩⟩
    · rw [unread_hold, stage_hold, hunread]
      exact .refl _ _
    · rw [unread_hold, stage_hold, hunread]
      rfl
    · rw [unread_hold, stage_hold, hunread]
      rfl
  | cons b tail =>
    simp only
    rw [← hunread]
    by_cases hb : b = 36
    · rw [if_neg (not_not.mpr hb)]
      have hhead : p.unread.head? = some 36 := by rw [hunread, hb]; rfl
      have hrefuse : refuse (.items args more) p.unread = none := by
        rw [refuse, hhead]
        rfl
      have hcut : cutLine (.items args more) p.unread = splitLine p.unread := by
        rw [cutLine, if_pos hhead]
      rw [step, hrefuse, hcut] at hstep
      cases hline : splitLine p.unread with
      | none =>
        exact scans_checkLineLength (stage_hold p args more) (unread_hold p args more) hrefuse
          (hcut.trans hline)
      | some found =>
        obtain ⟨line, rest⟩ := found
        rw [hline] at hstep
        simp only at hstep ⊢
        rw [behind, bulk] at hstep
        cases hsize : intOfBytes line.tail with
        | none =>
          rw [hsize] at hstep
          exact scans_error (unread_hold p args more) hstep
        | some size =>
          rw [hsize] at hstep
          simp only at hstep ⊢
          by_cases hbound : size < 0 ∨ (p.maxBulk : Int) < size
          · rw [if_pos hbound] at hstep ⊢
            exact scans_error (unread_hold p args more) hstep
          · rw [if_neg hbound] at hstep ⊢
            by_cases hshort : rest.length < size.toNat + 2
            · rw [if_pos hshort] at hstep ⊢
              refine ⟨.refl _ _, .inl ⟨hstep, ?_⟩⟩
              rw [stage_hold, unread_hold, giveUp, if_neg]
              rw [hcut, hline]
              rintro ⟨h, -⟩
              cases h
            · rw [if_neg hshort] at hstep ⊢
              by_cases hend : (rest.drop size.toNat).take 2 ≠ crlf
              · rw [if_pos hend] at hstep ⊢
                exact scans_error (unread_hold p args more) hstep
              · rw [if_neg hend] at hstep ⊢
                refine hnext _ _ ?_ hstep
                exact (drop_suffix _ _).trans (suffix_of_splitLine hline)
    · rw [if_pos hb]
      refine scans_error (unread_hold p args more) ?_
      rw [hstep, step, refuse, hunread]
      simp [hb]

/-- **The loop over the bulk strings** reads one after the other. -/
theorem scans_bulks (more : Nat) (args : List Str) (p : RequestParser) :
    Scans (scanner p.maxBulk) (.items args more) p.unread (bulks (more + 1) args p) := by
  induction more generalizing args p with
  | zero =>
    refine scans_bulks_succ fun data rest hrest hstep => ?_
    have hreaches := Scanner.Reaches.step hstep (.refl _ _)
    show (scanner p.maxBulk).Reaches _ _ _ (p.advance rest).release.compact.stage
      (p.advance rest).release.compact.unread
    rw [stage_compact, unread_compact, stage_release, unread_release, unread_advance hrest]
    exact hreaches
  | succ more ih =>
    refine scans_bulks_succ fun data rest hrest hstep => ?_
    have hmore := ih (args ++ [data]) (p.advance rest)
    rw [unread_advance hrest] at hmore
    exact Scans.after hstep hmore

/-- **The length of an array** is read, and then its bulk strings. -/
theorem scans_header {line rest : Str} (hstage : p.stage = .idle) (hhead : p.unread.head? = some 42)
    (hline : splitLine p.unread = some (line, rest)) :
    Scans (scanner p.maxBulk) .idle p.unread
      (match intOfBytes line.tail with
        | none => (.error badMultibulk, p)
        | some count =>
          if count ≤ 0 then (.ok (some []), p.advance rest)
          else if (maxArray : Int) < count then (.error badMultibulk, p.advance rest)
          else bulks count.toNat [] (p.advance rest)) := by
  have hrest : rest <:+ p.unread := suffix_of_splitLine hline
  have hstar : line.head? = some 42 := by
    have hs := eq_of_splitLine hline
    cases line with
    | nil =>
      rw [hs] at hhead
      cases hhead
    | cons c line =>
      rw [hs] at hhead
      exact hhead
  have hstep : (scanner p.maxBulk).step .idle p.unread = header line rest := by
    rw [scanner_step, step, refuse, cutLine, if_pos hhead, hline]
    show behind p.maxBulk .idle line rest = _
    rw [behind, if_pos hstar]
  rw [header] at hstep
  cases hcount : intOfBytes line.tail with
  | none =>
    rw [hcount] at hstep
    exact scans_error rfl hstep
  | some count =>
    rw [hcount] at hstep
    simp only at hstep ⊢
    by_cases hempty : count ≤ 0
    · rw [if_pos hempty] at hstep ⊢
      have hreaches := Scanner.Reaches.step hstep (.refl _ _)
      show (scanner p.maxBulk).Reaches _ _ _ (p.advance rest).stage (p.advance rest).unread
      rw [unread_advance hrest, show (p.advance rest).stage = p.stage from rfl, hstage]
      exact hreaches
    · rw [if_neg hempty] at hstep ⊢
      by_cases hlarge : (maxArray : Int) < count
      · -- the length is read before it is refused
        rw [if_pos hlarge] at hstep ⊢
        refine ⟨.oversized, ?_, .inr ⟨badMultibulk, rfl, rfl⟩⟩
        rw [unread_advance hrest]
        exact Scanner.Reaches.step hstep (.refl _ _)
      · rw [if_neg hlarge] at hstep ⊢
        have hsucc : count.toNat = count.toNat - 1 + 1 := by omega
        have hbulks := scans_bulks (count.toNat - 1) [] (p.advance rest)
        rw [unread_advance hrest, ← hsucc] at hbulks
        exact Scans.after hstep hbulks

/-- **A line of words** is a command. -/
theorem scans_parseInline (hstage : p.stage = .idle) (hhead : p.unread.head? ≠ some 42) :
    Scans (scanner p.maxBulk) .idle p.unread p.parseInline := by
  have hcut : cutLine .idle p.unread = splitNewline p.unread := by rw [cutLine, if_neg hhead]
  unfold parseInline
  cases hline : splitNewline p.unread with
  | none => exact scans_checkLineLength hstage rfl rfl (hcut.trans hline)
  | some found =>
    obtain ⟨line, rest⟩ := found
    obtain ⟨hs, -⟩ := cuts_splitNewline hline
    have hstar : line.head? ≠ some 42 := by
      cases line with
      | nil => nofun
      | cons c line =>
        rw [hs] at hhead
        exact hhead
    have hrest : rest <:+ p.unread := by
      rw [hs]
      exact suffix_append _ _
    have hstep : (scanner p.maxBulk).step .idle p.unread =
        .done (.idle, some (inlineWords line)) rest := by
      rw [scanner_step, step, refuse, hcut, hline]
      show behind p.maxBulk .idle line rest = _
      rw [behind, if_neg hstar]
    have hreaches := Scanner.Reaches.step hstep (.refl _ _)
    show (scanner p.maxBulk).Reaches _ _ _ (p.advance rest).compact.stage
      (p.advance rest).compact.unread
    rw [stage_compact, unread_compact, unread_advance hrest,
      show (p.advance rest).stage = p.stage from rfl, hstage]
    exact hreaches

/-- **`next_command` scans by the grammar.** -/
theorem nextCommand_spec (p : RequestParser) :
    Scans (scanner p.maxBulk) p.stage p.unread p.nextCommand := by
  unfold nextCommand
  cases hpending : p.pending with
  | some args =>
    have hremaining : p.remaining = p.remaining - 1 + 1 := by
      have := p.remaining_pos (by rw [hpending]; rfl)
      omega
    have hstage : p.stage = .items args (p.remaining - 1) := by rw [stage, hpending]
    simp only
    rw [hstage, hremaining]
    exact scans_bulks _ args p
  | none =>
    have hstage : p.stage = .idle := by rw [stage, hpending]
    rw [hstage]
    simp only
    cases hunread : p.unread with
    | nil =>
      refine ⟨?_, .inl ⟨?_, ?_⟩⟩ <;> rw [stage_compact, unread_compact, hunread, hstage]
      · exact .refl _ _
      · rfl
      · rfl
    | cons b tail =>
      simp only
      rw [← hunread]
      by_cases hb : b = 42
      · rw [if_neg (not_not.mpr hb)]
        have hhead : p.unread.head? = some 42 := by rw [hunread, hb]; rfl
        cases hline : splitLine p.unread with
        | none =>
          refine scans_checkLineLength hstage rfl rfl ?_
          rw [cutLine, if_pos hhead, hline]
        | some found => exact scans_header hstage hhead hline
      · rw [if_pos hb]
        refine scans_parseInline hstage fun hhead => hb ?_
        rw [hunread] at hhead
        exact Option.some.inj hhead

theorem maxBulk_bulks (n : Nat) (args : List Str) (p : RequestParser) :
    (bulks n args p).2.maxBulk = p.maxBulk := by
  induction n generalizing args p with
  | zero => exact maxBulk_compact _
  | succ n ih =>
    rw [bulks]
    repeat' split
    all_goals first
      | rfl
      | exact (ih _ _).trans rfl

theorem maxBulk_nextCommand (p : RequestParser) : p.nextCommand.2.maxBulk = p.maxBulk := by
  unfold nextCommand parseInline
  repeat' split
  all_goals first
    | rfl
    | exact maxBulk_bulks _ _ _
    | exact maxBulk_compact _

/-- **Taking every complete command** is draining by the grammar. -/
theorem drain_spec {fuel : Nat} (hfuel : p.unread.length < fuel) :
    ∃ st, (scanner p.maxBulk).drain giveUp (p.unread.length + 1) p.stage p.unread =
        ((drain fuel p).1, st, (drain fuel p).2.1.unread, (drain fuel p).2.2) ∧
      ((drain fuel p).2.2 = none → st = (drain fuel p).2.1.stage) ∧
      (drain fuel p).2.1.maxBulk = p.maxBulk := by
  induction fuel generalizing p with
  | zero => cases hfuel
  | succ fuel ih =>
    have hspec := nextCommand_spec p
    have hbulk := maxBulk_nextCommand p
    rw [drain]
    rcases hnext : p.nextCommand with ⟨_ | _ | command, p'⟩ <;> rw [hnext] at hspec hbulk
    · obtain ⟨st, hreaches, hstop⟩ := hspec
      exact ⟨st, Scanner.drain_of_stop hreaches hstop (Nat.lt_succ_self _), nofun, hbulk⟩
    · obtain ⟨hreaches, hstop⟩ := hspec
      exact ⟨_, Scanner.drain_of_stop hreaches hstop (Nat.lt_succ_self _), fun _ => rfl, hbulk⟩
    · have hreaches : (scanner p.maxBulk).Reaches p.stage p.unread [command] p'.stage p'.unread :=
        hspec
      have hlength := hreaches.length_lt (by simp)
      obtain ⟨st, hdrain, hstage, hbulk'⟩ := ih (p := p') (by omega)
      have hbulk : p'.maxBulk = p.maxBulk := hbulk
      rw [hbulk] at hdrain
      refine ⟨st, ?_, hstage, hbulk'.trans hbulk⟩
      rw [hreaches.drain_append (Nat.lt_succ_self _), hdrain]
      rfl

theorem unread_feed (p : RequestParser) (data : Str) : (p.feed data).unread = p.unread ++ data :=
  drop_append_of_le_length p.pos_le

/-- **Chunks are received by the grammar.** -/
theorem receiveAll_spec (chunks : List Str) (p : RequestParser) :
    receiveAll chunks p =
      (((scanner p.maxBulk).receive giveUp chunks p.stage p.unread).1,
        ((scanner p.maxBulk).receive giveUp chunks p.stage p.unread).2.2) := by
  induction chunks generalizing p with
  | nil => rfl
  | cons data chunks ih =>
    obtain ⟨st, hdrain, hstage, hbulk⟩ :=
      drain_spec (p := p.feed data) (Nat.lt_succ_self (p.feed data).unread.length)
    rw [receiveAll, Scanner.receive]
    rcases hfound : drain ((p.feed data).unread.length + 1) (p.feed data) with ⟨commands, p', err⟩
    rw [hfound] at hdrain hstage hbulk
    have hsame : (scanner p.maxBulk).drain giveUp ((p.unread ++ data).length + 1) p.stage
        (p.unread ++ data) = (commands, st, p'.unread, err) := by
      rw [← unread_feed]
      exact hdrain
    rw [hsame]
    cases err with
    | some e => rfl
    | none =>
      have hbulk : p'.maxBulk = p.maxBulk := hbulk
      simp only [ih p', hstage rfl, hbulk]

end RequestParser

end KvStore
