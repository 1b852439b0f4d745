import KvStore.Foundation.Incremental
import KvStore.Protocol.Errors

/-! # Replies on the wire

The encoder of replies and the incremental parser the clients and the router read them with
(`protocol/resp.py`).

* **`Resp`** — a reply: nil, a status, a bulk string, an integer, an error, or an array of replies.
* **`Resp.encode`** — its bytes; there are none for an integer too long to print.
* **`parseReply`** — the reply at the begin of a stream of bytes.
* **`ReplyParser`** — the parser with its buffer, fed chunk by chunk.

A reply is read from its own bytes and needs all of them (`reads_encode`), and what is read has the same
bytes. Both carry over from the items of an array to the array by `Parser.reads_times`, and from single
replies to a stream cut anywhere by `Parser.receive_stream`. -/

namespace KvStore

open List

/-- **A reply.** -/
inductive Resp
  /-- Nothing. -/
  | nil
  /-- A status line (`SimpleString`). -/
  | status (line : Str)
  | bulk (value : Str)
  | integer (n : Int)
  | error (e : WireError)
  /-- Several replies. -/
  | array (items : List Resp)

/-! ## Encoding -/

/-- The end of a line. -/
def crlf : Str := [13, 10]

/-- `b"%d" % n`, `none` for the `ValueError` of an integer with too many digits. -/
def formatInt (n : Int) : Option Str :=
  if (showNat n.natAbs).length ≤ maxStrDigits then some (showInt n) else none

/-- `line.replace("\r", " ").replace("\n", " ")`. -/
def oneLine (line : Str) : Str := line.map fun b => if b = 13 ∨ b = 10 then 32 else b

def encodeError (e : WireError) : Str := 45 :: oneLine e.toResp ++ crlf

namespace Resp

mutual

/-- **`encode_reply`**. -/
def encode : Resp → Option Str
  | .nil => some (text "$-1\r\n")
  | .status line => some (43 :: line ++ crlf)
  | .bulk value => (formatInt value.length).map fun size => 36 :: size ++ crlf ++ (value ++ crlf)
  | .integer n => (formatInt n).map fun digits => 58 :: digits ++ crlf
  | .error e => some (encodeError e)
  | .array items =>
    match formatInt items.length, encodeItems items with
    | some count, some body => some (42 :: count ++ crlf ++ body)
    | _, _ => none

/-- The items of an array, one behind the other. -/
def encodeItems : List Resp → Option Str
  | [] => some []
  | item :: items =>
    match encode item, encodeItems items with
    | some code, some body => some (code ++ body)
    | _, _ => none

end

/-- **The replies a server sends**: a status is one line, and an error is one the code raises. -/
inductive Sendable : Resp → Prop
  | nil : Sendable .nil
  | status {line : Str} (h : 13 ∉ line ∧ 10 ∉ line) : Sendable (.status line)
  | bulk (value : Str) : Sendable (.bulk value)
  | integer (n : Int) : Sendable (.integer n)
  | error {e : WireError} (h : e.Raised) : Sendable (.error e)
  | array {items : List Resp} (h : ∀ item ∈ items, Sendable item) : Sendable (.array items)

/-- The bytes of each of some replies. -/
inductive Codes : List Resp → List Str → Prop
  | nil : Codes [] []
  | cons {item : Resp} {code : Str} {items : List Resp} {codes : List Str}
      (head : item.encode = some code) (tail : Codes items codes) :
      Codes (item :: items) (code :: codes)

theorem Codes.length_eq {items : List Resp} {codes : List Str} (h : Codes items codes) :
    items.length = codes.length := by
  induction h with
  | nil => rfl
  | cons head tail ih => simp [ih]

/-- The bytes of an array's items are those of each, joined. -/
theorem encodeItems_eq_some {items : List Resp} {body : Str} :
    encodeItems items = some body ↔ ∃ codes, Codes items codes ∧ body = codes.flatten := by
  induction items generalizing body with
  | nil =>
    constructor
    · intro h
      rw [encodeItems, Option.some.injEq] at h
      exact ⟨[], .nil, h.symm⟩
    · rintro ⟨codes, h, rfl⟩
      cases h
      rfl
  | cons item items ih =>
    constructor
    · intro h
      rw [encodeItems] at h
      cases hcode : item.encode with
      | none => simp [hcode] at h
      | some code =>
        cases hbody : encodeItems items with
        | none => simp [hcode, hbody] at h
        | some rest =>
          obtain ⟨codes, hcodes, rfl⟩ := ih.mp hbody
          simp only [hcode, hbody, Option.some.injEq] at h
          exact ⟨code :: codes, .cons hcode hcodes, by simp [← h]⟩
    · rintro ⟨codes, h, rfl⟩
      cases h with
      | cons head tail => simp [encodeItems, head, ih.mpr ⟨_, tail, rfl⟩]

end Resp

/-! ## Parsing -/

/-- `repr` of the character of a byte. -/
def reprByte (b : UInt8) : Str :=
  if b = 39 then text "\"'\""
  else if b = 92 then text "'\\\\'"
  else if b = 9 then text "'\\t'"
  else if b = 10 then text "'\\n'"
  else if b = 13 then text "'\\r'"
  else if b < 32 ∨ (127 ≤ b ∧ b ≤ 160) ∨ b = 173 then
    text "'\\x" ++ [hexDigit (b / 16), hexDigit (b % 16), 39]
  else if b < 128 then [39, b, 39]
  else [39, 0xC0 + b / 64, 0x80 + b % 64, 39]
where
  /-- A hexadecimal digit. -/
  hexDigit (d : UInt8) : UInt8 := if d < 10 then 48 + d else 87 + d

/-- `ProtocolError(message)`. -/
def protocolError (message : Str) : WireError := .make .protocol message none

/-- `int(data)` on bytes: only ASCII digits count. -/
def intOfBytes (data : Str) : Option Int := if data.all (· < 0x80) then int data else none

/-- The first line and what follows it (`buf.find(CRLF)`). -/
def splitLine : Str → Option (Str × Str)
  | [] => none
  | b :: rest =>
    if b = 13 ∧ rest.head? = some 10 then some ([], rest.tail)
    else (splitLine rest).map fun (line, after) => (b :: line, after)

section
variable [CaseTable]

/-- **`ReplyParser._parse`**, from the current position on. Each nested call begins behind a line, so
that fuel for the bytes there are is enough. -/
def parse : Nat → Parser UInt8 Resp WireError
  | 0, _ => .notReady
  | fuel + 1, buf =>
    match splitLine buf with
    | none => .notReady
    -- `buf[pos]` is the line end itself
    | some ([], _) => .malformed (protocolError (text "unexpected reply type byte " ++ reprByte 13))
    | some (kind :: line, after) =>
      if kind = 43 then .done (.status line) after
      else if kind = 45 then .done (.error (.fromResp line)) after
      else if kind = 58 then
        match intOfBytes line with
        | none => .malformed (protocolError (text "invalid integer reply"))
        | some n => .done (.integer n) after
      else if kind = 36 then
        match intOfBytes line with
        | none => .malformed (protocolError (text "invalid bulk length"))
        | some size =>
          if size < 0 then .done .nil after
          else if after.length < size.toNat + 2 then .notReady
          else .done (.bulk (after.take size.toNat)) (after.drop (size.toNat + 2))
      else if kind = 42 then
        match intOfBytes line with
        | none => .malformed (protocolError (text "invalid multibulk length"))
        | some count =>
          if count < 0 then .done .nil after
          else
            match Parser.times (parse fuel) count.toNat after with
            | .notReady => .notReady
            | .malformed err => .malformed err
            | .done items rest => .done (.array items) rest
      else .malformed (protocolError (text "unexpected reply type byte " ++ reprByte kind))

/-- **The reply at the begin of a stream.** -/
def parseReply : Parser UInt8 Resp WireError := fun buf => parse (buf.length + 1) buf

end

/-- **`ReplyParser`**: the bytes that arrived, and how many of them are read. -/
structure ReplyParser where
  buf : Str
  pos : Nat
  /-- No more is read than arrived. -/
  pos_le : pos ≤ buf.length

namespace ReplyParser

/-- A new parser. -/
def init : ReplyParser := ⟨[], 0, le_rfl⟩

def feed (s : ReplyParser) (data : Str) : ReplyParser where
  buf := s.buf ++ data
  pos := s.pos
  pos_le := s.pos_le.trans (by simp)

/-- The bytes that are not read yet. -/
def unread (s : ReplyParser) : Str := s.buf.drop s.pos

/-- What was read is dropped, when it is all there is or a lot. -/
def compact (s : ReplyParser) : ReplyParser :=
  if s.pos = s.buf.length then ⟨[], 0, le_rfl⟩
  else if 64 * 1024 < s.pos then ⟨s.buf.drop s.pos, 0, Nat.zero_le _⟩
  else s

/-- All but `rest` is read. -/
def advance (s : ReplyParser) (rest : Str) : ReplyParser where
  buf := s.buf
  pos := s.buf.length - rest.length
  pos_le := Nat.sub_le _ _

variable [CaseTable]

/-- **`next_reply`**: the next complete reply, `none` when more has to arrive, or the error a malformed
stream raises. -/
def nextReply (s : ReplyParser) : Except WireError (Option Resp × ReplyParser) :=
  match parseReply s.unread with
  | .notReady => .ok (none, s)
  | .malformed err => .error err
  | .done value rest => .ok (some value, (s.advance rest).compact)

/-- `next_reply` until there is none: the replies, the parser, and the error that ended it. -/
def drain : Nat → ReplyParser → List Resp × ReplyParser × Option WireError
  | 0, s => ([], s, none)
  | fuel + 1, s =>
    match s.nextReply with
    | .error err => ([], s, some err)
    | .ok (none, s) => ([], s, none)
    | .ok (some value, s) =>
      let (values, s, err) := drain fuel s
      (value :: values, s, err)

/-- A chunk arrives, and every reply that is complete is taken. -/
def receive (s : ReplyParser) (data : Str) : List Resp × ReplyParser × Option WireError :=
  drain ((s.feed data).unread.length + 1) (s.feed data)

/-- Chunks arrive, until the stream turns out to be malformed. -/
def receiveAll : List Str → ReplyParser → List Resp × ReplyParser × Option WireError
  | [], s => ([], s, none)
  | data :: chunks, s =>
    match s.receive data with
    | (values, s, some err) => (values, s, some err)
    | (values, s, none) =>
      let (more, s, err) := receiveAll chunks s
      (values ++ more, s, err)

end ReplyParser

/-! ## Lines -/

variable {line : Str}

/-- A line is found as soon as its end is there. -/
theorem splitLine_append (h : 13 ∉ line) (rest : Str) :
    splitLine (line ++ crlf ++ rest) = some (line, rest) := by
  induction line with
  | nil => simp [splitLine, crlf]
  | cons b line ih =>
    rw [mem_cons, not_or] at h
    have hb : ¬ (b = 13 ∧ (line ++ crlf ++ rest).head? = some 10) := fun hb => h.1 hb.1.symm
    rw [cons_append, cons_append, splitLine, if_neg hb, ih h.2]
    rfl

variable {s : Str}

theorem splitLine_eq_none (h : 13 ∉ line) (hs : s <+: line ++ crlf) (hne : s ≠ line ++ crlf) :
    splitLine s = none := by
  induction line generalizing s with
  | nil =>
    match s, hs, hne with
    | [], _, _ => rfl
    | [b], hs, _ => simp [splitLine]
    | b :: c :: rest, hs, hne =>
      refine absurd (hs.eq_of_length_le ?_) hne
      simp [crlf]
  | cons b line ih =>
    rw [mem_cons, not_or] at h
    cases s with
    | nil => rfl
    | cons c s =>
      rw [cons_append, cons_prefix_cons] at hs
      obtain ⟨rfl, hs⟩ := hs
      have hc : ¬ (c = 13 ∧ s.head? = some 10) := fun hc => h.1 hc.1.symm
      have hne' : s ≠ line ++ crlf := fun heq => hne (by rw [heq, cons_append])
      rw [splitLine, if_neg hc, ih h.2 hs hne']
      rfl

/-- A line, its end and what follows it are what there is. -/
theorem eq_of_splitLine {after : Str} (h : splitLine s = some (line, after)) :
    s = line ++ crlf ++ after := by
  induction s generalizing line with
  | nil => simp [splitLine] at h
  | cons b rest ih =>
    rw [splitLine] at h
    split at h
    · rename_i hb
      cases h
      cases rest with
      | nil => simp at hb
      | cons c rest => simpa [crlf] using hb
    · cases hrest : splitLine rest with
      | none => simp [hrest] at h
      | some pair =>
        obtain ⟨line', after'⟩ := pair
        simp only [hrest, Option.map_some, Option.some.injEq, Prod.mk.injEq] at h
        obtain ⟨rfl, rfl⟩ := h
        rw [ih hrest]
        rfl

/-- What follows a line is the end of the whole. -/
theorem suffix_of_splitLine {after : Str} (h : splitLine s = some (line, after)) : after <:+ s := by
  rw [eq_of_splitLine h]
  exact suffix_append _ _

/-- What follows a line is shorter than the whole. -/
theorem length_of_splitLine {after : Str} (h : splitLine s = some (line, after)) :
    after.length < s.length := by
  rw [eq_of_splitLine h]
  simp only [crlf, length_append, length_cons, length_nil]
  omega

/-- The digits of an integer hold no line end and nothing outside ASCII. -/
theorem showInt_bounds (n : Int) : ∀ b ∈ showInt n, 45 ≤ b ∧ b < 0x80 := by
  have hnat : ∀ b ∈ showNat n.natAbs, 45 ≤ b ∧ b < 0x80 := by
    intro b hb
    refine ⟨?_, showNat_ascii _ b hb⟩
    obtain ⟨ds, -, -, hmap, -⟩ := showNat_digits n.natAbs
    have hmem : b.toNat ∈ ds.map (48 + ·) := hmap ▸ mem_map_of_mem hb
    obtain ⟨d, -, hd⟩ := mem_map.mp hmem
    rw [UInt8.le_iff_toNat_le]
    show 45 ≤ b.toNat
    omega
  intro b hb
  unfold showInt at hb
  split at hb
  · rcases mem_cons.mp hb with rfl | hb
    · decide
    · exact hnat b hb
  · exact hnat b hb

theorem lt_of_length_showNat {n k : Nat} (h : (showNat n).length ≤ k) : n < 10 ^ k := by
  by_cases hn : n = 0
  · rw [hn]
    exact pow_pos (by norm_num) k
  · rw [showNat, if_neg hn, length_map, length_reverse] at h
    exact (Nat.digits_length_le_iff (by norm_num) n).mp h

/-- **A number that is printed is read back**, and its digits are part of one line. -/
theorem formatInt_spec {n : Int} {digits : Str} (h : formatInt n = some digits) :
    intOfBytes digits = some n ∧ 13 ∉ digits := by
  unfold formatInt at h
  split at h
  · rename_i hn
    cases h
    refine ⟨?_, fun hmem => absurd (showInt_bounds n 13 hmem).1 (by decide)⟩
    have hascii : (showInt n).all (· < 0x80) = true := by
      rw [all_eq_true]
      intro b hb
      exact decide_eq_true (showInt_bounds n b hb).2
    rw [intOfBytes, if_pos hascii, int_showInt (lt_of_length_showNat hn)]
  · cases h

/-! ## The fuel does not matter -/

section
variable [CaseTable]

variable {value : Resp}

/-- What a reply leaves follows its first line. -/
theorem parse_suffix (fuel : Nat) {s rest : Str} (h : parse fuel s = .done value rest) :
    ∃ line after, splitLine s = some (line, after) ∧ rest <:+ after := by
  induction fuel generalizing s value rest with
  | zero => cases h
  | succ fuel ih =>
    have hnested : ∀ s value rest, parse fuel s = .done value rest → rest <:+ s :=
      fun s value rest h => by
        obtain ⟨line, after, hline, hrest⟩ := ih h
        exact hrest.trans (suffix_of_splitLine hline)
    rw [parse] at h
    split at h
    · cases h
    · cases h
    · rename_i kind line after hline
      refine ⟨kind :: line, after, hline, ?_⟩
      -- the reply is the line itself, or the line announces a bulk string or an array
      split at h
      · cases h
        exact suffix_refl _
      split at h
      · cases h
        exact suffix_refl _
      split at h
      · split at h <;> cases h
        exact suffix_refl _
      split at h
      · split at h
        · cases h
        split at h
        · cases h
          exact suffix_refl _
        split at h <;> cases h
        exact drop_suffix _ _
      split at h
      · split at h
        · cases h
        split at h
        · cases h
          exact suffix_refl _
        split at h <;> cases h
        rename_i htimes
        exact Parser.times_suffix hnested _ htimes
      · cases h

variable {fuel : Nat}

/-- What a reply leaves is the end of what there was. -/
theorem suffix_of_parse {s rest : Str} (h : parse fuel s = .done value rest) : rest <:+ s := by
  obtain ⟨line, after, hline, hrest⟩ := parse_suffix fuel h
  exact hrest.trans (suffix_of_splitLine hline)

/-- **Fuel for the bytes there are is enough.** -/
theorem parse_fuel {fuel' : Nat} {s : Str} (h : s.length < fuel) (h' : s.length < fuel') :
    parse fuel s = parse fuel' s := by
  induction fuel generalizing fuel' s with
  | zero => exact absurd h (Nat.not_lt_zero _)
  | succ fuel ih =>
    obtain ⟨fuel', rfl⟩ := Nat.exists_eq_succ_of_ne_zero (Nat.ne_zero_of_lt h')
    rw [Nat.succ_eq_add_one, parse, parse]
    cases hline : splitLine s with
    | none => rfl
    | some pair =>
      obtain ⟨line, after⟩ := pair
      cases line with
      | nil => rfl
      | cons kind line =>
        have hafter := length_of_splitLine hline
        have htimes : ∀ n, Parser.times (parse fuel) n after =
            Parser.times (parse fuel') n after := fun n =>
          Parser.times_congr (fun t ht => ih (by omega) (by omega))
            (fun t value rest ht => suffix_of_parse ht) n (le_refl after.length)
        simp only [htimes]

/-! ## A reply is read from its bytes -/

theorem reads_line {kind : UInt8} {line : Str} (hline : 13 ∉ kind :: line)
    (h : ∀ rest s, splitLine s = some (kind :: line, rest) → parse (fuel + 1) s = .done value rest) :
    Reads (parse (fuel + 1)) (kind :: line ++ crlf) value where
  done rest := h rest _ (splitLine_append hline rest)
  notReady s hs hne := by rw [parse, splitLine_eq_none hline hs hne]

/-- A reply whose first line announces what follows. -/
theorem reads_header {kind : UInt8} {line body : Str} (hline : 13 ∉ kind :: line)
    (h : ∀ rest s, splitLine s = some (kind :: line, body ++ rest) →
      parse (fuel + 1) s = .done value rest)
    (hpart : ∀ part s, part <+: body → part ≠ body → splitLine s = some (kind :: line, part) →
      parse (fuel + 1) s = .notReady) :
    Reads (parse (fuel + 1)) (kind :: line ++ crlf ++ body) value where
  done rest := h rest _ (by rw [append_assoc]; exact splitLine_append hline _)
  notReady s hs hne := by
    rcases prefix_cases hs with ⟨hhead, hheadne⟩ | ⟨part, rfl, hbody⟩
    · rw [parse, splitLine_eq_none hline hhead hheadne]
    · exact hpart part _ hbody (fun heq => hne (by rw [heq])) (splitLine_append hline part)

end

/-- An error's line is written again as it was read. -/
theorem oneLine_oneLine (line : Str) : oneLine (oneLine line) = oneLine line := by
  simp only [oneLine, map_map]
  apply map_congr_left
  intro b _
  simp only [Function.comp_apply]
  split <;> simp_all

/-- A line cleaned of line ends holds none. -/
theorem not_mem_oneLine (line : Str) : 13 ∉ oneLine line ∧ 10 ∉ oneLine line := by
  constructor <;>
  · intro hmem
    obtain ⟨b, -, hb⟩ := mem_map.mp hmem
    split at hb
    · exact absurd hb (by decide)
    · rename_i hnot
      exact hnot (by simp [hb])

/-- A word in capitals holds no line end. -/
theorem oneLine_of_isCode {word : Str} (h : WireError.isCode word = true) :
    oneLine word = word := by
  unfold oneLine
  conv_rhs => rw [← map_id word]
  apply map_congr_left
  intro b hb
  have hle := (WireError.bounds_of_isCode h hb).1
  have hnot : ¬ (b = 13 ∨ b = 10) := by
    rintro (rfl | rfl) <;> exact absurd hle (by decide)
  simp [hnot]

/-- The line of an error: its first word stays, its message is put on one line. -/
theorem oneLine_toResp {e : WireError} (h : e.Raised) :
    oneLine e.toResp = e.code ++ 32 :: oneLine e.message := by
  have hcode : oneLine e.code = e.code := oneLine_of_isCode h.isCode.1
  conv_rhs => rw [← hcode]
  simp [oneLine, WireError.toResp]

/-- The error that is rebuilt from the line of an error. -/
def WireError.received (e : WireError) : WireError :=
  ⟨ErrorClass.ofWord e.code, e.code, oneLine e.message⟩

/-- **The rebuilt error has the bytes of the one that was sent.** -/
theorem encodeError_received {e : WireError} (h : e.Raised) :
    encodeError e.received = encodeError e := by
  have hcode : oneLine e.code = e.code := oneLine_of_isCode h.isCode.1
  have hline : oneLine e.received.toResp = oneLine e.code ++ 32 :: oneLine (oneLine e.message) := by
    simp [oneLine, WireError.toResp, WireError.received]
  rw [encodeError, encodeError, hline, oneLine_toResp h, hcode, oneLine_oneLine]

section
variable [CaseTable]

/-- The line of an error is read as the rebuilt error. -/
theorem reads_error (fuel : Nat) {e : WireError} (h : e.Raised) :
    Reads (parse (fuel + 1)) (encodeError e) (.error e.received) := by
  have hmessage : oneLine e.message ≠ [] := by simpa [oneLine] using h.isCode.2
  have hrebuilt : WireError.fromResp (oneLine e.toResp) = e.received := by
    rw [oneLine_toResp h, WireError.fromResp_toResp h.isCode.1 hmessage]
    rfl
  refine reads_line ?_ fun rest s hs => ?_
  · rw [mem_cons, not_or]
    exact ⟨by decide, (not_mem_oneLine _).1⟩
  · simp [parse, hs, hrebuilt]

/-- A bulk string is read from its size and its bytes. -/
theorem reads_bulk (fuel : Nat) {value size : Str} (h : formatInt value.length = some size) :
    Reads (parse (fuel + 1)) (36 :: size ++ crlf ++ (value ++ crlf)) (.bulk value) := by
  obtain ⟨hint, hline⟩ := formatInt_spec h
  have hneg : ¬ ((value.length : Int) < 0) := by omega
  refine reads_header ?_ (fun rest s hs => ?_) fun part s hpart hne hs => ?_
  · rw [mem_cons, not_or]
    exact ⟨by decide, hline⟩
  · simp [parse, hs, hint, hneg, crlf]
  · have hlt : part.length < value.length + 2 := by
      refine lt_of_le_of_ne (by simpa [crlf] using hpart.length_le) fun heq => hne ?_
      exact hpart.eq_of_length (by simpa [crlf] using heq)
    simp [parse, hs, hint, hneg, hlt]

/-- An array is read from the number of its items and their bytes. -/
theorem reads_array {fuel : Nat} {l : List (Str × Resp)} {count : Str}
    (h : formatInt l.length = some count) (hl : ∀ q ∈ l, Reads (parse fuel) q.1 q.2) :
    Reads (parse (fuel + 1)) (42 :: count ++ crlf ++ Parser.stream l)
      (.array (l.map Prod.snd)) := by
  obtain ⟨hint, hline⟩ := formatInt_spec h
  have hneg : ¬ ((l.length : Int) < 0) := by omega
  have hitems := Parser.reads_times hl
  refine reads_header ?_ (fun rest s hs => ?_) fun part s hpart hne hs => ?_
  · rw [mem_cons, not_or]
    exact ⟨by decide, hline⟩
  · simp [parse, hs, hint, hneg, hitems.done]
  · simp [parse, hs, hint, hneg, hitems.notReady part hpart hne]

/-- `code` is what `value` is written as, and what it is read from, given fuel enough. -/
def Faithful (code : Str) (value : Resp) : Prop :=
  value.encode = some code ∧ code ≠ [] ∧ ∃ n, ∀ fuel, n ≤ fuel → Reads (parse fuel) code value

/-- A reply that is read with any fuel. -/
theorem faithful_of_reads {code : Str} {value : Resp} (hcode : value.encode = some code)
    (hne : code ≠ []) (h : ∀ fuel, Reads (parse (fuel + 1)) code value) : Faithful code value := by
  refine ⟨hcode, hne, 1, fun fuel hfuel => ?_⟩
  obtain ⟨fuel, rfl⟩ := Nat.exists_eq_add_of_le' hfuel
  exact h fuel

/-- Replies that are each read as a value are read together. -/
theorem exists_faithful {items : List Resp} {codes : List Str} (hcodes : Resp.Codes items codes)
    (h : ∀ item ∈ items, ∀ code, item.encode = some code → ∃ value, Faithful code value) :
    ∃ l : List (Str × Resp), l.map Prod.fst = codes ∧ Resp.Codes (l.map Prod.snd) codes ∧
      (∀ q ∈ l, q.1 ≠ []) ∧ ∃ n, ∀ fuel, n ≤ fuel → ∀ q ∈ l, Reads (parse fuel) q.1 q.2 := by
  induction hcodes with
  | nil => exact ⟨[], rfl, .nil, by simp, 0, by simp⟩
  | cons head tail ih =>
    rename_i item code items codes
    obtain ⟨value, henc, hne, n, hread⟩ := h item mem_cons_self code head
    obtain ⟨l, hfst, hsnd, hnes, m, hreads⟩ := ih fun item' hitem' =>
      h item' (mem_cons_of_mem _ hitem')
    refine ⟨(code, value) :: l, by simp [hfst], .cons henc hsnd, ?_, max n m, fun fuel hfuel => ?_⟩
    · simpa [hne] using hnes
    · intro q hq
      rcases mem_cons.mp hq with rfl | hq
      · exact hread fuel (le_trans (le_max_left n m) hfuel)
      · exact hreads fuel (le_trans (le_max_right n m) hfuel) q hq

/-- **A reply that is sent is read**, as a value with the same bytes. -/
theorem Resp.Sendable.faithful {r : Resp} (h : r.Sendable) {code : Str}
    (hcode : r.encode = some code) : ∃ value, Faithful code value := by
  induction h generalizing code with
  | nil =>
    rw [Resp.encode, Option.some.injEq] at hcode
    subst hcode
    refine ⟨.nil, faithful_of_reads rfl (by decide) fun fuel => ?_⟩
    have hint : intOfBytes (text "-1") = some (-1) := by decide
    show Reads (parse (fuel + 1)) (36 :: text "-1" ++ crlf) .nil
    refine reads_line (by decide) fun rest s hs => ?_
    simp [parse, hs, hint]
  | status hline =>
    rename_i line
    rw [Resp.encode, Option.some.injEq] at hcode
    subst hcode
    refine ⟨.status line, faithful_of_reads rfl (by simp) fun fuel => ?_⟩
    refine reads_line ?_ fun rest s hs => by simp [parse, hs]
    rw [mem_cons, not_or]
    exact ⟨by decide, hline.1⟩
  | bulk value =>
    have henc := hcode
    rw [Resp.encode] at hcode
    obtain ⟨size, hsize, rfl⟩ := Option.map_eq_some_iff.mp hcode
    exact ⟨.bulk value, faithful_of_reads henc (by simp) fun fuel => reads_bulk fuel hsize⟩
  | integer n =>
    have henc := hcode
    rw [Resp.encode] at hcode
    obtain ⟨digits, hdigits, rfl⟩ := Option.map_eq_some_iff.mp hcode
    obtain ⟨hint, hline⟩ := formatInt_spec hdigits
    refine ⟨.integer n, faithful_of_reads henc (by simp) fun fuel => ?_⟩
    refine reads_line ?_ fun rest s hs => by simp [parse, hs, hint]
    rw [mem_cons, not_or]
    exact ⟨by decide, hline⟩
  | error he =>
    rename_i e
    rw [Resp.encode, Option.some.injEq] at hcode
    subst hcode
    refine ⟨.error e.received, faithful_of_reads ?_ (by simp [encodeError]) fun fuel =>
      reads_error fuel he⟩
    rw [Resp.encode, encodeError_received he]
  | array hitems ih =>
    rename_i items
    rw [Resp.encode] at hcode
    cases hcount : formatInt items.length with
    | none => simp [hcount] at hcode
    | some count =>
      cases hbody : Resp.encodeItems items with
      | none => simp [hcount, hbody] at hcode
      | some body =>
        simp only [hcount, hbody, Option.some.injEq] at hcode
        obtain ⟨codes, hcodes, rfl⟩ := Resp.encodeItems_eq_some.mp hbody
        obtain ⟨l, hfst, hsnd, -, n, hreads⟩ :=
          exists_faithful hcodes fun item hitem code h => ih item hitem h
        have hlen : l.length = items.length := by
          rw [hcodes.length_eq, ← hfst, length_map]
        have hstream : Parser.stream l = codes.flatten := by rw [Parser.stream, hfst]
        refine ⟨.array (l.map Prod.snd), ?_, by simp [← hcode], n + 1, fun fuel hfuel => ?_⟩
        · rw [Resp.encode, length_map, hlen, hcount,
            Resp.encodeItems_eq_some.mpr ⟨codes, hsnd, rfl⟩, ← hcode]
        · obtain ⟨fuel, rfl⟩ := Nat.exists_eq_add_of_le' (Nat.le_of_add_left_le hfuel)
          have h := reads_array (by rw [hlen]; exact hcount) (hreads fuel (by omega))
          rwa [hstream, hcode] at h

/-- What is read given fuel enough is read. -/
theorem reads_parseReply {code : Str} {value : Resp} {n : Nat}
    (h : ∀ fuel, n ≤ fuel → Reads (parse fuel) code value) : Reads parseReply code value where
  done rest := by
    rw [parseReply, parse_fuel (Nat.lt_succ_self _)
      (lt_of_lt_of_le (Nat.lt_succ_self _) (le_max_right n _))]
    exact (h _ (le_max_left n _)).done rest
  notReady s hs hne := by
    rw [parseReply, parse_fuel (Nat.lt_succ_self _)
      (lt_of_lt_of_le (Nat.lt_succ_self _) (le_max_right n _))]
    exact (h _ (le_max_left n _)).notReady s hs hne

/-! ## The parser with its buffer -/

namespace ReplyParser

omit [CaseTable] in
/-- Dropping what was read changes nothing for what is to be read. -/
theorem unread_compact (s : ReplyParser) : s.compact.unread = s.unread := by
  unfold compact
  split
  · rename_i h
    simp [unread, h]
  · split
    · simp [unread]
    · rfl

omit [CaseTable] in
theorem unread_advance {s : ReplyParser} {rest : Str} (h : rest <:+ s.unread) :
    (s.advance rest).unread = rest := by
  have hsuffix : rest <:+ s.buf := h.trans (drop_suffix _ _)
  exact (suffix_iff_eq_drop.mp hsuffix).symm

/-- What is read next, and what is unread then. -/
theorem nextReply_spec (s : ReplyParser) :
    (parseReply s.unread = .notReady ∧ s.nextReply = .ok (none, s)) ∨
    (∃ err, parseReply s.unread = .malformed err ∧ s.nextReply = .error err) ∨
    ∃ value s', parseReply s.unread = .done value s'.unread ∧
      s.nextReply = .ok (some value, s') := by
  unfold nextReply
  cases h : parseReply s.unread with
  | notReady => exact .inl ⟨rfl, rfl⟩
  | malformed err => exact .inr (.inl ⟨err, rfl, rfl⟩)
  | done value rest =>
    refine .inr (.inr ⟨value, _, ?_, rfl⟩)
    rw [unread_compact, unread_advance (suffix_of_parse h)]

omit [CaseTable] in
theorem unread_feed (s : ReplyParser) (data : Str) : (s.feed data).unread = s.unread ++ data :=
  drop_append_of_le_length s.pos_le

/-- The replies that were taken, the bytes that are unread, and the error. -/
def view (result : List Resp × ReplyParser × Option WireError) :
    List Resp × Str × Option WireError :=
  (result.1, result.2.1.unread, result.2.2)

/-- The buffer is the stream that is not read yet. -/
theorem view_drain (fuel : Nat) (s : ReplyParser) :
    view (s.drain fuel) = parseReply.drain fuel s.unread := by
  induction fuel generalizing s with
  | zero => rfl
  | succ fuel ih =>
    rcases s.nextReply_spec with ⟨hparse, hnext⟩ | ⟨err, hparse, hnext⟩ | ⟨value, s', hparse, hnext⟩
    · simp [drain, Parser.drain, hparse, hnext, view]
    · simp [drain, Parser.drain, hparse, hnext, view]
    · simp only [drain, Parser.drain, hparse, hnext, ← ih s', view]

/-- **A parser that is fed chunks reads the stream they are cut from.** -/
theorem view_receiveAll (chunks : List Str) (s : ReplyParser) :
    view (s.receiveAll chunks) = parseReply.receive chunks s.unread := by
  induction chunks generalizing s with
  | nil => rfl
  | cons data chunks ih =>
    have hdrain := view_drain ((s.feed data).unread.length + 1) (s.feed data)
    rw [receiveAll, receive, Parser.receive, ← unread_feed, ← hdrain]
    obtain ⟨values, s', err⟩ := (s.feed data).drain ((s.feed data).unread.length + 1)
    cases err with
    | none => simp only [view, ← ih s']
    | some err => rfl

end ReplyParser

theorem parseReply_nil : parseReply [] = .notReady := rfl

/-- A new parser reads the values of a stream, however it is cut. -/
theorem ReplyParser.view_stream {l : List (Str × Resp)} (h : ∀ q ∈ l, Reads parseReply q.1 q.2)
    (hne : ∀ q ∈ l, q.1 ≠ []) {chunks : List Str} (hcut : chunks.flatten = Parser.stream l) :
    view (init.receiveAll chunks) = (l.map Prod.snd, [], none) := by
  have hwaiting : Parser.Waiting l [] := by
    cases l with
    | nil => rfl
    | cons q rest => exact ⟨List.nil_prefix, (hne q mem_cons_self).symm⟩
  rw [view_receiveAll]
  exact Parser.receive_stream parseReply_nil h hne hwaiting hcut

/-- **Replies are forwarded byte by byte.** Replies that a server sends, their bytes cut into chunks in
any way, are read as one value each, in order, without an error and with nothing left over; and each value
is written as the bytes it was read from. An error is one line, whatever its message, and is read as one
error. -/
theorem replies_exact :
    (∀ (replies : List Resp) (codes chunks : List Str), (∀ r ∈ replies, r.Sendable) →
      Resp.Codes replies codes → chunks.flatten = codes.flatten →
      ∃ values, Resp.Codes values codes ∧
        ReplyParser.view (ReplyParser.init.receiveAll chunks) = (values, [], none)) ∧
    ∀ e : WireError, e.Raised →
      (∃ line, encodeError e = line ++ crlf ∧ 13 ∉ line ∧ 10 ∉ line) ∧
      ∀ chunks : List Str, chunks.flatten = encodeError e → ∃ e',
        ReplyParser.view (ReplyParser.init.receiveAll chunks) = ([.error e'], [], none) ∧
          encodeError e' = encodeError e := by
  constructor
  · intro replies codes chunks hsend hcodes hcut
    obtain ⟨l, rfl, hsnd, hne, n, hreads⟩ :=
      exists_faithful hcodes fun r hr code hcode => (hsend r hr).faithful hcode
    refine ⟨l.map Prod.snd, hsnd, ?_⟩
    exact ReplyParser.view_stream
      (fun q hq => reads_parseReply fun fuel hfuel => hreads fuel hfuel q hq) hne hcut
  · intro e he
    refine ⟨⟨45 :: oneLine e.toResp, rfl, ?_, ?_⟩, fun chunks hcut => ⟨e.received, ?_, ?_⟩⟩
    · simpa using (not_mem_oneLine e.toResp).1
    · simpa using (not_mem_oneLine e.toResp).2
    · have hread : Reads parseReply (encodeError e) (.error e.received) :=
        reads_parseReply fun fuel (hfuel : 1 ≤ fuel) => by
          obtain ⟨fuel, rfl⟩ := Nat.exists_eq_add_of_le' hfuel
          exact reads_error fuel he
      have hne : encodeError e ≠ [] := by simp [encodeError]
      exact ReplyParser.view_stream (l := [(encodeError e, .error e.received)])
        (by simpa using hread) (by simpa using hne) (by simpa [Parser.stream] using hcut)
    · exact encodeError_received he

end

/-- An array of every kind of reply, the bulk string and the error holding a line end. -/
def everyKind : Resp :=
  .array [.nil, .status (text "OK"), .bulk [13, 10, 255], .integer (-7),
    .error (.make .wrongType (text "a\r\nb") none), .array []]

/-- Its bytes. -/
def everyKindCode : Str :=
  text "*6\r\n$-1\r\n+OK\r\n$3\r\n\r\n" ++ 255 ::
    text "\r\n:-7\r\n-WRONGTYPE a  b\r\n*0\r\n"

/-- Sent twice and arriving byte by byte, it is read twice; the error arrives on its own line. -/
theorem replies_exact_everyKind :
    (∃ values, Resp.Codes values [everyKindCode, everyKindCode] ∧
      ReplyParser.view (@ReplyParser.receiveAll asciiCaseTable
        ((everyKindCode ++ everyKindCode).map fun b => [b]) ReplyParser.init) = (values, [], none)) ∧
    ∃ e', ReplyParser.view (@ReplyParser.receiveAll asciiCaseTable
        [text "-ERR a", text " b\r\n"] ReplyParser.init) = ([.error e'], [], none) ∧
      encodeError e' = text "-ERR a b\r\n" := by
  have hcode : everyKind.encode = some everyKindCode := by decide +kernel
  have hsend : everyKind.Sendable := by
    refine .array fun item hitem => ?_
    simp only [mem_cons, not_mem_nil, or_false] at hitem
    rcases hitem with rfl | rfl | rfl | rfl | rfl | rfl
    · exact .nil
    · exact .status (by decide)
    · exact .bulk _
    · exact .integer _
    · exact .error (.plain _ _)
    · exact .array (by simp)
  have hcut : ((everyKindCode ++ everyKindCode).map fun b => [b]).flatten =
      [everyKindCode, everyKindCode].flatten := by decide +kernel
  have herror : encodeError (.make .command (text "a\nb") none) = text "-ERR a b\r\n" := by
    decide +kernel
  obtain ⟨hreplies, herrors⟩ := @replies_exact asciiCaseTable
  refine ⟨hreplies [everyKind, everyKind] _ _ (by simpa using hsend)
    (.cons hcode (.cons hcode .nil)) hcut, ?_⟩
  obtain ⟨e', hview, he'⟩ := (herrors _ (.plain .command (text "a\nb"))).2
    [text "-ERR a", text " b\r\n"] (by rw [herror]; decide +kernel)
  exact ⟨e', hview, by rw [he', herror]⟩

end KvStore
