import KvStore.Engine.Values

/-! # Serialized values

The binary form of one value (`persistence/snapshot.py`): a version byte, a type byte, the payload
with `u32` lengths and counts, and a CRC of all of it. It is what DUMP returns and RESTORE takes, and
how a key travels to another shard.

* **`dumpValue`** — the serialized form.
* **`loadValue`** — reading it back, with the error texts of the source. Bytes after the payload are
  not looked at.
* **`loadValue_dumpValue`** — the round trip, for values whose lengths fit in 32 bits. -/

namespace KvStore

open List

/-! ## Writing -/

/-- `_TYPE_CODES`. -/
def Kind.code : Kind → UInt8
  | .str => 0
  | .list => 1
  | .hash => 2
  | .set => 3
  | .zset => 4

/-- `_TYPE_NAMES`. -/
def Kind.ofCode (b : UInt8) : Option Kind :=
  match b with
  | 0 => some .str
  | 1 => some .list
  | 2 => some .hash
  | 3 => some .set
  | 4 => some .zset
  | _ => none

def writeStr (s : Str) : Str := leBytes 4 s.length ++ s

def writePayload : Payload → Str
  | .str s => writeStr s
  | .list items => leBytes 4 items.length ++ items.flatMap writeStr
  | .set members => leBytes 4 members.length ++ members.flatMap writeStr
  | .hash pairs => leBytes 4 pairs.length ++ pairs.flatMap fun (f, v) => writeStr f ++ writeStr v
  | .zset pairs => leBytes 4 pairs.length ++ pairs.flatMap fun (m, s) => writeStr m ++ leBytes 8 s

def dumpVersion : UInt8 := 1

def dumpValue (p : Payload) : Str :=
  let body := dumpVersion :: p.kind.code :: writePayload p
  body ++ leBytes 4 (crc32 body)

/-! ## Reading -/

/-- A reader of the bytes that are left, of `total` bytes in all. A failure carries the exception it
is in the source. -/
abbrev Reader (α : Type) := Nat → Str → Except String (α × Str)

/-- The exception of `unpack_from` past the end of the buffer. -/
def unpackError (size offset actual : Nat) : String :=
  "error('unpack_from requires a buffer of at least " ++ toString (offset + size) ++
    " bytes for unpacking " ++ toString size ++ " bytes at offset " ++ toString offset ++
    " (actual buffer size is " ++ toString actual ++ ")')"

/-- `unpack` of an unsigned number of `width` bytes. -/
def readNum (width : Nat) : Reader Nat := fun total rest =>
  if rest.length < width then .error (unpackError width (total - rest.length) total)
  else .ok (ofLe (rest.take width), rest.drop width)

/-- `read_str`. -/
def readText : Reader Str := fun total rest =>
  match readNum 4 total rest with
  | .error e => .error e
  | .ok (size, rest) =>
    if rest.length < size then .error "IndexError('string runs past the end of the file')"
    else .ok (rest.take size, rest.drop size)

/-- Two readers in turn. -/
def readPair {α β : Type} (first : Reader α) (second : Reader β) : Reader (α × β) :=
  fun total rest =>
    match first total rest with
    | .error e => .error e
    | .ok (a, rest) =>
      match second total rest with
      | .error e => .error e
      | .ok (b, rest) => .ok ((a, b), rest)

/-- A reader `n` times. -/
def readMany {α : Type} (item : Reader α) : Nat → Reader (List α)
  | 0, _, rest => .ok ([], rest)
  | n + 1, total, rest =>
    match item total rest with
    | .error e => .error e
    | .ok (a, rest) =>
      match readMany item n total rest with
      | .error e => .error e
      | .ok (as, rest) => .ok (a :: as, rest)

/-- A count and as many items. -/
def readList32 {α : Type} (item : Reader α) : Reader (List α) := fun total rest =>
  match readNum 4 total rest with
  | .error e => .error e
  | .ok (count, rest) => readMany item count total rest

/-- The reader's result, converted. -/
def readMap {α β : Type} (f : α → β) (item : Reader α) : Reader β := fun total rest =>
  match item total rest with
  | .error e => .error e
  | .ok (a, rest) => .ok (f a, rest)

def readPayload : Kind → Reader Payload
  | .str => readMap .str readText
  | .list => readMap .list (readList32 readText)
  | .set => readMap .set (readList32 readText)
  | .hash => readMap .hash (readList32 (readPair readText readText))
  | .zset => readMap .zset (readList32 (readPair readText (readNum 8)))

/-- **`load_value`**: the copy a serialized value holds, or the text of the `ValueError`. -/
def loadValue (data : Str) : Except String Payload :=
  if data.length < 6 then .error "DUMP payload too short"
  else
    let body := data.take (data.length - 4)
    let expected := ofLe (data.drop (data.length - 4))
    match body with
    | version :: code :: rest =>
      if crc32 body ≠ expected ∨ version ≠ dumpVersion then
        .error "DUMP payload version or checksum not valid"
      else match Kind.ofCode code with
        | none => .error ("malformed DUMP payload: KeyError(" ++ toString code.toNat ++ ")")
        | some kind =>
          match readPayload kind body.length rest with
          | .error e => .error ("malformed DUMP payload: " ++ e)
          | .ok (payload, _) => .ok payload
    | _ => .error "DUMP payload too short"

/-! ## The round trip -/

/-- The lengths and counts of a copy fit in 32 bits, and its scores in 64. -/
def Payload.Fits : Payload → Prop
  | .str s => s.length < 2 ^ 32
  | .list items => items.length < 2 ^ 32 ∧ ∀ s ∈ items, s.length < 2 ^ 32
  | .set members => members.length < 2 ^ 32 ∧ ∀ s ∈ members, s.length < 2 ^ 32
  | .hash pairs => pairs.length < 2 ^ 32 ∧
      ∀ p ∈ pairs, p.1.length < 2 ^ 32 ∧ p.2.length < 2 ^ 32
  | .zset pairs => pairs.length < 2 ^ 32 ∧ ∀ p ∈ pairs, p.1.length < 2 ^ 32 ∧ p.2 < 2 ^ 64

/-- A reader takes back what a writer wrote, and leaves what follows. -/
def Inverts {α : Type} (item : Reader α) (write : α → Str) (a : α) : Prop :=
  ∀ total tail, item total (write a ++ tail) = .ok (a, tail)

theorem inverts_num {w n : Nat} (h : n < 256 ^ w) : Inverts (readNum w) (leBytes w) n := by
  intro total tail
  have hlen : ¬ (leBytes w n ++ tail).length < w := by simp
  rw [readNum, if_neg hlen, take_left' (length_leBytes w n),
    drop_left' (length_leBytes w n), ofLe_leBytes h]

theorem inverts_text {s : Str} (h : s.length < 2 ^ 32) : Inverts readText writeStr s := by
  intro total tail
  have hnum := inverts_num (w := 4) (lt_of_lt_of_eq h (by norm_num)) total (s ++ tail)
  have hlen : ¬ (s ++ tail).length < s.length := by simp
  rw [readText, writeStr, append_assoc, hnum]
  simp only [if_neg hlen, take_left, drop_left]

theorem inverts_pair {α β : Type} {first : Reader α} {second : Reader β} {wa : α → Str}
    {wb : β → Str} {p : α × β} (ha : Inverts first wa p.1) (hb : Inverts second wb p.2) :
    Inverts (readPair first second) (fun p => wa p.1 ++ wb p.2) p := by
  intro total tail
  simp only [readPair, append_assoc, ha total, hb total]

theorem inverts_many {α : Type} {item : Reader α} {write : α → Str} {l : List α}
    (h : ∀ a ∈ l, Inverts item write a) (total : Nat) (tail : Str) :
    readMany item l.length total (l.flatMap write ++ tail) = .ok (l, tail) := by
  induction l with
  | nil => rfl
  | cons a rest ih =>
    have ha := h a (by simp) total (rest.flatMap write ++ tail)
    have hrest := ih fun b hb => h b (by simp [hb])
    simp only [length_cons, readMany, flatMap_cons, append_assoc, ha, hrest]

/-- Sequences with their length in front. -/
theorem inverts_list {α : Type} {item : Reader α} {write : α → Str} {l : List α}
    (hlen : l.length < 2 ^ 32) (h : ∀ a ∈ l, Inverts item write a) :
    Inverts (readList32 item) (fun l => leBytes 4 l.length ++ l.flatMap write) l := by
  intro total tail
  have hnum := inverts_num (w := 4) (lt_of_lt_of_eq hlen (by norm_num)) total
    (l.flatMap write ++ tail)
  simp only [readList32, append_assoc, hnum, inverts_many h]

theorem inverts_payload {p : Payload} (h : p.Fits) :
    Inverts (readPayload p.kind) writePayload p := by
  intro total tail
  cases p with
  | str s => simp only [Payload.kind, readPayload, readMap, writePayload, inverts_text h total]
  | list | set =>
    have hinv := inverts_list h.1 (fun s hs => inverts_text (h.2 s hs)) total tail
    simp only [Payload.kind, readPayload, readMap, writePayload, hinv]
  | hash pairs =>
    have hinv := inverts_list h.1 (fun p hp =>
      inverts_pair (inverts_text (h.2 p hp).1) (inverts_text (h.2 p hp).2)) total tail
    simp only [Payload.kind, readPayload, readMap, writePayload, hinv]
  | zset pairs =>
    have hinv := inverts_list h.1 (fun p hp =>
      inverts_pair (inverts_text (h.2 p hp).1)
        (inverts_num (w := 8) (lt_of_lt_of_eq (h.2 p hp).2 (by norm_num)))) total tail
    simp only [Payload.kind, readPayload, readMap, writePayload, hinv]

theorem Kind.ofCode_code (k : Kind) : Kind.ofCode k.code = some k := by
  cases k <;> rfl

/-- **A serialized value is read back.** -/
theorem loadValue_dumpValue {p : Payload} (h : p.Fits) : loadValue (dumpValue p) = .ok p := by
  set body : Str := dumpVersion :: p.kind.code :: writePayload p with hbody
  have hdump : dumpValue p = body ++ leBytes 4 (crc32 body) := rfl
  have hlen : (dumpValue p).length = body.length + 4 := by simp [hdump]
  have htake : (dumpValue p).take ((dumpValue p).length - 4) = body := by
    rw [hlen, Nat.add_sub_cancel, hdump, take_left]
  have hdrop : (dumpValue p).drop ((dumpValue p).length - 4) = leBytes 4 (crc32 body) := by
    rw [hlen, Nat.add_sub_cancel, hdump, drop_left]
  have hcrc : ofLe (leBytes 4 (crc32 body)) = crc32 body :=
    ofLe_leBytes (lt_of_lt_of_eq (crc32_lt body) (by norm_num))
  have hpayload := inverts_payload h body.length []
  rw [append_nil] at hpayload
  have hshort : ¬ (dumpValue p).length < 6 := by
    have : 4 ≤ (writePayload p).length := by
      cases p <;> simp [writePayload, writeStr]
    simp only [hlen, hbody, length_cons]
    omega
  rw [loadValue, if_neg hshort]
  simp only [htake, hdrop, hcrc]
  rw [hbody]
  simp only [← hbody, ne_eq, not_true_eq_false, or_self, if_false, Kind.ofCode_code, hpayload]

end KvStore
