import KvStore.Engine.Command
import KvStore.Engine.Store
import KvStore.Persistence.Dump

/-! # Snapshots of the keyspace

The binary form of a snapshot (`persistence/snapshot.py`): a header with the number of keys, a record for
each key, an end marker, and a CRC of all of it. It is what a rewrite puts into a file, and what a primary
sends to a replica that needs everything.

* **`encodeSnapshot`** — the bytes of a snapshot.
* **`decodeSnapshot`** — the records that are read back, and the error that ends the reading, if there is one.
  The checksum comes first, but what is wrong behind a right checksum is found only on the way: the records
  before it have been handed out by then.
* **`decodeSnapshot_encodeSnapshot`** — the round trip, for records whose lengths and deadlines fit. -/

namespace KvStore

open List

/-! ## Signed numbers -/

/-- A signed number of 64 bits, as the unsigned number with the same bits. -/
def toInt64 (n : Int) : Nat := (n % 2 ^ 64).toNat

/-- The signed number of 64 bits. -/
def ofInt64 (n : Nat) : Int := if n < 2 ^ 63 then n else n - 2 ^ 64

theorem ofInt64_toInt64 {n : Int} (hlo : -2 ^ 63 ≤ n) (hhi : n < 2 ^ 63) : ofInt64 (toInt64 n) = n := by
  unfold ofInt64 toInt64
  split <;> omega

theorem toInt64_lt (n : Int) : toInt64 n < 256 ^ 8 := by
  unfold toInt64
  omega

/-! ## Writing -/

def snapshotMagic : Str := text "KVSNAP"

def snapshotVersion : Nat := 1

/-- `_EOF`. -/
def snapshotEnd : UInt8 := 0xFF

/-- One record: type, deadline, key and payload. -/
def writeRecord (r : Record) : Str :=
  r.2.1.kind.code :: leBytes 8 (toInt64 (r.2.2.getD (-1))) ++ writeStr r.1 ++ writePayload r.2.1

/-- Header, records and end marker. -/
def snapshotBody (createdMs : Int) (records : List Record) : Str :=
  snapshotMagic ++ leBytes 2 snapshotVersion ++ leBytes 8 (toInt64 createdMs) ++
    leBytes 8 records.length ++ (records.flatMap writeRecord ++ [snapshotEnd])

def encodeSnapshot (createdMs : Int) (records : List Record) : Str :=
  let body := snapshotBody createdMs records
  body ++ leBytes 4 (crc32 body)

/-! ## Reading -/

/-- `unpack` of a record's type and deadline. -/
def readHead : Reader (UInt8 × Int) := fun total rest =>
  match rest with
  | [] => .error (unpackError 9 total total)
  | code :: tail =>
    if tail.length < 8 then .error (unpackError 9 (total - rest.length) total)
    else .ok ((code, ofInt64 (ofLe (tail.take 8))), tail.drop 8)

def readRecord : Reader Record := fun total rest =>
  match readHead total rest with
  | .error e => .error e
  | .ok ((code, expiresMs), rest) =>
    match Kind.ofCode code with
    | none => .error ("KeyError(" ++ toString code.toNat ++ ")")
    | some kind =>
      match readPair readText (readPayload kind) total rest with
      | .error e => .error e
      | .ok ((key, payload), rest) =>
        .ok ((key, payload, if expiresMs < 0 then none else some expiresMs), rest)

/-- `SnapshotCorruptedError`. -/
def KvError.corrupted (source message : String) : KvError :=
  ⟨.persistence, "ERR", source ++ ": " ++ message⟩

/-- The loop over the records, which are handed out one by one; the end marker is looked at last. -/
def readRecords (source : String) : Nat → Nat → Str → List Record × Option KvError
  | 0, _, rest =>
    match rest with
    | [] => ([], some (.corrupted source
        "malformed record: IndexError('index out of bounds on dimension 1')"))
    | marker :: _ =>
      if marker = snapshotEnd then ([], none)
      else ([], some (.corrupted source "missing end marker"))
  | n + 1, total, rest =>
    match readRecord total rest with
    | .error e => ([], some (.corrupted source ("malformed record: " ++ e)))
    | .ok (r, rest) => (r :: (readRecords source n total rest).1, (readRecords source n total rest).2)

/-- The length of the header. -/
def snapshotHeader : Nat := 24

/-- **`decode_snapshot`**: the records handed out, and the error that comes after them. -/
def decodeSnapshot (source : String) (raw : Str) : List Record × Option KvError :=
  if raw.length < snapshotHeader + 1 + 4 then ([], some (.corrupted source "file too short"))
  else
    let body := raw.take (raw.length - 4)
    if crc32 body ≠ ofLe (raw.drop (raw.length - 4)) then
      ([], some (.corrupted source "checksum mismatch"))
    else if body.take 6 ≠ snapshotMagic ∨ ofLe ((body.drop 6).take 2) ≠ snapshotVersion then
      ([], some (.corrupted source "not a v1 snapshot"))
    else readRecords source (ofLe ((body.drop 16).take 8)) body.length (body.drop snapshotHeader)

/-! ## The round trip -/

/-- **A record that can be written**: its lengths fit in 32 bits, and its deadline in 63. -/
structure Record.Fits (r : Record) : Prop where
  key : r.1.length < 2 ^ 32
  payload : r.2.1.Fits
  deadline : ∀ ms ∈ r.2.2, 0 ≤ ms ∧ ms < 2 ^ 63

theorem readHead_append (code : UInt8) {ms : Int} (hlo : -2 ^ 63 ≤ ms) (hhi : ms < 2 ^ 63)
    (total : Nat) (tail : Str) :
    readHead total (code :: (leBytes 8 (toInt64 ms) ++ tail)) = .ok ((code, ms), tail) := by
  have hlen : ¬ (leBytes 8 (toInt64 ms) ++ tail).length < 8 := by simp
  rw [readHead, if_neg hlen, take_left' (length_leBytes 8 _), drop_left' (length_leBytes 8 _),
    ofLe_leBytes (toInt64_lt ms), ofInt64_toInt64 hlo hhi]

/-- **A record is read back.** -/
theorem inverts_record {r : Record} (h : r.Fits) : Inverts readRecord writeRecord r := by
  obtain ⟨key, payload, expiresAt⟩ := r
  intro total tail
  have hpair := inverts_pair (p := (key, payload)) (inverts_text h.key) (inverts_payload h.payload)
    total tail
  simp only [append_assoc] at hpair
  have hwrite : writeRecord (key, payload, expiresAt) ++ tail =
      payload.kind.code :: (leBytes 8 (toInt64 (expiresAt.getD (-1))) ++
        (writeStr key ++ (writePayload payload ++ tail))) := by
    simp [writeRecord]
  have hbounds : -2 ^ 63 ≤ expiresAt.getD (-1) ∧ expiresAt.getD (-1) < 2 ^ 63 := by
    cases expiresAt with
    | none => decide
    | some ms =>
      obtain ⟨hlo, hhi⟩ := h.deadline ms rfl
      exact ⟨by simp only [Option.getD_some]; omega, hhi⟩
  rw [hwrite, readRecord, readHead_append _ hbounds.1 hbounds.2]
  simp only [Kind.ofCode_code, hpair]
  cases expiresAt with
  | none => rfl
  | some ms =>
    have hlo : ¬ ms < 0 := not_lt.mpr (h.deadline ms rfl).1
    simp only [Option.getD_some, if_neg hlo]

/-- The records one after the other, and the end marker. -/
theorem readRecords_append (source : String) {records : List Record} (h : ∀ r ∈ records, r.Fits)
    (total : Nat) :
    readRecords source records.length total (records.flatMap writeRecord ++ [snapshotEnd]) =
      (records, none) := by
  induction records with
  | nil => rfl
  | cons r rest ih =>
    have hr := inverts_record (h r (by simp)) total (rest.flatMap writeRecord ++ [snapshotEnd])
    have hrest := ih fun r' hr' => h r' (by simp [hr'])
    simp only [length_cons, flatMap_cons, append_assoc, readRecords, hr, hrest]

/-- **A snapshot is read back.** -/
theorem decodeSnapshot_encodeSnapshot (source : String) (createdMs : Int) {records : List Record}
    (h : ∀ r ∈ records, r.Fits) (hcount : records.length < 2 ^ 64) :
    decodeSnapshot source (encodeSnapshot createdMs records) = (records, none) := by
  set body : Str := snapshotBody createdMs records with hbody
  have hencode : encodeSnapshot createdMs records = body ++ leBytes 4 (crc32 body) := rfl
  have hlen : (encodeSnapshot createdMs records).length = body.length + 4 := by simp [hencode]
  have htake : (encodeSnapshot createdMs records).take
      ((encodeSnapshot createdMs records).length - 4) = body := by
    rw [hlen, Nat.add_sub_cancel, hencode, take_left]
  have hdrop : (encodeSnapshot createdMs records).drop
      ((encodeSnapshot createdMs records).length - 4) = leBytes 4 (crc32 body) := by
    rw [hlen, Nat.add_sub_cancel, hencode, drop_left]
  have hcrc : ofLe (leBytes 4 (crc32 body)) = crc32 body :=
    ofLe_leBytes (lt_of_lt_of_eq (crc32_lt body) (by norm_num))
  -- the fields of the header
  have hmagic : snapshotMagic.length = 6 := by decide
  have hfields : body = snapshotMagic ++ (leBytes 2 snapshotVersion ++ (leBytes 8 (toInt64 createdMs) ++
      (leBytes 8 records.length ++ (records.flatMap writeRecord ++ [snapshotEnd])))) := by
    simp [hbody, snapshotBody]
  have hversion : body.drop 6 = leBytes 2 snapshotVersion ++ (leBytes 8 (toInt64 createdMs) ++
      (leBytes 8 records.length ++ (records.flatMap writeRecord ++ [snapshotEnd]))) := by
    rw [hfields, drop_left' hmagic]
  have hcounts : body.drop 16 =
      leBytes 8 records.length ++ (records.flatMap writeRecord ++ [snapshotEnd]) := by
    rw [show (16 : Nat) = 6 + 2 + 8 from rfl, ← drop_drop, ← drop_drop, hversion,
      drop_left' (length_leBytes 2 _), drop_left' (length_leBytes 8 _)]
  have hrecords : body.drop snapshotHeader = records.flatMap writeRecord ++ [snapshotEnd] := by
    rw [show snapshotHeader = 16 + 8 from rfl, ← drop_drop, hcounts,
      drop_left' (length_leBytes 8 _)]
  have hshort : ¬ (encodeSnapshot createdMs records).length < snapshotHeader + 1 + 4 := by
    simp only [hlen, hfields, length_append, length_leBytes, hmagic, snapshotHeader,
      length_singleton]
    omega
  rw [decodeSnapshot, if_neg hshort]
  simp only [htake, hdrop, hcrc, ne_eq, not_true_eq_false, if_false]
  rw [if_neg, hcounts, take_left' (length_leBytes 8 _), ofLe_leBytes (lt_of_lt_of_eq hcount (by norm_num)),
    hrecords, readRecords_append source h]
  rw [hversion, take_left' (length_leBytes 2 _), ofLe_leBytes (by decide), hfields,
    take_left' hmagic]
  simp

end KvStore
