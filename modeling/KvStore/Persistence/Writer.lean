import KvStore.Persistence.Snapshot

/-! # The buffered writer of snapshots

`persistence/snapshot.py` writes through `_ChecksummedWriter`: what is written collects in a buffer, and when
the buffer has reached a mebibyte it goes into the file, the checksum being taken on from there.

* **`ChecksummedWriter`** — file, buffer, checksum and size, with `write`, `writeStr` and `flush`.
* **`ChecksummedWriter.Wrote w bytes`** — what was written so far is `bytes`, wherever the buffer has been
  flushed. Every writer of the format keeps it (`Wrote.write`, `Wrote.payload`, `Wrote.records`).
* **`encodeSnapshot_eq`**, **`dumpValue_eq`** — the bytes of a snapshot and of a serialized value are those of
  `encodeSnapshot` and `dumpValue`, which take one checksum of everything. -/

namespace KvStore

open List

structure ChecksummedWriter where
  file : Str := []
  /-- What is not in the file yet. -/
  buf : Str := []
  /-- The checksum of the file. -/
  crc : Nat := 0
  /-- The length of the file. -/
  size : Nat := 0

namespace ChecksummedWriter

/-! ## Writing -/

def flushAt : Nat := 2 ^ 20

def flush (w : ChecksummedWriter) : ChecksummedWriter where
  crc := crc32From w.crc w.buf
  file := w.file ++ w.buf
  size := w.size + w.buf.length
  buf := []

def write (data : Str) (w : ChecksummedWriter) : ChecksummedWriter :=
  let w := { w with buf := w.buf ++ data }
  if flushAt ≤ w.buf.length then w.flush else w

def writeStr (value : Str) (w : ChecksummedWriter) : ChecksummedWriter :=
  (w.write (leBytes 4 value.length)).write value

/-- A loop that writes one item after the other. -/
def writeEach {α : Type} (item : α → ChecksummedWriter → ChecksummedWriter) (items : List α)
    (w : ChecksummedWriter) : ChecksummedWriter := items.foldl (fun w a => item a w) w

def writePayload (p : Payload) (w : ChecksummedWriter) : ChecksummedWriter :=
  match p with
  | .str s => w.writeStr s
  | .list items => (w.write (leBytes 4 items.length)).writeEach writeStr items
  | .set members => (w.write (leBytes 4 members.length)).writeEach writeStr members
  | .hash pairs =>
    (w.write (leBytes 4 pairs.length)).writeEach (fun p w => (w.writeStr p.1).writeStr p.2) pairs
  | .zset pairs =>
    (w.write (leBytes 4 pairs.length)).writeEach
      (fun p w => (w.writeStr p.1).write (leBytes 8 p.2)) pairs

/-- The body of the loop of `_write`. -/
def writeRecord (r : Record) (w : ChecksummedWriter) : ChecksummedWriter :=
  ((w.write (r.2.1.kind.code :: leBytes 8 (toInt64 (r.2.2.getD (-1))))).writeStr r.1).writePayload
    r.2.1

/-- The end of both formats: the buffer is flushed, and the checksum follows it. -/
def close (w : ChecksummedWriter) : Str := w.flush.file ++ leBytes 4 w.flush.crc

/-- The header of a snapshot. -/
def header (createdMs : Int) (count : Nat) : Str :=
  snapshotMagic ++ leBytes 2 snapshotVersion ++ leBytes 8 (toInt64 createdMs) ++ leBytes 8 count

/-- `_write`, up to the end marker. -/
def writeRecords (createdMs : Int) (records : List Record) : ChecksummedWriter :=
  (((write (header createdMs records.length) {}).writeEach writeRecord records)).write [snapshotEnd]

/-- **`encode_snapshot`**, as `_write` computes it. -/
def encodeSnapshot (createdMs : Int) (records : List Record) : Str :=
  (writeRecords createdMs records).close

/-- **`dump_value`**, as it is computed. -/
def dumpValue (p : Payload) : Str := ((write [dumpVersion, p.kind.code] {}).writePayload p).close

/-! ## What has been written -/

/-- **What was written so far** is in the file and the buffer, and the checksum is that of the file. -/
structure Wrote (w : ChecksummedWriter) (bytes : Str) : Prop where
  bytes : w.file ++ w.buf = bytes
  crc : w.crc = crc32 w.file

namespace Wrote

variable {w : ChecksummedWriter} {bytes : Str}

theorem init : Wrote {} [] := ⟨rfl, rfl⟩

/-- **Flushing changes nothing in what was written.** -/
theorem flush (h : w.Wrote bytes) : w.flush.Wrote bytes where
  bytes := by rw [ChecksummedWriter.flush, append_nil, h.bytes]
  crc := by rw [ChecksummedWriter.flush, h.crc, crc32From_crc32]

/-- **Writing adds to it**, whether the buffer is flushed or not. -/
theorem write (h : w.Wrote bytes) (data : Str) : (w.write data).Wrote (bytes ++ data) := by
  have happend : Wrote { w with buf := w.buf ++ data } (bytes ++ data) := by
    refine ⟨?_, h.crc⟩
    show w.file ++ (w.buf ++ data) = bytes ++ data
    rw [← append_assoc, h.bytes]
  rw [ChecksummedWriter.write]
  split
  · exact happend.flush
  · exact happend

theorem str (h : w.Wrote bytes) (value : Str) :
    (w.writeStr value).Wrote (bytes ++ KvStore.writeStr value) := by
  rw [KvStore.writeStr, ← append_assoc]
  exact (h.write _).write value

theorem each {α : Type} {item : α → ChecksummedWriter → ChecksummedWriter} {out : α → Str}
    (hitem : ∀ a {w : ChecksummedWriter} {bytes : Str}, w.Wrote bytes →
      (item a w).Wrote (bytes ++ out a))
    (h : w.Wrote bytes) (items : List α) :
    (w.writeEach item items).Wrote (bytes ++ items.flatMap out) := by
  induction items generalizing w bytes with
  | nil => rwa [flatMap_nil, append_nil]
  | cons a rest ih =>
    rw [flatMap_cons, ← append_assoc]
    exact ih (hitem a h)

theorem payload (h : w.Wrote bytes) (p : Payload) :
    (w.writePayload p).Wrote (bytes ++ KvStore.writePayload p) := by
  cases p with
  | str s => exact h.str s
  | list items =>
    rw [KvStore.writePayload, ← append_assoc]
    exact each (fun s _ _ h => h.str s) (h.write _) items
  | set members =>
    rw [KvStore.writePayload, ← append_assoc]
    exact each (fun s _ _ h => h.str s) (h.write _) members
  | hash pairs =>
    rw [KvStore.writePayload, ← append_assoc]
    refine each (fun p _ _ h => ?_) (h.write _) pairs
    rw [← append_assoc]
    exact (h.str p.1).str p.2
  | zset pairs =>
    rw [KvStore.writePayload, ← append_assoc]
    refine each (fun p _ _ h => ?_) (h.write _) pairs
    rw [← append_assoc]
    exact (h.str p.1).write _

theorem record (h : w.Wrote bytes) (r : Record) :
    (w.writeRecord r).Wrote (bytes ++ KvStore.writeRecord r) := by
  rw [KvStore.writeRecord, ← append_assoc, ← append_assoc]
  exact ((h.write _).str r.1).payload r.2.1

/-- **What comes out at the end**: all that was written, and its checksum. -/
theorem close_eq (h : w.Wrote bytes) : w.close = bytes ++ leBytes 4 (crc32 bytes) := by
  -- nothing is left in the buffer
  have hfile : w.flush.file = bytes := by
    rw [← h.flush.bytes]
    exact (append_nil _).symm
  rw [close, h.flush.crc, hfile]

end Wrote

/-! ## The two formats -/

theorem wrote_records (createdMs : Int) (records : List Record) :
    (writeRecords createdMs records).Wrote (snapshotBody createdMs records) := by
  rw [snapshotBody, ← append_assoc]
  exact (Wrote.each (fun r _ _ h => h.record r) (Wrote.init.write _) records).write [snapshotEnd]

/-- **A snapshot is the same wherever the buffer was flushed.** -/
theorem encodeSnapshot_eq (createdMs : Int) (records : List Record) :
    encodeSnapshot createdMs records = KvStore.encodeSnapshot createdMs records :=
  (wrote_records createdMs records).close_eq

/-- **A serialized value is the same wherever the buffer was flushed.** -/
theorem dumpValue_eq (p : Payload) : dumpValue p = KvStore.dumpValue p :=
  ((Wrote.init.write [dumpVersion, p.kind.code]).payload p).close_eq

end ChecksummedWriter

end KvStore
