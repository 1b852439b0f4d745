import KvStore.Engine.Outcomes
import KvStore.Engine.Replay.Files
import KvStore.Engine.Replay.Logging
import KvStore.Engine.Replay.Reproduce
import KvStore.Foundation.Codec
import KvStore.Persistence.Deadlines
import KvStore.Persistence.Writer

/-! # What a snapshot and a serialized value give back

A record in memory has texts, which are written as their bytes, and a deadline in seconds, which is written in
milliseconds.

* **`TextRecord.Received`** — the texts of a record are texts of bytes, as those that come over the wire are, and
  its deadline is a whole number of milliseconds less than 2 ^ 50.
* **`decodeRecords_encodeRecords`** — a snapshot gives back such records.
* **`Engine.keyspace_loadRecords`** — loading the records of a snapshot into an empty engine gives the live part
  of the keyspace it was taken from.
* **`Engine.restore_dump`** — RESTORE of a DUMP recreates the value. -/

namespace KvStore

open Commands List Prog

/-! ## Texts -/

/-- A text in memory: its code points. -/
abbrev Text := List Nat

/-- A value with its texts as they are in memory; the scores are patterns of 64 bits. -/
inductive TextPayload
  | str (s : Text)
  | list (items : List Text)
  | hash (pairs : List (Text × Text))
  | set (members : List Text)
  | zset (pairs : List (Text × Nat))
  deriving DecidableEq

/-- Every text as its bytes, if it has any. -/
def TextPayload.toBytes : TextPayload → Option Payload
  | .str s => (encode s).map .str
  | .list items => (items.mapM encode).map .list
  | .hash pairs =>
    (pairs.mapM fun p => (encode p.1).bind fun field => (encode p.2).map (field, ·)).map .hash
  | .set members => (members.mapM encode).map .set
  | .zset pairs => (pairs.mapM fun p => (encode p.1).map (·, p.2)).map .zset

/-- Every string of bytes as its text. -/
def Payload.toTexts : Payload → TextPayload
  | .str s => .str (decode s)
  | .list items => .list (items.map decode)
  | .hash pairs => .hash (pairs.map fun p => (decode p.1, decode p.2))
  | .set members => .set (members.map decode)
  | .zset pairs => .zset (pairs.map fun p => (decode p.1, p.2))

/-- What is undone for each element is undone for a list. -/
theorem mapM_map_some {α β : Type} {f : α → β} {g : β → Option α} (h : ∀ a, g (f a) = some a)
    (l : List α) : (l.map f).mapM g = some l := by
  induction l with
  | nil => rfl
  | cons a l ih => simp [h a, ih]

/-- **The bytes of a value come back.** -/
theorem toBytes_toTexts (p : Payload) : p.toTexts.toBytes = some p := by
  cases p with
  | str s => simp [Payload.toTexts, TextPayload.toBytes, encode_decode]
  | list items => simp only [Payload.toTexts, TextPayload.toBytes, mapM_map_some encode_decode]; rfl
  | set members =>
    simp only [Payload.toTexts, TextPayload.toBytes, mapM_map_some encode_decode]; rfl
  | hash | zset =>
    rw [Payload.toTexts, TextPayload.toBytes, mapM_map_some]
    · rfl
    · intro p
      simp [encode_decode]

/-! ## Snapshots -/

/-- One key in a snapshot as it is in memory, the deadline in seconds. -/
abbrev TextRecord := Text × TextPayload × Option ℚ

/-- The record that is written. -/
def TextRecord.packed (r : TextRecord) : Option Record :=
  (encode r.1).bind fun key => r.2.1.toBytes.map fun payload => (key, payload, r.2.2.map milliseconds)

/-- The record that is read. -/
def Record.unpacked (r : Record) : TextRecord := (decode r.1, r.2.1.toTexts, r.2.2.map seconds)

/-- Whether a number fits in a field `q`. -/
def fitsInt64 (n : ℤ) : Bool := -2 ^ 63 ≤ n && n < 2 ^ 63

/-- **`encode_snapshot`**, which raises if a text has no bytes, or if a deadline or the time of creation does not
fit in its field. -/
def encodeRecords (createdAt : ℚ) (records : List TextRecord) : Option Str :=
  (records.mapM TextRecord.packed).bind fun packed =>
    if fitsInt64 (milliseconds createdAt) && packed.all fun r => r.2.2.all fitsInt64 then
      some (ChecksummedWriter.encodeSnapshot (milliseconds createdAt) packed)
    else none

/-- **`decode_snapshot`**. -/
def decodeRecords (source : String) (raw : Str) : List TextRecord × Option KvError :=
  ((decodeSnapshot source raw).1.map Record.unpacked, (decodeSnapshot source raw).2)

/-- A value whose texts are texts of bytes, of lengths and numbers that fit in 32 bits. -/
def TextPayload.Received (p : TextPayload) : Prop := ∃ bytes : Payload, bytes.Fits ∧ p = bytes.toTexts

/-- **A record of a keyspace**: its texts are texts of bytes, and its deadline is a whole number of milliseconds
less than 2 ^ 50, in seconds. -/
structure TextRecord.Received (r : TextRecord) : Prop where
  key : ∃ bytes : Str, bytes.length < 2 ^ 32 ∧ r.1 = decode bytes
  payload : r.2.1.Received
  deadline : ∀ x ∈ r.2.2, ∃ ms : ℤ, 0 ≤ ms ∧ ms < 2 ^ 50 ∧ x = seconds ms

/-- What is written for a record is read as the record. -/
theorem TextRecord.Received.packed {r : TextRecord} (h : r.Received) :
    ∃ b : Record, r.packed = some b ∧ b.Fits ∧ b.unpacked = r := by
  obtain ⟨text, value, deadline⟩ := r
  obtain ⟨key, hkey, rfl⟩ := h.key
  obtain ⟨payload, hpayload, rfl⟩ := h.payload
  refine ⟨(key, payload, deadline.map milliseconds), ?_, ⟨hkey, hpayload, ?_⟩, ?_⟩
  · simp [TextRecord.packed, encode_decode, toBytes_toTexts]
  · intro ms hms
    obtain ⟨x, hx, rfl⟩ := Option.mem_map.mp hms
    obtain ⟨ms, hlo, hhi, rfl⟩ := h.deadline x hx
    rw [milliseconds_seconds (by rwa [abs_of_nonneg hlo])]
    omega
  · cases deadline with
    | none => rfl
    | some x =>
      obtain ⟨ms, hlo, hhi, rfl⟩ := h.deadline x rfl
      simp [Record.unpacked, milliseconds_seconds (show |ms| < 2 ^ 50 by rwa [abs_of_nonneg hlo])]

/-- The records that are written, all together. -/
theorem mapM_packed {records : List TextRecord} (h : ∀ r ∈ records, r.Received) :
    ∃ packed : List Record, records.mapM TextRecord.packed = some packed ∧ (∀ b ∈ packed, b.Fits) ∧
      packed.map Record.unpacked = records := by
  induction records with
  | nil => exact ⟨[], rfl, nofun, rfl⟩
  | cons r records ih =>
    obtain ⟨b, hb, hfits, hback⟩ := (h r mem_cons_self).packed
    obtain ⟨packed, hpacked, hall, hbacks⟩ := ih fun r hr => h r (mem_cons_of_mem _ hr)
    refine ⟨b :: packed, by simp [hb, hpacked], ?_, by rw [map_cons, hback, hbacks]⟩
    exact forall_mem_cons.mpr ⟨hfits, hall⟩

/-- **A snapshot gives back its records.** -/
theorem decodeRecords_encodeRecords (source : String) {createdAt : ℚ}
    (hcreated : fitsInt64 (milliseconds createdAt) = true) {records : List TextRecord}
    (h : ∀ r ∈ records, r.Received) (hcount : records.length < 2 ^ 64) :
    ∃ raw, encodeRecords createdAt records = some raw ∧ decodeRecords source raw = (records, none) := by
  obtain ⟨packed, hpacked, hfits, hback⟩ := mapM_packed h
  -- the fields have room
  have hroom : (packed.all fun r => r.2.2.all fitsInt64) = true := by
    rw [all_eq_true]
    intro b hb
    have hdeadline := (hfits b hb).deadline
    cases hd : b.2.2 with
    | none => rfl
    | some ms =>
      obtain ⟨hlo, hhi⟩ := hdeadline ms (by rw [hd]; rfl)
      simp [fitsInt64]
      omega
  have hlen : packed.length < 2 ^ 64 := by rwa [← hback, length_map] at hcount
  refine ⟨ChecksummedWriter.encodeSnapshot (milliseconds createdAt) packed, ?_, ?_⟩
  · rw [encodeRecords, hpacked, Option.bind_some, hcreated, hroom]
    rfl
  · have hdecode := decodeSnapshot_encodeSnapshot source (milliseconds createdAt) hfits hlen
    rw [decodeRecords, ChecksummedWriter.encodeSnapshot_eq, hdecode, hback]

/-! ## Serialized values -/

/-- **`dump_value`**, of a value in memory. -/
def dumpTexts (p : TextPayload) : Option Str := p.toBytes.map ChecksummedWriter.dumpValue

/-- **`load_value`**, as a value in memory. -/
def loadTexts (raw : Str) : Except String TextPayload := (loadValue raw).map Payload.toTexts

/-- **A serialized value is read back**, also from the text that DUMP answers with. -/
theorem loadTexts_dumpTexts {p : TextPayload} (h : p.Received) :
    ∃ raw, dumpTexts p = some raw ∧ (encode (decode raw)).map loadTexts = some (.ok p) := by
  obtain ⟨bytes, hfits, rfl⟩ := h
  refine ⟨ChecksummedWriter.dumpValue bytes, by rw [dumpTexts, toBytes_toTexts]; rfl, ?_⟩
  rw [encode_decode, Option.map_some, loadTexts, ChecksummedWriter.dumpValue_eq, loadValue_dumpValue hfits]
  rfl

/-! ## Loading -/

namespace Engine

variable [CPython] {σ τ : Type} [EvictionPolicy σ] [EvictionPolicy τ]

/-- **Loading a snapshot into an empty engine** gives the live part of the keyspace. -/
theorem keyspace_loadRecords {e : Engine σ} (h : e.Reachable) {e₀ : Engine τ}
    (hempty : e₀.store.Shows fun _ => none) (now now' : Nat) :
    (e₀.loadRecords now' (e.store.snapshot now)).store.keyspace =
      fun key => (e.store.keyspace key).filter fun p => !passed now p.2 := by
  obtain ⟨K, hshows, hK⟩ := h.sound.holds
  have hload := shows_loadRecords now' (sound_snapshot hshows hK now) hempty
  rw [hload.keyspace_eq, hshows.keyspace_eq]
  show (keyspaceOf (e.store.snapshot now)).plain = _
  rw [keyspaceOf_snapshot hshows]
  funext key
  rw [Keyspace.plain, Keyspace.plain, Keyspace.live]
  cases hkey : K key with
  | none => rfl
  | some item =>
    cases hpassed : passed now item.expiresAt <;> simp [Option.filter, Item.plain, hpassed]

/-! ## DUMP and RESTORE -/

omit [EvictionPolicy τ] in
/-- DUMP of a live key serializes its value. -/
theorem execute_dump {e : Engine σ} (env : Env) {key : Str} {payload : Payload} {deadline : Option Int}
    (hkey : e.store.keyspace key = some (payload, deadline)) (hlive : passed env.now deadline = false) :
    (e.execute env .dump [key]).1 = .ok (.bulk (ChecksummedWriter.dumpValue payload)) := by
  obtain ⟨entry, hget, hentry⟩ := Option.map_eq_some_iff.mp hkey
  obtain ⟨hpayload, hdeadline⟩ := Prod.mk.inj hentry
  have hlookup : e.lookup env.now key = (some entry, e) := by
    simp [lookup, hget, Entry.isExpired, hdeadline, hlive]
  have hrun : (e.run env .dump [key]).1 = .ok (.bulk (dumpValue payload)) := by
    rw [fst_run]
    simp only [Command.handler, Commands.dump, bind_eq, perform_bind, run_op, exec,
      hlookup, Option.map_some, hpayload]
    rfl
  rcases heq : e.run env .dump [key] with ⟨result, ran⟩
  rw [heq] at hrun
  subst hrun
  have harity : Command.dump.checkArity [key] = .ok () := rfl
  simp [execute, harity, Command.spec, checkMemory, heq, ChecksummedWriter.dumpValue_eq]

omit [CPython] in
/-- The options of a RESTORE that replaces. -/
theorem restore_replace :
    ([text "REPLACE"].all fun arg => isWord arg "REPLACE" || isWord arg "ABSTTL") ∧
      ([text "REPLACE"].any fun arg => isWord arg "REPLACE") := by
  decide

omit [CPython] in
/-- RESTORE without a deadline, on the register of its key. -/
theorem run_restore (env : Env) (m : Mode) {key raw : Str} {payload : Payload}
    (hload : loadValue raw = .ok payload) (r : Reg) :
    ∃ out, (Commands.restore [key, text "0", raw, text "REPLACE"]).run (Reg.exec env m key) r =
      (.ok .ok, ⟨some ⟨payload.value, none⟩, out⟩) := by
  obtain ⟨hall, hreplace⟩ := restore_replace
  have hzero : intArg (text "0") = .ok 0 := by decide
  have hcond : ¬ (¬ ([text "REPLACE"].all fun arg =>
      isWord arg "REPLACE" || isWord arg "ABSTTL") ∨ (0 : Int) < 0) := by
    simp [hall]
  rcases hlookup : r.lookup m env.now key with ⟨found, r'⟩
  simp only [Commands.restore, hzero, bind_eq, ofExcept_ok, ret_bind, if_neg hcond,
    hreplace, restoreGuard, if_true, pure_eq, hload, perform_bind]
  rw [run_op]
  simp only [Reg.exec, deadlineMs, if_true]
  rw [run_restoreValue hlookup (by simp)]
  unfold Reg.propagate
  split <;> exact ⟨_, rfl⟩

/-- **RESTORE of a DUMP recreates the value**, under any key of any engine. -/
theorem restore_dump {e : Engine σ} {e' : Engine τ} (h : e.Reachable) (h' : e'.Reachable) (env env' : Env)
    {key : Str} (key' : Str) {payload : Payload} {deadline : Option Int}
    (hkey : e.store.keyspace key = some (payload, deadline)) (hlive : passed env.now deadline = false)
    (hfits : payload.Fits) :
    ∃ raw, (e.execute env .dump [key]).1 = .ok (.bulk raw) ∧
      (e'.run env' .restore [key', text "0", raw, text "REPLACE"]).1 = .ok .ok ∧
      (e'.run env' .restore [key', text "0", raw, text "REPLACE"]).2.store.keyspace key' =
        some (payload, none) := by
  obtain ⟨K, hshows, hK⟩ := h.sound.holds
  obtain ⟨K', hshows', -⟩ := h'.sound.holds
  -- the value that is serialized
  obtain ⟨item, hitem, rfl⟩ : ∃ item, K key = some item ∧ payload = item.value.payload Ranking.items := by
    rw [hshows.keyspace_eq, Keyspace.plain] at hkey
    obtain ⟨item, hitem, hplain⟩ := Option.map_eq_some_iff.mp hkey
    exact ⟨item, hitem, (congrArg Prod.fst hplain).symm⟩
  refine ⟨_, execute_dump env hkey hlive, ?_⟩
  rw [ChecksummedWriter.dumpValue_eq]
  set raw := dumpValue (item.value.payload Ranking.items) with hraw
  have hload : loadValue raw = .ok (item.value.payload Ranking.items) := loadValue_dumpValue hfits
  have hreal : Command.Real .restore [key', text "0", raw, text "REPLACE"] := by
    intro payload' heq
    rw [hload, Except.ok.injEq] at heq
    exact heq ▸ Payload.real_payload item.value
  have huses := Command.uses_handler .restore [text "0", raw, text "REPLACE"] rfl hreal
  -- the handler acts on the register of its key
  have hsim : Sim ⟨e'.replaying, e'.store.expiryEnabled, e'.store.expiryDeletes⟩ e'.propagated e'
      ⟨K', []⟩ := ⟨hshows', rfl, rfl, rfl, by simp⟩
  obtain ⟨hreply, hsim'⟩ := run_sim env' (huses.mono fun _ ho => ho.1) hsim
  obtain ⟨out, hrun⟩ := run_restore env' ⟨e'.replaying, e'.store.expiryEnabled, e'.store.expiryDeletes⟩
    hload ⟨K' key', []⟩
  rw [Space.run_at env' _ huses] at hreply hsim'
  simp only [Command.handler] at hreply hsim'
  rw [hrun, Payload.value_payload] at hreply hsim'
  constructor
  · rw [fst_run]
    exact hreply
  · have hkeys : Command.restore.keyArgs [key', text "0", raw, text "REPLACE"] = [key'] :=
      select_singleKey key' _
    have hkept : Reg.finish (some ⟨item.value, none⟩) = some ⟨item.value, none⟩ := by
      have hsome := hK key
      rw [hitem] at hsome
      exact Reg.finish_deadline hsome none
    have hfinal := shows_refreshAll hsim'.shows [key']
    rw [run_write env' (by rfl), hkeys]
    simp only [Command.handler]
    rw [hfinal.keyspace_eq]
    simp [Keyspace.plain, Space.finishAll, hkept, Item.plain]

end Engine

/-! ## A far deadline, two halves of a character, and a NaN -/

section Concrete

noncomputable local instance roundTripPython : CPython := referencePython

/-- A hash without a deadline and a sorted set with one. -/
def smallRecords : List TextRecord :=
  [(codes "h", .hash [(codes "f", codes "1")], none),
    (codes "z", .zset [(codes "a", 0x3FF0000000000000)], some (seconds 5000))]

/-- Their texts are texts of bytes. -/
theorem received_smallRecords : ∀ r ∈ smallRecords, r.Received := by
  simp only [smallRecords, forall_mem_cons]
  refine ⟨⟨⟨text "h", by decide, by decide⟩, ⟨.hash [(text "f", text "1")], ?_, by decide⟩, nofun⟩,
    ⟨⟨text "z", by decide, by decide⟩, ⟨.zset [(text "a", 0x3FF0000000000000)], ?_, by decide⟩, ?_⟩,
    nofun⟩
  · simp [Payload.Fits, text]
  · simp [Payload.Fits, text]
  · rintro x ⟨⟩
    exact ⟨5000, by norm_num, by norm_num, rfl⟩

/-- What a snapshot of one key is read as. -/
def throughSnapshot (r : TextRecord) : Option (List TextRecord) :=
  (encodeRecords 0 [r]).map fun raw => (decodeRecords "snapshot" raw).1

end Concrete

end KvStore
