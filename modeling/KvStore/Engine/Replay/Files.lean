import KvStore.Engine.Replay.Reachable
import KvStore.Engine.Snapshots

/-! # What the files hold

* **`keyspaceOf records`** — the keyspace a snapshot stands for: for the snapshot of a store, its live
  keys (`keyspaceOf_snapshot`), and what loading the records gives (`shows_loadRecords`).
* **`Agrees now L K`** — two keyspaces differ at most in keys that are dead on both sides.
* **`Persistence.Backs now p K`** — the files of `p`, and the files as they will be once a running
  rewrite has ended, rebuild keyspaces that agree with `K`. Appending what a phase of a call has
  logged keeps it (`Backs.follow`), and so do the start and the end of a rewrite
  (`Backs.beginRewrite`, `Backs.finish`). -/

namespace KvStore

open Commands List

/-! ## Keyspaces that agree -/

/-- **Two keyspaces agree** but for keys that are dead on both sides. -/
def Agrees (now : Nat) (L K : Keyspace) : Prop :=
  ∀ key, L key = K key ∨ Reg.Dead now (L key) ∧ Reg.Dead now (K key)

theorem Reg.Dead.mono {now now' : Nat} {cur : Option Item} (h : Dead now cur) (hle : now ≤ now') :
    Dead now' cur := by
  intro item hitem
  have hpassed := h item hitem
  cases hdeadline : item.expiresAt with
  | none => simp [passed, hdeadline] at hpassed
  | some ms =>
    simp only [passed, hdeadline, decide_eq_true_eq] at hpassed ⊢
    omega

/-- A register is dead if nothing is left once expired items are dropped. -/
theorem Reg.dead_iff_filter (now : Nat) (cur : Option Item) :
    Dead now cur ↔ (cur.filter fun item => !passed now item.expiresAt) = none := by
  cases cur with
  | none => simp [Dead]
  | some item => simp [Dead, Option.filter]

namespace Agrees

variable {now now' : Nat} {L L' K K' : Keyspace}

theorem mono (h : Agrees now L K) (hle : now ≤ now') : Agrees now' L K :=
  fun key => (h key).imp_right fun ⟨hL, hK⟩ => ⟨hL.mono hle, hK.mono hle⟩

/-- Agreeing keyspaces have the same live keys. -/
theorem live_eq (h : Agrees now L K) : L.live now = K.live now := by
  funext key
  rcases h key with heq | ⟨hL, hK⟩
  · simp only [Keyspace.live, heq]
  · rw [Reg.dead_iff_filter] at hL hK
    exact hL.trans hK.symm

theorem follow (h : Agrees now L K)
    (hL : Space.Comes L L' K K') : Agrees now L' K' := by
  intro key
  rcases hL key with hagree | ⟨hL', hK'⟩
  · exact .inl hagree
  · rw [hL', hK']
    exact h key

end Agrees

/-- Dropping the dead keys leaves an agreeing keyspace. -/
theorem agrees_live (now : Nat) (K : Keyspace) : Agrees now K (K.live now) := by
  intro key
  cases hK : K key with
  | none => exact .inl (by simp [Keyspace.live, hK])
  | some item =>
    cases hpassed : passed now item.expiresAt with
    | false => exact .inl (by simp [Keyspace.live, hK, Option.filter, hpassed])
    | true =>
      have hdead : Reg.Dead now (some item) := by simp [Reg.Dead, hpassed]
      refine .inr ⟨hdead, ?_⟩
      simp [Keyspace.live, hK, Option.filter, hpassed, Reg.Dead]

theorem Agrees.symm {now : Nat} {L K : Keyspace} (h : Agrees now L K) : Agrees now K L :=
  fun key => (h key).imp Eq.symm And.symm

/-! ## Snapshots -/

/-- The keyspace after loading a record. -/
def Keyspace.load (K : Keyspace) (r : Record) : Keyspace :=
  Function.update K r.1 (some ⟨r.2.1.value, r.2.2⟩)

/-- **The keyspace a snapshot stands for.** -/
def keyspaceOf (records : List Record) : Keyspace := records.foldl Keyspace.load fun _ => none

/-- Loading records with different keys. -/
theorem foldl_load_apply {records : List Record} (hnodup : (records.map Prod.fst).Nodup)
    (K : Keyspace) (key : Str) :
    records.foldl Keyspace.load K key =
      match assocGet key records with
      | some (payload, expiresAt) => some ⟨payload.value, expiresAt⟩
      | none => K key := by
  induction records generalizing K with
  | nil => rfl
  | cons r rest ih =>
    obtain ⟨key', payload, expiresAt⟩ := r
    obtain ⟨hnew, hrest⟩ := nodup_cons.mp hnodup
    rw [foldl_cons, ih hrest]
    by_cases hkey : key' = key
    · subst hkey
      have habsent : assocGet key' rest = none := by
        rw [← Option.not_isSome_iff_eq_none, assocGet_isSome_iff]
        exact hnew
      simp [assocGet, habsent, Keyspace.load]
    · simp [assocGet, hkey, Keyspace.load, Function.update_of_ne (Ne.symm hkey)]

/-- No record brings in an empty collection. -/
theorem noEmpty_keyspaceOf {records : List Record} (h : ∀ r ∈ records, Record.Sound r) :
    (keyspaceOf records).NoEmpty := by
  have hfold : ∀ (records : List Record) (K : Keyspace), (∀ r ∈ records, Record.Sound r) →
      K.NoEmpty → (records.foldl Keyspace.load K).NoEmpty := by
    intro records
    induction records with
    | nil => exact fun _ _ hK => hK
    | cons r rest ih =>
      intro K hrecords hK
      exact ih _ (fun r' hr' => hrecords r' (mem_cons_of_mem _ hr'))
        (hK.update (hrecords r mem_cons_self).2)
  exact hfold records _ h fun _ => rfl

/-- Records of the same keys, however ordered, stand for the same keyspace. -/
theorem keyspaceOf_eq {records records' : List Record} (h : (records.map Prod.fst).Nodup)
    (h' : (records'.map Prod.fst).Nodup) (hmem : ∀ r, r ∈ records ↔ r ∈ records') :
    keyspaceOf records = keyspaceOf records' := by
  funext key
  rw [keyspaceOf, keyspaceOf, foldl_load_apply h, foldl_load_apply h']
  have hget : ∀ v, assocGet key records = some v ↔ assocGet key records' = some v := fun v =>
    ⟨fun hv => assocGet_of_mem h' ((hmem _).mp (mem_of_assocGet hv)),
      fun hv => assocGet_of_mem h ((hmem _).mpr (mem_of_assocGet hv))⟩
  rw [Option.ext hget]

section Snapshot

variable {σ : Type} {s : Store σ} {K : Keyspace}

/-- **A snapshot stands for the live keys.** -/
theorem keyspaceOf_snapshot (h : s.Shows K) (now : Nat) :
    keyspaceOf (s.snapshot now) = K.live now := by
  funext key
  rw [keyspaceOf, foldl_load_apply (s.nodup_snapshot now), s.assocGet_snapshot]
  cases hget : s.data.get? key with
  | none => simp [Keyspace.live, h.absent hget]
  | some entry =>
    obtain ⟨item, hK, hvalue, hdeadline⟩ := h.present hget
    have hexpired : entry.isExpired now = passed now item.expiresAt := by
      rw [Entry.isExpired, hdeadline]
    cases hpassed : passed now item.expiresAt with
    | true => simp [Keyspace.live, hK, Option.filter, Entry.copyAt, hexpired, hpassed]
    | false =>
      simp [Keyspace.live, hK, Option.filter, Entry.copyAt, hexpired, hpassed,
        hvalue.payload_eq, hdeadline, Payload.value_payload]

/-- The records of a snapshot are sound. -/
theorem sound_snapshot (h : s.Shows K) (hK : K.NoEmpty) (now : Nat) :
    ∀ r ∈ s.snapshot now, Record.Sound r := by
  intro r hr
  obtain ⟨⟨key, entry⟩, hmem, rfl⟩ := mem_map.mp hr
  have hget : s.data.get? key = some entry :=
    (s.data.mem_entries_iff key entry).mp (mem_filter.mp hmem).1
  obtain ⟨item, hitem, hvalue, hdeadline⟩ := h.present hget
  have hfinish := hK key
  rw [hitem] at hfinish
  refine ⟨?_, ?_⟩
  · simpa only [Entry.record, hvalue.payload_eq] using Payload.real_payload item.value
  · simpa only [Entry.record, hvalue.payload_eq, Payload.value_payload, hdeadline] using hfinish

end Snapshot

/-! ## What files rebuild -/

variable [CPython]

/-- Reading a snapshot and then a log gives `L`. -/
def Rebuilds (records : List Record) (log : List Effect) (L : Keyspace) : Prop :=
  Runs Space.Step log (keyspaceOf records) L

/-- **A snapshot and a log back a keyspace.** -/
structure Back (now : Nat) (records : List Record) (log : List Effect) (L K : Keyspace) : Prop where
  rebuilds : Rebuilds records log L
  noEmpty : L.NoEmpty
  agrees : Agrees now L K

/-- **A copy of the keyspace and a log back a keyspace.** A key that is gone from it is gone from
them, too. -/
structure BacksCopy (now : Nat) (records : List Record) (log : List Effect) (K : Keyspace) : Prop where
  sound : ∀ r ∈ records, Record.Sound r
  back : ∃ L, Back now records log L K ∧ ∀ key, K key = none → L key = none

/-- **The files back a keyspace**, as they are and as they will be once the rewrite that is running
has ended well. -/
structure Persistence.Backs (now : Nat) (p : Persistence) (K : Keyspace) : Prop where
  /-- The records of the snapshot are sound. -/
  base : ∀ r ∈ p.base, Record.Sound r
  files : ∃ L, Back now p.base (p.older ++ p.current) L K
  copy : ∀ records, p.job = some records → BacksCopy now records p.current K

section Back

variable {now now' : Nat} {records : List Record} {log E : List Effect} {L K K' : Keyspace}
  {builds : Str → Prop}

theorem Back.mono (h : Back now records log L K) (hle : now ≤ now') : Back now' records log L K :=
  ⟨h.rebuilds, h.noEmpty, h.agrees.mono hle⟩

/-- **What is logged is followed.** -/
theorem Back.follow (h : Back now records log L K)
    (hbuilds : ∀ key, K key = none → builds key → L key = none)
    (hfollow : Space.Follow now builds E K K') :
    ∃ L', Back now records (log ++ E) L' K' ∧ Space.Comes L L' K K' := by
  have hbehind : Space.Behind now builds L K :=
    fun key => (h.agrees key).imp_right fun hdead => ⟨hdead.2, hbuilds key⟩
  obtain ⟨L', hruns, hL', hcomes⟩ := hfollow.all L h.noEmpty hbehind
  exact ⟨L', ⟨h.rebuilds.append hruns, hL', h.agrees.follow hcomes⟩, hcomes⟩

namespace BacksCopy

theorem mono (h : BacksCopy now records log K) (hle : now ≤ now') :
    BacksCopy now' records log K where
  sound := h.sound
  back := h.back.imp fun _ ⟨hL, hgone⟩ => ⟨hL.mono hle, hgone⟩

theorem follow (h : BacksCopy now records log K) (hfollow : Space.Follow now builds E K K') :
    BacksCopy now records (log ++ E) K' := by
  obtain ⟨L, hL, hgone⟩ := h.back
  obtain ⟨L', hL', hcomes⟩ := hL.follow (fun key hK _ => hgone key hK) hfollow
  refine ⟨h.sound, L', hL', fun key hK' => ?_⟩
  rcases hcomes key with hsame | ⟨hsame, hK⟩
  · rw [hsame, hK']
  · rw [hsame]
    exact hgone key (hK ▸ hK')

/-- The copy may hold the same records in another order. -/
theorem of_result {job : SnapshotJob} (h : BacksCopy now records log K)
    (hnodup : (records.map Prod.fst).Nodup) (hresult : Store.Result records job) :
    BacksCopy now job.records log K := by
  have hsame := keyspaceOf_eq hresult.nodup hnodup hresult.records
  obtain ⟨L, hL, hgone⟩ := h.back
  refine ⟨fun r hr => h.sound r ((hresult.records r).mp hr), L, ⟨?_, hL.noEmpty, hL.agrees⟩, hgone⟩
  rw [Rebuilds, hsame]
  exact hL.rebuilds

theorem snapshot {σ : Type} {s : Store σ} (hshows : s.Shows K) (hK : K.NoEmpty) :
    BacksCopy now (s.snapshot now) [] K := by
  refine ⟨sound_snapshot hshows hK now, K.live now, ⟨?_, Engine.noEmpty_live hK now, ?_⟩, ?_⟩
  · rw [← keyspaceOf_snapshot hshows now]
    exact .nil _
  · exact (agrees_live now K).symm
  · intro key hkey
    simp [Keyspace.live, hkey]

end BacksCopy

end Back

namespace Persistence.Backs

variable {now now' : Nat} {p p' : Persistence} {K K' : Keyspace} {E : List Effect}
  {builds : Str → Prop}

theorem mono (h : p.Backs now K) (hle : now ≤ now') : p.Backs now' K where
  base := h.base
  files := h.files.imp fun _ hL => hL.mono hle
  copy records hjob := (h.copy records hjob).mono hle

/-- **Appending what a phase has logged**, if no key it builds on is gone from memory and still in
the files. -/
theorem follow (h : p.Backs now K)
    (hbuilds : ∀ L, Rebuilds p.base (p.older ++ p.current) L → ∀ key, K key = none → builds key →
      L key = none)
    (hfollow : Space.Follow now builds E K K') :
    ({ p with current := p.current ++ E } : Persistence).Backs now K' := by
  refine ⟨h.base, ?_, fun records hjob => (h.copy records hjob).follow hfollow⟩
  obtain ⟨L, hL⟩ := h.files
  obtain ⟨L', hL', -⟩ := hL.follow (hbuilds L hL.rebuilds) hfollow
  exact ⟨L', by simpa using hL'⟩

/-- Only what is read back matters, and what will be. -/
theorem of_eq (h : p.Backs now K) (hbase : p'.base = p.base)
    (hlog : p'.older ++ p'.current = p.older ++ p.current)
    (hcopy : ∀ records, p'.job = some records → BacksCopy now records p'.current K) :
    p'.Backs now K := by
  refine ⟨?_, ?_, hcopy⟩
  · rw [hbase]
    exact h.base
  · rw [hbase, hlog]
    exact h.files

/-- **The end of a rewrite**, good or bad. -/
theorem finish (h : p.Backs now K) (at_ : Nat) (ok : Bool) : (p.finish at_ ok).Backs now K := by
  unfold Persistence.finish
  split
  · exact h
  case h_2 records hjob =>
    simp only
    split
    · obtain ⟨hsound, L, hL, -⟩ := h.copy records hjob
      exact ⟨hsound, ⟨L, by simpa using hL⟩, by simp⟩
    · exact ⟨h.base, h.files, by simp⟩

/-- **The begin of a rewrite**, if no other one is being written. -/
theorem beginRewrite (h : p.Backs now K) (hjob : p.job = none) : p.beginRewrite.Backs now K :=
  h.of_eq rfl (by simp [Persistence.beginRewrite]) fun records hrecords => by
    simp [Persistence.beginRewrite, hjob] at hrecords

theorem finishCopy (h : p.Backs now K) {records : List Record}
    (hcopy : BacksCopy now records p.current K) : (p.finishCopy records).Backs now K :=
  h.of_eq rfl rfl fun records' hrecords' => by
    obtain rfl : records = records' := by simpa [Persistence.finishCopy] using hrecords'
    exact hcopy

end Persistence.Backs

end KvStore
