import KvStore.Engine.Invariants
import KvStore.Engine.Reference

/-! # Incremental snapshots

A snapshot taken a slice at a time is the snapshot taken at once when it began, whatever happens to the
keyspace in between.

* **`Store.Copying orig job s`** — the job `job` of `s` will deliver `orig`: what it has not copied yet
  is still as it was, and what it has copied is what `orig` has.
* **`Store.Progress`** — a snapshot is still running and has delivered nothing, or has delivered its
  result exactly once. Every step keeps it (`Store.Progress.step`).
* **`Engine.snapshot_exact`** — the result for a run of the engine. -/

namespace KvStore

open Relation List

/-! ## Copies of entries -/

/-- What a snapshot has of an entry, if it began at `now`. -/
def Entry.copyAt (now : Nat) (entry : Entry) : Option (Payload × Option Int) :=
  if entry.isExpired now then none
  else some (entry.value.payload SortedSet.items, entry.expiresAt)

/-- Two lists with distinct keys that give every key the same value have the same pairs. -/
theorem mem_iff_of_assocGet_eq {κ ν : Type} [DecidableEq κ] {l l' : List (κ × ν)}
    (hl : (l.map Prod.fst).Nodup) (hl' : (l'.map Prod.fst).Nodup)
    (h : ∀ k, assocGet k l = assocGet k l') (p : κ × ν) : p ∈ l ↔ p ∈ l' := by
  constructor
  · intro hp
    exact mem_of_assocGet ((h p.1).symm.trans (assocGet_of_mem hl hp))
  · intro hp
    exact mem_of_assocGet ((h p.1).trans (assocGet_of_mem hl' hp))

/-- The value of a key in a list with one more pair, of another key than all others. -/
theorem assocGet_concat {κ ν : Type} [DecidableEq κ] {l : List (κ × ν)} {k : κ} {v : ν}
    (hk : assocGet k l = none) (k' : κ) :
    assocGet k' (l ++ [(k, v)]) = if k' = k then some v else assocGet k' l := by
  induction l with
  | nil => simp [assocGet, eq_comm]
  | cons p rest ih =>
    obtain ⟨k₀, v₀⟩ := p
    by_cases h₀ : k₀ = k
    · simp [assocGet, h₀] at hk
    · simp only [assocGet, h₀, if_false] at hk
      simp only [cons_append, assocGet, ih hk]
      by_cases h : k₀ = k'
      · subst h
        simp [h₀]
      · simp [h]

namespace Store

variable {σ : Type}

/-- A snapshot has every key at most once. -/
theorem nodup_snapshot (now : Nat) (s : Store σ) : ((s.snapshot now).map Prod.fst).Nodup := by
  have hkeys : (s.snapshot now).map Prod.fst =
      (s.data.entries.filter fun p => !p.2.isExpired now).map Prod.fst := by
    simp [snapshot, Entry.record, Function.comp_def]
  rw [hkeys]
  exact s.data.nodup.sublist (filter_sublist.map Prod.fst)

theorem assocGet_snapshot (now : Nat) (s : Store σ) (key : Str) :
    assocGet key (s.snapshot now) = (s.data.get? key).bind fun entry => entry.copyAt now := by
  have hmem : ∀ v, (key, v) ∈ s.snapshot now ↔
      ∃ entry, s.data.get? key = some entry ∧ entry.copyAt now = some v := by
    intro v
    simp only [snapshot, mem_map, mem_filter, Prod.exists, Entry.record, Entry.copyAt,
      Prod.mk.injEq]
    constructor
    · rintro ⟨_, entry, ⟨hmem, hlive⟩, rfl, hv⟩
      exact ⟨entry, (s.data.mem_entries_iff _ _).mp hmem, by simp_all⟩
    · rintro ⟨entry, hget, hv⟩
      refine ⟨key, entry, ⟨(s.data.mem_entries_iff _ _).mpr hget, ?_⟩, rfl, ?_⟩ <;>
        split at hv <;> simp_all
  apply Option.ext
  intro v
  rw [Option.bind_eq_some_iff]
  constructor
  · exact fun h => (hmem v).mp (mem_of_assocGet h)
  · exact fun h => assocGet_of_mem (nodup_snapshot now s) ((hmem v).mpr h)

theorem delivered_barrierAll (keys : List Str) (s : Store σ) :
    (keys.foldl (fun s key => s.snapshotBarrier key) s).delivered = s.delivered := by
  have hone : ∀ (key : Str) (s : Store σ), (s.snapshotBarrier key).delivered = s.delivered := by
    intro key s
    unfold snapshotBarrier
    split
    · rfl
    · split
      · rfl
      · split <;> rfl
  induction keys generalizing s with
  | nil => rfl
  | cons key rest ih => exact (ih _).trans (hone key s)

/-! ## A snapshot in progress -/

/-- **A snapshot that will deliver `orig`.** -/
structure Copying (orig : List Record) (job : SnapshotJob) (s : Store σ) : Prop where
  running : s.snapshotJob = some job
  epoch : job.epoch = s.snapshotEpoch
  nodup : (job.records.map Prod.fst).Nodup
  /-- A key that is not accounted for will be visited, and is as it was. -/
  left : ∀ key entry, s.data.get? key = some entry → entry.copied ≠ job.epoch →
    key ∈ job.pending ∧ assocGet key job.records = none ∧
      assocGet key orig = entry.copyAt job.startedAt
  /-- Of a key that is accounted for, there is the copy there should be. -/
  done : ∀ key, s.Copied key → assocGet key job.records = assocGet key orig

/-- **What a completed snapshot delivers**: the records of `orig`, none of them twice. -/
structure Result (orig : List Record) (job : SnapshotJob) : Prop where
  nodup : (job.records.map Prod.fst).Nodup
  records : ∀ r, r ∈ job.records ↔ r ∈ orig

namespace Copying

variable {orig : List Record} {job : SnapshotJob} {s s' : Store σ}

theorem begin (hstamp : ∀ key entry, s.data.get? key = some entry → entry.copied ≤ s.snapshotEpoch)
    (now : Nat) (receiver : Receiver) :
    ∃ job, Copying (s.snapshot now) job (s.beginSnapshot now receiver) ∧
      job.epoch = s.snapshotEpoch + 1 := by
  refine ⟨_, ⟨rfl, rfl, by simp, fun key entry hget _ => ⟨?_, rfl, ?_⟩, fun key hcopied => ?_⟩, rfl⟩
  · exact (s.data.mem_keys_iff key).mpr ⟨entry, hget⟩
  · rw [assocGet_snapshot]
    exact congrArg (fun o => Option.bind o (Entry.copyAt now)) hget
  · -- nothing is accounted for yet, so the key does not exist
    rw [assocGet_snapshot]
    cases hget : s.data.get? key with
    | none => rfl
    | some entry =>
      have hle := hstamp key entry hget
      have heq : entry.copied = s.snapshotEpoch + 1 := hcopied _ rfl entry hget
      omega

/-- A key that is accounted for may change, as long as it stays so. -/
theorem update (h : Copying orig job s) {key : Str} (hcopied : s.Copied key)
    (hjob : s'.snapshotJob = s.snapshotJob) (hepoch : s'.snapshotEpoch = s.snapshotEpoch)
    (hother : ∀ k, k ≠ key → s'.data.get? k = s.data.get? k)
    (hkey : ∀ entry, s'.data.get? key = some entry → entry.copied = job.epoch) :
    Copying orig job s' where
  running := hjob.trans h.running
  epoch := h.epoch.trans hepoch.symm
  nodup := h.nodup
  left k entry hget hne := by
    have hk : k ≠ key := by
      rintro rfl
      exact hne (hkey entry hget)
    exact h.left k entry (hother k hk ▸ hget) hne
  done k hk := by
    by_cases heq : k = key
    · subst heq
      exact h.done k hcopied
    · refine h.done k fun job' hjob' entry hget => hk job' (hjob.trans hjob') entry ?_
      rw [hother k heq]
      exact hget

theorem barrier (h : Copying orig job s) (key : Str) :
    ∃ job', Copying orig job' (s.snapshotBarrier key) ∧ job'.epoch = job.epoch ∧
      job'.pending = job.pending := by
  cases hget : s.data.get? key with
  | none => exact ⟨job, by simpa [snapshotBarrier, h.running, hget] using h, rfl, rfl⟩
  | some entry =>
    by_cases hstamp : entry.copied = job.epoch
    · exact ⟨job, by simpa [snapshotBarrier, h.running, hget, hstamp] using h, rfl, rfl⟩
    obtain ⟨hpending, hnone, horig⟩ := h.left key entry hget hstamp
    have hbarrier : s.snapshotBarrier key =
        { s with
          snapshotJob := some (job.take key entry)
          data := s.data.set key { entry with copied := job.epoch } } := by
      simp [snapshotBarrier, h.running, hget, hstamp]
    -- the copy of the key is what the snapshot should have of it
    have hrecords : ∀ k, assocGet k (job.take key entry).records =
        if k = key then entry.copyAt job.startedAt else assocGet k job.records := by
      intro k
      unfold SnapshotJob.take Entry.copyAt
      by_cases hexpired : entry.isExpired job.startedAt
      · simp only [hexpired, if_true]
        by_cases hk : k = key
        · simp [hk, hnone]
        · simp [hk]
      · simp only [hexpired, Bool.false_eq_true, if_false]
        exact assocGet_concat hnone k
    refine ⟨job.take key entry, ?_, by simp, by simp⟩
    rw [hbarrier]
    refine ⟨rfl, by simpa using h.epoch, ?_, fun k e hk hne => ?_, fun k hk => ?_⟩
    · unfold SnapshotJob.take
      split
      · exact h.nodup
      · have hfresh : key ∉ job.records.map Prod.fst := by
          rw [← assocGet_isSome_iff, hnone]
          simp
        simp only [Entry.record, map_append, map_cons, map_nil]
        exact nodup_append.mpr ⟨h.nodup, by simp, by
          rintro a ha b hb rfl
          exact hfresh (mem_singleton.mp hb ▸ ha)⟩
    · simp only [Dict.get?_set, SnapshotJob.epoch_take] at hk hne
      split at hk
      · obtain rfl := Option.some.inj hk
        exact absurd rfl hne
      case isFalse hkey =>
        obtain ⟨hp, hr, ho⟩ := h.left k e hk hne
        refine ⟨by simpa using hp, ?_, by simpa using ho⟩
        rw [hrecords, if_neg hkey, hr]
    · rw [hrecords]
      split
      case isTrue hkey => rw [hkey, horig]
      case isFalse hkey =>
        refine h.done k fun job' hjob' e he => ?_
        obtain rfl : job = job' := Option.some.inj (h.running.symm.trans hjob')
        have hkept := hk _ rfl e (by simpa [Dict.get?_set, hkey] using he)
        simpa using hkept

/-- Keys are copied one after the other. -/
theorem barrierAll (h : Copying orig job s) (keys : List Str) :
    ∃ job', Copying orig job' (keys.foldl (fun s key => s.snapshotBarrier key) s) ∧
      job'.epoch = job.epoch ∧ job'.pending = job.pending := by
  induction keys generalizing s job with
  | nil => exact ⟨job, h, rfl, rfl⟩
  | cons key rest ih =>
    obtain ⟨job₁, h₁, hepoch₁, hpending₁⟩ := h.barrier key
    obtain ⟨job₂, h₂, hepoch₂, hpending₂⟩ := ih h₁
    exact ⟨job₂, h₂, hepoch₂.trans hepoch₁, hpending₂.trans hpending₁⟩

/-- A slice: the snapshot goes on, or is complete and delivered. -/
theorem stepSnapshot (h : Copying orig job s) (horig : (orig.map Prod.fst).Nodup) (n : Nat) :
    (∃ job', Copying orig job' (s.stepSnapshot n) ∧ job'.epoch = job.epoch ∧
        (s.stepSnapshot n).delivered = s.delivered) ∨
      (∃ job', Result orig job' ∧ job'.epoch = job.epoch ∧
        (s.stepSnapshot n).snapshotJob = none ∧
        (s.stepSnapshot n).delivered = s.delivered ++ [job']) := by
  obtain ⟨job', h', hepoch, hpending⟩ := h.barrierAll (job.pending.take n)
  have hvisited := copied_barrier (job.pending.take n) s
  have hdelivered := delivered_barrierAll (job.pending.take n) s
  simp only [Store.stepSnapshot, h.running, h'.running]
  generalize (job.pending.take n).foldl (fun s key => s.snapshotBarrier key) s = s₁
    at h' hvisited hdelivered
  -- a key that is still to be accounted for was not among those visited
  have hleft : ∀ key entry, s₁.data.get? key = some entry → entry.copied ≠ job'.epoch →
      key ∈ job.pending.drop n := by
    intro key entry hget hne
    have hmem := (h'.left key entry hget hne).1
    rw [hpending, ← take_append_drop n job.pending, mem_append] at hmem
    refine hmem.resolve_left fun hkey => hne ?_
    exact hvisited key (.inl hkey) job' h'.running entry hget
  split
  case isTrue hend =>
    refine .inr ⟨{ job' with pending := job.pending.drop n }, ⟨h'.nodup, fun r => ?_⟩, hepoch, rfl,
      by rw [← hdelivered]⟩
    refine mem_iff_of_assocGet_eq h'.nodup horig (fun key => h'.done key ?_) r
    intro job₂ hjob₂ entry hget
    obtain rfl : job' = job₂ := Option.some.inj (h'.running.symm.trans hjob₂)
    by_contra hne
    have hmem := hleft key entry hget hne
    rw [hend] at hmem
    simp at hmem
  case isFalse =>
    refine .inl ⟨_, ⟨rfl, h'.epoch, h'.nodup, fun key entry hget hne => ?_, fun key hk => ?_⟩, hepoch,
      hdelivered⟩
    · exact ⟨hleft key entry hget hne, (h'.left key entry hget hne).2⟩
    · refine h'.done key fun job₂ hjob₂ entry hget => ?_
      obtain rfl : job' = job₂ := Option.some.inj (h'.running.symm.trans hjob₂)
      exact hk _ rfl entry hget

end Copying

/-! ## Moves -/

variable [CPython] [EvictionPolicy σ] {sure : Prop} {ks : List Str} {s s' : Store σ}

/-- What a move is to a snapshot: no entry changes, or one entry changes at a key of `ks` and then
has the stamp of the last snapshot or the stamp it had, or keys leave or are copied. -/
inductive Touch (ks : List Str) (s : Store σ) : Store σ → Prop
  | same {s' : Store σ} (hdata : s'.data = s.data) (hepoch : s'.snapshotEpoch = s.snapshotEpoch)
      (hjob : s'.snapshotJob = s.snapshotJob) (hdelivered : s'.delivered = s.delivered) :
      Touch ks s s'
  | set {s' : Store σ} {key : Str} {entry : Entry} (hkey : key ∈ ks)
      (hdata : s'.data = s.data.set key entry) (hepoch : s'.snapshotEpoch = s.snapshotEpoch)
      (hjob : s'.snapshotJob = s.snapshotJob) (hdelivered : s'.delivered = s.delivered)
      (hstamp : entry.copied = s.snapshotEpoch ∨
        ∃ old, s.data.get? key = some old ∧ entry.copied = old.copied) : Touch ks s s'
  | remove (key : Str) : Touch ks s (s.remove key)
  | clear : Touch ks s s.clear
  | barrier (key : Str) : Touch ks s (s.snapshotBarrier key)
  | step (n : Nat) : Touch ks s (s.stepSnapshot n)

theorem Move.touch (hmove : Move sure ks s s') : Touch ks s s' := by
  cases hmove with
  | aside h => exact .same h.data h.snapshotEpoch h.snapshotJob h.delivered
  | access | victim => exact .same rfl rfl rfl rfl
  | insert now hkey | replace now keepTtl hkey => exact .set hkey rfl rfl rfl rfl (.inl rfl)
  | mutate hkey =>
    unfold Store.mutate
    split
    · exact .same rfl rfl rfl rfl
    case h_2 entry hget => exact .set hkey rfl rfl rfl rfl (.inr ⟨entry, hget, rfl⟩)
  | setDeadline deadline hkey hget => exact .set hkey rfl rfl rfl rfl (.inr ⟨_, hget, rfl⟩)
  | remove key => exact .remove key
  | clear => exact .clear
  | barrier key => exact .barrier key
  | stepSnapshot n => exact .step n

/-- Accounting a key again is one of these too. -/
theorem touch_refresh {key : Str} (hkey : key ∈ ks) (s : Store σ) : Touch ks s (s.refresh key) := by
  unfold refresh
  split
  · exact .same rfl rfl rfl rfl
  case h_2 entry hget =>
    split
    · exact .remove key
    · exact .set hkey rfl rfl rfl rfl (.inr ⟨entry, hget, rfl⟩)

omit [CPython] [EvictionPolicy σ] in
/-- The stamp of an entry that changes at a key that is accounted for. -/
theorem Copied.stamp {key : Str} {entry : Entry} (h : s.Copied key)
    (hstamp : entry.copied = s.snapshotEpoch ∨
      ∃ old, s.data.get? key = some old ∧ entry.copied = old.copied) {job : SnapshotJob}
    (hjob : s.snapshotJob = some job) (hepoch : job.epoch = s.snapshotEpoch) :
    entry.copied = job.epoch := by
  rcases hstamp with hnew | ⟨old, hget, hold⟩
  · exact hnew.trans hepoch.symm
  · exact hold.trans (h job hjob old hget)

omit [CPython] in
/-- **A key that is accounted for stays so.** -/
theorem Copied.touch {k : Str} (h : s.Copied k)
    (hepoch : ∀ job, s.snapshotJob = some job → job.epoch = s.snapshotEpoch)
    (htouch : Touch ks s s') : s'.Copied k := by
  have hbarrier : ∀ keys : List Str,
      Copied k (keys.foldl (fun s key => s.snapshotBarrier key) s) :=
    fun keys => copied_barrier keys s k (.inr h)
  cases htouch with
  | same hdata _ hjob => exact fun job hj entry hget => h job (hjob ▸ hj) entry (hdata ▸ hget)
  | @set _ key entry hkey hdata _ hjob _ hstamp =>
    intro job hj e hget
    rw [hjob] at hj
    rw [hdata, Dict.get?_set] at hget
    split at hget
    case isTrue heq =>
      obtain rfl := Option.some.inj hget
      subst heq
      exact h.stamp hstamp hj (hepoch job hj)
    case isFalse => exact h job hj e hget
  | remove key =>
    have hcopied := hbarrier [key]
    unfold Store.remove drop
    split
    · exact hcopied
    · intro job hj entry hget
      rw [Dict.get?_erase] at hget
      split at hget
      · simp at hget
      · exact hcopied job hj entry hget
  | clear => exact fun job hj entry hget => absurd hget (by simp [clear])
  | barrier key => exact hbarrier [key]
  | step n =>
    unfold Store.stepSnapshot
    split
    · exact h
    case h_2 job _ =>
      have hcopied := hbarrier (job.pending.take n)
      simp only
      split
      · exact hcopied
      case h_2 copied hjob =>
        split
        · rintro _ ⟨⟩
        · rintro _ ⟨⟩ entry hget
          exact hcopied copied hjob entry hget

/-! ## Progress -/

/-- **A snapshot of `orig`, begun as the one of `epoch` after those in `before` were delivered**: it is
running and nothing was delivered since, or it was delivered exactly once. -/
inductive Progress (orig : List Record) (epoch : Nat) (before : List SnapshotJob) (s : Store σ) : Prop
  | running {job : SnapshotJob} (h : Copying orig job s) (hepoch : job.epoch = epoch)
      (hbefore : s.delivered = before)
  | done {job : SnapshotJob} {later : List SnapshotJob} (hresult : Result orig job)
      (hepoch : job.epoch = epoch) (hdelivered : s.delivered = before ++ job :: later)
      (hlater : ∀ j ∈ later, epoch < j.epoch)
      (hrunning : ∀ j, s.snapshotJob = some j → epoch < j.epoch) (hle : epoch ≤ s.snapshotEpoch)

/-- Two states of one job. -/
structure SameJob (j j' : SnapshotJob) : Prop where
  epoch : j'.epoch = j.epoch
  receiver : j'.receiver = j.receiver

/-- What a store has of jobs after a move: the running one is the one that ran before, and so is one
that was delivered. -/
structure SameJobs (s s' : Store σ) : Prop where
  epoch : s'.snapshotEpoch = s.snapshotEpoch
  running : ∀ j', s'.snapshotJob = some j' → ∃ j, s.snapshotJob = some j ∧ SameJob j j'
  delivered : ∃ more, s'.delivered = s.delivered ++ more ∧
    ∀ j' ∈ more, ∃ j, s.snapshotJob = some j ∧ SameJob j j'

omit [CPython] [EvictionPolicy σ]

theorem SameJob.trans {j j' j'' : SnapshotJob} (h : SameJob j j') (h' : SameJob j' j'') :
    SameJob j j'' :=
  ⟨h'.epoch.trans h.epoch, h'.receiver.trans h.receiver⟩

theorem SameJobs.refl (s : Store σ) : SameJobs s s :=
  ⟨rfl, fun j h => ⟨j, h, rfl, rfl⟩, [], by simp, by simp⟩

theorem SameJobs.of_eq (hepoch : s'.snapshotEpoch = s.snapshotEpoch)
    (hjob : s'.snapshotJob = s.snapshotJob) (hdelivered : s'.delivered = s.delivered) :
    SameJobs s s' :=
  ⟨hepoch, fun j h => ⟨j, hjob ▸ h, rfl, rfl⟩, [], by simp [hdelivered], by simp⟩

theorem SameJobs.trans {s'' : Store σ} (h : SameJobs s s') (h' : SameJobs s' s'') :
    SameJobs s s'' := by
  -- a job of the second part is one of the first
  have hback : ∀ {j' j'' : SnapshotJob}, s'.snapshotJob = some j' → SameJob j' j'' →
      ∃ j, s.snapshotJob = some j ∧ SameJob j j'' := by
    intro j' j'' hj' hsame
    obtain ⟨j, hj, hsame'⟩ := h.running j' hj'
    exact ⟨j, hj, hsame'.trans hsame⟩
  obtain ⟨more, hmore, hjobs⟩ := h.delivered
  obtain ⟨more', hmore', hjobs'⟩ := h'.delivered
  refine ⟨h'.epoch.trans h.epoch, fun j'' hj'' => ?_, more ++ more', ?_, fun j'' hj'' => ?_⟩
  · obtain ⟨j', hj', hsame⟩ := h'.running j'' hj''
    exact hback hj' hsame
  · rw [hmore', hmore, append_assoc]
  · rcases mem_append.mp hj'' with hold | hnew
    · exact hjobs j'' hold
    · obtain ⟨j', hj', hsame⟩ := hjobs' j'' hnew
      exact hback hj' hsame

theorem sameJobs_barrier (key : Str) (s : Store σ) : SameJobs s (s.snapshotBarrier key) := by
  refine ⟨s.snapshotEpoch_snapshotBarrier key, ?_, [], ?_, by simp⟩
  · intro j' hj'
    unfold snapshotBarrier at hj'
    split at hj'
    case h_1 hnone => simp [hnone] at hj'
    case h_2 job hjob =>
      split at hj'
      · exact ⟨j', hj', rfl, rfl⟩
      · split at hj'
        · exact ⟨j', hj', rfl, rfl⟩
        · obtain rfl := Option.some.inj hj'
          exact ⟨job, hjob, by simp, by simp⟩
  · simpa using delivered_barrierAll [key] s

theorem sameJobs_barrierAll (keys : List Str) (s : Store σ) :
    SameJobs s (keys.foldl (fun s key => s.snapshotBarrier key) s) := by
  induction keys generalizing s with
  | nil => exact .refl s
  | cons key rest ih => exact (sameJobs_barrier key s).trans (ih _)

theorem sameJobs_stepSnapshot (n : Nat) (s : Store σ) : SameJobs s (s.stepSnapshot n) := by
  unfold Store.stepSnapshot
  split
  · exact .refl s
  case h_2 job hjob =>
    have hall := sameJobs_barrierAll (job.pending.take n) s
    have hdelivered := delivered_barrierAll (job.pending.take n) s
    simp only
    split
    · exact hall
    case h_2 copied hcopied =>
      obtain ⟨j, hj, heq⟩ := hall.running copied hcopied
      split
      · refine ⟨hall.epoch, nofun, [_], by rw [← hdelivered], fun j' hj' => ⟨j, hj, ?_⟩⟩
        rw [mem_singleton.mp hj']
        exact ⟨heq.epoch, heq.receiver⟩
      · refine ⟨hall.epoch, ?_, [], by simpa using hdelivered, by simp⟩
        rintro _ ⟨⟩
        exact ⟨j, hj, heq.epoch, heq.receiver⟩

theorem Touch.jobs [EvictionPolicy σ] (h : Touch ks s s') : SameJobs s s' := by
  cases h with
  | same _ hepoch hjob hdelivered | set _ _ hepoch hjob hdelivered => exact .of_eq hepoch hjob hdelivered
  | remove key =>
    have hbarrier := sameJobs_barrier key s
    unfold Store.remove drop
    split
    · exact hbarrier
    · exact ⟨hbarrier.epoch, hbarrier.running, hbarrier.delivered⟩
  | clear =>
    have hstep := sameJobs_stepSnapshot s.remaining s
    exact ⟨hstep.epoch, hstep.running, hstep.delivered⟩
  | barrier key => exact sameJobs_barrier key s
  | step n => exact sameJobs_stepSnapshot n s

namespace Progress

variable {orig : List Record} {epoch : Nat} {before : List SnapshotJob}

/-- After the delivery nothing more is delivered for this snapshot. -/
theorem of_sameJobs {job : SnapshotJob} {later : List SnapshotJob} (hresult : Result orig job)
    (hepoch : job.epoch = epoch) (hdelivered : s.delivered = before ++ job :: later)
    (hlater : ∀ j ∈ later, epoch < j.epoch)
    (hrunning : ∀ j, s.snapshotJob = some j → epoch < j.epoch) (hle : epoch ≤ s.snapshotEpoch)
    (h : SameJobs s s') : Progress orig epoch before s' := by
  obtain ⟨more, hmore, hjobs⟩ := h.delivered
  have hall : s'.delivered = before ++ job :: (later ++ more) := by
    rw [hmore, hdelivered, append_assoc, cons_append]
  refine .done hresult hepoch hall (fun j hj => ?_) (fun j' hj' => ?_) (h.epoch ▸ hle)
  · rcases mem_append.mp hj with hj | hj
    · exact hlater j hj
    · obtain ⟨j₀, hj₀, heq⟩ := hjobs j hj
      exact heq.epoch ▸ hrunning j₀ hj₀
  · obtain ⟨j₀, hj₀, heq⟩ := h.running j' hj'
    exact heq.epoch ▸ hrunning j₀ hj₀

/-- **A move keeps the progress of a snapshot**, if the keys that may change are accounted for. -/
theorem touch [EvictionPolicy σ] (horig : (orig.map Prod.fst).Nodup)
    (h : Progress orig epoch before s) (hks : ∀ key ∈ ks, s.Copied key) (htouch : Touch ks s s') :
    Progress orig epoch before s' := by
  cases h with
  | done hresult hepoch hdelivered hlater hrunning hle =>
    exact of_sameJobs hresult hepoch hdelivered hlater hrunning hle htouch.jobs
  | @running job hcopy hepoch hbefore =>
    -- the delivery of the result, by the last slice or by the slice that comes with FLUSHALL
    have hdeliver : ∀ {s'' : Store σ} {job' : SnapshotJob}, Result orig job' →
        job'.epoch = job.epoch → s''.snapshotJob = none → s''.delivered = s.delivered ++ [job'] →
        s''.snapshotEpoch = s.snapshotEpoch → Progress orig epoch before s'' := by
      intro s'' job' hresult hepoch' hnone hdelivered hlast
      have hall : s''.delivered = before ++ job' :: [] := by rw [hdelivered, hbefore]
      refine .done hresult (hepoch'.trans hepoch) hall (by simp) (by simp [hnone]) ?_
      rw [hlast, ← hcopy.epoch, hepoch]
    cases htouch with
    | same hdata hlast hjob hdelivered =>
      have hcopy' : Copying orig job s' := by
        refine ⟨hjob.trans hcopy.running, hcopy.epoch.trans hlast.symm, hcopy.nodup,
          fun key entry hget => hcopy.left key entry (hdata ▸ hget), fun key hk => ?_⟩
        exact hcopy.done key fun j hj entry hget => hk j (hjob ▸ hj) entry (hdata ▸ hget)
      exact .running hcopy' hepoch (hdelivered.trans hbefore)
    | @set _ key entry hkey hdata hlast hjob hdelivered hstamp =>
      refine .running (hcopy.update (hks key hkey) hjob hlast (fun k hk => ?_) fun e hget => ?_)
        hepoch (hdelivered.trans hbefore)
      · rw [hdata, Dict.get?_set, if_neg hk]
      · rw [hdata, Dict.get?_set, if_pos rfl] at hget
        obtain rfl := Option.some.inj hget
        exact (hks key hkey).stamp hstamp hcopy.running hcopy.epoch
    | remove key =>
      obtain ⟨job', hcopy', hepoch', -⟩ := hcopy.barrier key
      have hcopied := copied_barrier [key] s key (.inl (by simp))
      have hdelivered := delivered_barrierAll [key] s
      rw [foldl_cons, foldl_nil] at hcopied hdelivered
      unfold Store.remove drop
      split
      · exact .running hcopy' (hepoch'.trans hepoch) (hdelivered.trans hbefore)
      · refine .running (hcopy'.update hcopied rfl rfl (fun k hk => ?_) fun e hget => ?_)
          (hepoch'.trans hepoch) (hdelivered.trans hbefore)
        · simp [hk]
        · simp at hget
    | clear =>
      have hnone := s.snapshotJob_clear
      rcases hcopy.stepSnapshot horig s.remaining with
        ⟨job', hcopy', -⟩ | ⟨job', hresult, hepoch', -, hdelivered⟩
      · exact absurd (hcopy'.running.symm.trans hnone) (by simp)
      · exact hdeliver hresult hepoch' hnone hdelivered
          (sameJobs_stepSnapshot s.remaining s).epoch
    | barrier key =>
      obtain ⟨job', hcopy', hepoch', -⟩ := hcopy.barrier key
      exact .running hcopy' (hepoch'.trans hepoch)
        ((delivered_barrierAll [key] s).trans hbefore)
    | step n =>
      rcases hcopy.stepSnapshot horig n with
        ⟨job', hcopy', hepoch', hdelivered⟩ | ⟨job', hresult, hepoch', hnone, hdelivered⟩
      · exact .running hcopy' (hepoch'.trans hepoch) (hdelivered.trans hbefore)
      · exact hdeliver hresult hepoch' hnone hdelivered (sameJobs_stepSnapshot n s).epoch

variable [CPython] [EvictionPolicy σ]

theorem moves (horig : (orig.map Prod.fst).Nodup) (h : Progress orig epoch before s)
    (hkept : Kept ks s) (hks : ∀ key ∈ ks, s.Copied key) (hmoves : Moves sure ks s s') :
    Progress orig epoch before s' ∧ ∀ key ∈ ks, s'.Copied key := by
  induction hmoves with
  | refl => exact ⟨h, hks⟩
  | tail hmoves hmove ih =>
    have hkept' := hkept.moves hmoves
    exact ⟨ih.1.touch horig ih.2 hmove.touch,
      fun key hkey => (ih.2 key hkey).touch hkept'.job hmove.touch⟩

/-- The keys of a write, accounted again. -/
theorem refreshAll (horig : (orig.map Prod.fst).Nodup) {keys : List Str} (hsub : keys ⊆ ks)
    (h : Progress orig epoch before s)
    (hjob : ∀ job, s.snapshotJob = some job → job.epoch = s.snapshotEpoch)
    (hks : ∀ key ∈ ks, s.Copied key) : Progress orig epoch before (s.refreshAll keys) := by
  unfold Store.refreshAll
  induction keys generalizing s with
  | nil => exact h
  | cons key rest ih =>
    have htouch := touch_refresh (hsub mem_cons_self) s
    refine ih (fun k hk => hsub (mem_cons_of_mem _ hk)) (h.touch horig hks htouch) ?_
      fun k hk => (hks k hk).touch hjob htouch
    intro job' hjob'
    obtain ⟨j, hj, heq⟩ := htouch.jobs.running job' hjob'
    rw [heq.epoch, hjob j hj, htouch.jobs.epoch]

/-- **A step keeps the progress of a snapshot.** -/
theorem step (horig : (orig.map Prod.fst).Nodup) (h : Progress orig epoch before s)
    (hkept : Kept [] s) (hstep : Step sure s s') : Progress orig epoch before s' := by
  cases hstep with
  | quiet hmoves => exact (h.moves horig hkept (by simp) hmoves).1
  | begin now receiver hjob =>
    cases h with
    | running hcopy => exact absurd (hcopy.running.symm.trans hjob) (by simp)
    | done hresult hepoch hdelivered hlater hrunning hle =>
      refine .done hresult hepoch hdelivered hlater ?_ (hle.trans (Nat.le_succ _))
      rintro _ ⟨⟩
      exact Nat.lt_succ_of_le hle
  | write ks hcopied hmoves =>
    have hopen := hkept.mono (nil_subset ks)
    obtain ⟨hprogress, hks⟩ := h.moves horig hopen hcopied hmoves
    exact hprogress.refreshAll horig (List.Subset.refl ks) (hopen.moves hmoves).job hks

end Progress

/-! ## The snapshots delivered -/

/-- No snapshot that was delivered is later than the last one. -/
def Dated (s : Store σ) : Prop := ∀ j ∈ s.delivered, j.epoch ≤ s.snapshotEpoch

theorem Dated.sameJobs (h : s.Dated)
    (hjob : ∀ job, s.snapshotJob = some job → job.epoch = s.snapshotEpoch) (hsame : SameJobs s s') :
    s'.Dated := by
  obtain ⟨more, hmore, hjobs⟩ := hsame.delivered
  intro j hj
  rw [hmore, mem_append] at hj
  rw [hsame.epoch]
  rcases hj with hj | hj
  · exact h j hj
  · obtain ⟨j₀, hj₀, heq⟩ := hjobs j hj
    exact (heq.epoch.trans (hjob j₀ hj₀)).le

section Dated

variable [CPython] [EvictionPolicy σ]

theorem Moves.jobs (hmoves : Moves sure ks s s') : SameJobs s s' := by
  induction hmoves with
  | refl => exact .refl s
  | tail _ hmove ih => exact ih.trans hmove.touch.jobs

theorem sameJobs_refreshAll (keys : List Str) (s : Store σ) : SameJobs s (s.refreshAll keys) := by
  unfold Store.refreshAll
  induction keys generalizing s with
  | nil => exact .refl s
  | cons key rest ih => exact (touch_refresh (mem_singleton_self key) s).jobs.trans (ih _)

/-- A step begins a snapshot, or goes on with the one that is running. -/
theorem Step.jobs (hstep : Step sure s s') :
    SameJobs s s' ∨ ∃ now receiver, s' = s.beginSnapshot now receiver := by
  cases hstep with
  | quiet hmoves => exact .inl hmoves.jobs
  | begin now receiver => exact .inr ⟨now, receiver, rfl⟩
  | write ks _ hmoves => exact .inl (hmoves.jobs.trans (sameJobs_refreshAll ks _))

/-- Steps after which the last snapshot is still the same go on with the one that is running. -/
theorem Steps.jobs (hsteps : Steps sure s s') :
    s.snapshotEpoch ≤ s'.snapshotEpoch ∧ (s'.snapshotEpoch = s.snapshotEpoch → SameJobs s s') := by
  induction hsteps with
  | refl => exact ⟨le_rfl, fun _ => .refl s⟩
  | tail _ hstep ih =>
    rcases hstep.jobs with hsame | ⟨now, receiver, rfl⟩
    · refine ⟨ih.1.trans hsame.epoch.ge, fun hepoch => (ih.2 ?_).trans hsame⟩
      exact hsame.epoch.symm.trans hepoch
    · refine ⟨ih.1.trans (Nat.le_succ _), fun hepoch => ?_⟩
      have hlater := ih.1
      simp only [beginSnapshot] at hepoch
      omega

theorem Dated.step (h : s.Dated) (hkept : Kept [] s) (hstep : Step sure s s') : s'.Dated := by
  rcases hstep.jobs with hsame | ⟨now, receiver, rfl⟩
  · exact h.sameJobs hkept.job hsame
  · exact fun j hj => (h j hj).trans (Nat.le_succ _)

end Dated

/-- The calls of `on_done` for the snapshot of an epoch. -/
def deliveredOf (epoch : Nat) (s : Store σ) : List SnapshotJob :=
  s.delivered.filter fun job => job.epoch = epoch

/-- A snapshot in progress is delivered at most once, and right. -/
theorem Progress.deliveredOf {orig : List Record} {epoch : Nat} {before : List SnapshotJob}
    (h : Progress orig epoch before s) (hbefore : ∀ j ∈ before, j.epoch < epoch) :
    (s.deliveredOf epoch = [] ∧ ∃ job, Copying orig job s) ∨
      ∃ job, s.deliveredOf epoch = [job] ∧ Result orig job := by
  have hnone : before.filter (fun job => decide (job.epoch = epoch)) = [] :=
    filter_eq_nil_iff.mpr fun j hj => by simpa using (hbefore j hj).ne
  cases h with
  | running hcopy _ hdelivered =>
    exact .inl ⟨by rw [Store.deliveredOf, hdelivered, hnone], _, hcopy⟩
  | @done job later hresult hepoch hdelivered hlater =>
    have hrest : later.filter (fun job => decide (job.epoch = epoch)) = [] :=
      filter_eq_nil_iff.mpr fun j hj => by simpa using (hlater j hj).ne'
    refine .inr ⟨job, ?_, hresult⟩
    rw [Store.deliveredOf, hdelivered, filter_append, hnone,
      filter_cons_of_pos (by simpa using hepoch), hrest, nil_append]

end Store

/-! ## Runs -/

namespace Engine

variable [CPython] {σ : Type} [EvictionPolicy σ]

/-- What may happen while a snapshot is being taken. -/
inductive Call
  /-- A client's command; it may expire keys, evict keys or clear everything. -/
  | execute (env : Env) (c : Command) (args : List Str)
  /-- A command of the primary's stream. -/
  | applyReplicated (env : Env) (x : Effect)
  /-- Active expiry, and the background work on the files. -/
  | cron (env : Env) (sampleSize : Nat) (auto : Bool)
  | stepSnapshot (n : Nat)
  | beginSnapshot (now : Nat) (receiver : Receiver)
  | setRole (primary : Bool)

/-- What a call does. -/
def call (e : Engine σ) : Call → Engine σ
  | .execute env c args => (e.execute env c args).2
  | .applyReplicated env x => (e.applyReplicated env x).2
  | .cron env sampleSize auto => e.cron env sampleSize auto
  | .stepSnapshot n => e.stepSnapshot n
  | .beginSnapshot now receiver => e.beginSnapshot now receiver
  | .setRole primary => e.setRole primary

/-- Every call is a sequence of steps of the store. -/
theorem steps_call (e : Engine σ) (c : Call) : Store.Steps False e.store (e.call c).store := by
  cases c with
  | execute env c args => exact steps_execute env nofun
  | applyReplicated env x => exact steps_applyReplicated env x e
  | cron env sampleSize auto => exact steps_cron env sampleSize auto e
  | stepSnapshot n => exact steps_stepSnapshot n e
  | beginSnapshot now receiver => exact steps_beginSnapshot now receiver e
  | setRole primary => exact .aside ⟨rfl, rfl, rfl, rfl, rfl, rfl, rfl⟩

/-- No engine has delivered a snapshot later than its last one. -/
theorem Arises.dated {sure : Prop} {e : Engine σ} (h : e.Arises sure) : e.store.Dated :=
  (h.invariant (I := fun s => s.Kept [] ∧ s.Dated)
    (fun config env p _ => ⟨kept_new config env p, nofun⟩)
    (fun hI hstep => ⟨hI.1.step hstep, hI.2.step hI.1 hstep⟩) (fun hI => hI.1.copies)).2

/-- **An incremental snapshot is the snapshot taken at once when it began.** Whatever calls come
between, its records are delivered at most once, and then they are those of a snapshot taken at the
begin, each key once; and the slices that are left deliver them. -/
theorem snapshot_exact {e : Engine σ} (h : e.Arises False) (hjob : e.store.snapshotJob = none)
    (now : Nat) (receiver : Receiver) (calls : List Call) :
    let epoch := e.store.snapshotEpoch + 1
    let e' := calls.foldl call (e.beginSnapshot now receiver)
    (e'.store.deliveredOf epoch = [] ∨
        ∃ job, e'.store.deliveredOf epoch = [job] ∧ Store.Result (e.store.snapshot now) job) ∧
      ∃ job, (e'.stepSnapshot e'.store.remaining).store.deliveredOf epoch = [job] ∧
        Store.Result (e.store.snapshot now) job := by
  intro epoch e'
  have horig := Store.nodup_snapshot now e.store
  -- what holds at the begin, and what steps keep of it
  let I : Store σ → Prop := fun s => s.Kept [] ∧
    Store.Progress (e.store.snapshot now) epoch e.store.delivered s
  have hsteps : ∀ {s s' : Store σ}, I s → Store.Steps False s s' → I s' := by
    intro s s' hs hrun
    induction hrun with
    | refl => exact hs
    | tail _ hstep ih => exact ⟨ih.1.step hstep, ih.2.step horig ih.1 hstep⟩
  have hbegun : (e.beginSnapshot now receiver).store = e.store.beginSnapshot now receiver := by
    simp [beginSnapshot, hjob, onStore]
  have hbegin : I (e.beginSnapshot now receiver).store := by
    obtain ⟨job, hcopy, hepoch⟩ :=
      Store.Copying.begin (fun key entry hget => (h.kept.entry key entry hget).stamp) now receiver
    have hstep : Store.Step False e.store (e.store.beginSnapshot now receiver) :=
      .begin now receiver hjob
    rw [hbegun]
    exact ⟨h.kept.step hstep, .running hcopy hepoch rfl⟩
  have hrun : ∀ (calls : List Call) (e₁ : Engine σ), I e₁.store → I (calls.foldl call e₁).store := by
    intro calls
    induction calls with
    | nil => exact fun _ h => h
    | cons c rest ih => exact fun e₁ h₁ => ih _ (hsteps h₁ (steps_call e₁ c))
  have hbefore : ∀ j ∈ e.store.delivered, j.epoch < epoch :=
    fun j hj => Nat.lt_succ_of_le (h.dated j hj)
  have hnow : I e'.store := hrun calls _ hbegin
  have hend : I (e'.stepSnapshot e'.store.remaining).store :=
    hsteps hnow (steps_stepSnapshot e'.store.remaining e')
  refine ⟨(hnow.2.deliveredOf hbefore).imp_left And.left, ?_⟩
  -- once every key has been visited, the snapshot is no longer running
  refine (hend.2.deliveredOf hbefore).resolve_left ?_
  rintro ⟨-, job, hcopy⟩
  have hnone : (e'.stepSnapshot e'.store.remaining).store.snapshotJob = none := by
    rw [stepSnapshot, (sameCore_handOver _).snapshotJob]
    exact e'.store.snapshotJob_clear
  exact absurd (hcopy.running.symm.trans hnone) (by simp)

/-- An engine with one key. -/
def oneKey : Engine NoEviction :=
  ((new (plainConfig allLow) (Env.quiet 0) none).execute (Env.quiet 0) .set
    [text "k", text "old"]).2

/-- A snapshot of it begins, and the key is overwritten before it is copied. -/
def overwritten : Engine NoEviction :=
  [Call.execute (Env.quiet 0) .set [text "k", text "new"]].foldl call (oneKey.beginSnapshot 0 .replica)

end Engine

/-! ## An overwritten key -/

namespace Engine

noncomputable local instance snapshotsPython : CPython := referencePython

/-- The snapshot has the old value. -/
theorem snapshot_exact_overwritten :
    ∃ job, (overwritten.stepSnapshot overwritten.store.remaining).store.deliveredOf
        (oneKey.store.snapshotEpoch + 1) = [job] ∧
      job.records = [(text "k", .str (text "old"), none)] ∧
      Store.Result (oneKey.store.snapshot 0) job := by
  have harises : oneKey.Arises False :=
    .execute (.new (plainConfig allLow) (Env.quiet 0) none ⟨{}, rfl⟩) (Env.quiet 0) .set _ nofun
  have hidle : oneKey.store.snapshotJob = none := by decide +kernel
  obtain ⟨job, hjob, hresult⟩ := (snapshot_exact harises hidle 0 .replica
    [.execute (Env.quiet 0) .set [text "k", text "new"]]).2
  have hrecords : ((overwritten.stepSnapshot overwritten.store.remaining).store.deliveredOf
      (oneKey.store.snapshotEpoch + 1)).map SnapshotJob.records =
        [[(text "k", .str (text "old"), none)]] := by
    decide +kernel
  unfold overwritten at hrecords ⊢
  rw [hjob] at hrecords
  exact ⟨job, hjob, by simpa using hrecords, hresult⟩

end Engine

end KvStore
