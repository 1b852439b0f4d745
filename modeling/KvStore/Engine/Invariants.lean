import KvStore.Engine.Steps

/-! # What holds of every entry

**`Store.Kept ks`** says of every entry that its running estimate and its snapshot stamp are right,
and, unless its key is one of `ks` that a write is changing, that its accounted size is right and that
it is no empty collection. Every move keeps it (`Store.Kept.move`), and every step closes the keys it
opened (**`Store.Kept.step`**). -/

namespace KvStore

open Relation

variable [CPython]

/-- What holds of an entry, the last snapshot being the one of `epoch`. An entry may be `changing`. -/
structure Entry.Kept (epoch : Nat) (changing : Prop) (key : Str) (entry : Entry) : Prop where
  counted : Counted entry.value entry.nbytes
  stamp : entry.copied ≤ epoch
  size : ¬ changing → entry.size = Store.entrySize key entry.value entry.nbytes
  /-- The store keeps no empty collection. -/
  nonempty : ¬ changing → entry.value.isEmpty SortedSet.length = false

namespace Store

variable {σ : Type}

/-- **What holds of every entry of a store**, while the keys `ks` may change. -/
structure Kept (ks : List Str) (s : Store σ) : Prop where
  /-- The running snapshot is the last one. -/
  job : ∀ job, s.snapshotJob = some job → job.epoch = s.snapshotEpoch
  entry : ∀ key entry, s.data.get? key = some entry → entry.Kept s.snapshotEpoch (key ∈ ks) key

namespace Kept

variable {ks : List Str} {s s' : Store σ}

theorem of_eq (h : Kept ks s) (hdata : s'.data = s.data) (hepoch : s'.snapshotEpoch = s.snapshotEpoch)
    (hjob : s'.snapshotJob = s.snapshotJob) : Kept ks s' where
  job job hj := (h.job job (hjob ▸ hj)).trans hepoch.symm
  entry key entry hget := by
    rw [hepoch]
    exact h.entry key entry (hdata ▸ hget)

theorem set (h : Kept ks s) {key : Str} {entry : Entry} (hdata : s'.data = s.data.set key entry)
    (hepoch : s'.snapshotEpoch = s.snapshotEpoch)
    (hjob : ∀ job, s'.snapshotJob = some job → job.epoch = s.snapshotEpoch)
    (hentry : entry.Kept s.snapshotEpoch (key ∈ ks) key) : Kept ks s' where
  job job hj := (hjob job hj).trans hepoch.symm
  entry k e hget := by
    rw [hdata, Dict.get?_set] at hget
    rw [hepoch]
    split at hget
    case isTrue hk =>
      obtain rfl := Option.some.inj hget
      exact hk ▸ hentry
    case isFalse => exact h.entry k e hget

theorem snapshotBarrier (h : Kept ks s) (key : Str) : Kept ks (s.snapshotBarrier key) := by
  unfold Store.snapshotBarrier
  split
  · exact h
  case h_2 job hjob =>
    split
    · exact h
    case h_2 entry hget =>
      split
      · exact h
      · have hentry := h.entry key entry hget
        have hepoch := h.job job hjob
        refine h.set rfl rfl ?_ ⟨hentry.counted, hepoch.le, hentry.size, hentry.nonempty⟩
        rintro _ ⟨⟩
        rw [SnapshotJob.epoch_take, hepoch]

theorem barrierAll (h : Kept ks s) (keys : List Str) :
    Kept ks (keys.foldl (fun s key => s.snapshotBarrier key) s) := by
  induction keys generalizing s with
  | nil => exact h
  | cons key rest ih => exact ih (h.snapshotBarrier key)

theorem stepSnapshot (h : Kept ks s) (n : Nat) : Kept ks (s.stepSnapshot n) := by
  unfold Store.stepSnapshot
  split
  · exact h
  case h_2 job _ =>
    have hall := h.barrierAll (job.pending.take n)
    simp only
    split
    · exact hall
    case h_2 copied hcopied =>
      split
      · exact ⟨nofun, hall.entry⟩
      · refine ⟨?_, hall.entry⟩
        rintro _ ⟨⟩
        exact hall.job copied hcopied

section Policy

variable [EvictionPolicy σ]

theorem remove (h : Kept ks s) (key : Str) : Kept ks (s.remove key) := by
  have hbarrier := h.snapshotBarrier key
  unfold Store.remove drop
  split
  · exact hbarrier
  · refine ⟨hbarrier.job, fun k entry hget => hbarrier.entry k entry ?_⟩
    rw [Dict.get?_erase] at hget
    split at hget
    · simp at hget
    · exact hget

/-- A new value at a key that may change. -/
theorem fresh (epoch : Nat) {key : Str} {value : Value SortedSet} {nbytes : Int}
    (hcounted : Counted value nbytes) (hkey : key ∈ ks) (deadline : Option Int) :
    Entry.Kept epoch (key ∈ ks) key
      { value := value, expiresAt := deadline, size := entrySize key value nbytes
        nbytes := nbytes, copied := epoch } :=
  ⟨hcounted, le_rfl, fun hk => absurd hkey hk, fun hk => absurd hkey hk⟩

/-- **Every move keeps it.** -/
theorem move {sure : Prop} (h : Kept ks s) (hmove : Move sure ks s s') : Kept ks s' := by
  cases hmove with
  | aside hsame => exact h.of_eq hsame.data hsame.snapshotEpoch hsame.snapshotJob
  | access | victim => exact h.of_eq rfl rfl rfl
  | insert now hkey _ hcounted => exact h.set rfl rfl h.job (fresh _ hcounted hkey none)
  | replace now keepTtl hkey _ hcounted => exact h.set rfl rfl h.job (fresh _ hcounted hkey _)
  | @mutate key value nbytes _ hkey hcounted =>
    unfold Store.mutate
    split
    · exact h
    case h_2 entry hget =>
      have hentry := h.entry key entry hget
      exact h.set rfl rfl h.job ⟨hcounted entry hget hentry.counted, hentry.stamp,
        fun hk => absurd hkey hk, fun hk => absurd hkey hk⟩
  | @setDeadline key entry deadline _ hkey hget =>
    have hentry := h.entry key entry hget
    exact h.set rfl rfl h.job ⟨hentry.counted, hentry.stamp, hentry.size, hentry.nonempty⟩
  | remove key => exact h.remove key
  | clear =>
    have hstep := h.stepSnapshot s.remaining
    exact ⟨hstep.job, fun key entry hget => absurd hget (by simp [clear])⟩
  | barrier key => exact h.snapshotBarrier key
  | stepSnapshot n => exact h.stepSnapshot n

theorem moves {sure : Prop} (h : Kept ks s) (hmoves : Moves sure ks s s') : Kept ks s' := by
  induction hmoves with
  | refl => exact h
  | tail _ hmove ih => exact ih.move hmove

omit [EvictionPolicy σ] in
theorem mono {ks' : List Str} (hsub : ks ⊆ ks') (h : Kept ks s) : Kept ks' s where
  job := h.job
  entry key entry hget :=
    have hentry := h.entry key entry hget
    ⟨hentry.counted, hentry.stamp, fun hk => hentry.size fun hmem => hk (hsub hmem),
      fun hk => hentry.nonempty fun hmem => hk (hsub hmem)⟩

theorem refresh {key : Str} (h : Kept (key :: ks) s) : Kept ks (s.refresh key) := by
  -- A key that is still changing after this one was changing before.
  have hother : ∀ (k : Str) (entry : Entry), k ≠ key → entry.Kept s.snapshotEpoch (k ∈ key :: ks) k →
      entry.Kept s.snapshotEpoch (k ∈ ks) k := by
    intro k entry hk hentry
    have hmem : k ∉ ks → k ∉ key :: ks := fun hnot => by simp [hk, hnot]
    exact ⟨hentry.counted, hentry.stamp, fun hn => hentry.size (hmem hn),
      fun hn => hentry.nonempty (hmem hn)⟩
  unfold Store.refresh
  split
  case h_1 hnone =>
    refine ⟨h.job, fun k entry hget => hother k entry ?_ (h.entry k entry hget)⟩
    rintro rfl
    simp [hnone] at hget
  case h_2 entry hget =>
    split
    case isTrue =>
      have hremove := h.remove key
      have hgone := get?_remove_self key s
      have hepoch : (s.remove key).snapshotEpoch = s.snapshotEpoch := snapshotEpoch_remove key s
      refine ⟨hremove.job, fun k entry hk => ?_⟩
      rw [hepoch]
      refine hother k entry ?_ (hepoch ▸ hremove.entry k entry hk)
      rintro rfl
      simp [hgone] at hk
    case isFalse hne =>
      refine ⟨h.job, fun k e hk => ?_⟩
      rw [Dict.get?_set] at hk
      split at hk
      case isTrue heq =>
        obtain rfl := Option.some.inj hk
        have hentry := h.entry key entry hget
        exact ⟨hentry.counted, hentry.stamp, fun _ => by rw [heq], fun _ => by simpa using hne⟩
      case isFalse heq => exact hother k e heq (h.entry k e hk)

theorem refreshAll (h : Kept ks s) : Kept [] (s.refreshAll ks) := by
  unfold Store.refreshAll
  induction ks generalizing s with
  | nil => exact h
  | cons key rest ih => exact ih h.refresh

/-- **Every step keeps it.** -/
theorem step {sure : Prop} (h : Kept [] s) (hstep : Step sure s s') : Kept [] s' := by
  cases hstep with
  | quiet hmoves => exact h.moves hmoves
  | begin now receiver =>
    refine ⟨?_, fun key entry hget => ?_⟩
    · rintro _ ⟨⟩
      rfl
    · have hentry := h.entry key entry hget
      exact ⟨hentry.counted, hentry.stamp.trans (Nat.le_succ _), hentry.size, hentry.nonempty⟩
  | write ks _ hmoves => exact ((h.mono (List.nil_subset ks)).moves hmoves).refreshAll

theorem steps {sure : Prop} (h : Kept [] s) (hsteps : Steps sure s s') : Kept [] s' := by
  induction hsteps with
  | refl => exact h
  | tail _ hstep ih => exact ih.step hstep

omit [EvictionPolicy σ] in
/-- No copy of a key is of an empty collection. -/
theorem copies (h : Kept [] s) (now : Nat) : ∀ r ∈ s.snapshot now, r.2.1.isEmpty = false := by
  intro r hr
  simp only [snapshot, List.mem_map, List.mem_filter] at hr
  obtain ⟨⟨key, entry⟩, ⟨hmem, -⟩, rfl⟩ := hr
  have hentry := h.entry key entry ((s.data.mem_entries_iff key entry).mp hmem)
  exact hentry.counted.payload_isEmpty (hentry.nonempty List.not_mem_nil)

end Policy

end Kept

end Store

theorem Engine.kept_new {σ : Type} (config : Engine.Config σ) (env : Env) (p : Option Persistence) :
    (Engine.new config env p).store.Kept [] :=
  ⟨nofun, fun key entry hget => by simp [Engine.new] at hget⟩

/-- **It holds of every engine that arises.** -/
theorem Engine.Arises.kept {σ : Type} [EvictionPolicy σ] {sure : Prop} {e : Engine σ}
    (h : e.Arises sure) : e.store.Kept [] :=
  h.invariant (I := fun s => s.Kept [])
    (fun config env p _ => Engine.kept_new config env p)
    (fun hI hstep => hI.step hstep) (fun hI => hI.copies)

end KvStore
