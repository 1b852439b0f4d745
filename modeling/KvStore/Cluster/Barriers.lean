import KvStore.Cluster.Retries

/-! # Barriers in a batch

The groups of one wait are served at the same time, so that the router orders the commands of a batch only by
the waits they are executed in. A command for every group is a barrier (`execute_batch`): everything before
it is answered first, and nothing behind it is sent before it is answered.

* **`Ranked batch lo hi log`** — what a part of a batch executes, by the numbers of the commands.
* **`batch_barriers`** — whatever the exchanges come to, with all their retries. -/

namespace KvStore

open List

namespace Router

theorem Run.log_bind_pure {ω α β : Type} (x : Run ω α) (g : α → β) :
    (x.bind fun a => .pure (g a)).log = x.log := by
  cases h : x.result with
  | error c => rw [Run.bind_error h]
  | ok a => rw [Run.bind_ok h, Run.pure, append_nil]

/-- A command for every group. -/
def ForEveryGroup (command : List Str) : Prop :=
  ∃ c ∈ fanoutCommands, command.head?.bind Command.ofText = some c

/-- **What a part of a batch executes, wait by wait**: some of the commands from number `lo` up to `hi`; those
of an earlier wait come before those of a later one, and a command for every group has its wait for itself. -/
structure Ranked (batch : List (List Str)) (lo hi : Nat) (log : List FlushLog) : Prop where
  within : ∀ f ∈ log, ∀ i ∈ f.flatten, lo ≤ i ∧ i < hi
  sorted : log.Pairwise fun f g => ∀ i ∈ f.flatten, ∀ j ∈ g.flatten, i < j
  alone : ∀ f ∈ log, ∀ i ∈ f.flatten, ForEveryGroup (batch.getD i []) → ∀ j ∈ f.flatten, j = i

namespace Ranked

variable {batch : List (List Str)} {lo mid hi : Nat} {log log' : List FlushLog}

theorem nil : Ranked batch lo hi [] := ⟨by simp, List.Pairwise.nil, by simp⟩

theorem mono (h : Ranked batch lo mid log) (hle : mid ≤ hi) : Ranked batch lo hi log where
  within f hf i hi := ⟨(h.within f hf i hi).1, (h.within f hf i hi).2.trans_le hle⟩
  sorted := h.sorted
  alone := h.alone

/-- What is executed later has larger numbers. -/
theorem append (h : Ranked batch lo mid log) (h' : Ranked batch mid hi log') (hlo : lo ≤ mid)
    (hhi : mid ≤ hi) : Ranked batch lo hi (log ++ log') := by
  refine ⟨fun f hf i hi => ?_, pairwise_append.mpr ⟨h.sorted, h'.sorted, fun f hf g hg i hi j hj => ?_⟩,
    fun f hf => ?_⟩
  · rcases mem_append.mp hf with hf | hf
    · exact (h.mono hhi).within f hf i hi
    · exact ⟨hlo.trans (h'.within f hf i hi).1, (h'.within f hf i hi).2⟩
  · exact (h.within f hf i hi).2.trans_le (h'.within g hg j hj).1
  · rcases mem_append.mp hf with hf | hf
    · exact h.alone f hf
    · exact h'.alone f hf

theorem bind {α β : Type} {x : Run FlushLog α} {f : α → Run FlushLog β} (h : Ranked batch lo mid x.log)
    (h' : ∀ a, x.result = .ok a → Ranked batch mid hi (f a).log) (hlo : lo ≤ mid) (hhi : mid ≤ hi) :
    Ranked batch lo hi (x.bind f).log := by
  cases hresult : x.result with
  | error c =>
    rw [Run.bind_error hresult]
    exact h.mono hhi
  | ok a =>
    rw [Run.bind_ok hresult]
    exact h.append (h' a hresult) hlo hhi

end Ranked

/-! ## What a wait executes -/

section
variable [Digest] (settings : Settings) {batch : List (List Str)} {lo hi : Nat}

/-- Only what is to be sent is executed, however often it is sent again. -/
theorem not_mem_attempts (p : Share) (env : Nat → Attempt) (replica : Bool) (n t : Nat) (s : Sending)
    {todo : List Nat} {k : Nat} (hk : k ∉ todo) : k ∉ (attempts settings p env replica n t s todo).log := by
  induction n generalizing t s todo with
  | zero => exact not_mem_nil
  | succ n ih =>
    obtain ⟨hcount, hother⟩ := attempt_other settings p (env t) (t = 0) replica s hk
    have hlog := count_eq_zero.mp hcount
    rw [attempts]
    cases hresult : (attempt settings p (env t) (t = 0) replica s todo).result with
    | error c =>
      rw [Run.bind_error hresult]
      exact hlog
    | ok acc =>
      obtain ⟨s₁, retry⟩ := acc
      rw [Run.bind_ok hresult, mem_append, not_or]
      refine ⟨hlog, ?_⟩
      dsimp only
      split
      · exact not_mem_nil
      · exact ih _ _ fun h => (hother s₁ retry hresult).2 ((mem_insertionSort _).mp h)

/-- What a group executes is of its share. -/
theorem mem_sendGroup {env : Str → Nat → Attempt} {group : Str × List Nat} {k : Nat}
    (h : k ∈ (sendGroup settings env batch group).log) : k ∈ group.2 := by
  obtain ⟨x, hx, rfl⟩ := mem_map.mp h
  have hlt : x < group.2.length := by
    by_contra hge
    rw [sendWithRetries, Run.log_bind_pure] at hx
    exact not_mem_attempts _ _ _ _ _ _ _ (by simpa using hge) hx
  rw [getD_eq_getElem _ _ hlt]
  exact getElem_mem hlt

/-- One wait, if a command for every group is the only one in it. -/
theorem ranked_wait (env : Str → Nat → Attempt) {groups : List (Str × List Nat)}
    (hwithin : ∀ i ∈ planned groups, lo ≤ i ∧ i < hi)
    (halone : ∀ i ∈ planned groups, ForEveryGroup (batch.getD i []) → ∀ j ∈ planned groups, j = i) :
    Ranked batch lo hi [(groups.map (sendGroup settings env batch)).map Run.log] := by
  have hmem : ∀ i ∈ ((groups.map (sendGroup settings env batch)).map Run.log).flatten,
      i ∈ planned groups := by
    intro i hi
    obtain ⟨log, hlog, hi⟩ := mem_flatten.mp hi
    rw [map_map] at hlog
    obtain ⟨group, hgroup, rfl⟩ := mem_map.mp hlog
    exact mem_flatMap.mpr ⟨group, hgroup, mem_sendGroup settings hi⟩
  refine ⟨fun f hf i hi => ?_, pairwise_singleton _ _, fun f hf i hi hall j hj => ?_⟩
  · rw [mem_singleton.mp hf] at hi
    exact hwithin i (hmem i hi)
  · rw [mem_singleton.mp hf] at hi hj
    exact halone i (hmem i hi) hall j (hmem j hj)

/-! ## The loop -/

/-- The commands that wait to be sent have one group each. -/
def Waiting (batch : List (List Str)) (lo hi : Nat) (pending : List (Str × List Nat)) : Prop :=
  ∀ i ∈ planned pending, (lo ≤ i ∧ i < hi) ∧ ¬ ForEveryGroup (batch.getD i [])

/-- What has keys is not for every group. -/
theorem route_shard {v : View} {command : List Str} {id : Str}
    (h : route settings v command = .ok (.shard id)) : ¬ ForEveryGroup command := by
  rintro ⟨c, hc, hname⟩
  have hkeys : c.spec.stateless = false ∧ ∀ args, c.keyArgs args = [] := by
    simp only [fanoutCommands, mem_cons, not_mem_nil, or_false] at hc
    rcases hc with rfl | rfl | rfl | rfl | rfl | rfl | rfl <;> exact ⟨rfl, fun _ => rfl⟩
  cases command with
  | nil => cases h
  | cons name args =>
    have hname' : Command.ofText name = some c := hname
    simp only [route, hname', hkeys.1, hkeys.2 args, hc, if_true, Bool.false_eq_true, if_false] at h
    split at h <;> cases h

theorem flush_ranked (env : BatchEnv) {s : BatchState} (h : Waiting batch lo hi s.pending) :
    Ranked batch lo hi (flush settings env batch s).log ∧
      ∀ s', (flush settings env batch s).result = .ok s' → s'.pending = [] := by
  have hwait := ranked_wait settings (env.send s.waits) (fun i hi => (h i hi).1)
    fun i hi hall => absurd hall (h i hi).2
  unfold flush
  split
  · rename_i hnone
    exact ⟨.nil, fun s' h => by cases h; exact hnone⟩
  · dsimp only
    split
    · exact ⟨hwait, fun s' h => by cases h⟩
    · exact ⟨hwait, fun s' h => by cases h; rfl⟩

theorem fanout_ranked (env : BatchEnv) (n : Nat) (c : Command) (s : BatchState) :
    Ranked batch n (n + 1) (fanout settings env batch n c s).log ∧
      ∀ s', (fanout settings env batch n c s).result = .ok s' → s'.pending = s.pending := by
  have hone : ∀ i ∈ planned ((env.view s.waits).config.shards.map fun group => (group.id, [n])), i = n := by
    simp [planned]
  have hwait : Ranked batch n (n + 1) _ := ranked_wait settings (env.send s.waits)
    (fun i hi => hone i hi ▸ ⟨le_rfl, Nat.lt_succ_self _⟩)
    fun i hi _ j hj => (hone j hj).trans (hone i hi).symm
  unfold fanout
  dsimp only
  split
  · exact ⟨hwait, fun s' h => by cases h⟩
  · split
    · exact ⟨hwait, fun s' h => by cases h; rfl⟩
    · split
      · exact ⟨hwait, fun s' h => by cases h⟩
      · exact ⟨hwait, fun s' h => by cases h; rfl⟩

/-- **The loop over a batch**: what waits was put there since the last barrier. -/
theorem batchLoop_ranked (env : BatchEnv) (commands : List (List Str)) (n : Nat)
    (hbatch : batch.drop n = commands) (hn : n + commands.length = batch.length) (s : BatchState)
    (hlo : lo ≤ n) (h : Waiting batch lo n s.pending) :
    Ranked batch lo batch.length (batchLoop settings env batch commands n s).log := by
  induction commands generalizing n s lo with
  | nil =>
    rw [length_nil, Nat.add_zero] at hn
    exact (flush_ranked settings env h).1.mono hn.le
  | cons command commands ih =>
    have hcommand : batch.getD n [] = command := by
      rw [getD_eq_getElem?_getD, ← head?_drop, hbatch]
      rfl
    have hrest : batch.drop (n + 1) = commands := by
      rw [← drop_drop, hbatch, drop_one, tail_cons]
    rw [length_cons] at hn
    have hnext : Waiting batch lo (n + 1) s.pending := fun i hi =>
      ⟨⟨(h i hi).1.1, (h i hi).1.2.trans (Nat.lt_succ_self n)⟩, (h i hi).2⟩
    rw [batchLoop]
    cases hroute : route settings (env.view s.waits) command with
    | error err =>
      cases err with
      | crash c => exact .nil
      | error e => exact ih (n + 1) hrest (by omega) _ (by omega) hnext
    | ok routed =>
      cases routed with
      | answered reply => exact ih (n + 1) hrest (by omega) _ (by omega) hnext
      | shard id =>
        refine ih (n + 1) hrest (by omega) _ (by omega) fun i hi => ?_
        have hcount := count_addTo s.pending id n i
        have hpos := count_pos_iff.mpr hi
        rw [hcount] at hpos
        by_cases hin : i = n
        · subst hin
          exact ⟨⟨hlo, Nat.lt_succ_self i⟩, hcommand ▸ route_shard settings hroute⟩
        · rw [count_singleton, if_neg (by simpa using Ne.symm hin)] at hpos
          exact hnext i (count_pos_iff.mp hpos)
      | fanout =>
        obtain ⟨hranked, hflushed⟩ := flush_ranked settings env h
        refine hranked.bind (fun s₁ hs₁ => ?_) hlo (by omega)
        split
        · exact .nil
        · -- behind the barrier nothing waits
          rename_i c _
          obtain ⟨hranked₁, hkept⟩ := fanout_ranked settings env n c s₁
          refine hranked₁.bind (fun s₂ hs₂ => ?_) (Nat.le_succ n) (by omega)
          refine ih (n + 1) hrest (by omega) s₂ le_rfl ?_
          rw [hkept s₂ hs₂, hflushed s₁ hs₁]
          exact fun i hi => absurd hi not_mem_nil

/-- **A command for every group is a barrier.** Whatever the views of the router and the exchanges with the
nodes, with all their retries: what a batch executes in an earlier wait comes before what it executes in a
later one, and in the wait of a command for every group no other command is executed. -/
theorem batch_barriers (settings : Settings) (env : BatchEnv) (batch : List (List Str)) :
    let log := (executeBatch settings env batch).log
    log.Pairwise (fun f g => ∀ i ∈ f.flatten, ∀ j ∈ g.flatten, i < j) ∧
      ∀ f ∈ log, ∀ i ∈ f.flatten, i < batch.length ∧
        (ForEveryGroup (batch.getD i []) → ∀ j ∈ f.flatten, j = i) := by
  have hranked := batchLoop_ranked settings env batch 0 rfl (Nat.zero_add _) ⟨0, fun _ => .nil, []⟩
    le_rfl fun _ hi => absurd hi not_mem_nil
  intro log
  have hlog : log = _ := Run.log_bind_pure _ _
  rw [hlog]
  exact ⟨hranked.sorted, fun f hf i hi => ⟨(hranked.within f hf i hi).2, hranked.alone f hf i hi⟩⟩

end

end Router

end KvStore
