import KvStore.Engine.Replay.Effects

/-! # The effects of the set commands

SADD and SREM log the members that were new or went, SPOP the SREM of the members it chose. Replaying
the loop on those members alone gives the same set in the same order (`saddLoop_added`,
`sremLoop_removed`). -/

namespace KvStore

open Commands Reg Prog

variable [CPython] {env : Env} {key : Str} {cur : Option Item}

/-! ## Loops -/

section

omit [CPython]

/-- The members added, added again to the same set. -/
theorem saddLoop_added (s : KeySet) (members : List Str) :
    saddLoop s (saddLoop s members).2 = saddLoop s members := by
  induction members generalizing s with
  | nil => rfl
  | cons m rest ih =>
    by_cases hm : s.contains m = true
    · simp only [saddLoop, hm, if_true]
      exact ih s
    · rw [Bool.not_eq_true] at hm
      simp only [saddLoop, hm, Bool.false_eq_true, if_false, ih (s.add m)]

/-- When no member was new, nothing changed. -/
theorem saddLoop_eq_nil {s : KeySet} {members : List Str} (h : (saddLoop s members).2 = []) :
    (saddLoop s members).1 = s := by
  rw [← saddLoop_added, h]
  rfl

/-- The members removed, removed again from the same set. -/
theorem sremLoop_removed (s : KeySet) (members : List Str) :
    sremLoop s (sremLoop s members).2 = sremLoop s members := by
  induction members generalizing s with
  | nil => rfl
  | cons m rest ih =>
    by_cases hm : s.contains m = true
    · simp only [sremLoop, hm, if_true]
      rw [ih (s.discard m)]
    · rw [Bool.not_eq_true] at hm
      simp only [sremLoop, hm, Bool.false_eq_true, if_false]
      exact ih s

/-- When no member went, nothing changed. -/
theorem sremLoop_eq_nil {s : KeySet} {members : List Str} (h : (sremLoop s members).2 = []) :
    (sremLoop s members).1 = s := by
  rw [← sremLoop_removed, h]
  rfl

/-- Distinct members of the set all go. -/
theorem sremLoop_subperm {s : KeySet} {members : List Str} (hnd : members.Nodup)
    (hsub : ∀ m ∈ members, m ∈ s.items) : (sremLoop s members).2 = members := by
  induction members generalizing s with
  | nil => rfl
  | cons m rest ih =>
    have hm : s.contains m = true := by simpa [KeySet.contains] using hsub m (by simp)
    have hrest := ih (s := s.discard m) (List.nodup_cons.mp hnd).2 (by
      intro x hx
      rw [KeySet.mem_discard]
      exact ⟨hsub x (by simp [hx]), fun h => (List.nodup_cons.mp hnd).1 (h ▸ hx)⟩)
    simp only [sremLoop, hm, if_true, hrest]

end

/-! ## Replaying the effects -/

theorem step_sadd {s : KeySet} {d : Option Int} {members : List Str}
    (hcur : targetOf .set cur = some ⟨.set s, d⟩) (hadded : (saddLoop s members).2 ≠ []) :
    Step key ⟨.sadd, key :: (saddLoop s members).2⟩ cur
      (finish (some ⟨.set (saddLoop s members).1, d⟩)) := by
  refine .of_run _ rfl rfl trivial (by simp [Command.checkArity, Command.spec, hadded])
    fun env m hm _ _ => ?_
  simp only [Command.handler, Commands.sadd, bind_eq, run_writeTarget (found_off hm _ _ _) hcur,
    Value.map, saddLoop_added]
  simp [propagate, run_op, Reg.exec, Reg.edit, saddLoop_added, hadded]

theorem step_srem (s : KeySet) (d : Option Int) {members : List Str}
    (hremoved : (sremLoop s members).2 = members) (hne : members ≠ []) :
    Step key ⟨.srem, key :: members⟩ (some ⟨.set s, d⟩)
      (finish (some ⟨.set (sremLoop s members).1, d⟩)) := by
  refine .of_run _ rfl rfl trivial (by simp [Command.checkArity, Command.spec, hne])
    fun env m hm _ _ => ?_
  simp [Command.handler, Commands.srem, readSet, hremoved, hne, propagate, run_op, Reg.exec,
    Reg.edit, Value.map, lookup_off hm, Item.seen]

/-! ## The handlers -/

theorem faithful_sadd (rest : List Str) (hcur : finish cur = cur) :
    Faithful env key (Commands.sadd (key :: rest)) cur cur := by
  refine faithful_writeTarget hcur fun found v d hfinish htarget => ?_
  cases v with
  | set s =>
    refine faithful_op rfl ?_
    by_cases hadded : (saddLoop s rest).2 = []
    · simp only [hadded, ret_bind, if_true]
      refine faithful_ret _ ?_
      simpa [saddLoop_eq_nil hadded] using finish_target (by simp) hfinish htarget
    · simp only [hadded, ret_bind, if_false]
      refine faithful_log _ ?_
      simpa using step_sadd htarget hadded
  | _ => exact absurd (targetOf_kind htarget) (by simp [Value.kind])

theorem faithful_srem (rest : List Str) (hcur : finish cur = cur) :
    Faithful env key (Commands.srem (key :: rest)) cur cur := by
  refine faithful_readSet hcur (faithful_ret _ rfl) fun s d _ hfinish => ?_
  refine faithful_op rfl ?_
  by_cases hremoved : (sremLoop s rest).2 = []
  · simp only [hremoved, ret_bind, if_true]
    refine faithful_ret _ ?_
    simpa [sremLoop_eq_nil hremoved] using hfinish
  · simp only [hremoved, ret_bind, if_false]
    have hstep := @step_srem _ key s d _ (congrArg Prod.snd (sremLoop_removed s rest)) hremoved
    rw [sremLoop_removed] at hstep
    refine faithful_log _ ?_
    simpa using hstep

theorem faithful_spop (rest : List Str) (hcur : finish cur = cur) :
    Faithful env key (Commands.spop (key :: rest)) cur cur := by
  refine faithful_attempt hcur fun count _ => ?_
  refine faithful_readSet hcur (faithful_ret _ rfl) fun s d _ hfinish => ?_
  have hsub := (env.sampler 0).subperm s.items (min (count.getD 1) s.items.length)
  refine faithful_op rfl (faithful_op rfl ?_)
  generalize (env.sampler 0).pick s.items (min (count.getD 1) s.items.length) = popped at hsub
  obtain ⟨popped', hperm, hsublist⟩ := hsub
  have hremoved : (sremLoop s popped).2 = popped :=
    sremLoop_subperm (hperm.nodup_iff.mp (s.nodup.sublist hsublist))
      fun m hm => hsublist.subset (hperm.mem_iff.mpr hm)
  by_cases hpopped : popped = []
  · simp only [hpopped, ret_bind, if_true]
    exact faithful_ret _ hfinish
  · simp only [hpopped, ret_bind, if_false]
    refine faithful_log _ ?_
    simpa using step_srem s d hremoved hpopped

end KvStore
