import KvStore.Engine.Replay.Effects

/-! # The effects of the list commands

The pops log how many elements went, which is at most the count asked for. An LTRIM that is not
logged kept every element. -/

namespace KvStore

open Commands Reg List Prog

variable [CPython] {env : Env} {key : Str} {cur : Option Item}

/-! ## Lists -/

omit [CPython] in
theorem ListValue.range_sublist (items : List Str) (start stop : Int) :
    (ListValue.range items start stop).Sublist items := by
  unfold ListValue.range
  split
  · exact nil_sublist items
  · dsimp only
    split
    · rw [← reverse_sublist, reverse_reverse]
      exact (take_sublist _ _).trans (drop_sublist _ _)
    · exact (take_sublist _ _).trans (drop_sublist _ items)

omit [CPython] in
/-- A trim that keeps the length keeps everything. -/
theorem ListValue.trim_eq {items : List Str} {start stop : Int}
    (h : (ListValue.trim items start stop).length = items.length) :
    ListValue.trim items start stop = items :=
  (ListValue.range_sublist items start stop).eq_of_length h

/-! ## Replaying the effects -/

theorem step_push (left : Bool) {values items : List Str} {d : Option Int} (hvalues : values ≠ [])
    (hcur : targetOf .list cur = some ⟨.list items, d⟩) :
    Step key ⟨if left then .lpush else .rpush, key :: values⟩ cur
      (finish (some ⟨.list (if left then ListValue.pushLeft items values
        else ListValue.pushRight items values), d⟩)) := by
  cases left with
  | true =>
    refine .of_run _ rfl rfl trivial (by simp [Command.checkArity, Command.spec, hvalues])
      fun env m hm _ _ => ?_
    simp [Command.handler, Commands.lpush, push, run_writeTarget (found_off hm _ _ _) hcur, Value.map, propagate,
      run_op, Reg.exec, Reg.edit, Edit.apply]
  | false =>
    refine .of_run _ rfl rfl trivial (by simp [Command.checkArity, Command.spec, hvalues])
      fun env m hm _ _ => ?_
    simp [Command.handler, Commands.rpush, push, run_writeTarget (found_off hm _ _ _) hcur, Value.map, propagate,
      run_op, Reg.exec, Reg.edit, Edit.apply]

omit [CPython] in
theorem run_readList {α : Type} {m : Mode} (hm : m.expiry = false) (items : List Str)
    (d : Option Int) (f : Option (List Str) → Cmd α) (out : List Effect) :
    ((readList key).bind f).run (exec env m key) ⟨some ⟨.list items, d⟩, out⟩ =
      (f (some items)).run (exec env m key) ⟨some ⟨.list items, d⟩, out⟩ := by
  simp [readList, run_op, exec, lookup_off hm, Item.seen, Value.map]

omit [CPython] in
theorem popCount_showInt {n : Nat} (h : ∃ k, intArg (showInt n) = .ok k) :
    popCount [showInt n] = .ok (some n) := by
  simp only [popCount, intArg_showInt_eq h]
  simp

theorem step_pop (left : Bool) (items : List Str) (d : Option Int) (count : Nat)
    (hpopped : (ListValue.pop items count left).1 ≠ []) :
    Step key ⟨if left then .lpop else .rpop,
        [key, showInt (ListValue.pop items count left).1.length]⟩ (some ⟨.list items, d⟩)
      (finish (some ⟨.list (ListValue.pop items count left).2, d⟩)) := by
  have hsame := ListValue.pop_length items count left
  have hrun : ∀ (env : Env) (m : Mode), m.expiry = false →
      popCount [showInt (ListValue.pop items count left).1.length] =
        .ok (some (ListValue.pop items count left).1.length) →
      (∃ reply, ((pop left [key, showInt (ListValue.pop items count left).1.length]).run
        (exec env m key) ⟨some ⟨.list items, d⟩, []⟩).1 = .ok reply) ∧
      ((pop left [key, showInt (ListValue.pop items count left).1.length]).run
        (exec env m key) ⟨some ⟨.list items, d⟩, []⟩).2.cur =
          some ⟨.list (ListValue.pop items count left).2, d⟩ := by
    intro env m hm hcount
    simp [pop, hcount, run_readList hm, hsame, hpopped, propagate, run_op, Reg.exec, Reg.edit,
      Edit.apply]
  cases left with
  | true | false =>
    refine .of_run _ rfl rfl trivial rfl fun env m hm _ hread => hrun env m hm ?_
    exact popCount_showInt (hread _ (by simp [Effect.numbers]))

theorem step_lset {items after : List Str} {index : Int} {value : Str} (d : Option Int)
    (hset : ListValue.set items index value = some after) :
    Step key ⟨.lset, [key, showInt index, value]⟩ (some ⟨.list items, d⟩)
      (finish (some ⟨.list after, d⟩)) := by
  refine .of_run _ rfl rfl trivial rfl fun env m hm _ hread => ?_
  have hindex := intArg_showInt_eq (hread (showInt index) (by simp [Effect.numbers]))
  simp only [Command.handler, Commands.lset, hindex, bind_eq, ofExcept_ok, ret_bind,
    run_readList hm, hset]
  simp [propagate, run_op, Reg.exec, Reg.edit, Edit.apply, hset]

theorem step_ltrim (items : List Str) (d : Option Int) (start stop : Int) :
    Step key ⟨.ltrim, [key, showInt start, showInt stop]⟩ (some ⟨.list items, d⟩)
      (finish (some ⟨.list (ListValue.trim items start stop), d⟩)) := by
  refine .of_run _ rfl rfl trivial rfl fun env m hm _ hread => ?_
  have hstart := intArg_showInt_eq (hread (showInt start) (by simp [Effect.numbers]))
  have hstop := intArg_showInt_eq (hread (showInt stop) (by simp [Effect.numbers]))
  simp only [Command.handler, Commands.ltrim, hstart, hstop, bind_eq, ofExcept_ok,
    ret_bind, run_readList hm]
  split <;> simp [propagate, run_op, Reg.exec, Reg.edit, Edit.apply]

theorem step_lrem (items : List Str) (d : Option Int) (count : Int) (value : Str)
    (hremoved : (ListValue.remove items count value).2 ≠ 0) :
    Step key ⟨.lrem, [key, showInt count, value]⟩ (some ⟨.list items, d⟩)
      (finish (some ⟨.list (ListValue.remove items count value).1, d⟩)) := by
  refine .of_run _ rfl rfl trivial rfl fun env m hm _ hread => ?_
  have hcount := intArg_showInt_eq (hread (showInt count) (by simp [Effect.numbers]))
  simp only [Command.handler, Commands.lrem, hcount, bind_eq, ofExcept_ok,
    ret_bind, run_readList hm, if_neg hremoved]
  simp [propagate, run_op, Reg.exec, Reg.edit, Edit.apply]

/-! ## The handlers -/

theorem faithful_push (left : Bool) {values : List Str} (hvalues : values ≠ [])
    (hcur : finish cur = cur) : Faithful env key (push left (key :: values)) cur cur := by
  refine faithful_writeTarget hcur fun found v d hfinish htarget => ?_
  cases v with
  | list items =>
    refine faithful_mutate _ ?_
    have hstep : Step key _ _ _ := step_push left hvalues htarget
    cases left <;> exact hstep
  | _ => exact absurd (targetOf_kind htarget) (by simp [Value.kind])

theorem faithful_pop (left : Bool) (rest : List Str) (hcur : finish cur = cur) :
    Faithful env key (pop left (key :: rest)) cur cur := by
  refine faithful_attempt hcur fun count _ => ?_
  refine faithful_readList hcur (faithful_ret _ rfl) fun items d _ hfinish => ?_
  have hstep := @step_pop _ key left items d (count.getD 1)
  refine faithful_op rfl ?_
  by_cases hpopped : (ListValue.pop items (count.getD 1) left).1 = []
  · simp only [hpopped, ret_bind, if_true]
    refine faithful_ret _ ?_
    have hsame := ListValue.pop_eq_nil hpopped
    simpa [Edit.apply, hsame] using hfinish
  · simp only [hpopped, ret_bind, if_false]
    exact faithful_log _ (hstep hpopped)

theorem faithful_lset (rest : List Str) (hcur : finish cur = cur) :
    Faithful env key (Commands.lset (key :: rest)) cur cur := by
  match rest with
  | [arg, value] =>
    refine faithful_attempt hcur fun index _ => ?_
    refine faithful_readList hcur (faithful_fail _ rfl) fun items d _ hfinish => ?_
    cases hset : ListValue.set items index value with
    | none =>
      simp only [hset]
      exact faithful_fail _ hfinish
    | some after =>
      simp only [hset]
      exact faithful_mutate _ (by simpa [Edit.apply, hset] using step_lset d hset)
  | [] | [_] | _ :: _ :: _ :: _ => exact faithful_fail _ hcur

theorem faithful_ltrim (rest : List Str) (hcur : finish cur = cur) :
    Faithful env key (Commands.ltrim (key :: rest)) cur cur := by
  match rest with
  | [startArg, stopArg] =>
    refine faithful_attempt hcur fun start _ => ?_
    refine faithful_attempt hcur fun stop _ => ?_
    refine faithful_readList hcur (faithful_ret _ rfl) fun items d _ hfinish => ?_
    refine faithful_op rfl ?_
    by_cases hlen : (ListValue.trim items start stop).length = items.length
    · simp only [hlen, ret_bind, if_true]
      refine faithful_ret _ ?_
      simpa [Edit.apply, ListValue.trim_eq hlen] using hfinish
    · simp only [hlen, ret_bind, if_false]
      exact faithful_log _ (step_ltrim items d start stop)
  | [] | [_] | _ :: _ :: _ :: _ => exact faithful_fail _ hcur

theorem faithful_lrem (rest : List Str) (hcur : finish cur = cur) :
    Faithful env key (Commands.lrem (key :: rest)) cur cur := by
  match rest with
  | [countArg, value] =>
    refine faithful_attempt hcur fun count _ => ?_
    refine faithful_readList hcur (faithful_ret _ rfl) fun items d _ hfinish => ?_
    dsimp only
    by_cases hremoved : (ListValue.remove items count value).2 = 0
    · rw [if_pos hremoved]
      exact faithful_ret _ hfinish
    · rw [if_neg hremoved]
      exact faithful_mutate _ (step_lrem items d count value hremoved)
  | [] | [_] | _ :: _ :: _ :: _ => exact faithful_fail _ hcur

end KvStore
