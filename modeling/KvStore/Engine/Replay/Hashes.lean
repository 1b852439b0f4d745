import KvStore.Engine.Replay.Effects

/-! # The effects of the hash commands

HDEL logs the fields it removed; removing these alone leaves the same hash (`hdelLoop_removed`). -/

namespace KvStore

open Commands Reg Prog

variable [CPython] {env : Env} {key : Str} {cur : Option Item}

/-! ## Loops -/

omit [CPython] in
/-- The fields removed, removed again from the same hash. -/
theorem hdelLoop_removed (fields : Dict Str Str) (names : List Str) :
    hdelLoop fields (hdelLoop fields names).2 = hdelLoop fields names := by
  induction names generalizing fields with
  | nil => rfl
  | cons field rest ih =>
    cases hget : fields.get? field with
    | none =>
      simp only [hdelLoop, hget]
      exact ih fields
    | some value =>
      simp only [hdelLoop, hget]
      rw [ih (fields.erase field)]

/-! ## Replaying the effects -/

variable {d : Option Int} {fields : Dict Str Str}

theorem step_hset {rest : List Str} (harity : Command.checkArity .hset (key :: rest) = .ok ())
    (hodd : (key :: rest).length % 2 ≠ 0) (hcur : targetOf .hash cur = some ⟨.hash fields, d⟩) :
    Step key ⟨.hset, key :: rest⟩ cur
      (finish (some ⟨.hash (hsetLoop fields (pairs rest)).1, d⟩)) := by
  refine .of_run _ rfl rfl trivial harity fun env m hm _ _ => ?_
  simp only [Command.handler, Commands.hset, if_neg hodd, bind_eq, run_writeTarget (found_off hm _ _ _) hcur]
  simp [Value.map, propagate, run_op, Reg.exec, Reg.edit]

omit [CPython] in
/-- What a read of a hash finds, for a key that can be written as one. -/
theorem run_readHash {α : Type} {m : Mode} (hfound : Found m env.now key cur)
    (hcur : targetOf .hash cur = some ⟨.hash fields, d⟩) (f : Option (Dict Str Str) → Cmd α)
    (out : List Effect) :
    ((readHash key).bind f).run (exec env m key) ⟨cur, out⟩ =
      (f (cur.map fun _ => fields)).run (exec env m key) ⟨cur, out⟩ := by
  rcases cur with _ | ⟨v, e⟩
  · simp [readHash, run_op, exec, hfound out]
  · simp only [targetOf] at hcur
    split at hcur
    case isFalse => cases hcur
    case isTrue =>
      obtain ⟨rfl, rfl⟩ := Item.mk.inj (Option.some.inj hcur)
      simp [readHash, run_op, exec, hfound out, Item.seen, Value.map]

omit [CPython] in
/-- A field of the hash found is a field of the hash prepared. -/
theorem bind_get?_target (hcur : targetOf .hash cur = some ⟨.hash fields, d⟩) (field : Str) :
    ((cur.map fun _ => fields).bind fun h => h.get? field) = fields.get? field := by
  rcases cur with _ | item
  · simp only [targetOf, Kind.emptyValue, Value.ofSeen, Value.map, Option.some.injEq, Item.mk.injEq,
      Value.hash.injEq] at hcur
    rw [← hcur.1]
    rfl
  · rfl

theorem step_hincrby {field : Str} {delta number : Int}
    (hcur : targetOf .hash cur = some ⟨.hash fields, d⟩)
    (hnumber : currentInt (fields.get? field) = some number)
    (hresult : isInt64 (number + delta) = true) :
    Step key ⟨.hincrby, [key, field, showInt delta]⟩ cur
      (finish (some ⟨.hash (fields.set field (showInt (number + delta))), d⟩)) := by
  refine .of_run _ rfl rfl trivial rfl fun env m hm _ hread => ?_
  have hdelta := intArg_showInt_eq (hread (showInt delta) (by simp [Effect.numbers]))
  simp only [Command.handler, Commands.hincrby, hdelta, bind_eq, ofExcept_ok,
    ret_bind, run_readHash (found_off hm _ _ _) hcur, bind_get?_target hcur, hnumber, checkInt64, hresult,
    if_true, hsetField, Prog.bind_assoc, run_writeTarget (found_off hm _ _ _) hcur]
  simp [Value.map, propagate, run_op, Reg.exec, Reg.edit, Edit.apply]

theorem step_hdel (fields : Dict Str Str) (d : Option Int) (names : List Str)
    (hremoved : (hdelLoop fields names).2 ≠ []) :
    Step key ⟨.hdel, key :: (hdelLoop fields names).2⟩ (some ⟨.hash fields, d⟩)
      (finish (some ⟨.hash (hdelLoop fields names).1, d⟩)) := by
  have hcur : targetOf .hash (some ⟨.hash fields, d⟩) = some ⟨.hash fields, d⟩ := rfl
  refine .of_run _ rfl rfl trivial (by simp [Command.checkArity, Command.spec, hremoved])
    fun env m hm _ _ => ?_
  simp only [Command.handler, Commands.hdel, bind_eq, run_readHash (found_off hm _ _ _) hcur, Option.map_some,
    hdelLoop_removed, if_neg hremoved]
  simp [propagate, run_op, Reg.exec, Reg.edit, hdelLoop_removed]

/-! ## The handlers -/

theorem faithful_hset (rest : List Str) (harity : Command.checkArity .hset (key :: rest) = .ok ())
    (hcur : finish cur = cur) : Faithful env key (Commands.hset (key :: rest)) cur cur := by
  by_cases hodd : (key :: rest).length % 2 = 0
  · rw [Commands.hset, if_pos hodd]
    exact faithful_fail _ hcur
  · rw [Commands.hset, if_neg hodd]
    refine faithful_writeTarget hcur fun found v d hfinish htarget => ?_
    cases v with
    | hash fields =>
      refine faithful_mutate _ ?_
      rw [editAll_setFields]
      exact step_hset harity hodd htarget
    | _ => exact absurd (targetOf_kind htarget) (by simp [Value.kind])

/-- Setting one field of a live hash, or of a new one, and logging it. -/
theorem faithful_hsetField {α : Type} {x : Effect} {field value : Str} (a : α)
    (hlive : Live env.now cur) (htarget : targetOf .hash cur = some ⟨.hash fields, d⟩)
    (hstep : Step key x cur (finish (some ⟨.hash (fields.set field value), d⟩))) :
    Faithful env key ((hsetField key field value).bind fun _ => .op (.propagate x) fun _ => .ret a)
      cur cur := by
  unfold hsetField
  rw [bind_eq, Prog.bind_assoc]
  exact faithful_target hlive htarget (faithful_mutate a hstep)

/-- Reading a hash that is going to be written. -/
theorem faithful_hashTarget {α : Type} {f : Option (Dict Str Str) → Cmd α} (hcur : finish cur = cur)
    (hf : ∀ found fields d, Live env.now found → finish found = found →
      targetOf .hash found = some ⟨.hash fields, d⟩ →
      Faithful env key (f (found.map fun _ => fields)) found found) :
    Faithful env key ((readHash key).bind f) cur cur := by
  refine faithful_readHash hcur ?_ fun fields d hlive hfinish => ?_
  · exact hf none Dict.empty none (by simp [Live]) rfl rfl
  · exact hf (some ⟨.hash fields, d⟩) fields d (by simpa [Live] using hlive) hfinish rfl

theorem faithful_hsetnx (rest : List Str) (hcur : finish cur = cur) :
    Faithful env key (Commands.hsetnx (key :: rest)) cur cur := by
  match rest with
  | [field, value] =>
    refine faithful_hashTarget hcur fun found fields d hlive hfinish htarget => ?_
    split
    · exact faithful_ret _ hfinish
    · exact faithful_hsetField _ hlive htarget (step_hset rfl (by simp) htarget)
  | [] | [_] | _ :: _ :: _ :: _ => exact faithful_fail _ hcur

theorem faithful_hincrby (rest : List Str) (hcur : finish cur = cur) :
    Faithful env key (Commands.hincrby (key :: rest)) cur cur := by
  match rest with
  | [field, arg] =>
    refine faithful_attempt hcur fun delta _ => ?_
    refine faithful_hashTarget hcur fun found fields d hlive hfinish htarget => ?_
    simp only [bind_get?_target htarget]
    cases hnumber : currentInt (fields.get? field) with
    | none => exact faithful_fail _ hfinish
    | some number =>
      refine faithful_attempt hfinish fun result hresult => ?_
      obtain ⟨hrange, rfl⟩ := checkInt64_ok hresult
      exact faithful_hsetField _ hlive htarget (step_hincrby htarget hnumber hrange)
  | [] | [_] | _ :: _ :: _ :: _ => exact faithful_fail _ hcur

theorem faithful_hdel (rest : List Str) (hcur : finish cur = cur) :
    Faithful env key (Commands.hdel (key :: rest)) cur cur := by
  refine faithful_readHash hcur (faithful_ret _ rfl) fun fields d _ hfinish => ?_
  dsimp only
  by_cases hremoved : (hdelLoop fields rest).2 = []
  · rw [if_pos hremoved]
    exact faithful_ret _ hfinish
  · rw [if_neg hremoved]
    refine faithful_mutate _ ?_
    rw [editAll_deleteFields]
    exact step_hdel fields d rest hremoved

end KvStore
