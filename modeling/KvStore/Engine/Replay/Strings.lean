import KvStore.Engine.Replay.Keyspace

/-! # The effects of the string commands

A text written over another value needs no more than its final form. INCRBY and APPEND log the
difference instead, which their replay adds to the same text as the original did. -/

namespace KvStore

open Commands Reg Prog

variable [CPython] {env : Env} {key : Str} {cur : Option Item}

/-! ## Replaying them -/

theorem step_set (value : Str) (cur : Option Item) :
    Step key ⟨.set, [key, value]⟩ cur (some ⟨.str value, none⟩) := by
  refine .of_run (some ⟨.str value, none⟩) rfl rfl trivial rfl fun env m hm _ _ => ?_
  simp [Command.handler, Commands.set, setValue, parseSetOptions, setDeadline, propagate, run_op,
    Reg.exec, lookup_off hm]

omit [CPython] in
theorem parseSetOptions_keepttl :
    parseSetOptions [text "KEEPTTL"] {} = .ok { keepTtl := true } := by
  rfl

theorem step_setKeep (value : Str) (cur : Option Item) :
    Step key ⟨.set, [key, value, text "KEEPTTL"]⟩ cur
      (some ⟨.str value, cur.bind Item.expiresAt⟩) := by
  refine .of_run (some ⟨.str value, cur.bind Item.expiresAt⟩) rfl rfl trivial rfl
    fun env m hm _ _ => ?_
  simp [Command.handler, Commands.set, setValue, parseSetOptions_keepttl, setDeadline, propagate, run_op,
    Reg.exec, lookup_off hm]

theorem step_incrby {delta number : Int} {current : Option Str} (hcur : textOf cur = some current)
    (hnumber : currentInt current = some number) (hresult : isInt64 (number + delta) = true) :
    Step key ⟨.incrby, [key, showInt delta]⟩ cur
      (some ⟨.str (showInt (number + delta)), cur.bind Item.expiresAt⟩) := by
  refine .of_run (some ⟨.str (showInt (number + delta)), cur.bind Item.expiresAt⟩) rfl rfl trivial
    rfl fun env m hm _ hread => ?_
  have hdelta := intArg_showInt_eq (hread (showInt delta) (by simp [Effect.numbers]))
  rcases cur with _ | ⟨v, d⟩
  · simp_all [textOf, Command.handler, Commands.incrby, incrBy, readStr, checkInt64, propagate,
      run_op, Reg.exec, lookup_off hm]
  · cases v <;> simp_all [textOf, Command.handler, Commands.incrby, incrBy, readStr, checkInt64,
      propagate, run_op, Reg.exec, lookup_off hm, Item.seen, Value.map]

theorem step_append {suffix : Str} {current : Option Str} (hcur : textOf cur = some current) :
    Step key ⟨.append, [key, suffix]⟩ cur
      (some ⟨.str (current.getD [] ++ suffix), cur.bind Item.expiresAt⟩) := by
  refine .of_run (some ⟨.str (current.getD [] ++ suffix), cur.bind Item.expiresAt⟩) rfl rfl trivial
    rfl fun env m hm _ hread => ?_
  rcases cur with _ | ⟨v, d⟩
  · simp_all [textOf, Command.handler, Commands.append, readStr, propagate,
      run_op, Reg.exec, lookup_off hm]
  · cases v <;> simp_all [textOf, Command.handler, Commands.append, readStr, 
      propagate, run_op, Reg.exec, lookup_off hm, Item.seen, Value.map]

/-! ## The handlers -/

omit [CPython] in
/-- A text written over a live key, which keeps its deadline if it is kept. -/
theorem exec_set (hlive : Live env.now cur) (value : Str) (keepTtl : Bool) :
    exec env .normal key (.set key value keepTtl) ⟨cur, []⟩ =
      ((), ⟨some ⟨.str value, if keepTtl then cur.bind Item.expiresAt else none⟩, []⟩) := by
  rcases cur with _ | item
  · cases keepTtl <;> rfl
  · cases keepTtl
    · rfl
    · simp [exec, lookup_live (hlive item rfl)]

/-- A text written over a live key and logged as a SET with KEEPTTL. -/
theorem faithful_setKeep {α : Type} (hlive : Live env.now cur) (value : Str) (a : α) :
    Faithful env key (.op (.set key value true) fun _ =>
      (propagate .set [key, value, text "KEEPTTL"]).bind fun _ => .ret a) cur cur :=
  faithful_op (exec_set hlive value true) (faithful_log a (step_setKeep value cur))

/-- The deadline of a SET, logged after it. -/
theorem faithful_setDeadline {x : Effect} {value : Str} {d : Option Int}
    (hstep : Step key x cur (some ⟨.str value, d⟩)) (hlive : passed env.now d = false)
    (ms : Option Int) (reply : Reply) :
    Faithful env key (.op (.propagate x) fun _ =>
      (setDeadline key ms).bind fun _ => .ret reply) cur (some ⟨.str value, d⟩) := by
  cases ms with
  | none => exact faithful_log reply hstep
  | some ms =>
    have hlookup : ∀ out, lookup .normal env.now key ⟨some ⟨.str value, d⟩, out⟩ =
        (some ⟨.str value, d⟩, ⟨some ⟨.str value, d⟩, out⟩) := lookup_live hlive .normal key
    have hrun : Runs (Step key) [x, ⟨.pexpireat, [key, showInt (toMs env.now + ms)]⟩] cur
        (some ⟨.str value, some (toMs env.now + ms)⟩) :=
      .cons hstep (.single (step_pexpireat _ rfl))
    simpa [Faithful, setDeadline, propagate, run_op, Reg.exec, hlookup, Reg.propagate]
      using hrun

/-- The writing part of SET on a live key, or on none. -/
theorem faithful_setWrite (hlive : Live env.now cur) (value : Str) (keepTtl : Bool) (ms : Option Int)
    (reply : Reply) :
    Faithful env key (.op (.set key value keepTtl) fun _ =>
      (propagate .set (key :: value :: if keepTtl then [text "KEEPTTL"] else [])).bind fun _ =>
        (setDeadline key ms).bind fun _ => .ret reply) cur cur := by
  refine faithful_op (exec_set hlive value keepTtl) ?_
  cases keepTtl with
  | false => exact faithful_setDeadline (step_set value cur) rfl ms reply
  | true =>
    refine faithful_setDeadline (step_setKeep value cur) ?_ ms reply
    rcases cur with _ | item
    · rfl
    · exact hlive item rfl

theorem faithful_setValue (value : Str) (o : SetOptions) (old : Option Str)
    (hcur : finish cur = cur) : Faithful env key (setValue key value o old) cur cur := by
  have hrest : ∀ found, Live env.now found → finish found = found → Faithful env key
      (if (o.nx ∧ found.isSome) ∨ (o.xx ∧ ¬ found.isSome) then
        (.ret (if o.getOld then .ofOption old else .nil) : Cmd Reply)
      else
        .op (.set key value o.keepTtl) fun _ =>
          (propagate .set (key :: value :: if o.keepTtl then [text "KEEPTTL"] else [])).bind fun _ =>
            (setDeadline key o.expireMs).bind fun _ =>
              .ret (if o.getOld then .ofOption old else .ok)) found found := by
    intro found hlive hfinish
    split
    · exact faithful_ret _ hfinish
    · exact faithful_setWrite hlive value o.keepTtl o.expireMs _
  refine faithful_peek hcur (hrest none (by simp [Live]) rfl) fun item hitem hfinish => ?_
  exact hrest (some item) (by simpa [Live] using hitem) hfinish

theorem faithful_set (rest : List Str) (hcur : finish cur = cur) :
    Faithful env key (Commands.set (key :: rest)) cur cur := by
  cases rest with
  | nil => exact faithful_fail _ hcur
  | cons value options =>
    refine faithful_attempt hcur fun o _ => ?_
    cases o.getOld with
    | true => exact faithful_readStr hcur fun found old _ hfinish _ => faithful_setValue value o old hfinish
    | false => exact faithful_setValue value o none hcur

theorem faithful_incrBy (delta : Int) (hcur : finish cur = cur) :
    Faithful env key (incrBy key delta) cur cur := by
  refine faithful_readStr hcur fun found current hlive hfinish htext => ?_
  cases hnumber : currentInt current with
  | none => exact faithful_fail _ hfinish
  | some number =>
    refine faithful_attempt hfinish fun result hresult => ?_
    obtain ⟨hrange, rfl⟩ := checkInt64_ok hresult
    exact faithful_op (exec_set hlive _ true) (faithful_log _ (step_incrby htext hnumber hrange))

theorem faithful_append (rest : List Str) (hcur : finish cur = cur) :
    Faithful env key (Commands.append (key :: rest)) cur cur := by
  match rest with
  | [suffix] =>
    refine faithful_readStr hcur fun found current hlive hfinish htext => ?_
    exact faithful_op (exec_set hlive _ true) (faithful_log _ (step_append htext))
  | [] | _ :: _ :: _ => exact faithful_fail _ hcur

theorem faithful_setnx (rest : List Str) (hcur : finish cur = cur) :
    Faithful env key (Commands.setnx (key :: rest)) cur cur := by
  match rest with
  | [value] => exact faithful_map _ (faithful_set [value, text "NX"] hcur)
  | [] | _ :: _ :: _ => exact faithful_fail _ hcur

theorem faithful_getdel (rest : List Str) (hcur : finish cur = cur) :
    Faithful env key (Commands.getdel (key :: rest)) cur cur := by
  cases rest with
  | cons _ _ => exact faithful_fail _ hcur
  | nil =>
    refine faithful_readStr hcur fun found current _ hfinish _ => ?_
    cases current with
    | none => exact faithful_ret _ hfinish
    | some value => exact faithful_delete _ hfinish

theorem faithful_incrbyfloat (rest : List Str) (hcur : finish cur = cur) :
    Faithful env key (Commands.incrbyfloat (key :: rest)) cur cur := by
  match rest with
  | [arg] =>
    refine faithful_attempt hcur fun delta _ => ?_
    refine faithful_readStr hcur fun found current hlive hfinish _ => ?_
    refine faithful_attempt hfinish fun number _ => ?_
    dsimp only
    split
    · exact faithful_fail _ hfinish
    · exact faithful_setKeep hlive _ _
  | [] | _ :: _ :: _ => exact faithful_fail _ hcur

end KvStore
