import KvStore.Engine.Replay.Effects

/-! # The effects of the key commands

Deadlines are logged as absolute times, so their replay does not depend on the clock as long as they
have not passed. RESTORE logs itself, with an absolute deadline; a deadline that has passed becomes a
deletion. -/

namespace KvStore

open Commands Reg Prog

variable [CPython] {env : Env} {key : Str} {cur : Option Item}

/-! ## Replaying them -/

theorem step_pexpireat (atMs : Int) {item : Item} (hitem : finish (some item) = some item) :
    Step key ⟨.pexpireat, [key, showInt atMs]⟩ (some item)
      (some { item with expiresAt := some atMs }) := by
  rw [← finish_deadline hitem (some atMs)]
  refine .of_run (some { item with expiresAt := some atMs }) rfl rfl trivial rfl
    fun env m hm hfresh hread => ?_
  have hn := intArg_showInt_eq (hread (showInt atMs) (by simp [Effect.numbers]))
  have hlater : m.loading = true ∨ toMs env.now < atMs := by
    refine hfresh.imp_right fun h => h atMs ?_
    simp only [Effect.deadline, hn, Except.toOption]
  have hnot : ¬ (atMs ≤ toMs env.now ∧ m.loading = false) := by
    rintro ⟨hle, hload⟩
    rcases hlater with h | h
    · simp [hload] at h
    · omega
  simp only [Command.handler, Commands.pexpireat, hn, bind_eq, ofExcept_ok, ret_bind]
  simp [expireAtMs, hnot, propagate, run_op, Reg.exec, lookup_off hm]

theorem step_persist {item : Item} (hitem : finish (some item) = some item)
    (hd : item.expiresAt ≠ none) :
    Step key ⟨.persist, [key]⟩ (some item) (some { item with expiresAt := none }) := by
  rw [← finish_deadline hitem none]
  refine .of_run (some { item with expiresAt := none }) rfl rfl trivial rfl fun env m hm _ _ => ?_
  simp [Command.handler, Commands.persist, propagate, run_op, Reg.exec, lookup_off hm, hd]

omit [CPython] in
/-- The options with which RESTORE is logged. -/
theorem restore_options :
    ([text "REPLACE", text "ABSTTL"].all fun arg => isWord arg "REPLACE" || isWord arg "ABSTTL") ∧
      ([text "REPLACE", text "ABSTTL"].any fun arg => isWord arg "REPLACE") ∧
      ([text "REPLACE", text "ABSTTL"].any fun arg => isWord arg "ABSTTL") := by
  decide

omit [CPython] in
/-- The last part of RESTORE, when its deadline is not in the past or does not matter. -/
theorem run_restoreValue {m : Mode} {r r' : Reg} {found : Option Item} {raw : Str}
    {payload : Payload} {expiresMs : Option Int}
    (hlookup : r.lookup m env.now key = (found, r'))
    (hnot : ¬ ((∃ ms ∈ expiresMs, ms ≤ toMs env.now) ∧ m.loading = false)) :
    (restoreValue key raw payload expiresMs).run (Reg.exec env m key) r =
      (.ok .ok, Reg.propagate m
        ⟨.restore, [key, showInt (expiresMs.getD 0), raw, text "REPLACE", text "ABSTTL"]⟩
        ⟨some ⟨payload.value, expiresMs⟩, r'.out⟩) := by
  change Prog.run (Reg.exec env m key) (if (∃ ms ∈ expiresMs, ms ≤ toMs env.now) ∧ m.loading = false
    then _ else _) r = _
  rw [if_neg hnot]
  cases found <;> simp [propagate, run_op, Reg.exec, hlookup]

/-- A RESTORE with an absolute deadline. -/
theorem step_restore {raw : Str} {payload : Payload} (hload : loadValue raw = .ok payload)
    (hreal : payload.Real) {expiresMs : Option Int} (hpos : ∀ ms ∈ expiresMs, 0 < ms)
    (cur : Option Item) :
    Step key ⟨.restore, [key, showInt (expiresMs.getD 0), raw, text "REPLACE", text "ABSTTL"]⟩ cur
      (finish (some ⟨payload.value, expiresMs⟩)) := by
  have hreal' : Command.Real .restore
      [key, showInt (expiresMs.getD 0), raw, text "REPLACE", text "ABSTTL"] := by
    intro payload' h
    rw [hload, Except.ok.injEq] at h
    exact h ▸ hreal
  refine .of_run _ rfl rfl hreal' rfl fun env m hm hfresh hread => ?_
  obtain ⟨n, hn, hn'⟩ : ∃ n, intArg (showInt (expiresMs.getD 0)) = .ok n ∧ n = expiresMs.getD 0 :=
    ⟨_, intArg_showInt_eq (hread _ (by simp [Effect.numbers])), rfl⟩
  obtain ⟨hall, hreplace, habs⟩ := restore_options
  have hnonneg : ¬ n < 0 := by
    cases expiresMs with
    | none => simp [hn']
    | some ms =>
      have := hpos ms rfl
      simp only [Option.getD_some] at hn'
      omega
  have hdeadline : deadlineMs n true (toMs env.now) = expiresMs := by
    cases expiresMs with
    | none => simp [deadlineMs, hn']
    | some ms =>
      have := hpos ms rfl
      simp only [Option.getD_some] at hn'
      simp [deadlineMs, hn', show ms ≠ 0 by omega]
  have hnot : ¬ ((∃ ms ∈ expiresMs, ms ≤ toMs env.now) ∧ m.loading = false) := by
    rintro ⟨⟨ms, hms, hle⟩, hfalse⟩
    rcases hfresh with h | h
    · simp [hfalse] at h
    · obtain rfl : expiresMs = some ms := hms
      have hms0 : ms ≠ 0 := by
        have := hpos ms rfl
        omega
      have hlater := h ms (by
        simp only [Effect.deadline, hn, hn', Except.toOption, Option.filter]
        simp [hms0])
      omega
  have hcond : ¬ (¬ ([text "REPLACE", text "ABSTTL"].all fun arg =>
      isWord arg "REPLACE" || isWord arg "ABSTTL") ∨ n < 0) := by
    simp only [hall, not_true, false_or]
    exact hnonneg
  simp only [Command.handler, Commands.restore, hn, bind_eq, ofExcept_ok, ret_bind,
    if_neg hcond, hreplace, habs, restoreGuard, if_true, pure_eq, hload, perform_bind]
  rw [run_op]
  simp only [Reg.exec, hdeadline]
  rw [run_restoreValue (lookup_off hm env.now key _) hnot]
  simp

/-! ## The handlers -/

theorem faithful_expireAtMs (atMs : Int) (hcur : finish cur = cur) :
    Faithful env key (expireAtMs key atMs) cur cur := by
  refine faithful_peek hcur (faithful_ret _ rfl) fun item hlive hitem => ?_
  have hlookup := lookup_live hlive .normal key
  by_cases hpast : atMs ≤ toMs env.now
  · have hrun : Runs (Step key) [.del key] (some item) none := .single (step_del key _)
    simpa [Faithful, run_op, Reg.exec, hpast, hlookup, propagate, Reg.propagate, Effect.del]
      using hrun
  · have hrun : Runs (Step key) [⟨.pexpireat, [key, showInt atMs]⟩] (some item)
        (some { item with expiresAt := some atMs }) := .single (step_pexpireat atMs hitem)
    simpa [Faithful, run_op, Reg.exec, hpast, hlookup, propagate, Reg.propagate,
      finish_deadline hitem] using hrun

theorem faithful_delete {α : Type} (a : α) (hcur : finish cur = cur) :
    Faithful env key (.op (.delete key) fun _ => (propagate .del [key]).bind fun _ => .ret a)
      cur cur := by
  refine faithful_lookup (fun found => (found.isSome, none)) ?_ hcur fun found _ _ => ?_
  · intro found out h
    cases found <;> simp [exec, h]
  · exact faithful_log a (step_del key found)

theorem faithful_persist (rest : List Str) (hcur : finish cur = cur) :
    Faithful env key (Commands.persist (key :: rest)) cur cur := by
  cases rest with
  | cons _ _ => exact faithful_fail _ hcur
  | nil =>
    refine faithful_lookup (fun found => ((found.bind Item.expiresAt).isSome,
      found.map fun item => { item with expiresAt := none })) ?_ hcur ?_
    · rintro (_ | ⟨v, _ | d⟩) out h <;> simp [exec, h]
    · rintro (_ | ⟨v, _ | d⟩) hlive hfinish
      · exact faithful_ret _ rfl
      · exact faithful_ret _ hfinish
      · refine faithful_log _ ?_
        change Step key _ _ (finish (some ⟨v, none⟩))
        rw [show finish (some ⟨v, none⟩) = some ⟨v, none⟩ from finish_deadline hfinish none]
        exact step_persist hfinish (by simp)

theorem faithful_restoreValue {raw : Str} {payload : Payload} (hload : loadValue raw = .ok payload)
    (hreal : payload.Real) {expiresMs : Option Int} (hpos : ∀ ms ∈ expiresMs, 0 < ms)
    (hcur : finish cur = cur) :
    Faithful env key (restoreValue key raw payload expiresMs) cur cur := by
  refine faithful_op rfl (faithful_op rfl ?_)
  change Faithful env key (if (∃ ms ∈ expiresMs, ms ≤ toMs env.now) ∧ false = false then _ else _)
    cur cur
  split
  · exact faithful_delete _ hcur
  · refine faithful_lookup (fun found => (found.isSome, none)) ?_ hcur fun found _ _ => ?_
    · intro found out h
      cases found <;> simp [exec, h]
    · exact faithful_op rfl (faithful_log _ (step_restore hload hreal hpos found))

omit [CPython] in
theorem deadlineMs_pos {ttl : Int} (httl : ¬ ttl < 0) (absolute : Bool) (now : Nat) :
    ∀ ms ∈ deadlineMs ttl absolute (toMs now), 0 < ms := by
  intro ms hms
  unfold deadlineMs at hms
  split at hms
  · simp at hms
  · have hnow : 0 ≤ toMs now := Int.natCast_nonneg _
    simp only [Option.mem_def, Option.some.injEq] at hms
    split at hms <;> omega

/-- The test of RESTORE for a key that is there. -/
theorem faithful_restoreGuard (replace : Bool) {f : Unit → Cmd Reply} (hcur : finish cur = cur)
    (hf : ∀ cur, finish cur = cur → Faithful env key (f ()) cur cur) :
    Faithful env key ((restoreGuard key replace).bind f) cur cur := by
  cases replace with
  | true => exact hf cur hcur
  | false => exact faithful_peek hcur (hf none rfl) fun _ _ hfinish => faithful_fail _ hfinish

theorem faithful_restore (rest : List Str) (hreal : Command.Real .restore (key :: rest))
    (hcur : finish cur = cur) :
    Faithful env key (Commands.restore (key :: rest)) cur cur := by
  rcases rest with _ | ⟨ttlArg, _ | ⟨raw, options⟩⟩
  · exact faithful_fail _ hcur
  · exact faithful_fail _ hcur
  · refine faithful_attempt hcur fun ttl _ => ?_
    split
    · exact faithful_fail _ hcur
    case isFalse hcond =>
      have httl : ¬ ttl < 0 := fun h => hcond (Or.inr h)
      refine faithful_restoreGuard _ hcur fun cur hcur => ?_
      cases hload : loadValue raw with
      | error message => exact faithful_fail _ hcur
      | ok payload =>
        exact faithful_op rfl
          (faithful_restoreValue hload (hreal payload hload) (deadlineMs_pos httl _ _) hcur)

end KvStore
