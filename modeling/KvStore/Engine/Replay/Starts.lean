import KvStore.Engine.Replay.Handlers

/-! # Replay from what the files hold

The state rebuilt from the files need not be the state in memory: a key that has expired may be gone
in one and not in the other. So the effects of a command are replayed from another item than the one
it ran on. That makes no difference as soon as one of them overwrites the key, and this module shows
that the first one does:

* on an expired key the first effect is its deletion, because every handler looks the key up before
  it does anything else (`LooksFirst`);
* on an absent key a command that does not build on the old value (`Command.builds`) logs nothing, or
  begins with an effect that overwrites the key. -/

namespace KvStore

open Commands Reg Prog

variable [CPython] {env : Env} {key : Str}

/-! ## Looking first -/

/-- The operation looks the key up. -/
def Op.Looks (key : Str) : Op → Prop
  | .peek k | .get k => k = key
  | .set k _ keepTtl => k = key ∧ keepTtl = true
  | .delete k | .setExpiry k _ | .persist k | .record k => k = key
  | _ => False

/-- The operation has nothing to do with keys. -/
def Op.Idle : Op → Prop
  | .now | .loading => True
  | _ => False

/-- Whatever a program does to the key, it looks it up first. -/
def LooksFirst (key : Str) {α : Type} : Cmd α → Prop
  | .ret _ | .fail _ => True
  | .op o next => o.Looks key ∨ (o.Idle ∧ ∀ r, LooksFirst key (next r))

section Rules

variable {α β : Type}

section

omit [CPython]

@[simp] theorem looksFirst_ret (a : α) : LooksFirst key (.ret a : Cmd α) := trivial

@[simp] theorem looksFirst_fail (e : KvError) : LooksFirst key (.fail e : Cmd α) := trivial

@[simp] theorem looksFirst_ite (c : Prop) [Decidable c] (p q : Cmd α) :
    LooksFirst key (if c then p else q) ↔ (c → LooksFirst key p) ∧ (¬ c → LooksFirst key q) := by
  split <;> simp_all

@[simp] theorem looksFirst_attempt (x : Except KvError β) (f : β → Cmd α) :
    LooksFirst key ((attempt x).bind f) ↔ ∀ b, x = .ok b → LooksFirst key (f b) := by
  cases x <;> simp

/-- What follows the lookup does not matter. -/
theorem LooksFirst.bind {p : Cmd β} (hp : LooksFirst key p) (f : β → Cmd α)
    (hf : ∀ b, LooksFirst key (f b)) : LooksFirst key (p.bind f) := by
  induction p with
  | ret b => exact hf b
  | fail e => trivial
  | op o next ih =>
    rcases hp with hlook | ⟨hidle, hnext⟩
    · exact .inl hlook
    · exact .inr ⟨hidle, fun r => ih r (hnext r)⟩

@[simp] theorem looksFirst_delete (next : Bool → Cmd α) :
    LooksFirst key (.op (.delete key) next) := .inl rfl

@[simp] theorem looksFirst_now (next : Nat → Cmd α) :
    LooksFirst key (.op .now next) ↔ ∀ r, LooksFirst key (next r) :=
  ⟨fun h => h.resolve_left id |>.2, fun h => .inr ⟨trivial, h⟩⟩

@[simp] theorem looksFirst_loading (next : Bool → Cmd α) :
    LooksFirst key (.op .loading next) ↔ ∀ r, LooksFirst key (next r) :=
  ⟨fun h => h.resolve_left id |>.2, fun h => .inr ⟨trivial, h⟩⟩

end

end Rules

omit [CPython] in
/-- **A program that looks first** leaves an expired key alone, or the first thing it logs is the
deletion. -/
theorem LooksFirst.run {α : Type} {p : Cmd α} (hp : LooksFirst key p) {item : Item}
    (hpassed : passed env.now item.expiresAt = true) :
    (p.run (Reg.exec env .normal key) ⟨some item, []⟩).2 = ⟨some item, []⟩ ∨
      ∃ rest, (p.run (Reg.exec env .normal key) ⟨some item, []⟩).2.out = .del key :: rest := by
  induction p with
  | ret | fail => exact .inl rfl
  | op o next ih =>
    rw [run_op]
    rcases hp with hlook | ⟨hidle, hnext⟩
    · have hout : ((Reg.exec env .normal key o ⟨some item, []⟩).2).out = [.del key] := by
        cases o <;> simp [Op.Looks] at hlook <;>
          simp [Reg.exec, Reg.lookup, hpassed, Mode.normal, Reg.propagate, hlook]
      have happend := run_append env .normal key
        (next (Reg.exec env .normal key o ⟨some item, []⟩).1)
        (Reg.exec env .normal key o ⟨some item, []⟩).2.cur [.del key] []
      rw [List.append_nil, ← hout] at happend
      rw [happend, hout]
      exact .inr ⟨_, rfl⟩
    · have hsame : (Reg.exec env .normal key o ⟨some item, []⟩).2 = ⟨some item, []⟩ := by
        cases o <;> simp [Op.Idle] at hidle <;> rfl
      rw [hsame]
      exact ih _ (hnext _)

/-! ## Handlers look first -/

section

omit [CPython]

theorem looksFirst_set (value : Str) (options : List Str) :
    LooksFirst key (Commands.set (key :: value :: options)) := by
  simp only [Commands.set, bind_eq, looksFirst_attempt, looksFirst_ite]
  exact fun o _ => ⟨fun _ => .inl rfl, fun _ => .inl rfl⟩

theorem looksFirst_restore (rest : List Str) : LooksFirst key (restore (key :: rest)) := by
  match rest with
  | [] | [_] => trivial
  | ttlArg :: raw :: options =>
    rw [restore, bind_eq, looksFirst_attempt]
    intro ttl _
    rw [looksFirst_ite]
    refine ⟨fun _ => trivial, fun _ => ?_⟩
    rw [restoreGuard, bind_eq, ite_bind, looksFirst_ite]
    refine ⟨fun _ => ?_, fun _ => .inl rfl⟩
    simp only [pure_eq, ret_bind]
    split
    · trivial
    · simp [restoreValue]

/-- What is parsed is parsed before the lookup. -/
theorem looksFirst_parsed {α β : Type} (x : Except KvError β) {f : β → Cmd α}
    (hf : ∀ b, LooksFirst key (f b)) : LooksFirst key ((attempt x).bind f) :=
  (looksFirst_attempt x f).mpr fun b _ => hf b

end

/-- **Every write of one key looks it up first.** -/
theorem Command.looksFirst_handler {c : Command} (rest : List Str)
    (hc : c.spec.keySpec = some singleKey) (hw : c.spec.write = true) :
    LooksFirst key (c.handler (key :: rest)) := by
  cases c <;> simp only [Command.spec, Bool.false_eq_true] at hw <;>
    simp only [Command.spec, reduceCtorEq, Option.some.injEq] at hc <;>
    simp only [Command.handler] <;> try (simp [singleKey, allKeys, everyOtherKey] at hc)
  case set =>
    cases rest with
    | nil => trivial
    | cons value options => exact looksFirst_set value options
  case setnx =>
    rcases rest with _ | ⟨value, _ | _⟩ <;>
      first | trivial | exact (looksFirst_set value [text "NX"]).bind _ fun _ => trivial
  case restore => exact looksFirst_restore rest
  case lpush | rpush | sadd | srem | hdel | zrem => exact .inl rfl
  case lpop | rpop | spop | zpopmin | zpopmax | zadd => exact looksFirst_parsed _ fun _ => .inl rfl
  case hset =>
    refine (looksFirst_ite _ _ _).mpr ⟨fun _ => trivial, fun _ => .inl rfl⟩
  case zincrby | hincrby | lset | lrem =>
    rcases rest with _ | ⟨_, _ | ⟨_, _ | _⟩⟩ <;>
      first | trivial | exact looksFirst_parsed _ fun _ => .inl rfl
  case hsetnx =>
    rcases rest with _ | ⟨_, _ | ⟨_, _ | _⟩⟩ <;> first | trivial | exact .inl rfl
  case ltrim =>
    rcases rest with _ | ⟨_, _ | ⟨_, _ | _⟩⟩ <;>
      first | trivial | exact looksFirst_parsed _ fun _ => looksFirst_parsed _ fun _ => .inl rfl
  case getdel | incr | decr | persist => cases rest <;> first | exact .inl rfl | trivial
  case incrby | decrby | incrbyfloat | expireat | pexpireat =>
    rcases rest with _ | ⟨_, _ | _⟩ <;>
      first | trivial | exact looksFirst_parsed _ fun _ => .inl rfl
  case append =>
    rcases rest with _ | ⟨_, _ | _⟩ <;> first | trivial | exact .inl rfl
  case expire | pexpire =>
    rcases rest with _ | ⟨_, _ | _⟩ <;>
      first | trivial | exact (looksFirst_now _).mpr fun _ => looksFirst_parsed _ fun _ => .inl rfl

/-! ## Absent keys -/

/-- **A command that builds on what the key holds**, or on its deadline. -/
def Command.builds (c : Command) (args : List Str) : Bool :=
  match c with
  | .incr | .decr | .incrby | .decrby | .incrbyfloat | .append => true
  | .lpush | .rpush | .hset | .hsetnx | .hincrby | .sadd | .zadd | .zincrby => true
  | .set => match parseSetOptions (args.drop 2) {} with
      | .ok o => o.keepTtl
      | .error _ => false
  | _ => false

/-- Run on an absent key, the program leaves it absent and logs nothing, or first logs an effect that
overwrites the key whatever it holds. -/
def Anew (env : Env) (key : Str) {α : Type} (p : Cmd α) : Prop :=
  (p.run (Reg.exec env .normal key) ⟨none, []⟩).2 = ⟨none, []⟩ ∨
    ∃ x rest after, (p.run (Reg.exec env .normal key) ⟨none, []⟩).2.out = x :: rest ∧
      ∀ cur, Reg.Step key x cur after

section Rules

variable {α β : Type}

theorem anew_parsed (x : Except KvError β) {f : β → Cmd α} (hf : ∀ b, Anew env key (f b)) :
    Anew env key ((attempt x).bind f) := by
  cases x with
  | error e => exact .inl rfl
  | ok b => exact hf b

theorem anew_op {o : Op} {next : o.Resp → Cmd α} {a : o.Resp}
    (hexec : Reg.exec env .normal key o ⟨none, []⟩ = (a, ⟨none, []⟩))
    (hnext : Anew env key (next a)) : Anew env key (.op o next) := by
  unfold Anew
  rw [run_op, hexec]
  exact hnext

theorem anew_map {p : Cmd β} (f : β → α) (h : Anew env key p) :
    Anew env key (p.bind fun b => .ret (f b)) := by
  unfold Anew
  rw [run_map_snd]
  exact h

omit [CPython] in
theorem out_propagate (env : Env) (key : Str) (x : Effect) (next : Unit → Cmd α)
    (cur : Option Item) :
    ∃ rest, ((.op (.propagate x) next : Cmd α).run (Reg.exec env .normal key) ⟨cur, []⟩).2.out =
      x :: rest := by
  have happend := run_append env .normal key (next ()) cur [x] []
  rw [List.append_nil] at happend
  exact ⟨_, congrArg (fun r => r.2.out) happend⟩

end Rules

/-- Writing a text without keeping the deadline. -/
theorem anew_setValue (value : Str) {o : SetOptions} (ho : o.keepTtl = false) (old : Option Str) :
    Anew env key (setValue key value o old) := by
  obtain ⟨nx, xx, getOld, keepTtl, expireMs⟩ := o
  simp only at ho
  subst ho
  refine anew_op rfl ?_
  simp only [ret_bind, Option.map_none, Option.isSome_none, Bool.false_eq_true, and_false,
    not_false_eq_true, and_true, false_or, if_false]
  cases xx with
  | true => exact .inl rfl
  | false =>
    obtain ⟨rest, hrest⟩ := out_propagate env key ⟨.set, [key, value]⟩ (fun _ =>
      (setDeadline key expireMs).bind fun _ =>
        .ret (if getOld then Reply.ofOption old else .ok)) (some ⟨.str value, none⟩)
    exact .inr ⟨_, rest, _, hrest, step_set value⟩

theorem anew_set (value : Str) (options : List Str)
    (hbuilds : Command.builds .set (key :: value :: options) = false) :
    Anew env key (Commands.set (key :: value :: options)) := by
  rw [Commands.set]
  cases hparse : parseSetOptions options {} with
  | error e => exact .inl rfl
  | ok o =>
    have hkeep : o.keepTtl = false := by
      simpa [Command.builds, hparse] using hbuilds
    cases hold : o.getOld with
    | true =>
      simp only [bind_eq, ofExcept_ok, ret_bind, hold, if_true]
      exact anew_op rfl (anew_setValue value hkeep none)
    | false =>
      simp only [bind_eq, ofExcept_ok, ret_bind, hold, Bool.false_eq_true, if_false]
      exact anew_setValue value hkeep none

theorem anew_restoreValue {raw : Str} {payload : Payload} (hload : loadValue raw = .ok payload)
    (hreal : payload.Real) {expiresMs : Option Int} (hpos : ∀ ms ∈ expiresMs, 0 < ms) :
    Anew env key (restoreValue key raw payload expiresMs) := by
  refine anew_op rfl (anew_op rfl ?_)
  change Anew env key (if (∃ ms ∈ expiresMs, ms ≤ toMs env.now) ∧ false = false then _ else _)
  split
  · exact .inr ⟨_, [], _, rfl, step_del key⟩
  · exact .inr ⟨_, [], _, rfl, step_restore hload hreal hpos⟩

theorem anew_restoreGuard (replace : Bool) {f : Unit → Cmd Reply} (hf : Anew env key (f ())) :
    Anew env key ((restoreGuard key replace).bind f) := by
  cases replace with
  | true => exact hf
  | false => exact anew_op rfl hf

theorem anew_restore (rest : List Str) (hreal : Command.Real .restore (key :: rest)) :
    Anew env key (restore (key :: rest)) := by
  rcases rest with _ | ⟨ttlArg, _ | ⟨raw, options⟩⟩
  · exact .inl rfl
  · exact .inl rfl
  · refine anew_parsed _ fun ttl => ?_
    split
    · exact .inl rfl
    case isFalse hcond =>
      have httl : ¬ ttl < 0 := fun h => hcond (Or.inr h)
      refine anew_restoreGuard _ ?_
      cases hload : loadValue raw with
      | error message => exact .inl rfl
      | ok payload =>
        exact anew_op rfl
          (anew_restoreValue hload (hreal payload hload) (deadlineMs_pos httl _ _))

/-- **A write that does not build on the old value**, run on an absent key. -/
theorem Command.anew_handler {c : Command} {rest : List Str}
    (hc : c.spec.keySpec = some singleKey) (hw : c.spec.write = true)
    (hreal : c.Real (key :: rest)) (hbuilds : c.builds (key :: rest) = false) :
    Anew env key (c.handler (key :: rest)) := by
  cases c <;> simp only [Command.spec, Bool.false_eq_true] at hw <;>
    simp only [Command.spec, reduceCtorEq, Option.some.injEq] at hc <;>
    simp only [Command.handler] <;> try (simp [singleKey, allKeys, everyOtherKey] at hc)
  case set =>
    cases rest with
    | nil => exact .inl rfl
    | cons value options => exact anew_set value options hbuilds
  case setnx =>
    rcases rest with _ | ⟨value, _ | _⟩ <;>
      first | exact .inl rfl | exact anew_map _ (anew_set value [text "NX"] rfl)
  case restore => exact anew_restore rest hreal
  case lpop | rpop | spop | zpopmin | zpopmax => exact anew_parsed _ fun _ => .inl rfl
  case srem | hdel | zrem => exact .inl rfl
  case getdel | persist => cases rest <;> exact .inl rfl
  case lset | lrem =>
    rcases rest with _ | ⟨_, _ | ⟨_, _ | _⟩⟩ <;>
      first | exact .inl rfl | exact anew_parsed _ fun _ => .inl rfl
  case ltrim =>
    rcases rest with _ | ⟨_, _ | ⟨_, _ | _⟩⟩ <;>
      first | exact .inl rfl | exact anew_parsed _ fun _ => anew_parsed _ fun _ => .inl rfl
  case expire | pexpire =>
    rcases rest with _ | ⟨_, _ | _⟩ <;>
      first | exact .inl rfl | exact anew_op rfl (anew_parsed _ fun _ => .inl rfl)
  case expireat | pexpireat =>
    rcases rest with _ | ⟨_, _ | _⟩ <;>
      first | exact .inl rfl | exact anew_parsed _ fun _ => .inl rfl
  all_goals simp [Command.builds] at hbuilds

/-! ## Replay from another item -/

/-- The item of a key, if there is one, has expired. -/
def Reg.Dead (now : Nat) (cur : Option Item) : Prop :=
  ∀ item, cur = some item → passed now item.expiresAt = true

/-- An effect that overwrites the key does from `start` what it does from `cur`. -/
theorem Reg.Step.overwrite {x : Effect} {cur after t : Option Item} (h : Step key x cur t)
    (hx : ∀ cur, Step key x cur after) (env : Env) (start : Option Item) : Step key x start t := by
  refine ⟨h.1, fun env' m hm hfresh hread => ?_⟩
  -- a number that cannot be read makes the step vacuous, so only the other case says what `t` is
  have ht := h.2 env ⟨true, false, true⟩ rfl (.inl rfl) hread
  rw [(hx cur).2 env ⟨true, false, true⟩ rfl (.inl rfl) hread, Except.ok.injEq] at ht
  rw [(hx start).2 env' m hm hfresh hread, ht]

/-- If the first effect overwrites the key, the effects do from `start` what they do from `cur`. -/
theorem Reg.runs_overwrite {x : Effect} {rest : List Effect} {cur after c : Option Item}
    (h : Runs (Step key) (x :: rest) cur c) (hx : ∀ cur, Step key x cur after) (env : Env)
    (start : Option Item) : Runs (Step key) (x :: rest) start c := by
  obtain ⟨t, hstep, hrest⟩ := Runs.cons_iff.mp h
  exact .cons (hstep.overwrite hx env start) hrest

/-- **The effects of a single-key write**, all of them or the first few, **replayed from another item
than the one it ran on.** -/
theorem Command.runs_from {c : Command} {rest : List Str} (env : Env)
    (hc : c.spec.keySpec = some singleKey) (hw : c.spec.write = true)
    (hreal : c.Real (key :: rest)) {cur start : Option Item}
    (hstart : start = cur ∨
      Dead env.now cur ∧ (cur = none → c.builds (key :: rest) = true → start = none))
    {E : List Effect}
    (hE : E <+: ((c.handler (key :: rest)).run (Reg.exec env .normal key) ⟨cur, []⟩).2.out)
    {after : Option Item} (hruns : Runs (Step key) E cur after) :
    ∃ start', Runs (Step key) E start start' ∧ (start' = after ∨ start' = start ∧ after = cur) := by
  by_cases hsame : start = cur
  · exact ⟨after, hsame ▸ hruns, .inl rfl⟩
  obtain ⟨hdead, hbuild⟩ := hstart.resolve_left hsame
  cases E with
  | nil => exact ⟨start, .nil start, .inr ⟨rfl, (Runs.nil_iff.mp hruns).symm⟩⟩
  | cons x E =>
    -- the first effect overwrites the key
    suffices hx : ∃ after, ∀ cur, Step key x cur after by
      obtain ⟨after', hx⟩ := hx
      exact ⟨after, runs_overwrite hruns hx env start, .inl rfl⟩
    have hnil : ¬ (x :: E <+: []) := by simp
    cases hitem : cur with
    | some item =>
      have hlooks := (c.looksFirst_handler rest hc hw : LooksFirst key _).run (hdead item hitem)
      rw [hitem] at hE
      rcases hlooks with hsame | ⟨out, hout⟩
      · rw [hsame] at hE
        exact absurd hE hnil
      · rw [hout, List.cons_prefix_cons] at hE
        exact ⟨none, hE.1 ▸ step_del key⟩
    | none =>
      have hbuilds : c.builds (key :: rest) = false := by
        rw [Bool.eq_false_iff]
        intro h
        exact hsame ((hbuild hitem h).trans hitem.symm)
      have hanew : Anew env key _ := c.anew_handler hc hw hreal hbuilds
      rw [hitem] at hE
      rcases hanew with hsame | ⟨x', out, after', hout, hx⟩
      · rw [hsame] at hE
        exact absurd hE hnil
      · rw [hout, List.cons_prefix_cons] at hE
        exact ⟨after', hE.1 ▸ hx⟩

end KvStore
