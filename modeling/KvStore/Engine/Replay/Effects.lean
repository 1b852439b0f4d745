import KvStore.Engine.Handlers
import KvStore.Foundation.Runs

/-! # Effects replayed on a register

An effect is replayed by running its handler again with expiry switched off: while the log is being
loaded, or on a replica. Here this is done on the register of one key.

* **`Reg.Step key x cur cur'`** — replaying the effect `x` takes the item `cur` of the key to `cur'`,
  at any clock, provided that the numbers in `x` are 64-bit integers (`Effect.Readable`) and, outside
  loading, that the deadline in `x` is still to come (`Effect.Fresh`).
* **`Reg.Faithful env key p start cur`** — what the program `p` logs when it runs on `cur` takes
  `start` to what `p` leaves. A handler is faithful if `start = cur`: its effects reproduce it.

The rules `faithful_readStr`, `faithful_writeTarget`, … follow the structure of a handler: after the
lookup it starts with, the key is live or absent. -/

namespace KvStore

open Prog

variable [CPython]

/-! ## Effects -/

namespace Effect

/-- The program that replays an effect. -/
def program (x : Effect) : Cmd Reply := do
  attempt (x.command.checkArity x.args)
  x.command.handler x.args

/-- The arguments of an effect that have to be 64-bit integers. -/
def numbers (x : Effect) : List Str :=
  match x.command, x.args with
  | .incrby, [_, n] => [n]
  | .hincrby, [_, _, n] => [n]
  | .pexpireat, [_, n] => [n]
  | .restore, _ :: n :: _ => [n]
  | .lpop, _ :: counts => counts
  | .rpop, _ :: counts => counts
  | .lset, [_, n, _] => [n]
  | .ltrim, [_, start, stop] => [start, stop]
  | .lrem, [_, n, _] => [n]
  | _, _ => []

/-- The numbers of an effect are 64-bit integers. -/
def Readable (x : Effect) : Prop := ∀ arg ∈ x.numbers, ∃ n, intArg arg = .ok n

/-- The deadline an effect sets, in milliseconds. -/
def deadline (x : Effect) : Option Int :=
  match x.command, x.args with
  | .pexpireat, [_, n] => (intArg n).toOption
  | .restore, _ :: n :: _ => (intArg n).toOption.filter fun ms => ms ≠ 0
  | _, _ => none

/-- The deadline of an effect is still to come, or it is replayed while loading. -/
def Fresh (x : Effect) (m : Mode) (now : Nat) : Prop :=
  m.loading = true ∨ ∀ ms, x.deadline = some ms → toMs now < ms

/-- An effect of a write on one key. -/
structure At (key : Str) (x : Effect) : Prop where
  write : x.command.spec.write = true
  keys : x.command.keyArgs x.args = [key]
  uses : x.program.Uses (Op.At key)

/-- The effects of single-key commands. -/
theorem at_single {c : Command} {key : Str} {rest : List Str}
    (hc : c.spec.keySpec = some singleKey) (hw : c.spec.write = true)
    (hreal : c.Real (key :: rest)) : At key ⟨c, key :: rest⟩ where
  write := hw
  keys := by simp [Command.keyArgs, hc]
  uses := by
    simp only [program, bind_eq, uses_ofExcept_bind]
    exact fun _ _ => c.uses_handler rest hc hreal

theorem at_del (key : Str) : At key (.del key) where
  write := rfl
  keys := by simp [del, Command.keyArgs, Command.spec]
  uses := by
    simp [program, del, Command.handler, Commands.delete, keepIf, KvStore.propagate]

end Effect

/-! ## Replay -/

/-- The mode of a primary: expired keys are deleted when they are met. -/
def Mode.normal : Mode := ⟨false, true, true⟩

omit [CPython] in
@[simp] theorem Mode.normal_loading : Mode.normal.loading = false := rfl

namespace Reg

/-- An empty collection is not kept. -/
def finish (cur : Option Item) : Option Item := cur.filter fun item => !item.isEmpty

section

omit [CPython]

@[simp] theorem finish_none : finish none = none := rfl

@[simp] theorem finish_str (s : Str) (d : Option Int) :
    finish (some ⟨.str s, d⟩) = some ⟨.str s, d⟩ := rfl

@[simp] theorem finish_some_eq {item : Item} : finish (some item) = some item ↔ item.isEmpty = false := by
  cases h : item.isEmpty <;> simp [finish, Option.filter, h]

@[simp] theorem finish_finish (cur : Option Item) : finish (finish cur) = finish cur := by
  rcases cur with _ | item
  · rfl
  · cases h : item.isEmpty <;> simp [finish, Option.filter, h]

/-- A deadline does not make an item empty. -/
theorem finish_deadline {item : Item} (h : finish (some item) = some item) (d : Option Int) :
    finish (some { item with expiresAt := d }) = some { item with expiresAt := d } := by
  rw [finish_some_eq] at h ⊢
  exact h

end

/-- Replay an effect. -/
def apply (env : Env) (m : Mode) (key : Str) (x : Effect) (cur : Option Item) :
    Except KvError (Option Item) :=
  match x.program.run (exec env m key) ⟨cur, []⟩ with
  | (.ok _, r) => .ok (finish r.cur)
  | (.error err, _) => .error err

/-- **Replaying `x` takes `cur` to `cur'`.** -/
def Step (key : Str) (x : Effect) (cur cur' : Option Item) : Prop :=
  x.At key ∧ ∀ env m, m.expiry = false → x.Fresh m env.now → x.Readable →
    apply env m key x cur = .ok cur'

omit [CPython] in
/-- Without expiry a lookup finds what there is. -/
theorem lookup_off {m : Mode} (hm : m.expiry = false) (now : Nat) (key : Str) (r : Reg) :
    r.lookup m now key = (r.cur, r) := by
  obtain ⟨cur, out⟩ := r
  cases cur <;> simp [lookup, hm]

/-- A lookup finds the item and leaves it. -/
def Found (m : Mode) (now : Nat) (key : Str) (cur : Option Item) : Prop :=
  ∀ out, lookup m now key ⟨cur, out⟩ = (cur, ⟨cur, out⟩)

omit [CPython] in
/-- Without expiry everything is found. -/
theorem found_off {m : Mode} (hm : m.expiry = false) (now : Nat) (key : Str) (cur : Option Item) :
    Found m now key cur :=
  fun out => lookup_off hm now key ⟨cur, out⟩

/-- A step, from the run of the handler. -/
theorem Step.of_run {c : Command} {key : Str} {rest : List Str} {cur : Option Item}
    (after : Option Item) (hc : c.spec.keySpec = some singleKey) (hw : c.spec.write = true)
    (hreal : c.Real (key :: rest)) (harity : c.checkArity (key :: rest) = .ok ())
    (hrun : ∀ env m, m.expiry = false → Effect.Fresh ⟨c, key :: rest⟩ m env.now →
      Effect.Readable ⟨c, key :: rest⟩ →
      (∃ reply, ((c.handler (key :: rest)).run (exec env m key) ⟨cur, []⟩).1 = .ok reply) ∧
        ((c.handler (key :: rest)).run (exec env m key) ⟨cur, []⟩).2.cur = after) :
    Step key ⟨c, key :: rest⟩ cur (finish after) := by
  refine ⟨Effect.at_single hc hw hreal, fun env m hm hfresh hread => ?_⟩
  obtain ⟨⟨reply, hok⟩, hafter⟩ := hrun env m hm hfresh hread
  simp only [apply, Effect.program, harity, bind_eq, ofExcept_ok, ret_bind]
  split
  case h_1 heq =>
    rw [← hafter, heq]
  case h_2 heq =>
    rw [heq] at hok
    cases hok

theorem step_del (key : Str) (cur : Option Item) : Step key (.del key) cur none := by
  refine ⟨Effect.at_del key, fun env m hm _ _ => ?_⟩
  cases hcur : cur <;> cases hload : m.loading <;>
    simp [apply, Effect.program, Effect.del, Command.checkArity, Command.spec, Command.handler,
      Commands.delete, keepIf, KvStore.propagate, run_op, exec, lookup_off hm, finish,
      Reg.propagate, hload]

/-! ## Faithful programs -/

/-- **What `p` logs when it runs on `cur` takes `start` to what `p` leaves.** -/
def Faithful {α : Type} (env : Env) (key : Str) (p : Cmd α) (start cur : Option Item) : Prop :=
  Runs (Step key) (p.run (exec env .normal key) ⟨cur, []⟩).2.out start
    (finish (p.run (exec env .normal key) ⟨cur, []⟩).2.cur)

/-- What a read of a text finds: `none` if the item is of another type. -/
def textOf : Option Item → Option (Option Str)
  | none => some none
  | some ⟨.str s, _⟩ => some (some s)
  | some _ => none

/-- The collection a write prepares, empty if the key is missing: `none` if the item is of another
type. -/
def targetOf (kind : Kind) : Option Item → Option Item
  | none => some ⟨kind.emptyValue.ofSeen, none⟩
  | some item => if item.value.kind = kind then some item else none

/-- The item of a key, if there is one, has not expired. -/
def Live (now : Nat) (cur : Option Item) : Prop :=
  ∀ item, cur = some item → passed now item.expiresAt = false

omit [CPython] in
theorem lookup_live {now : Nat} {item : Item} (h : passed now item.expiresAt = false) (m : Mode)
    (key : Str) (out : List Effect) :
    lookup m now key ⟨some item, out⟩ = (some item, ⟨some item, out⟩) := by
  simp [lookup, h]

omit [CPython] in
theorem found_live {now : Nat} {cur : Option Item} (h : Live now cur) (m : Mode) (key : Str) :
    Found m now key cur := by
  intro out
  rcases cur with _ | item
  · rfl
  · exact lookup_live (h item rfl) m key out

/-- What a lookup finds, and what it logs, on a primary. -/
theorem lookup_normal (now : Nat) (key : Str) (cur : Option Item) :
    ∃ found dels, lookup .normal now key ⟨cur, []⟩ = (found, ⟨found, dels⟩) ∧ Live now found ∧
      Runs (Step key) dels cur found ∧ (found = none ∨ found = cur) := by
  cases cur with
  | none => exact ⟨none, [], rfl, by simp [Live], .nil _, .inl rfl⟩
  | some item =>
    cases hpassed : passed now item.expiresAt with
    | false =>
      refine ⟨some item, [], by simp [lookup, hpassed], ?_, .nil _, .inr rfl⟩
      intro item' h
      rw [Option.some.injEq] at h
      rwa [← h]
    | true =>
      exact ⟨none, [.del key], by simp [lookup, hpassed, Mode.normal, propagate],
        by simp [Live], .single (step_del key _), .inl rfl⟩

end Reg

section Rules

open Reg

variable {α : Type} {env : Env} {key : Str} {start cur : Option Item}

theorem faithful_ret (a : α) (h : finish cur = start) : Faithful env key (.ret a : Cmd α) start cur := by
  rw [← h]
  exact .nil _

theorem faithful_fail (e : KvError) (h : finish cur = start) :
    Faithful env key (.fail e : Cmd α) start cur := by
  rw [← h]
  exact .nil _

theorem faithful_op {o : Op} {next : o.Resp → Cmd α} {a : o.Resp} {cur' : Option Item}
    (hexec : exec env .normal key o ⟨cur, []⟩ = (a, ⟨cur', []⟩))
    (hnext : Faithful env key (next a) start cur') :
    Faithful env key (.op o next) start cur := by
  unfold Faithful
  rw [run_op, hexec]
  exact hnext

theorem faithful_attempt {β : Type} {x : Except KvError β} {f : β → Cmd α} (h : finish cur = start)
    (hf : ∀ b, x = .ok b → Faithful env key (f b) start cur) :
    Faithful env key ((attempt x).bind f) start cur := by
  cases x with
  | error e => exact faithful_fail e h
  | ok b => exact hf b rfl

/-- What is made of the reply does not matter. -/
theorem faithful_map {β : Type} {p : Cmd β} (f : β → α) (h : Faithful env key p start cur) :
    Faithful env key (p.bind fun b => .ret (f b)) start cur := by
  unfold Faithful
  rw [run_map_snd]
  exact h

theorem faithful_log {x : Effect} (a : α) (h : Step key x start (finish cur)) :
    Faithful env key (.op (.propagate x) fun _ => .ret a) start cur :=
  .single h

/-- An operation that looks the key up: what follows runs on a live key, or on none, changed by
`act`. -/
theorem faithful_lookup {o : Op} {next : o.Resp → Cmd α} (act : Option Item → o.Resp × Option Item)
    (hexec : ∀ found out, lookup .normal env.now key ⟨cur, []⟩ = (found, ⟨found, out⟩) →
      exec env .normal key o ⟨cur, []⟩ = ((act found).1, ⟨(act found).2, out⟩))
    (hcur : finish cur = cur)
    (hnext : ∀ found, Live env.now found → finish found = found →
      Faithful env key (next (act found).1) found (act found).2) :
    Faithful env key (.op o next) cur cur := by
  obtain ⟨found, dels, hlookup, hlive, hdels, hfound⟩ := lookup_normal env.now key cur
  have hfinish : finish found = found := by
    rcases hfound with rfl | rfl
    · rfl
    · exact hcur
  have happend := run_append env .normal key (next (act found).1) (act found).2 dels []
  rw [List.append_nil] at happend
  unfold Faithful
  rw [run_op, hexec found dels hlookup]
  simp only [happend]
  exact hdels.append (hnext found hlive hfinish)

theorem faithful_get {next : Option Seen → Cmd α} (hcur : finish cur = cur)
    (hnext : ∀ found, Live env.now found → finish found = found →
      Faithful env key (next (found.map Item.seen)) found found) :
    Faithful env key (.op (.get key) next) cur cur :=
  faithful_lookup (fun found => (found.map Item.seen, found))
    (fun found out h => by simp [exec, h]) hcur hnext

theorem faithful_readStr {f : Option Str → Cmd α} (hcur : finish cur = cur)
    (hf : ∀ found current, Live env.now found → finish found = found →
      textOf found = some current → Faithful env key (f current) found found) :
    Faithful env key ((readStr key).bind f) cur cur := by
  refine faithful_get hcur ?_
  rintro (_ | ⟨v, d⟩) hlive hfinish
  · exact hf none none hlive hfinish rfl
  · cases v with
    | str s => exact hf _ (some s) hlive hfinish rfl
    | _ => exact faithful_fail _ hfinish

theorem faithful_readList {f : Option (List Str) → Cmd α} (hcur : finish cur = cur)
    (hnone : Faithful env key (f none) none none)
    (hsome : ∀ l d, passed env.now d = false → finish (some ⟨.list l, d⟩) = some ⟨.list l, d⟩ →
      Faithful env key (f (some l)) (some ⟨.list l, d⟩) (some ⟨.list l, d⟩)) :
    Faithful env key ((readList key).bind f) cur cur := by
  refine faithful_get hcur ?_
  rintro (_ | ⟨v, d⟩) hlive hfinish
  · exact hnone
  · cases v with
    | list l => exact hsome l d (hlive _ rfl) hfinish
    | _ => exact faithful_fail _ hfinish

theorem faithful_readHash {f : Option (Dict Str Str) → Cmd α} (hcur : finish cur = cur)
    (hnone : Faithful env key (f none) none none)
    (hsome : ∀ h d, passed env.now d = false → finish (some ⟨.hash h, d⟩) = some ⟨.hash h, d⟩ →
      Faithful env key (f (some h)) (some ⟨.hash h, d⟩) (some ⟨.hash h, d⟩)) :
    Faithful env key ((readHash key).bind f) cur cur := by
  refine faithful_get hcur ?_
  rintro (_ | ⟨v, d⟩) hlive hfinish
  · exact hnone
  · cases v with
    | hash h => exact hsome h d (hlive _ rfl) hfinish
    | _ => exact faithful_fail _ hfinish

theorem faithful_readSet {f : Option KeySet → Cmd α} (hcur : finish cur = cur)
    (hnone : Faithful env key (f none) none none)
    (hsome : ∀ s d, passed env.now d = false → finish (some ⟨.set s, d⟩) = some ⟨.set s, d⟩ →
      Faithful env key (f (some s)) (some ⟨.set s, d⟩) (some ⟨.set s, d⟩)) :
    Faithful env key ((readSet key).bind f) cur cur := by
  refine faithful_get hcur ?_
  rintro (_ | ⟨v, d⟩) hlive hfinish
  · exact hnone
  · cases v with
    | set s => exact hsome s d (hlive _ rfl) hfinish
    | _ => exact faithful_fail _ hfinish

theorem faithful_readZset {f : Bool → Cmd α} (hcur : finish cur = cur)
    (hnone : Faithful env key (f false) none none)
    (hsome : ∀ z d, passed env.now d = false → finish (some ⟨.zset z, d⟩) = some ⟨.zset z, d⟩ →
      Faithful env key (f true) (some ⟨.zset z, d⟩) (some ⟨.zset z, d⟩)) :
    Faithful env key ((readZset key).bind f) cur cur := by
  refine faithful_get hcur ?_
  rintro (_ | ⟨v, d⟩) hlive hfinish
  · exact hnone
  · cases v with
    | zset z => exact hsome z d (hlive _ rfl) hfinish
    | _ => exact faithful_fail _ hfinish

theorem faithful_peek {next : Option Seen → Cmd α} (hcur : finish cur = cur)
    (hnone : Faithful env key (next none) none none)
    (hsome : ∀ item : Item, passed env.now item.expiresAt = false →
      finish (some item) = some item →
      Faithful env key (next (some item.seen)) (some item) (some item)) :
    Faithful env key (.op (.peek key) next) cur cur := by
  refine faithful_lookup (fun found => (found.map Item.seen, found))
    (fun found out h => by simp [exec, h]) hcur ?_
  rintro (_ | item) hlive hfinish
  · exact hnone
  · exact hsome item (hlive _ rfl) hfinish

/-- Preparing a collection to be written. -/
theorem faithful_writeTarget {kind : Kind} {f : Value Unit → Cmd α} (hcur : finish cur = cur)
    (hf : ∀ found v d, finish found = found → targetOf kind found = some ⟨v, d⟩ →
      Faithful env key (f (v.map fun _ => ())) found (some ⟨v, d⟩)) :
    Faithful env key ((writeTarget key kind).bind f) cur cur := by
  refine faithful_peek hcur ?_ ?_
  · have hmap : kind.emptyValue.ofSeen.map (fun _ => ()) = kind.emptyValue := by cases kind <;> rfl
    have hnew := hf none kind.emptyValue.ofSeen none rfl rfl
    rw [hmap] at hnew
    exact faithful_op rfl hnew
  · rintro ⟨v, d⟩ hlive hfinish
    have hkind : (v.map fun _ => ()).kind = v.kind := by cases v <;> rfl
    change Faithful env key (Prog.bind (if (v.map fun _ => ()).kind = kind then
      .op (.touch key) fun _ => .ret (v.map fun _ => ()) else .fail .wrongType) f) _ _
    rw [ite_bind, hkind]
    split
    case isTrue h => exact faithful_op rfl (hf (some ⟨v, d⟩) v d hfinish (by simp [targetOf, h]))
    case isFalse h => exact faithful_fail _ hfinish

/-- Changing a collection and logging that. -/
theorem faithful_mutate {x : Effect} {edits : List Edit} {v : Value Ranking} {d : Option Int}
    (a : α) (h : Step key x start (finish (some ⟨v.editAll edits, d⟩))) :
    Faithful env key (.op (.mutate key edits) fun _ => .op (.propagate x) fun _ => .ret a) start
      (some ⟨v, d⟩) :=
  faithful_op rfl (faithful_log a h)

section

omit [CPython]

/-- The collection prepared has the type asked for. -/
theorem targetOf_kind {kind : Kind} {v : Value Ranking} {d : Option Int}
    (h : targetOf kind cur = some ⟨v, d⟩) : v.kind = kind := by
  rcases cur with _ | item
  · simp only [targetOf, Option.some.injEq, Item.mk.injEq] at h
    rw [← h.1]
    cases kind <;> rfl
  · simp only [targetOf] at h
    split at h <;> simp_all

/-- A collection prepared and left as it was is what there was before. -/
theorem finish_target {kind : Kind} (hkind : kind ≠ .str) {item : Item} (hcur : finish cur = cur)
    (h : targetOf kind cur = some item) : finish (some item) = cur := by
  rcases cur with _ | found
  · simp only [targetOf, Option.some.injEq] at h
    rw [← h]
    cases kind <;> first | rfl | exact absurd rfl hkind
  · simp only [targetOf] at h
    split at h <;> simp_all

/-- Preparing a collection to be written, when the key is found. -/
theorem run_writeTarget {m : Mode} (hfound : Found m env.now key cur) {kind : Kind} {v : Value Ranking}
    {d : Option Int} (h : targetOf kind cur = some ⟨v, d⟩) (f : Value Unit → Cmd α)
    (out : List Effect) :
    ((writeTarget key kind).bind f).run (exec env m key) ⟨cur, out⟩ =
      (f (v.map fun _ => ())).run (exec env m key) ⟨some ⟨v, d⟩, out⟩ := by
  rcases cur with _ | ⟨w, e⟩
  · have hmap : kind.emptyValue.ofSeen.map (fun _ => ()) = kind.emptyValue := by cases kind <;> rfl
    simp only [targetOf, Option.some.injEq, Item.mk.injEq] at h
    obtain ⟨rfl, rfl⟩ := h
    rw [hmap]
    rfl
  · have hkind : (w.map fun _ => ()).kind = w.kind := by cases w <;> rfl
    simp only [targetOf] at h
    split at h
    case isFalse => cases h
    case isTrue hw =>
      simp only [Option.some.injEq, Item.mk.injEq] at h
      obtain ⟨rfl, rfl⟩ := h
      simp [writeTarget, run_op, exec, hfound out, Item.seen, hkind, hw]

end

/-- Preparing a collection to be written, on a live key. -/
theorem faithful_target {kind : Kind} {v : Value Ranking} {d : Option Int} {f : Value Unit → Cmd α}
    (hlive : Live env.now cur) (htarget : targetOf kind cur = some ⟨v, d⟩)
    (hf : Faithful env key (f (v.map fun _ => ())) start (some ⟨v, d⟩)) :
    Faithful env key ((writeTarget key kind).bind f) start cur := by
  unfold Faithful
  rw [run_writeTarget (found_live hlive .normal key) htarget]
  exact hf

end Rules

end KvStore
