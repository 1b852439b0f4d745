import KvStore.Engine.Register

/-! # What a handler does

The handler of a command on a single key performs operations on that key only, or on none; it fails before
the first change, and not because the memory is used up. All this is said once for every handler, by
`Prog.Obeys`.

* **`Command.obeys_read`** — a command that is no write only reads its key.
* **`Command.obeys_write`** — a write that does not create its key in place.
* **`Space.run_at`** — a program on one key runs on a keyspace as on the register of its key. -/

namespace KvStore

open Commands Prog

/-- The operations on one key, or on none. -/
@[simp] def Op.At (key : Str) (o : Op) : Prop :=
  o.Plain ∧ (o.key? = some key ∨ o.key? = none ∧ o ≠ .flushAll)

/-- The operation that creates a key in place (in `write_target`). -/
@[simp] def Op.Creates : Op → Prop
  | .insert _ _ => True
  | _ => False

/-- The operations on one key, or on none, that create no key in place. -/
@[simp] def Op.Tame (key : Str) (o : Op) : Prop := o.At key ∧ ¬ o.Creates

/-- What an operation may bring that was not there. -/
inductive News
  | key
  /-- A value in place of what the key held. -/
  | value
  | record
  | deadline

/-- What an operation brings. -/
@[simp] def Op.brings? : Op → Option News
  | .insert _ _ => some .key
  | .set _ _ _ => some .value
  | .loadRecord _ _ _ => some .record
  | .setExpiry _ _ => some .deadline
  | _ => none

/-- The operations on one key, or on none, that bring nothing else. -/
@[simp] def Op.Brings (key : Str) (news : News → Bool) (o : Op) : Prop :=
  o.At key ∧ ∀ n ∈ o.brings?, news n = true

@[simp] theorem Op.brings_get (key : Str) (news : News → Bool) : Op.Brings key news (.get key) := by
  simp

theorem Op.Brings.tame {key : Str} {news : News → Bool} {o : Op} (h : o.Brings key news)
    (hkey : news .key = false) : o.Tame key := by
  refine ⟨h.1, fun hcreates => ?_⟩
  cases o with
  | insert => exact absurd (h.2 .key rfl) (by simp [hkey])
  | _ => exact hcreates

/-- The operations that do not change the keyspace, except for removing expired keys. -/
@[simp] def Op.Reads : Op → Prop
  | .now | .loading | .peek _ | .get _ | .record _ => True
  | .zset _ call => match call with
      | .add _ _ => False
      | .remove _ => False
      | _ => True
  | .iterKeys | .size | .sample _ _ | .choices _ _ | .startRewrite | .save | .lastSaveTime
  | .introspect _ _ => True
  | _ => False

/-- The operations that only read one key. -/
@[simp] def Op.ReadsAt (key : Str) (o : Op) : Prop := o.Reads ∧ o.At key

/-- The operations that look: they remove expired keys and tell the policy, but change nothing else. -/
@[simp] def Op.Views : Op → Prop
  | .now | .loading | .peek _ | .get _ | .touch _ | .record _ => True
  | .zset _ call => match call with
      | .add _ _ => False
      | .remove _ => False
      | _ => True
  | .sample _ _ | .choices _ _ => True
  | _ => False

/-- The operations that change nothing at all. -/
@[simp] def Op.Rests : Op → Prop
  | .now | .loading | .zset _ (.score _) | .sample _ _ | .choices _ _ => True
  | _ => False

/-- What changes nothing only looks. -/
theorem Op.Rests.views {o : Op} (h : o.Rests) : o.Views := by
  cases o <;> simp_all
  case zset _ call => cases call <;> simp_all

/-- A RESTORE whose payload, if it is valid, has no NaN among its scores. Every other command is
real. -/
def Command.Real (c : Command) (args : List Str) : Prop :=
  match c, args with
  | .restore, _ :: _ :: raw :: _ => ∀ payload, loadValue raw = .ok payload → payload.Real
  | _, _ => True

/-! ## Errors -/

/-- An error that does not say that the memory is used up. -/
def KvError.Ordinary (e : KvError) : Prop := e.kind ≠ .outOfMemory

@[simp] theorem KvError.ordinary_invalidArgument (message : String) : (invalidArgument message).Ordinary := nofun

@[simp] theorem KvError.ordinary_command (message : String) : (command message).Ordinary := nofun

@[simp] theorem KvError.ordinary_wrongType : wrongType.Ordinary := nofun

@[simp] theorem KvError.ordinary_syntaxError : syntaxError.Ordinary := nofun

@[simp] theorem KvError.ordinary_wrongArity (name : String) : (wrongArity name).Ordinary := nofun

/-- The errors of an integer argument. -/
@[simp] theorem failsBy_intArg (arg : Str) : Prog.FailsBy KvError.Ordinary (intArg arg) := by
  unfold intArg
  split <;> simp

/-- The errors of a bound on scores. -/
@[simp] theorem failsBy_scoreBound [CPython] (arg : Str) :
    Prog.FailsBy KvError.Ordinary (scoreBound arg) := by
  unfold scoreBound
  simp only
  split <;> simp

/-- The errors of the number of elements to pop. -/
@[simp] theorem failsBy_popCount (args : List Str) :
    Prog.FailsBy KvError.Ordinary (popCount args) := by
  unfold popCount
  split
  · simp
  case h_2 arg _ =>
    have harg := failsBy_intArg arg
    split
    case h_1 e heq => simpa using harg e heq
    case h_2 => simp

/-- The errors of the number of members to draw. -/
@[simp] theorem failsBy_memberCount (args : List Str) :
    Prog.FailsBy KvError.Ordinary (memberCount args) := by
  unfold memberCount
  split
  · simp
  case h_2 arg _ =>
    have harg := failsBy_intArg arg
    split
    case h_1 e heq => simpa using harg e heq
    case h_2 => simp

/-- The errors of the options of a range. -/
@[simp] theorem failsBy_parseRangeOptions (args : List Str) (o : RangeOptions) :
    Prog.FailsBy KvError.Ordinary (parseRangeOptions args o) := by
  fun_induction parseRangeOptions args o with
  | case1 => simp
  | case2 arg rest o h ih | case3 arg rest o h h' ih => exact ih
  | case4 | case5 => assumption
  | case6 o arg _ _ _ _ offsetArg countArg _ e heq => exact fun _ h => by cases h; exact failsBy_intArg _ _ heq
  | case7 o arg _ _ _ _ offsetArg countArg _ e heq => exact fun _ h => by cases h; exact failsBy_intArg _ _ ‹_›
  | case8 | case9 => simp

/-- The commands whose handler asks the context for an outcome, which may be an error. -/
def Command.asks : Command → Bool
  | .save | .bgsave | .bgrewriteaof | .time | .hello | .client | .command | .config | .info => true
  | _ => false

/-- **The errors of a command**: without the flag `denyoom` none says that the memory is used up, unless the
context gives it. -/
def Command.Raises (c : Command) (e : KvError) : Prop :=
  c.asks = false → c.spec.denyoom = false → e.Ordinary

/-! ## The parts of handlers -/

section Parts

variable {α : Type} {key : Str} {P Q : Op → Prop} {E : KvError → Prop}

/-- What holds for every value holds for every text, list, hash, set and sorted set. -/
theorem Value.forall_iff {Z : Type} {p : Value Z → Prop} :
    (∀ v, p v) ↔ (∀ s, p (.str s)) ∧ (∀ l, p (.list l)) ∧ (∀ h, p (.hash h)) ∧ (∀ s, p (.set s)) ∧
      ∀ z, p (.zset z) := by
  constructor
  · intro h
    exact ⟨fun _ => h _, fun _ => h _, fun _ => h _, fun _ => h _, fun _ => h _⟩
  · rintro ⟨hstr, hlist, hhash, hset, hzset⟩ (s | l | h | s | z)
    exacts [hstr s, hlist l, hhash h, hset s, hzset z]

/-- What holds for every answer to a lookup. -/
theorem Seen.forall_iff {p : Seen → Prop} : (∀ e, p e) ↔ ∀ v d, p ⟨v, d⟩ :=
  ⟨fun h v d => h ⟨v, d⟩, fun h ⟨v, d⟩ => h v d⟩

@[simp] theorem obeys_readStr_bind (f : Option Str → Cmd α) :
    ((readStr key).bind f).Obeys P Q E ↔ P (.get key) ∧ (Q (.get key) ∧ E .wrongType) ∧
      ∀ v, (f v).Obeys P Q fun e => Q (.get key) ∧ E e := by
  simp [readStr, Option.forall, Seen.forall_iff, Value.forall_iff]
  tauto

@[simp] theorem obeys_readList_bind (f : Option (List Str) → Cmd α) :
    ((readList key).bind f).Obeys P Q E ↔ P (.get key) ∧ (Q (.get key) ∧ E .wrongType) ∧
      ∀ v, (f v).Obeys P Q fun e => Q (.get key) ∧ E e := by
  simp [readList, Option.forall, Seen.forall_iff, Value.forall_iff]
  tauto

@[simp] theorem obeys_readHash_bind (f : Option (Dict Str Str) → Cmd α) :
    ((readHash key).bind f).Obeys P Q E ↔ P (.get key) ∧ (Q (.get key) ∧ E .wrongType) ∧
      ∀ v, (f v).Obeys P Q fun e => Q (.get key) ∧ E e := by
  simp [readHash, Option.forall, Seen.forall_iff, Value.forall_iff]
  tauto

@[simp] theorem obeys_readSet_bind (f : Option KeySet → Cmd α) :
    ((readSet key).bind f).Obeys P Q E ↔ P (.get key) ∧ (Q (.get key) ∧ E .wrongType) ∧
      ∀ v, (f v).Obeys P Q fun e => Q (.get key) ∧ E e := by
  simp [readSet, Option.forall, Seen.forall_iff, Value.forall_iff]
  tauto

@[simp] theorem obeys_readZset_bind (f : Bool → Cmd α) :
    ((readZset key).bind f).Obeys P Q E ↔ P (.get key) ∧ (Q (.get key) ∧ E .wrongType) ∧
      ∀ v, (f v).Obeys P Q fun e => Q (.get key) ∧ E e := by
  simp [readZset, Option.forall, Seen.forall_iff, Value.forall_iff]
  tauto

@[simp] theorem obeys_propagate_bind (c : Command) (args : List Str) (f : Unit → Cmd α) :
    ((propagate c args).bind f).Obeys P Q E ↔
      P (.propagate ⟨c, args⟩) ∧ (f ()).Obeys P Q fun e => Q (.propagate ⟨c, args⟩) ∧ E e := by
  simp only [propagate, perform_bind, obeys_op]
  exact ⟨fun h => ⟨h.1, h.2 ()⟩, fun h => ⟨h.1, fun _ => h.2⟩⟩

@[simp] theorem obeys_propagate (c : Command) (args : List Str) :
    (propagate c args).Obeys P Q E ↔ P (.propagate ⟨c, args⟩) := by
  simp [propagate]

@[simp] theorem obeys_badArity (c : Command) :
    (badArity c).Obeys P Q E ↔ E (.wrongArity c.name.toLower) := by
  simp [badArity]

/-- A loop of tests that do not fail. -/
theorem obeys_keepIf {test : α → Cmd Bool} {xs : List α}
    (htest : ∀ x ∈ xs, (test x).Obeys P Q fun _ => False) : (keepIf test xs).Obeys P Q E := by
  suffices h : (keepIf test xs).Obeys P Q fun _ => False from
    h.mono (fun _ => id) (fun _ => id) fun _ => False.elim
  induction xs with
  | nil => trivial
  | cons x rest ih =>
    have hrest := ih fun y hy => htest y (List.mem_cons_of_mem x hy)
    refine (htest x List.mem_cons_self).andThen fun b => ?_
    cases b
    · exact hrest
    · exact hrest.andThen fun _ => trivial

end Parts

/-! ## Reads of one key -/

section Reads

variable {key : Str}

/-- PTTL in milliseconds. -/
theorem obeys_pttlMs : (pttlMs key).Obeys (Op.ReadsAt key) (fun _ => True) KvError.Ordinary := by
  simp [pttlMs, Option.forall, Seen.forall_iff]

/-- The replies about a whole hash. -/
theorem obeys_hashReply (c : Command) (f : List (Str × Str) → Reply) (rest : List Str) :
    (hashReply c f (key :: rest)).Obeys (Op.ReadsAt key) (fun _ => True) KvError.Ordinary := by
  cases rest <;> simp [hashReply, Option.forall]

/-- The elements of a sorted set, and a part that only reads. -/
theorem obeys_zsetItems_bind {α : Type} {f : Option (List (Str × Double)) → Cmd α}
    (hf : ∀ items, (f items).Obeys (Op.ReadsAt key) (fun _ => True) KvError.Ordinary) :
    ((zsetItems key).bind f).Obeys (Op.ReadsAt key) (fun _ => True) KvError.Ordinary := by
  refine Prog.Obeys.bind (fun _ ho => ⟨ho, trivial⟩) ?_ hf
  simp [zsetItems]

/-- ZRANK and ZREVRANK. -/
theorem obeys_rank (reverse : Bool) (rest : List Str) :
    (rank reverse (key :: rest)).Obeys (Op.ReadsAt key) (fun _ => True) KvError.Ordinary := by
  unfold rank
  split
  case h_2 => simp
  case h_1 heq =>
    obtain ⟨rfl, rfl⟩ := List.cons.inj heq
    refine obeys_zsetItems_bind fun items => ?_
    cases items with
    | none => trivial
    | some items =>
      simp only
      split <;> trivial

variable [CPython]

/-- ZCOUNT. -/
theorem obeys_zcount (rest : List Str) :
    (zcount (key :: rest)).Obeys (Op.ReadsAt key) (fun _ => True) KvError.Ordinary := by
  unfold zcount
  split
  case h_2 => simp
  case h_1 heq =>
    obtain ⟨rfl, rfl⟩ := List.cons.inj heq
    simp only [bind_eq, obeys_ofExcept_bind, failsBy_scoreBound, true_and]
    exact fun lo _ hi _ => obeys_zsetItems_bind fun items => by cases items <;> trivial

/-- The ranges of a sorted set. -/
theorem obeys_zrangeWith (start stop : Str) (o : RangeOptions) :
    (zrangeWith key start stop o).Obeys (Op.ReadsAt key) (fun _ => True) KvError.Ordinary := by
  simp only [zrangeWith, bind_eq, obeys_ite, obeys_ofExcept_bind, failsBy_scoreBound,
    failsBy_intArg, true_and, obeys_fail, KvError.ordinary_syntaxError, implies_true]
  exact ⟨fun _ _ _ _ _ => ⟨fun _ => trivial,
    fun _ => obeys_zsetItems_bind fun items => by cases items <;> trivial⟩,
    fun _ _ _ _ _ _ => obeys_zsetItems_bind fun items => by cases items <;> trivial⟩

/-- ZRANGEBYSCORE and ZREVRANGEBYSCORE. -/
theorem obeys_rangeByScoreWith (c : Command) (reverse : Bool) (rest : List Str) :
    (rangeByScoreWith c reverse (key :: rest)).Obeys (Op.ReadsAt key) (fun _ => True)
      KvError.Ordinary := by
  unfold rangeByScoreWith
  split
  case h_2 => simp
  case h_1 heq =>
    obtain ⟨rfl, rfl⟩ := List.cons.inj heq
    simp [obeys_zrangeWith]

/-- **A handler of a single-key command that is no write only reads its key.** -/
theorem Command.obeys_read (c : Command) (rest : List Str) (hc : c.spec.keySpec = some singleKey)
    (hw : c.spec.write = false) :
    (c.handler (key :: rest)).Obeys (Op.ReadsAt key) (fun _ => True) KvError.Ordinary := by
  cases c <;> simp only [Command.spec, Bool.true_eq_false] at hw <;>
    simp only [Command.spec, reduceCtorEq, Option.some.injEq] at hc <;>
    simp only [Command.handler] <;> try (simp [singleKey, allKeys] at hc)
  case get => unfold Commands.get; split <;> simp_all
  case strlen => unfold Commands.strlen; split <;> simp_all
  case type_ => unfold Commands.type_; split <;> simp_all [Option.forall, Value.kind]
  case pttl => unfold Commands.pttl; split <;> simp_all [obeys_pttlMs.andThen]
  case ttl => unfold Commands.ttl; split <;> simp_all [obeys_pttlMs.andThen]
  case dump => unfold Commands.dump; split <;> simp_all [Option.forall]
  case llen => unfold Commands.llen; split <;> simp_all
  case lrange => unfold Commands.lrange; split <;> simp_all [Option.forall]
  case lindex => unfold Commands.lindex; split <;> simp_all [Option.forall]
  case hget => unfold Commands.hget; split <;> simp_all
  case hmget => unfold Commands.hmget; split <;> simp_all
  case hgetall | hkeys | hvals | hlen => exact obeys_hashReply _ _ rest
  case hexists => unfold Commands.hexists; split <;> simp_all
  case smembers => unfold Commands.smembers; split <;> simp_all [Option.forall]
  case sismember => unfold Commands.sismember; split <;> simp_all [Option.forall]
  case scard => unfold Commands.scard; split <;> simp_all [Option.forall]
  case srandmember => unfold Commands.srandmember; split <;> simp_all [Option.forall]
  case zscore => unfold Commands.zscore; split <;> simp_all
  case zcard => unfold Commands.zcard; split <;> simp_all
  case zcount => exact obeys_zcount rest
  case zrank | zrevrank => exact obeys_rank _ rest
  case zrange => unfold Commands.zrange; split <;> simp_all [obeys_zrangeWith]
  case zrevrange => unfold Commands.zrevrange; split <;> simp_all [obeys_zrangeWith]
  case zrangebyscore | zrevrangebyscore => exact obeys_rangeByScoreWith _ _ rest

end Reads

/-! ## Writes of one key -/

/-- The commands that go through `write_target`: they create a missing key in place. -/
def Command.creates : Command → Bool
  | .lpush | .rpush | .hset | .hsetnx | .hincrby | .sadd | .zadd | .zincrby => true
  | _ => false

/-- What the handler of a command may bring. -/
def Command.brings : Command → News → Bool
  | c, .key => c.creates
  | .set, .value | .setnx, .value | .incr, .value | .decr, .value | .incrby, .value | .decrby, .value
  | .incrbyfloat, .value | .append, .value => true
  | .restore, .record => true
  | .set, .deadline | .setnx, .deadline | .expire, .deadline | .pexpire, .deadline
  | .expireat, .deadline | .pexpireat, .deadline => true
  | _, _ => false

section Writes

variable {key : Str} {news : News → Bool}

/-- The deadline of SET. -/
theorem obeys_setDeadline {Q : Op → Prop} {E : KvError → Prop} (hdate : news .deadline = true)
    (ms : Option Int) : (setDeadline key ms).Obeys (Op.Brings key news) Q E := by
  cases ms <;> simp [setDeadline, hdate]

/-- SET. -/
theorem obeys_set (hvalue : news .value = true) (hdate : news .deadline = true) (value : Str)
    (options : List Str) :
    (Commands.set (key :: value :: options)).Obeys (Op.Brings key news) Op.Views fun _ => True := by
  have htail : ∀ (E : KvError → Prop) (o : SetOptions) (r : Reply), ((setDeadline key o.expireMs).bind
      fun _ => (Prog.ret r : Cmd Reply)).Obeys (Op.Brings key news) Op.Views E :=
    fun E o r => (obeys_setDeadline hdate o.expireMs).andThen fun _ => trivial
  simp [Commands.set, setValue, htail, hvalue]

/-- INCR and its kin. -/
theorem obeys_incrBy (hvalue : news .value = true) (delta : Int) :
    (incrBy key delta).Obeys (Op.Brings key news) Op.Views fun _ => True := by
  simp only [incrBy, bind_eq, obeys_readStr_bind, Op.brings_get, Op.Views, true_and]
  intro current
  split <;> simp [hvalue]

/-- EXPIRE and its kin. -/
theorem obeys_expireAtMs (hdate : news .deadline = true) (atMs : Int) :
    (expireAtMs key atMs).Obeys (Op.Brings key news) Op.Views KvError.Ordinary := by
  simp [expireAtMs, Option.forall, hdate]

/-- RESTORE, whatever one asks of the loading of a record. -/
theorem obeys_restore {P : Op → Prop} (hnews : ∀ o, Op.Brings key (fun _ => false) o → P o)
    (rest : List Str) (hload : ∀ payload atMs, (Command.Real .restore (key :: rest) → payload.Real) →
      P (.loadRecord key payload atMs)) :
    (restore (key :: rest)).Obeys P Op.Views fun _ => True := by
  have hnow : P .now := hnews _ (by simp)
  have hloading : P .loading := hnews _ (by simp)
  have hdelete : P (.delete key) := hnews _ (by simp)
  have hlog : ∀ effect, P (.propagate effect) := fun _ => hnews _ (by simp)
  have hguard : ∀ replace, (restoreGuard key replace).Obeys
      (fun o => Op.Brings key (fun _ => false) o ∧ o.Views) Op.Views fun _ => True := by
    intro replace
    cases replace <;> simp [restoreGuard, Option.forall]
  unfold restore
  split
  case h_2 => simp
  case h_1 k ttlArg raw options heq =>
    obtain ⟨rfl, rfl⟩ := List.cons.inj heq
    simp only [bind_eq, obeys_ofExcept_bind, failsBy_true, obeys_ite, obeys_fail,
      implies_true, true_and]
    intro ttl _ _
    refine (hguard _).bind (fun o ho => ⟨hnews o ho.1, ho.2⟩) fun _ => ?_
    cases hraw : loadValue raw with
    | error message => simp
    | ok payload =>
      have hpayload : ∀ atMs, P (.loadRecord key payload atMs) :=
        fun atMs => hload payload atMs fun h => h payload hraw
      simp [restoreValue, hpayload, hnow, hloading, hdelete, hlog]

/-- LSET. -/
theorem obeys_lset (rest : List Str) :
    (lset (key :: rest)).Obeys (Op.Brings key news) Op.Views fun _ => True := by
  unfold lset
  split
  case h_2 => simp
  case h_1 k arg value heq =>
    obtain ⟨rfl, rfl⟩ := List.cons.inj heq
    simp only [bind_eq, obeys_ofExcept_bind, failsBy_true, obeys_readList_bind,
      Op.brings_get, Op.Views, true_and, Option.forall]
    refine fun index _ => ⟨by simp, fun items => ?_⟩
    split <;> simp

/-- LPOP and RPOP. -/
theorem obeys_pop (left : Bool) (rest : List Str) :
    (pop left (key :: rest)).Obeys (Op.Brings key news) Op.Views KvError.Ordinary := by
  simp [pop, Option.forall]

/-- ZREM. -/
theorem obeys_zrem (members : List Str) :
    (zrem (key :: members)).Obeys (Op.Brings key news) Op.Views KvError.Ordinary := by
  simp only [zrem, bind_eq, obeys_readZset_bind, Op.brings_get, Op.Views, KvError.ordinary_wrongType,
    true_and, obeys_ite]
  refine fun found => ⟨fun _ => (obeys_keepIf (by simp)).andThen fun removed => ?_, by simp⟩
  split <;> simp

/-- Taking elements out of a sorted set. -/
theorem obeys_zpopLoop {Q : Op → Prop} (fromMax : Bool) (count : Nat) :
    (zpopLoop key fromMax count).Obeys (Op.Brings key news) Q fun _ => False := by
  induction count with
  | zero => trivial
  | succ count ih =>
    have htail : ∀ e : Str × Double, ((zpopLoop key fromMax count).bind fun popped =>
        (Prog.ret (e :: popped) : Cmd (List (Str × Double)))).Obeys (Op.Brings key news) Q
          fun _ => False := fun e => ih.andThen fun _ => trivial
    cases fromMax <;> simp [zpopLoop, Option.forall, htail]

variable [CPython]

/-- ZPOPMIN and ZPOPMAX. -/
theorem obeys_zpop (fromMax : Bool) (rest : List Str) :
    (zpop fromMax (key :: rest)).Obeys (Op.Brings key news) Op.Views KvError.Ordinary := by
  simp only [zpop, bind_eq, obeys_ofExcept_bind, failsBy_popCount, obeys_readZset_bind,
    Op.brings_get, Op.Views, KvError.ordinary_wrongType, true_and, obeys_ite]
  intro count _ found
  refine ⟨fun _ => Prog.Obeys.andThen ?_ fun popped => ?_, by simp⟩
  · exact (obeys_zpopLoop fromMax _).mono (fun _ => id) (fun _ => id) fun _ => False.elim
  · split <;> simp

/-- **A handler of a write on a single key that does not create it in place**, whatever one asks of its
operations: it brings what its command may, and fails before the first change. -/
theorem Command.obeys_write {P : Op → Prop} (c : Command) (rest : List Str)
    (hc : c.spec.keySpec = some singleKey) (hw : c.spec.write = true) (hcreates : c.creates = false)
    (hP : ∀ o, Op.Brings key c.brings o → P o)
    (hload : c = .restore → ∀ payload atMs, (c.Real (key :: rest) → payload.Real) →
      P (.loadRecord key payload atMs)) :
    (c.handler (key :: rest)).Obeys P Op.Views c.Raises := by
  by_cases hrestore : c = .restore
  · subst hrestore
    refine (obeys_restore (fun o ho => hP o ?_) rest (hload rfl)).mono (fun _ => id) (fun _ => id) nofun
    exact ⟨ho.1, fun n hn => absurd (ho.2 n hn) (by simp)⟩
  suffices h : (c.handler (key :: rest)).Obeys (Op.Brings key c.brings) Op.Views
      (fun e => c.spec.denyoom = false → e.Ordinary) from
    h.mono hP (fun _ => id) fun _ he _ => he
  clear hP hload
  cases c <;> simp only [Command.spec, Bool.false_eq_true] at hw <;>
    simp only [Command.creates, Bool.true_eq_false] at hcreates <;>
    simp only [Command.spec, reduceCtorEq, Option.some.injEq] at hc <;>
    simp only [Command.handler, Command.spec, Bool.true_eq_false, false_imp_iff, true_imp_iff] <;>
    try (simp [singleKey, allKeys, everyOtherKey] at hc)
  case set =>
    cases rest with
    | nil => simp [Commands.set]
    | cons value options => exact obeys_set rfl rfl value options
  case setnx =>
    unfold Commands.setnx
    split
    case h_2 => simp
    case h_1 heq =>
      obtain ⟨rfl, rfl⟩ := List.cons.inj heq
      exact (obeys_set rfl rfl _ _).andThen fun _ => trivial
  case getdel => unfold Commands.getdel; split <;> simp_all [Option.forall]
  case incr => unfold Commands.incr; split <;> simp_all +decide [obeys_incrBy]
  case decr => unfold Commands.decr; split <;> simp_all +decide [obeys_incrBy]
  case incrby => unfold Commands.incrby; split <;> simp_all +decide [obeys_incrBy]
  case decrby => unfold Commands.decrby; split <;> simp_all +decide [obeys_incrBy]
  case incrbyfloat => unfold Commands.incrbyfloat; split <;> simp_all [Command.brings]
  case append => unfold Commands.append; split <;> simp_all [Command.brings]
  case expire => unfold Commands.expire; split <;> simp_all +decide [obeys_expireAtMs]
  case pexpire => unfold Commands.pexpire; split <;> simp_all +decide [obeys_expireAtMs]
  case expireat => unfold Commands.expireat; split <;> simp_all +decide [obeys_expireAtMs]
  case pexpireat => unfold Commands.pexpireat; split <;> simp_all +decide [obeys_expireAtMs]
  case persist => unfold Commands.persist; split <;> simp_all
  case restore => exact absurd rfl hrestore
  case lpop | rpop => exact obeys_pop _ rest
  case lset => exact obeys_lset rest
  case ltrim => unfold Commands.ltrim; split <;> simp_all [Option.forall]
  case lrem => unfold Commands.lrem; split <;> simp_all [Option.forall]
  case hdel => unfold Commands.hdel; split <;> simp_all [Option.forall]
  case srem => unfold Commands.srem; split <;> simp_all [Option.forall]
  case spop => unfold Commands.spop; split <;> simp_all [Option.forall]
  case zrem => exact obeys_zrem rest
  case zpopmin | zpopmax => exact obeys_zpop _ rest

end Writes

/-! ## Runs on one key -/

/-- An operation on one key does to a keyspace what it does to the register of that key. -/
theorem Space.exec_at (env : Env) (m : Mode) {key : Str} {o : Op} (ho : o.At key) (K : Keyspace)
    (r : Reg) :
    Space.exec env m o ⟨Function.update K key r.cur, r.out⟩ =
      ((Reg.exec env m key o r).1,
        ⟨Function.update K key (Reg.exec env m key o r).2.cur, (Reg.exec env m key o r).2.out⟩) := by
  obtain ⟨-, hkey | ⟨hnone, hflush⟩⟩ := ho
  · simp only [Space.exec, hkey, Function.update_self, Function.update_idem]
  · simp only [Space.exec, hnone, if_neg hflush]
    cases o <;> first | rfl | simp at hnone hflush
    rename_i effect
    cases hload : m.loading <;> simp [Reg.exec, Reg.propagate, hload]

/-- **A program on one key does to a keyspace what it does to the register of that key.** -/
theorem Space.run_at (env : Env) (m : Mode) {key : Str} {α : Type} {p : Cmd α}
    (hp : p.Uses (Op.At key)) (sp : Space) :
    p.run (Space.exec env m) sp =
      ((p.run (Reg.exec env m key) ⟨sp.keys key, sp.out⟩).1,
        ⟨Function.update sp.keys key (p.run (Reg.exec env m key) ⟨sp.keys key, sp.out⟩).2.cur,
          (p.run (Reg.exec env m key) ⟨sp.keys key, sp.out⟩).2.out⟩) := by
  have h := run_related (P := Op.At key) (f := Space.exec env m)
    (g := Reg.exec env m key) (p := p) (s := sp) (t := ⟨sp.keys key, sp.out⟩)
    (R := fun sp' r => sp' = ⟨Function.update sp.keys key r.cur, r.out⟩)
    (by
      rintro o _ r ho rfl
      rw [Space.exec_at env m ho]
      exact ⟨rfl, rfl⟩)
    hp (by simp)
  exact Prod.ext h.1 h.2

/-- What was logged before an operation does not matter to it. -/
theorem Reg.exec_append (env : Env) (m : Mode) (key : Str) (o : Op) (r : Reg)
    (before : List Effect) :
    (Reg.exec env m key o ⟨r.cur, before ++ r.out⟩).1 = (Reg.exec env m key o r).1 ∧
      (Reg.exec env m key o ⟨r.cur, before ++ r.out⟩).2 =
        ⟨(Reg.exec env m key o r).2.cur, before ++ (Reg.exec env m key o r).2.out⟩ := by
  have hlog : ∀ (x : Effect) (c : Option Item),
      Reg.propagate m x ⟨c, before ++ r.out⟩ =
        ⟨c, before ++ (Reg.propagate m x ⟨c, r.out⟩).out⟩ := by
    intro x c
    cases hload : m.loading <;> simp [Reg.propagate, hload]
  have hlookup : Reg.lookup m env.now key ⟨r.cur, before ++ r.out⟩ =
      ((r.lookup m env.now key).1,
        ⟨(r.lookup m env.now key).2.cur, before ++ (r.lookup m env.now key).2.out⟩) := by
    obtain ⟨cur, out⟩ := r
    cases cur with
    | none => rfl
    | some item =>
      simp only [Reg.lookup]
      split
      · cases hdel : m.deletes
        · rfl
        · simp [hlog]
      · rfl
  rcases hfound : r.lookup m env.now key with ⟨found, r'⟩
  rw [hfound] at hlookup
  cases o <;> simp only [Reg.exec, hlookup, hfound, hlog, and_self]
  case mutate => exact ⟨trivial, rfl⟩
  case propagate effect => simp
  case zset _ call =>
    obtain ⟨cur, out⟩ := r
    cases call <;> simp [Reg.zsetCall, Reg.ranking, Reg.mutate] <;> split <;> simp_all
  case set _ _ keepTtl => cases keepTtl <;> simp
  case delete | setExpiry => cases found <;> exact ⟨rfl, rfl⟩
  case persist =>
    cases found with
    | none => exact ⟨rfl, rfl⟩
    | some item =>
      simp only
      split <;> exact ⟨rfl, rfl⟩

/-- What was logged before a program does not matter to it. -/
theorem Reg.run_append (env : Env) (m : Mode) (key : Str) {α : Type} (p : Cmd α)
    (cur : Option Item) (before out : List Effect) :
    p.run (Reg.exec env m key) ⟨cur, before ++ out⟩ =
      ((p.run (Reg.exec env m key) ⟨cur, out⟩).1,
        ⟨(p.run (Reg.exec env m key) ⟨cur, out⟩).2.cur,
          before ++ (p.run (Reg.exec env m key) ⟨cur, out⟩).2.out⟩) := by
  have h := run_related (P := fun _ => True) (f := Reg.exec env m key)
    (g := Reg.exec env m key) (p := p) (s := ⟨cur, before ++ out⟩) (t := ⟨cur, out⟩)
    (R := fun r r' => r = ⟨r'.cur, before ++ r'.out⟩)
    (by
      rintro o _ r - rfl
      exact Reg.exec_append env m key o r before)
    (uses_true p) rfl
  exact Prod.ext h.1 h.2

end KvStore
