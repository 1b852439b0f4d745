import KvStore.Engine.Replay.Hashes
import KvStore.Engine.Replay.Lists
import KvStore.Engine.Replay.Sets
import KvStore.Engine.Replay.Strings
import KvStore.Engine.Replay.Zsets

/-! # Effects replayed on a keyspace

**`Command.faithful_handler`** collects the commands on one key: what the handler logs reproduces
what it did. The rest of the module carries this over to keyspaces, where the commands on several
keys (DEL, MSET, FLUSHALL) are treated directly. -/

namespace KvStore

open Commands Reg

variable [CPython]

/-! ## The commands on one key -/

/-- **The effects of a single-key write reproduce it.** -/
theorem Command.faithful_handler {c : Command} {key : Str} {rest : List Str} (env : Env)
    (hc : c.spec.keySpec = some singleKey) (hw : c.spec.write = true)
    (harity : c.checkArity (key :: rest) = .ok ()) (hreal : c.Real (key :: rest))
    {cur : Option Item} (hcur : finish cur = cur) :
    Faithful env key (c.handler (key :: rest)) cur cur := by
  cases c <;> simp only [Command.spec, Bool.false_eq_true] at hw <;>
    simp only [Command.spec, reduceCtorEq, Option.some.injEq] at hc <;>
    simp only [Command.handler] <;> try (simp [singleKey, allKeys, everyOtherKey] at hc)
  case set => exact faithful_set rest hcur
  case setnx => exact faithful_setnx rest hcur
  case getdel => exact faithful_getdel rest hcur
  case incr =>
    cases rest with
    | nil => exact faithful_incrBy 1 hcur
    | cons _ _ => exact faithful_fail _ hcur
  case decr =>
    cases rest with
    | nil => exact faithful_incrBy (-1) hcur
    | cons _ _ => exact faithful_fail _ hcur
  case incrby =>
    rcases rest with _ | ⟨_, _ | _⟩ <;>
      first | exact faithful_fail _ hcur | exact faithful_attempt hcur fun delta _ => faithful_incrBy delta hcur
  case decrby =>
    rcases rest with _ | ⟨_, _ | _⟩ <;>
      first | exact faithful_fail _ hcur | exact faithful_attempt hcur fun delta _ => faithful_incrBy (-delta) hcur
  case incrbyfloat => exact faithful_incrbyfloat rest hcur
  case append => exact faithful_append rest hcur
  case expire | pexpire =>
    rcases rest with _ | ⟨_, _ | _⟩ <;>
      first | exact faithful_fail _ hcur | exact faithful_op rfl (faithful_attempt hcur fun _ _ => faithful_expireAtMs _ hcur)
  case expireat | pexpireat =>
    rcases rest with _ | ⟨_, _ | _⟩ <;>
      first | exact faithful_fail _ hcur | exact faithful_attempt hcur fun _ _ => faithful_expireAtMs _ hcur
  case persist => exact faithful_persist rest hcur
  case restore => exact faithful_restore rest hreal hcur
  case lpush =>
    refine faithful_push true ?_ hcur
    rintro rfl
    cases harity
  case rpush =>
    refine faithful_push false ?_ hcur
    rintro rfl
    cases harity
  case lpop => exact faithful_pop true rest hcur
  case rpop => exact faithful_pop false rest hcur
  case lset => exact faithful_lset rest hcur
  case ltrim => exact faithful_ltrim rest hcur
  case lrem => exact faithful_lrem rest hcur
  case hset => exact faithful_hset rest harity hcur
  case hsetnx => exact faithful_hsetnx rest hcur
  case hdel => exact faithful_hdel rest hcur
  case hincrby => exact faithful_hincrby rest hcur
  case sadd => exact faithful_sadd rest hcur
  case srem => exact faithful_srem rest hcur
  case spop => exact faithful_spop rest hcur
  case zadd => exact faithful_zadd rest hcur
  case zincrby => exact faithful_zincrby rest hcur
  case zrem => exact faithful_zrem rest hcur
  case zpopmin => exact faithful_zpop false rest hcur
  case zpopmax => exact faithful_zpop true rest hcur

end KvStore
