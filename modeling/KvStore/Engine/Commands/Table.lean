import KvStore.Engine.Commands.Hashes
import KvStore.Engine.Commands.Keyspace
import KvStore.Engine.Commands.Sets
import KvStore.Engine.Commands.Zsets

/-! # The handlers

The connection and server commands (`commands/server.py`), and the handler of every command. The
commands that only report on the server (its tables, its settings, its clock) go to the context
whole: they read nothing of the keyspace that a proof is about, and change nothing. -/

namespace KvStore.Commands

def ping : List Str → Cmd Reply
  | [] => return .status "PONG"
  | arg :: _ => return .bulk arg

def echo : List Str → Cmd Reply
  | arg :: _ => return .bulk arg
  | [] => badArity .echo

def select : List Str → Cmd Reply
  | [arg] =>
    if arg = text "0" then return .ok else raise (.command "DB index is out of range")
  | _ => badArity .select

/-- A command that only reports on the server. -/
def report (c : Command) (args : List Str) : Cmd Reply := do
  let outcome ← call (.introspect c args)
  attempt outcome
  return .report

def save (_ : List Str) : Cmd Reply := do
  let outcome ← call .save
  attempt outcome
  return .ok

def bgsave (args : List Str) : Cmd Reply :=
  if ∃ arg ∈ args.head?, ¬ isWord arg "SCHEDULE" then raise .syntaxError
  else do
    let outcome ← call .startRewrite
    attempt outcome
    return .status "Background saving started"

def bgrewriteaof (_ : List Str) : Cmd Reply := do
  let outcome ← call .startRewrite
  attempt outcome
  return .status "Background append only file rewriting started"

def lastsave (_ : List Str) : Cmd Reply := do
  let time ← call .lastSaveTime
  return .integer time

end Commands

variable [CPython]

/-- **The handler of a command.** -/
def Command.handler : Command → List Str → Cmd Reply
  | .get => Commands.get
  | .set => Commands.set
  | .setnx => Commands.setnx
  | .getdel => Commands.getdel
  | .mget => Commands.mget
  | .mset => Commands.mset
  | .incr => Commands.incr
  | .decr => Commands.decr
  | .incrby => Commands.incrby
  | .decrby => Commands.decrby
  | .incrbyfloat => Commands.incrbyfloat
  | .append => Commands.append
  | .strlen => Commands.strlen
  | .del => Commands.delete
  | .unlink => Commands.unlink
  | .exists_ => Commands.exists_
  | .type_ => Commands.type_
  | .keys => Commands.keys
  | .dbsize => Commands.dbsize
  | .flushall => Commands.flushall
  | .flushdb => Commands.flushdb
  | .expire => Commands.expire
  | .pexpire => Commands.pexpire
  | .expireat => Commands.expireat
  | .pexpireat => Commands.pexpireat
  | .persist => Commands.persist
  | .pttl => Commands.pttl
  | .ttl => Commands.ttl
  | .dump => Commands.dump
  | .restore => Commands.restore
  | .lpush => Commands.lpush
  | .rpush => Commands.rpush
  | .lpop => Commands.lpop
  | .rpop => Commands.rpop
  | .llen => Commands.llen
  | .lrange => Commands.lrange
  | .lindex => Commands.lindex
  | .lset => Commands.lset
  | .ltrim => Commands.ltrim
  | .lrem => Commands.lrem
  | .hset => Commands.hset
  | .hsetnx => Commands.hsetnx
  | .hget => Commands.hget
  | .hmget => Commands.hmget
  | .hdel => Commands.hdel
  | .hgetall => Commands.hgetall
  | .hkeys => Commands.hkeys
  | .hvals => Commands.hvals
  | .hlen => Commands.hlen
  | .hexists => Commands.hexists
  | .hincrby => Commands.hincrby
  | .sadd => Commands.sadd
  | .srem => Commands.srem
  | .smembers => Commands.smembers
  | .sismember => Commands.sismember
  | .scard => Commands.scard
  | .spop => Commands.spop
  | .srandmember => Commands.srandmember
  | .sinter => Commands.sinter
  | .sunion => Commands.sunion
  | .sdiff => Commands.sdiff
  | .zadd => Commands.zadd
  | .zincrby => Commands.zincrby
  | .zrem => Commands.zrem
  | .zscore => Commands.zscore
  | .zcard => Commands.zcard
  | .zcount => Commands.zcount
  | .zrank => Commands.zrank
  | .zrevrank => Commands.zrevrank
  | .zrange => Commands.zrange
  | .zrevrange => Commands.zrevrange
  | .zrangebyscore => Commands.zrangebyscore
  | .zrevrangebyscore => Commands.zrevrangebyscore
  | .zpopmin => Commands.zpopmin
  | .zpopmax => Commands.zpopmax
  | .ping => Commands.ping
  | .echo => Commands.echo
  | .select => Commands.select
  | .save => Commands.save
  | .bgsave => Commands.bgsave
  | .bgrewriteaof => Commands.bgrewriteaof
  | .lastsave => Commands.lastsave
  | .time => Commands.report .time
  | .hello => Commands.report .hello
  | .client => Commands.report .client
  | .command => Commands.report .command
  | .config => Commands.report .config
  | .info => Commands.report .info

end KvStore
