import KvStore.Foundation.Text

/-! # The command table

Every command the engine knows (`engine/commands/`), with what the table says of it: how many
arguments it takes, its flags, and which of its arguments are keys. The flags decide what the engine
does around the handler, the key positions which keys are re-accounted, protected from eviction and
used for routing.

An **effect** is a command recorded after another one ran: what goes to the append-only file and to
the replicas. -/

namespace KvStore

/-! ## Errors and replies -/

/-- The class of an error (`core/exceptions.py`). -/
inductive ErrorKind
  | command
  | unknownCommand
  | wrongArity
  | invalidArgument
  | wrongType
  | outOfMemory
  | persistence
  deriving DecidableEq, Repr

/-- **An error**: its class, the first word of the reply line, and the message. -/
structure KvError where
  kind : ErrorKind
  /-- The first word of the reply. -/
  code : String
  message : String
  deriving DecidableEq, Repr

namespace KvError

/-- `InvalidArgumentError(message)`. -/
def invalidArgument (message : String) : KvError := ⟨.invalidArgument, "ERR", message⟩

/-- `CommandError(message)`. -/
def command (message : String) : KvError := ⟨.command, "ERR", message⟩

def wrongType : KvError :=
  ⟨.wrongType, "WRONGTYPE", "Operation against a key holding the wrong kind of value"⟩

def outOfMemory : KvError :=
  ⟨.outOfMemory, "OOM", "command not allowed when used memory > 'maxmemory'."⟩

def syntaxError : KvError := invalidArgument "syntax error"

/-- `WrongArityError` for a command. -/
def wrongArity (name : String) : KvError :=
  ⟨.wrongArity, "ERR", "wrong number of arguments for '" ++ name ++ "' command"⟩

end KvError

/-- **A reply.** -/
inductive Reply
  /-- `None`. -/
  | nil
  | status (line : String)
  /-- A text. -/
  | bulk (value : Str)
  | integer (n : Int)
  /-- A list of texts, some of them missing. -/
  | array (items : List (Option Str))
  /-- The answer of a command about the server itself, whose text is not modelled. -/
  | report
  deriving DecidableEq, Repr

namespace Reply

def ok : Reply := status "OK"

/-- A text or nil. -/
def ofOption : Option Str → Reply
  | none => nil
  | some value => bulk value

/-- A list of texts. -/
def texts (items : List Str) : Reply := array (items.map some)

/-- `int(condition)`. -/
def ofBool (b : Bool) : Reply := integer (if b then 1 else 0)

end Reply

/-! ## Commands -/

/-- **The commands.** -/
inductive Command
  | get | set | setnx | getdel | mget | mset | incr | decr | incrby | decrby | incrbyfloat | append
  | strlen
  | del | unlink | exists_ | type_ | keys | dbsize | flushall | flushdb | expire | pexpire
  | expireat | pexpireat | persist | pttl | ttl | dump | restore
  | lpush | rpush | lpop | rpop | llen | lrange | lindex | lset | ltrim | lrem
  | hset | hsetnx | hget | hmget | hdel | hgetall | hkeys | hvals | hlen | hexists | hincrby
  | sadd | srem | smembers | sismember | scard | spop | srandmember | sinter | sunion | sdiff
  | zadd | zincrby | zrem | zscore | zcard | zcount | zrank | zrevrank | zrange | zrevrange
  | zrangebyscore | zrevrangebyscore | zpopmin | zpopmax
  | ping | echo | time | select | hello | client | command | config | info | save | bgsave
  | bgrewriteaof | lastsave
  deriving DecidableEq

namespace Command

/-- The name under which a command is registered. -/
def name : Command → String
  | .get => "GET"
  | .set => "SET"
  | .setnx => "SETNX"
  | .getdel => "GETDEL"
  | .mget => "MGET"
  | .mset => "MSET"
  | .incr => "INCR"
  | .decr => "DECR"
  | .incrby => "INCRBY"
  | .decrby => "DECRBY"
  | .incrbyfloat => "INCRBYFLOAT"
  | .append => "APPEND"
  | .strlen => "STRLEN"
  | .del => "DEL"
  | .unlink => "UNLINK"
  | .exists_ => "EXISTS"
  | .type_ => "TYPE"
  | .keys => "KEYS"
  | .dbsize => "DBSIZE"
  | .flushall => "FLUSHALL"
  | .flushdb => "FLUSHDB"
  | .expire => "EXPIRE"
  | .pexpire => "PEXPIRE"
  | .expireat => "EXPIREAT"
  | .pexpireat => "PEXPIREAT"
  | .persist => "PERSIST"
  | .pttl => "PTTL"
  | .ttl => "TTL"
  | .dump => "DUMP"
  | .restore => "RESTORE"
  | .lpush => "LPUSH"
  | .rpush => "RPUSH"
  | .lpop => "LPOP"
  | .rpop => "RPOP"
  | .llen => "LLEN"
  | .lrange => "LRANGE"
  | .lindex => "LINDEX"
  | .lset => "LSET"
  | .ltrim => "LTRIM"
  | .lrem => "LREM"
  | .hset => "HSET"
  | .hsetnx => "HSETNX"
  | .hget => "HGET"
  | .hmget => "HMGET"
  | .hdel => "HDEL"
  | .hgetall => "HGETALL"
  | .hkeys => "HKEYS"
  | .hvals => "HVALS"
  | .hlen => "HLEN"
  | .hexists => "HEXISTS"
  | .hincrby => "HINCRBY"
  | .sadd => "SADD"
  | .srem => "SREM"
  | .smembers => "SMEMBERS"
  | .sismember => "SISMEMBER"
  | .scard => "SCARD"
  | .spop => "SPOP"
  | .srandmember => "SRANDMEMBER"
  | .sinter => "SINTER"
  | .sunion => "SUNION"
  | .sdiff => "SDIFF"
  | .zadd => "ZADD"
  | .zincrby => "ZINCRBY"
  | .zrem => "ZREM"
  | .zscore => "ZSCORE"
  | .zcard => "ZCARD"
  | .zcount => "ZCOUNT"
  | .zrank => "ZRANK"
  | .zrevrank => "ZREVRANK"
  | .zrange => "ZRANGE"
  | .zrevrange => "ZREVRANGE"
  | .zrangebyscore => "ZRANGEBYSCORE"
  | .zrevrangebyscore => "ZREVRANGEBYSCORE"
  | .zpopmin => "ZPOPMIN"
  | .zpopmax => "ZPOPMAX"
  | .ping => "PING"
  | .echo => "ECHO"
  | .time => "TIME"
  | .select => "SELECT"
  | .hello => "HELLO"
  | .client => "CLIENT"
  | .command => "COMMAND"
  | .config => "CONFIG"
  | .info => "INFO"
  | .save => "SAVE"
  | .bgsave => "BGSAVE"
  | .bgrewriteaof => "BGREWRITEAOF"
  | .lastsave => "LASTSAVE"

/-- Every command, in the order of registration by module. -/
def all : List Command :=
  [.get, .set, .setnx, .getdel, .mget, .mset, .incr, .decr, .incrby, .decrby, .incrbyfloat, .append,
   .strlen, .del, .unlink, .exists_, .type_, .keys, .dbsize, .flushall, .flushdb, .expire, .pexpire,
   .expireat, .pexpireat, .persist, .pttl, .ttl, .dump, .restore, .lpush, .rpush, .lpop, .rpop,
   .llen, .lrange, .lindex, .lset, .ltrim, .lrem, .hset, .hsetnx, .hget, .hmget, .hdel, .hgetall,
   .hkeys, .hvals, .hlen, .hexists, .hincrby, .sadd, .srem, .smembers, .sismember, .scard, .spop,
   .srandmember, .sinter, .sunion, .sdiff, .zadd, .zincrby, .zrem, .zscore, .zcard, .zcount, .zrank,
   .zrevrank, .zrange, .zrevrange, .zrangebyscore, .zrevrangebyscore, .zpopmin, .zpopmax, .ping,
   .echo, .time, .select, .hello, .client, .command, .config, .info, .save, .bgsave, .bgrewriteaof,
   .lastsave]

/-- `COMMANDS.get(text.upper())`. -/
def ofText (s : Str) : Option Command := all.find? fun c => isWord s c.name

end Command

/-! ## Specifications -/

/-- Which arguments are keys: `args[first:last+1:step]`, `last` being `-1` for the last argument. -/
structure KeySpec where
  first : Nat
  last : Int
  /-- The distance between two keys. -/
  step : Nat
  deriving DecidableEq

/-- The first argument is the key. -/
def singleKey : KeySpec := ⟨0, 0, 1⟩

/-- Every argument is a key. -/
def allKeys : KeySpec := ⟨0, -1, 1⟩

/-- Keys and values alternate. -/
def everyOtherKey : KeySpec := ⟨0, -1, 2⟩

/-- The arguments from position `i` on that a key specification selects, up to position `last`. -/
def KeySpec.selectFrom (spec : KeySpec) (last : Int) (i : Nat) : List Str → List Str
  | [] => []
  | arg :: rest =>
    if spec.first ≤ i ∧ (i : Int) ≤ last ∧ (i - spec.first) % spec.step = 0 then
      arg :: spec.selectFrom last (i + 1) rest
    else spec.selectFrom last (i + 1) rest

/-- The arguments a key specification selects. -/
def KeySpec.select (spec : KeySpec) (args : List Str) : List Str :=
  spec.selectFrom (if spec.last = -1 then args.length - 1 else spec.last) 0 args

/-- **What the table says of a command.** -/
structure CommandSpec where
  /-- The least number of arguments. -/
  minArgs : Nat
  /-- The largest number of arguments, if there is one. -/
  maxArgs : Option Nat
  /-- Whether the command modifies the keyspace. -/
  write : Bool := false
  /-- Whether it may add data, and so is refused when memory is full. -/
  denyoom : Bool := false
  /-- Whether it needs no keyspace. -/
  stateless : Bool := false
  /-- Whether it administers the server. -/
  admin : Bool := false
  keySpec : Option KeySpec := some singleKey
  deriving DecidableEq

/-- The table. -/
def Command.spec : Command → CommandSpec
  | .get => { minArgs := 1, maxArgs := some 1 }
  | .set => { minArgs := 2, maxArgs := none, write := true, denyoom := true }
  | .setnx => { minArgs := 2, maxArgs := some 2, write := true, denyoom := true }
  | .getdel => { minArgs := 1, maxArgs := some 1, write := true }
  | .mget => { minArgs := 1, maxArgs := none, keySpec := some allKeys }
  | .mset =>
    { minArgs := 2, maxArgs := none, write := true, denyoom := true
      keySpec := some everyOtherKey }
  | .incr | .decr => { minArgs := 1, maxArgs := some 1, write := true, denyoom := true }
  | .incrby | .decrby | .incrbyfloat | .append =>
    { minArgs := 2, maxArgs := some 2, write := true, denyoom := true }
  | .strlen => { minArgs := 1, maxArgs := some 1 }
  | .del | .unlink => { minArgs := 1, maxArgs := none, write := true, keySpec := some allKeys }
  | .exists_ => { minArgs := 1, maxArgs := none, keySpec := some allKeys }
  | .type_ => { minArgs := 1, maxArgs := some 1 }
  | .keys => { minArgs := 1, maxArgs := some 1, keySpec := none }
  | .dbsize => { minArgs := 0, maxArgs := some 0, keySpec := none }
  | .flushall | .flushdb => { minArgs := 0, maxArgs := some 1, write := true, keySpec := none }
  | .expire | .pexpire | .expireat | .pexpireat =>
    { minArgs := 2, maxArgs := some 2, write := true }
  | .persist => { minArgs := 1, maxArgs := some 1, write := true }
  | .pttl | .ttl | .dump => { minArgs := 1, maxArgs := some 1 }
  | .restore => { minArgs := 3, maxArgs := some 5, write := true, denyoom := true }
  | .lpush | .rpush => { minArgs := 2, maxArgs := none, write := true, denyoom := true }
  | .lpop | .rpop => { minArgs := 1, maxArgs := some 2, write := true }
  | .llen => { minArgs := 1, maxArgs := some 1 }
  | .lrange => { minArgs := 3, maxArgs := some 3 }
  | .lindex => { minArgs := 2, maxArgs := some 2 }
  | .lset => { minArgs := 3, maxArgs := some 3, write := true, denyoom := true }
  | .ltrim | .lrem => { minArgs := 3, maxArgs := some 3, write := true }
  | .hset => { minArgs := 3, maxArgs := none, write := true, denyoom := true }
  | .hsetnx => { minArgs := 3, maxArgs := some 3, write := true, denyoom := true }
  | .hget => { minArgs := 2, maxArgs := some 2 }
  | .hmget => { minArgs := 2, maxArgs := none }
  | .hdel => { minArgs := 2, maxArgs := none, write := true }
  | .hgetall | .hkeys | .hvals | .hlen => { minArgs := 1, maxArgs := some 1 }
  | .hexists => { minArgs := 2, maxArgs := some 2 }
  | .hincrby => { minArgs := 3, maxArgs := some 3, write := true, denyoom := true }
  | .sadd => { minArgs := 2, maxArgs := none, write := true, denyoom := true }
  | .srem => { minArgs := 2, maxArgs := none, write := true }
  | .smembers => { minArgs := 1, maxArgs := some 1 }
  | .sismember => { minArgs := 2, maxArgs := some 2 }
  | .scard => { minArgs := 1, maxArgs := some 1 }
  | .spop => { minArgs := 1, maxArgs := some 2, write := true }
  | .srandmember => { minArgs := 1, maxArgs := some 2 }
  | .sinter | .sunion | .sdiff => { minArgs := 1, maxArgs := none, keySpec := some allKeys }
  | .zadd => { minArgs := 3, maxArgs := none, write := true, denyoom := true }
  | .zincrby => { minArgs := 3, maxArgs := some 3, write := true, denyoom := true }
  | .zrem => { minArgs := 2, maxArgs := none, write := true }
  | .zscore => { minArgs := 2, maxArgs := some 2 }
  | .zcard => { minArgs := 1, maxArgs := some 1 }
  | .zcount => { minArgs := 3, maxArgs := some 3 }
  | .zrank | .zrevrank => { minArgs := 2, maxArgs := some 2 }
  | .zrange => { minArgs := 3, maxArgs := none }
  | .zrevrange => { minArgs := 3, maxArgs := some 4 }
  | .zrangebyscore | .zrevrangebyscore => { minArgs := 3, maxArgs := none }
  | .zpopmin | .zpopmax => { minArgs := 1, maxArgs := some 2, write := true }
  | .ping => { minArgs := 0, maxArgs := some 1, stateless := true, keySpec := none }
  | .echo => { minArgs := 1, maxArgs := some 1, stateless := true, keySpec := none }
  | .time => { minArgs := 0, maxArgs := some 0, stateless := true, keySpec := none }
  | .select => { minArgs := 1, maxArgs := some 1, stateless := true, keySpec := none }
  | .hello => { minArgs := 0, maxArgs := none, stateless := true, keySpec := none }
  | .client => { minArgs := 1, maxArgs := none, stateless := true, keySpec := none }
  | .command => { minArgs := 0, maxArgs := none, stateless := true, keySpec := none }
  | .config => { minArgs := 1, maxArgs := none, admin := true, keySpec := none }
  | .info => { minArgs := 0, maxArgs := none, keySpec := none }
  | .save => { minArgs := 0, maxArgs := some 0, admin := true, keySpec := none }
  | .bgsave => { minArgs := 0, maxArgs := some 1, admin := true, keySpec := none }
  | .bgrewriteaof => { minArgs := 0, maxArgs := some 0, admin := true, keySpec := none }
  | .lastsave => { minArgs := 0, maxArgs := some 0, keySpec := none }

/-- The keys among the arguments. -/
def Command.keyArgs (c : Command) (args : List Str) : List Str :=
  match c.spec.keySpec with
  | none => []
  | some spec => spec.select args

def Command.checkArity (c : Command) (args : List Str) : Except KvError Unit :=
  if args.length < c.spec.minArgs ∨ ∃ n ∈ c.spec.maxArgs, args.length > n then
    .error (KvError.wrongArity c.name.toLower)
  else .ok ()

/-! ## Effects -/

/-- **An effect**: a command with its arguments, as it is logged and replicated. Numbers are
recorded as their decimal text. -/
structure Effect where
  command : Command
  args : List Str
  deriving DecidableEq

/-- The deletion of a key. -/
def Effect.del (key : Str) : Effect := ⟨.del, [key]⟩

/-! ## Key selection -/

/-- Past the last position nothing is selected. -/
theorem KeySpec.selectFrom_past (spec : KeySpec) {last : Int} {i : Nat} (h : last < i)
    (args : List Str) : spec.selectFrom last i args = [] := by
  induction args generalizing i with
  | nil => rfl
  | cons arg rest ih =>
    rw [selectFrom, if_neg (fun hcond => absurd hcond.2.1 (by omega)), ih (by omega)]

/-- A single-key command has its first argument for key. -/
@[simp] theorem select_singleKey (key : Str) (rest : List Str) :
    singleKey.select (key :: rest) = [key] := by
  have hpast := KeySpec.selectFrom_past singleKey (show (0 : Int) < (1 : Nat) by omega) rest
  simpa [KeySpec.select, singleKey, KeySpec.selectFrom] using hpast

/-- A command whose arguments are all keys. -/
@[simp] theorem select_allKeys (args : List Str) : allKeys.select args = args := by
  have hall : ∀ (args : List Str) (i : Nat) (last : Int), (i : Int) + args.length ≤ last + 1 →
      allKeys.selectFrom last i args = args := by
    intro args
    induction args with
    | nil => intro i last _; rfl
    | cons arg rest ih =>
      intro i last hlen
      rw [List.length_cons] at hlen
      rw [KeySpec.selectFrom, if_pos ⟨Nat.zero_le i, by omega, Nat.mod_one _⟩,
        ih (i + 1) last (by push_cast at hlen ⊢; omega)]
  exact hall args 0 (args.length - 1) (by simp)

end KvStore
