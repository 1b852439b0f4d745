import KvStore.Engine.Commands.Registry

/-! # String commands

`commands/strings.py`. A write that depends on the old value logs what makes its replay independent
of the circumstances: SET logs a bare SET and an absolute deadline, INCRBYFLOAT the resulting
text. -/

namespace KvStore.Commands

variable [CPython]

def get : List Str → Cmd Reply
  | [key] => do return .ofOption (← readStr key)
  | _ => badArity .get

structure SetOptions where
  nx : Bool := false
  xx : Bool := false
  getOld : Bool := false
  /-- KEEPTTL. -/
  keepTtl : Bool := false
  /-- The time to live in milliseconds, from EX or PX. -/
  expireMs : Option Int := none

/-- The loop over the options of SET. -/
def parseSetOptions : List Str → SetOptions → Except KvError SetOptions
  | [], o => .ok o
  | arg :: rest, o =>
    if isWord arg "NX" ∧ ¬ o.xx then parseSetOptions rest { o with nx := true }
    else if isWord arg "XX" ∧ ¬ o.nx then parseSetOptions rest { o with xx := true }
    else if isWord arg "GET" then parseSetOptions rest { o with getOld := true }
    else if isWord arg "KEEPTTL" ∧ o.expireMs = none then
      parseSetOptions rest { o with keepTtl := true }
    else if (isWord arg "EX" ∨ isWord arg "PX") ∧ o.expireMs = none ∧ ¬ o.keepTtl then
      match rest with
      | [] => .error .syntaxError
      | amountArg :: rest =>
        match intArg amountArg with
        | .error e => .error e
        | .ok amount =>
          if amount ≤ 0 then .error (.invalidArgument "invalid expire time in 'set' command")
          else parseSetOptions rest
            { o with expireMs := some (if isWord arg "EX" then amount * 1000 else amount) }
    else .error .syntaxError

/-- The deadline a SET with EX or PX gives the key it has just written. -/
def setDeadline (key : Str) : Option Int → Cmd Unit
  | none => return ()
  | some expireMs => do
      let now ← call .now
      let atMs := toMs now + expireMs
      let _ ← call (.setExpiry key atMs)
      propagate .pexpireat [key, showInt atMs]

/-- The part of SET after its options have been parsed and the old value, if it is asked for, has
been read. -/
def setValue (key value : Str) (o : SetOptions) (old : Option Str) : Cmd Reply := do
  let present := (← call (.peek key)).isSome
  if (o.nx ∧ present) ∨ (o.xx ∧ ¬ present) then
    return if o.getOld then .ofOption old else .nil
  else do
    call (.set key value o.keepTtl)
    propagate .set (key :: value :: if o.keepTtl then [text "KEEPTTL"] else [])
    setDeadline key o.expireMs
    return if o.getOld then .ofOption old else .ok

/-- SET key value [NX | XX] [GET] [EX seconds | PX milliseconds | KEEPTTL]. -/
def set : List Str → Cmd Reply
  | key :: value :: options => do
      let o ← attempt (parseSetOptions options {})
      let old ← if o.getOld then readStr key else pure none
      setValue key value o old
  | _ => badArity .set

def setnx : List Str → Cmd Reply
  | [key, value] => do
      let reply ← set [key, value, text "NX"]
      return .integer (if reply = .nil then 0 else 1)
  | _ => badArity .setnx

def getdel : List Str → Cmd Reply
  | [key] => do
      match ← readStr key with
      | none => return .nil
      | some value =>
        let _ ← call (.delete key)
        propagate .del [key]
        return .bulk value
  | _ => badArity .getdel

/-- One key of MGET: a value that is not a text reads as nil. -/
def mgetOne (key : Str) : Cmd (Option Str) := do
  match ← call (.get key) with
  | some ⟨.str s, _⟩ => return some s
  | _ => return none

def mgetLoop : List Str → Cmd (List (Option Str))
  | [] => return []
  | key :: rest => do
      let value ← mgetOne key
      return value :: (← mgetLoop rest)

def mget (args : List Str) : Cmd Reply := do return .array (← mgetLoop args)

/-- The pairs of an argument list of even length. -/
def pairs : List Str → List (Str × Str)
  | a :: b :: rest => (a, b) :: pairs rest
  | _ => []

def msetLoop : List (Str × Str) → Cmd Unit
  | [] => return ()
  | (key, value) :: rest => do
      call (.set key value false)
      msetLoop rest

def mset (args : List Str) : Cmd Reply :=
  if args.length % 2 = 1 then raise (.wrongArity "mset")
  else do
    msetLoop (pairs args)
    propagate .mset args
    return .ok

/-- The number a text stands for, a missing one being zero. -/
def currentInt : Option Str → Option Int
  | none => some 0
  | some s => int s

def incrBy (key : Str) (delta : Int) : Cmd Reply := do
  let current ← readStr key
  match currentInt current with
  | none => raise (.invalidArgument "value is not an integer or out of range")
  | some number =>
    let result ← attempt (checkInt64 (number + delta))
    call (.set key (showInt result) true)
    propagate .incrby [key, showInt delta]
    return .integer result

def incr : List Str → Cmd Reply
  | [key] => incrBy key 1
  | _ => badArity .incr

def decr : List Str → Cmd Reply
  | [key] => incrBy key (-1)
  | _ => badArity .decr

def incrby : List Str → Cmd Reply
  | [key, arg] => do incrBy key (← attempt (intArg arg))
  | _ => badArity .incrby

def decrby : List Str → Cmd Reply
  | [key, arg] => do incrBy key (-(← attempt (intArg arg)))
  | _ => badArity .decrby

/-- The number a text stands for in INCRBYFLOAT. -/
def currentFloat : Option Str → Except KvError Double
  | none => .ok (Double.ofBits 0)
  | some s => floatArg s

def incrbyfloat : List Str → Cmd Reply
  | [key, arg] => do
      let delta ← attempt (floatArg arg)
      let current ← readStr key
      let number ← attempt (currentFloat current)
      let result := CPython.addFloat number delta
      if result.isInf then raise (.invalidArgument "increment would produce NaN or Infinity")
      else do
        let value := formatFloat result
        call (.set key value true)
        propagate .set [key, value, text "KEEPTTL"]
        return .bulk value
  | _ => badArity .incrbyfloat

def append : List Str → Cmd Reply
  | [key, suffix] => do
      let value := (← readStr key).getD [] ++ suffix
      call (.set key value true)
      propagate .append [key, suffix]
      return .integer value.length
  | _ => badArity .append

def strlen : List Str → Cmd Reply
  | [key] => do return .integer ((← readStr key).getD []).length
  | _ => badArity .strlen

end KvStore.Commands
