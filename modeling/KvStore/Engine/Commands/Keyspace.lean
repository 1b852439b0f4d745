import KvStore.Engine.Commands.Registry
import KvStore.Foundation.Glob
import KvStore.Persistence.Dump

/-! # Key commands

`commands/keyspace.py`: existence, deletion, types, deadlines, and the serialized form of a value.
Every deadline is logged as an absolute time. While the log is replayed a deadline in the past
deletes nothing, since a later record may revive the key. -/

namespace KvStore.Commands

def delete (args : List Str) : Cmd Reply := do
  let deleted ← keepIf (fun key => call (.delete key)) args
  if deleted = [] then return .integer 0
  else do
    propagate .del deleted
    return .integer deleted.length

def unlink (args : List Str) : Cmd Reply := delete args

def exists_ (args : List Str) : Cmd Reply := do
  let present ← keepIf (fun key => return (← call (.peek key)).isSome) args
  return .integer present.length

def type_ : List Str → Cmd Reply
  | [key] => do
      match ← call (.peek key) with
      | none => return .status "none"
      | some entry => return .status entry.value.kind.typeName
  | _ => badArity .type_

def keys : List Str → Cmd Reply
  | [pattern] => do
      let all ← call .iterKeys
      return .texts (all.filter fun key => fnmatchcase key pattern)
  | _ => badArity .keys

def dbsize (_ : List Str) : Cmd Reply := do
  let n ← call .size
  return .integer n

/-- FLUSHALL [ASYNC | SYNC]. -/
def flushall (args : List Str) : Cmd Reply :=
  if ∃ arg ∈ args.head?, ¬ (isWord arg "ASYNC" ∨ isWord arg "SYNC") then raise .syntaxError
  else do
    call .flushAll
    propagate .flushall []
    return .ok

def flushdb (args : List Str) : Cmd Reply := flushall args

/-! ## Deadlines -/

/-- `expire_at_ms`: give a key a deadline; one that has passed deletes it. -/
def expireAtMs (key : Str) (atMs : Int) : Cmd Reply := do
  match ← call (.peek key) with
  | none => return .integer 0
  | some _ =>
    let now ← call .now
    let loading ← call .loading
    if atMs ≤ toMs now ∧ loading = false then do
      let _ ← call (.delete key)
      propagate .del [key]
      return .integer 1
    else do
      let _ ← call (.setExpiry key atMs)
      propagate .pexpireat [key, showInt atMs]
      return .integer 1

def expire : List Str → Cmd Reply
  | [key, arg] => do
      let now ← call .now
      let seconds ← attempt (intArg arg)
      expireAtMs key (toMs now + seconds * 1000)
  | _ => badArity .expire

def pexpire : List Str → Cmd Reply
  | [key, arg] => do
      let now ← call .now
      let ms ← attempt (intArg arg)
      expireAtMs key (toMs now + ms)
  | _ => badArity .pexpire

def expireat : List Str → Cmd Reply
  | [key, arg] => do
      let seconds ← attempt (intArg arg)
      expireAtMs key (seconds * 1000)
  | _ => badArity .expireat

def pexpireat : List Str → Cmd Reply
  | [key, arg] => do
      let ms ← attempt (intArg arg)
      expireAtMs key ms
  | _ => badArity .pexpireat

def persist : List Str → Cmd Reply
  | [key] => do
      if ← call (.persist key) then do
        propagate .persist [key]
        return .integer 1
      else return .integer 0
  | _ => badArity .persist

/-- The milliseconds left until a deadline, rounded to the nearest, a half to the even one. -/
def roundMs (us : Int) : Int :=
  let q := us / 1000
  let r := us % 1000
  if r < 500 ∨ (r = 500 ∧ q % 2 = 0) then q else q + 1

/-- `pttl`: milliseconds to live; `-2` without the key, `-1` without a deadline. -/
def pttlMs (key : Str) : Cmd Int := do
  match ← call (.peek key) with
  | none => return -2
  | some entry =>
    match entry.expiresAt with
    | none => return -1
    | some atMs =>
      let now ← call .now
      return max 0 (roundMs (atMs * 1000 - now))

def pttl : List Str → Cmd Reply
  | [key] => do return .integer (← pttlMs key)
  | _ => badArity .pttl

def ttl : List Str → Cmd Reply
  | [key] => do
      let ms ← pttlMs key
      return .integer (if ms < 0 then ms else (ms + 500) / 1000)
  | _ => badArity .ttl

/-! ## DUMP and RESTORE -/

def dump : List Str → Cmd Reply
  | [key] => do
      match ← call (.record key) with
      | none => return .nil
      | some payload => return .bulk (dumpValue payload)
  | _ => badArity .dump

/-- `_deadline_ms`: the absolute deadline of a RESTORE, if it has one. -/
def deadlineMs (ttl : Int) (absolute : Bool) (nowMs : Int) : Option Int :=
  if ttl = 0 then none else some (if absolute then ttl else nowMs + ttl)

/-- The last part of RESTORE, its payload being valid and its deadline known. -/
def restoreValue (key raw : Str) (payload : Payload) (expiresMs : Option Int) : Cmd Reply := do
  let now ← call .now
  let loading ← call .loading
  if (∃ ms ∈ expiresMs, ms ≤ toMs now) ∧ loading = false then do
    let _ ← call (.delete key)
    propagate .del [key]
    return .ok
  else do
    let _ ← call (.delete key)
    call (.loadRecord key payload expiresMs)
    propagate .restore [key, showInt (expiresMs.getD 0), raw, text "REPLACE", text "ABSTTL"]
    return .ok

/-- The refusal of RESTORE when the key exists and may not be replaced. -/
def restoreGuard (key : Str) (replace : Bool) : Cmd Unit :=
  if replace then return ()
  else do
    match ← call (.peek key) with
    | none => return ()
    | some _ => raise ⟨.command, "BUSYKEY", "Target key name already exists."⟩

/-- RESTORE key ttl-ms payload [REPLACE] [ABSTTL]. -/
def restore : List Str → Cmd Reply
  | key :: ttlArg :: raw :: options => do
      let ttl ← attempt (intArg ttlArg)
      if ¬ (options.all fun arg => isWord arg "REPLACE" || isWord arg "ABSTTL") ∨ ttl < 0 then
        raise .syntaxError
      else do
        restoreGuard key (options.any fun arg => isWord arg "REPLACE")
        match loadValue raw with
        | .error message => raise (.command message)
        | .ok payload =>
          let now ← call .now
          restoreValue key raw payload
            (deadlineMs ttl (options.any fun arg => isWord arg "ABSTTL") (toMs now))
  | _ => badArity .restore

end KvStore.Commands
