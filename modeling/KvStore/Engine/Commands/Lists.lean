import KvStore.Engine.Commands.Registry

/-! # List commands

`commands/lists.py`. The pops log how many elements went; LTRIM and LREM log themselves only when
they changed something. -/

namespace KvStore.Commands

def push (left : Bool) : List Str → Cmd Reply
  | key :: values => do
      match ← writeTarget key .list with
      | .list items =>
        let items := if left then ListValue.pushLeft items values
          else ListValue.pushRight items values
        call (.mutate key [if left then .pushLeft values else .pushRight values])
        propagate (if left then .lpush else .rpush) (key :: values)
        return .integer items.length
      | _ => raise .wrongType
  | _ => badArity (if left then .lpush else .rpush)

def lpush (args : List Str) : Cmd Reply := push true args

def rpush (args : List Str) : Cmd Reply := push false args

/-- The optional count of a pop, which may not be negative. -/
def popCount : List Str → Except KvError (Option Nat)
  | [] => .ok none
  | arg :: _ =>
    match intArg arg with
    | .error e => .error e
    | .ok n =>
      if n < 0 then .error (.invalidArgument "value is out of range, must be positive")
      else .ok (some n.toNat)

/-- The reply of a pop: one element or nil without a count, the list with one. -/
def popReply (count : Option Nat) (popped : List Str) : Reply :=
  match count with
  | none => .ofOption popped.head?
  | some _ => .texts popped

def pop (left : Bool) : List Str → Cmd Reply
  | key :: rest => do
      let count ← attempt (popCount rest)
      match ← readList key with
      | none => return .nil
      | some items =>
        let popped := (ListValue.pop items (count.getD 1) left).1
        call (.mutate key [.pop (count.getD 1) left])
        if popped = [] then return popReply count popped
        else do
          propagate (if left then .lpop else .rpop) [key, showInt popped.length]
          return popReply count popped
  | _ => badArity (if left then .lpop else .rpop)

def lpop (args : List Str) : Cmd Reply := pop true args

def rpop (args : List Str) : Cmd Reply := pop false args

def llen : List Str → Cmd Reply
  | [key] => do return .integer ((← readList key).getD []).length
  | _ => badArity .llen

def lrange : List Str → Cmd Reply
  | [key, startArg, stopArg] => do
      let start ← attempt (intArg startArg)
      let stop ← attempt (intArg stopArg)
      match ← readList key with
      | none => return .texts []
      | some items => return .texts (ListValue.range items start stop)
  | _ => badArity .lrange

def lindex : List Str → Cmd Reply
  | [key, arg] => do
      let index ← attempt (intArg arg)
      match ← readList key with
      | none => return .nil
      | some items => return .ofOption (ListValue.get items index)
  | _ => badArity .lindex

def lset : List Str → Cmd Reply
  | [key, arg, value] => do
      let index ← attempt (intArg arg)
      match ← readList key with
      | none => raise (.invalidArgument "no such key")
      | some items =>
        match ListValue.set items index value with
        | none => raise (.invalidArgument "index out of range")
        | some _ =>
          call (.mutate key [.setIndex index value])
          propagate .lset [key, showInt index, value]
          return .ok
  | _ => badArity .lset

def ltrim : List Str → Cmd Reply
  | [key, startArg, stopArg] => do
      let start ← attempt (intArg startArg)
      let stop ← attempt (intArg stopArg)
      match ← readList key with
      | none => return .ok
      | some items =>
        let kept := ListValue.trim items start stop
        call (.mutate key [.trim start stop])
        if kept.length = items.length then return .ok
        else do
          propagate .ltrim [key, showInt start, showInt stop]
          return .ok
  | _ => badArity .ltrim

def lrem : List Str → Cmd Reply
  | [key, countArg, value] => do
      let count ← attempt (intArg countArg)
      match ← readList key with
      | none => return .integer 0
      | some items =>
        let removed := (ListValue.remove items count value).2
        if removed = 0 then return .integer 0
        else do
          call (.mutate key [.removeValue count value])
          propagate .lrem [key, showInt count, value]
          return .integer removed
  | _ => badArity .lrem

end KvStore.Commands
