import KvStore.Engine.Commands.Lists

/-! # Set commands

`commands/sets.py`. The random choice of SPOP is logged as the SREM of the members chosen. -/

namespace KvStore.Commands

/-- The loop of SADD: the set afterwards and the members that were new, in order. -/
def saddLoop (s : KeySet) : List Str → KeySet × List Str
  | [] => (s, [])
  | m :: rest =>
    if s.contains m then saddLoop s rest
    else
      let (after, added) := saddLoop (s.add m) rest
      (after, m :: added)

@[simp] theorem editAll_addMembers {Z : Type} (s : KeySet) (members : List Str) :
    (Value.set s : Value Z).editAll (members.map .addMember) = .set (saddLoop s members).1 := by
  induction members generalizing s with
  | nil => rfl
  | cons m rest ih =>
    refine (ih (s.add m)).trans ?_
    by_cases hm : m ∈ s.items
    · simp [saddLoop, KeySet.contains, hm, KeySet.add_of_mem hm]
    · simp [saddLoop, KeySet.contains, hm]

def sadd : List Str → Cmd Reply
  | key :: members => do
      match ← writeTarget key .set with
      | .set s =>
        let added := (saddLoop s members).2
        call (.mutate key (members.map .addMember))
        if added = [] then return .integer 0
        else do
          propagate .sadd (key :: added)
          return .integer added.length
      | _ => raise .wrongType
  | _ => badArity .sadd

/-- The loop of SREM and SPOP: the set afterwards and the members removed, in order. -/
def sremLoop (s : KeySet) : List Str → KeySet × List Str
  | [] => (s, [])
  | m :: rest =>
    if s.contains m then
      let (after, removed) := sremLoop (s.discard m) rest
      (after, m :: removed)
    else sremLoop s rest

@[simp] theorem editAll_removeMembers {Z : Type} (s : KeySet) (members : List Str) :
    (Value.set s : Value Z).editAll (members.map .removeMember) = .set (sremLoop s members).1 := by
  induction members generalizing s with
  | nil => rfl
  | cons m rest ih =>
    refine (ih (s.discard m)).trans ?_
    by_cases hm : m ∈ s.items
    · simp [sremLoop, KeySet.contains, hm]
    · simp [sremLoop, KeySet.contains, hm, KeySet.discard_of_not_mem hm]

def srem : List Str → Cmd Reply
  | key :: members => do
      match ← readSet key with
      | none => return .integer 0
      | some s =>
        let removed := (sremLoop s members).2
        call (.mutate key (members.map .removeMember))
        if removed = [] then return .integer 0
        else do
          propagate .srem (key :: removed)
          return .integer removed.length
  | _ => badArity .srem

def smembers : List Str → Cmd Reply
  | [key] => do
      match ← readSet key with
      | none => return .texts []
      | some s => return .texts s.items
  | _ => badArity .smembers

def sismember : List Str → Cmd Reply
  | [key, member] => do
      match ← readSet key with
      | none => return .ofBool false
      | some s => return .ofBool (s.contains member)
  | _ => badArity .sismember

def scard : List Str → Cmd Reply
  | [key] => do
      match ← readSet key with
      | none => return .integer 0
      | some s => return .integer s.size
  | _ => badArity .scard

def spop : List Str → Cmd Reply
  | key :: rest => do
      let count ← attempt (popCount rest)
      match ← readSet key with
      | none => return popReply count []
      | some s =>
        let popped ← call (.sample s.items (count.getD 1))
        call (.mutate key (List.map Edit.removeMember popped))
        if popped = [] then return popReply count popped
        else do
          propagate .srem (key :: popped)
          return popReply count popped
  | _ => badArity .spop

/-- The optional count of SRANDMEMBER. -/
def memberCount : List Str → Except KvError (Option Int)
  | [] => .ok none
  | arg :: _ =>
    match intArg arg with
    | .error e => .error e
    | .ok n => .ok (some n)

def srandmember : List Str → Cmd Reply
  | key :: rest => do
      let count ← attempt (memberCount rest)
      match ← readSet key, count with
      | none, none => return .nil
      | none, some _ => return .texts []
      | some s, none =>
        let picked ← call (.sample s.items 1)
        return .ofOption (List.head? picked)
      | some s, some n =>
        if 0 ≤ n then do
          let picked ← call (.sample s.items n.toNat)
          return .texts picked
        else do
          let picked ← call (.choices s.items n.natAbs)
          return .texts picked
  | _ => badArity .srandmember

/-- `_sets`: the members of the sets at several keys, a missing one being empty. -/
def sets : List Str → Cmd (List (List Str))
  | [] => return []
  | key :: rest => do
      let s ← readSet key
      return (s.map KeySet.items).getD [] :: (← sets rest)

/-- A reply from several sets. The order in which a client sees the members is left to the
interpreter; here it is that of the operands. -/
def setReply (f : List Str → List (List Str) → List Str) (args : List Str) : Cmd Reply := do
  match ← sets args with
  | [] => return .texts []
  | first :: rest => return .texts (f first rest)

def sinter : List Str → Cmd Reply :=
  setReply fun first rest => first.filter fun m => rest.all fun s => s.contains m

def sunion : List Str → Cmd Reply :=
  setReply fun first rest => rest.foldl (fun acc s => acc ++ s.filter fun m => !acc.contains m) first

def sdiff : List Str → Cmd Reply :=
  setReply fun first rest => first.filter fun m => !rest.any fun s => s.contains m

end KvStore.Commands
