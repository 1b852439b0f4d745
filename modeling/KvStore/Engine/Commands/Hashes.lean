import KvStore.Engine.Commands.Strings

/-! # Hash commands

`commands/hashes.py`. -/

namespace KvStore.Commands

/-- The loop of HSET: the fields afterwards and how many were new. -/
def hsetLoop (fields : Dict Str Str) : List (Str × Str) → Dict Str Str × Nat
  | [] => (fields, 0)
  | (field, value) :: rest =>
    let (after, added) := hsetLoop (fields.set field value) rest
    (after, if (fields.get? field).isNone then added + 1 else added)

@[simp] theorem editAll_setFields {Z : Type} (fields : Dict Str Str) (ps : List (Str × Str)) :
    (Value.hash fields : Value Z).editAll (ps.map fun (field, value) => .setField field value) =
      .hash (hsetLoop fields ps).1 := by
  induction ps generalizing fields with
  | nil => rfl
  | cons p rest ih => exact ih (fields.set p.1 p.2)

def hset : List Str → Cmd Reply
  | key :: rest =>
    if (key :: rest).length % 2 = 0 then raise (.wrongArity "hset")
    else do
      match ← writeTarget key .hash with
      | .hash fields =>
        let added := (hsetLoop fields (pairs rest)).2
        call (.mutate key ((pairs rest).map fun (field, value) => .setField field value))
        propagate .hset (key :: rest)
        return .integer added
      | _ => raise .wrongType
  | _ => badArity .hset

/-- Setting one field of the hash at a key, created if missing (the last part of HSETNX and
HINCRBY). -/
def hsetField (key field value : Str) : Cmd Unit := do
  match ← writeTarget key .hash with
  | .hash _ => call (.mutate key [.setField field value])
  | _ => raise .wrongType

def hsetnx : List Str → Cmd Reply
  | [key, field, value] => do
      let existing ← readHash key
      if (existing.bind fun fields => fields.get? field).isSome then return .integer 0
      else do
        hsetField key field value
        propagate .hset [key, field, value]
        return .integer 1
  | _ => badArity .hsetnx

def hget : List Str → Cmd Reply
  | [key, field] => do
      let target ← readHash key
      return .ofOption (target.bind fun fields => fields.get? field)
  | _ => badArity .hget

def hmget : List Str → Cmd Reply
  | key :: names => do
      let target ← readHash key
      return .array (names.map fun field => target.bind fun fields => fields.get? field)
  | _ => badArity .hmget

/-- The loop of HDEL: the fields left and those removed, in order. -/
def hdelLoop (fields : Dict Str Str) : List Str → Dict Str Str × List Str
  | [] => (fields, [])
  | field :: rest =>
    match fields.get? field with
    | none => hdelLoop fields rest
    | some _ =>
      let (after, removed) := hdelLoop (fields.erase field) rest
      (after, field :: removed)

@[simp] theorem editAll_deleteFields {Z : Type} (fields : Dict Str Str) (names : List Str) :
    (Value.hash fields : Value Z).editAll (names.map .deleteField) =
      .hash (hdelLoop fields names).1 := by
  induction names generalizing fields with
  | nil => rfl
  | cons field rest ih =>
    refine (ih (fields.erase field)).trans ?_
    cases hget : fields.get? field with
    | none =>
      have habsent : ∀ p ∈ fields.entries, p.1 ≠ field := by
        rintro ⟨f, v⟩ hp rfl
        rw [Dict.mem_entries_iff] at hp
        simp [hp] at hget
      have herase : fields.erase field = fields := by
        refine Dict.ext ?_
        simpa [Dict.erase, assocErase, List.filter_eq_self] using habsent
      simp [hdelLoop, hget, herase]
    | some value => simp [hdelLoop, hget]

def hdel : List Str → Cmd Reply
  | key :: names => do
      match ← readHash key with
      | none => return .integer 0
      | some fields =>
        let removed := (hdelLoop fields names).2
        if removed = [] then return .integer 0
        else do
          call (.mutate key (names.map .deleteField))
          propagate .hdel (key :: removed)
          return .integer removed.length
  | _ => badArity .hdel

/-- A reply computed from the pairs of a hash, none if it is missing. -/
def hashReply (c : Command) (f : List (Str × Str) → Reply) : List Str → Cmd Reply
  | [key] => do
      match ← readHash key with
      | none => return f []
      | some fields => return f fields.entries
  | _ => badArity c

def hgetall : List Str → Cmd Reply :=
  hashReply .hgetall fun ps => .texts (ps.flatMap fun (field, value) => [field, value])

def hkeys : List Str → Cmd Reply := hashReply .hkeys fun ps => .texts (ps.map Prod.fst)

def hvals : List Str → Cmd Reply := hashReply .hvals fun ps => .texts (ps.map Prod.snd)

def hlen : List Str → Cmd Reply := hashReply .hlen fun ps => .integer ps.length

def hexists : List Str → Cmd Reply
  | [key, field] => do
      let target ← readHash key
      return .ofBool (target.bind fun fields => fields.get? field).isSome
  | _ => badArity .hexists

def hincrby : List Str → Cmd Reply
  | [key, field, arg] => do
      let delta ← attempt (intArg arg)
      let existing ← readHash key
      match currentInt (existing.bind fun fields => fields.get? field) with
      | none => raise (.invalidArgument "hash value is not an integer")
      | some number =>
        let result ← attempt (checkInt64 (number + delta))
        hsetField key field (showInt result)
        propagate .hincrby [key, field, showInt delta]
        return .integer result
  | _ => badArity .hincrby

end KvStore.Commands
