import KvStore.Engine.Command
import KvStore.Engine.Values
import KvStore.Foundation.Program

/-! # What a handler may use

A command handler receives a context (the engine) and its arguments (`commands/registry.py`). Here a
handler is a program over the interface `Op`: the methods of the store it calls, the clock, the
random source, and `propagate`. Collections other than sorted sets are read whole and changed by the
calls of `Edit`; a sorted set is used through the calls of `ZCall` only, because what its skip list
does inside is not the handler's business.

The module also holds the argument parsers, with the texts of their errors, and the typed accessors
`readStr`, `read…` and `writeTarget` of the store. -/

namespace KvStore

/-! ## Operations -/

/-- A call on a sorted set. -/
inductive ZCall
  | score (member : Str)
  | add (member : Str) (score : Double)
  | remove (member : Str)
  /-- The first node of the skip list. -/
  | first
  /-- The last node of the skip list. -/
  | last
  /-- `len`. -/
  | length
  | items
  deriving DecidableEq

/-- The type of the answer to a call. -/
@[reducible] def ZCall.Resp : ZCall → Type
  | score _ => Option Double
  | add _ _ => Unit
  | remove _ => Bool
  | first => Option (Str × Double)
  | last => Option (Str × Double)
  | length => Nat
  | items => List (Str × Double)

/-- What a handler sees of an entry: its value, a sorted set being only a handle, and its deadline
in milliseconds. -/
structure Seen where
  value : Value Unit
  expiresAt : Option Int
  deriving DecidableEq

/-- **The operations of the context.** -/
inductive Op
  /-- `ctx.now()`, in microseconds. -/
  | now
  | loading
  | peek (key : Str)
  | get (key : Str)
  /-- Mark a key as used (in `write_target`). -/
  | touch (key : Str)
  /-- Create a key with an empty collection (in `write_target`). -/
  | insert (key : Str) (value : Value Unit)
  /-- Calls that change the list, hash or set at a key in place. -/
  | mutate (key : Str) (edits : List Edit)
  /-- A call on the sorted set at a key. -/
  | zset (key : Str) (call : ZCall)
  /-- `store.set(key, text, keep_ttl=…)`. -/
  | set (key : Str) (value : Str) (keepTtl : Bool)
  | delete (key : Str)
  /-- `store.set_expiry(key, …)`, the deadline in milliseconds. -/
  | setExpiry (key : Str) (atMs : Int)
  | persist (key : Str)
  | loadRecord (key : Str) (payload : Payload) (expiresAt : Option Int)
  | record (key : Str)
  | flushAll
  | iterKeys
  /-- `len(store)`. -/
  | size
  /-- `rng.sample(population, min(k, len(population)))`. -/
  | sample (population : List Str) (k : Nat)
  /-- `k` times `rng.choice(population)`. -/
  | choices (population : List Str) (k : Nat)
  | propagate (effect : Effect)
  | startRewrite
  | save
  | lastSaveTime
  /-- A command that only reports on the server itself. -/
  | introspect (cmd : Command) (args : List Str)
  deriving DecidableEq

/-- The type of the answer to an operation. -/
@[reducible] def Op.Resp : Op → Type
  | now => Nat
  | loading => Bool
  | peek _ => Option Seen
  | get _ => Option Seen
  | touch _ => Unit
  | insert _ _ => Unit
  | mutate _ _ => Unit
  | zset _ call => call.Resp
  | set _ _ _ => Unit
  | delete _ => Bool
  | setExpiry _ _ => Bool
  | persist _ => Bool
  | loadRecord _ _ _ => Unit
  | record _ => Option Payload
  | flushAll => Unit
  | iterKeys => List Str
  | size => Nat
  | sample _ _ => List Str
  | choices _ _ => List Str
  | propagate _ => Unit
  | startRewrite => Except KvError Unit
  | save => Except KvError Unit
  | lastSaveTime => Int
  | introspect _ _ => Except KvError Unit

/-- **A handler's program.** -/
abbrev Cmd (α : Type) := Prog Op Op.Resp KvError α

/-- One operation. -/
abbrev call (o : Op) : Cmd o.Resp := Prog.perform o

/-- A pure computation that may raise. -/
abbrev attempt {α : Type} (x : Except KvError α) : Cmd α := Prog.ofExcept x

abbrev raise {α : Type} (e : KvError) : Cmd α := Prog.fail e

/-! ## Argument parsing -/

/-- `_INT64_MIN <= value <= _INT64_MAX`. -/
def isInt64 (n : Int) : Bool := -(2 ^ 63) ≤ n && n ≤ 2 ^ 63 - 1

/-- `int_arg`: a 64-bit signed integer from its decimal text. -/
def intArg (arg : Str) : Except KvError Int :=
  match int arg with
  | some n =>
    if isInt64 n then .ok n
    else .error (.invalidArgument "value is not an integer or out of range")
  | none => .error (.invalidArgument "value is not an integer or out of range")

def checkInt64 (n : Int) : Except KvError Int :=
  if isInt64 n then .ok n else .error (.invalidArgument "increment or decrement would overflow")

/-- A checked number is a 64-bit integer. -/
theorem checkInt64_ok {n result : Int} (h : checkInt64 n = .ok result) :
    isInt64 n = true ∧ result = n := by
  unfold checkInt64 at h
  split at h <;> simp_all

/-- Milliseconds of a clock reading in microseconds (`_to_ms`). -/
def toMs (now : Nat) : Int := ((now / 1000 : Nat) : Int)

section Floats

variable [CPython]

def floatArg (arg : Str) : Except KvError Double :=
  match CPython.parseFloat arg with
  | some x => if x.isNan then .error (.invalidArgument "value is not a valid float") else .ok x
  | none => .error (.invalidArgument "value is not a valid float")

/-- `score_bound`: the bound and whether it is exclusive. -/
def scoreBound (arg : Str) : Except KvError (Double × Bool) :=
  let exclusive := arg.head? = some 40
  match CPython.parseFloat (if exclusive then arg.tail else arg) with
  | some x =>
    if x.isNan then .error (.invalidArgument "min or max is not a float") else .ok (x, exclusive)
  | none => .error (.invalidArgument "min or max is not a float")

/-- A number that `floatArg` accepts is not NaN. -/
theorem floatArg_real {arg : Str} {x : Double} (h : floatArg arg = .ok x) : x.isNan = false := by
  unfold floatArg at h
  split at h
  · split at h
    · simp at h
    · simp_all
  · simp at h

/-- The printed form of a number that is not NaN is accepted. -/
@[simp] theorem floatArg_formatFloat {x : Double} (h : x.isNan = false) :
    floatArg (formatFloat x) = .ok x := by
  simp [floatArg, formatFloat, CPython.parseFloat_format x h, h]

end Floats

/-- The decimal text of a 64-bit integer is read back as that integer. -/
@[simp] theorem intArg_showInt (n : Int) :
    intArg (showInt n) = if isInt64 n then .ok n
      else .error (.invalidArgument "value is not an integer or out of range") := by
  rcases int_showInt_or n with h | ⟨h, hbig⟩
  · simp [intArg, h]
  · have hrange : isInt64 n = false := by
      have hpow : (10 : Nat) ^ 19 ≤ 10 ^ maxStrDigits := Nat.pow_le_pow_right (by norm_num) (by decide)
      have hbig' : 10 ^ 19 ≤ n.natAbs := le_trans hpow hbig
      simp only [isInt64, Bool.and_eq_false_iff, decide_eq_false_iff_not]
      omega
    simp [intArg, h, hrange]

/-- A number that is read back, is read back as itself. -/
theorem intArg_showInt_eq {n : Int} (h : ∃ k, intArg (showInt n) = .ok k) :
    intArg (showInt n) = .ok n := by
  obtain ⟨k, hk⟩ := h
  rw [intArg_showInt] at hk ⊢
  split at hk <;> simp_all

/-! ## Typed access to the store -/

/-- `store.read_str(key)`. -/
def readStr (key : Str) : Cmd (Option Str) := do
  match ← call (.get key) with
  | none => return none
  | some ⟨.str s, _⟩ => return some s
  | some _ => raise .wrongType

/-- `store.read(key, ListValue)`. -/
def readList (key : Str) : Cmd (Option (List Str)) := do
  match ← call (.get key) with
  | none => return none
  | some ⟨.list items, _⟩ => return some items
  | some _ => raise .wrongType

/-- `store.read(key, HashValue)`. -/
def readHash (key : Str) : Cmd (Option (Dict Str Str)) := do
  match ← call (.get key) with
  | none => return none
  | some ⟨.hash fields, _⟩ => return some fields
  | some _ => raise .wrongType

/-- `store.read(key, SetValue)`. -/
def readSet (key : Str) : Cmd (Option KeySet) := do
  match ← call (.get key) with
  | none => return none
  | some ⟨.set members, _⟩ => return some members
  | some _ => raise .wrongType

/-- `store.read(key, SortedSet)`: whether there is one. -/
def readZset (key : Str) : Cmd Bool := do
  match ← call (.get key) with
  | none => return false
  | some ⟨.zset _, _⟩ => return true
  | some _ => raise .wrongType

/-- The empty collection of a type (`kind()`). -/
def Kind.emptyValue : Kind → Value Unit
  | .str => .str []
  | .list => .list []
  | .hash => .hash Dict.empty
  | .set => .set KeySet.empty
  | .zset => .zset ()

/-- `store.write_target(key, kind)`: the collection at a key, created empty if missing. -/
def writeTarget (key : Str) (kind : Kind) : Cmd (Value Unit) := do
  match ← call (.peek key) with
  | some entry =>
    if entry.value.kind = kind then do
      call (.touch key)
      return entry.value
    else raise .wrongType
  | none =>
    call (.insert key kind.emptyValue)
    return kind.emptyValue

/-- `[x for x in xs if test(x)]`, where the test has effects. -/
def keepIf {α : Type} (test : α → Cmd Bool) : List α → Cmd (List α)
  | [] => return []
  | x :: rest => do
      if ← test x then return x :: (← keepIf test rest)
      else keepIf test rest

/-- `ctx.propagate(command, *args)`. -/
def propagate (cmd : Command) (args : List Str) : Cmd Unit := call (.propagate ⟨cmd, args⟩)

/-- What a handler does on a number of arguments that `check_arity` has excluded. -/
def badArity (cmd : Command) : Cmd Reply := raise (.wrongArity cmd.name.toLower)

end KvStore
