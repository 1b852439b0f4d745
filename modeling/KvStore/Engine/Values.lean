import KvStore.Engine.Containers
import KvStore.Engine.SortedSet

/-! # Values

The values of the keyspace (`engine/datatypes/`). A value is a text or one of four collections; the
type is parametric in what stands for a sorted set, so that it serves both for the values the engine
holds (`SortedSet`, with its skip list) and for what they mean (`Ranking`).

The interpreter's floating-point text and arithmetic and its object sizes are the class `CPython`,
with two laws: the printed form of a number is read back as that number, and the option words of
ZADD are not numbers. -/

namespace KvStore

/-! ## The interpreter -/

namespace Double

/-- The integer a double equals, if it is one (`is_integer`). -/
def toInt? (x : Double) : Option Int :=
  let e := x.magnitude / 2 ^ 52
  let m := if e = 0 then x.magnitude % 2 ^ 52 else 2 ^ 52 + x.magnitude % 2 ^ 52
  let sign : Int := if x.bits < 2 ^ 63 then 1 else -1
  if infBits ≤ x.magnitude then none
  else if 1075 ≤ e then some (sign * (m * 2 ^ (e - 1075) : Nat))
  else if m % 2 ^ (1075 - max e 1) = 0 then some (sign * (m / 2 ^ (1075 - max e 1) : Nat))
  else none

/-- `float("inf")`. -/
def posInf : Double := ofBits infBits

/-- `float("-inf")`. -/
def negInf : Double := ofBits (2 ^ 63 + infBits)

example : (ofBits 0x4045000000000000).toInt? = some 42 := by decide +kernel

example : (ofBits 0xBFF8000000000000).toInt? = none := by decide +kernel

end Double

/-- `format_float`, over `repr` for the numbers that are not printed as integers. -/
def formatFloatWith (repr : Double → Str) (value : Double) : Str :=
  if value = Double.posInf then text "inf"
  else if value = Double.negInf then text "-inf"
  else match value.toInt? with
    | some n => if n.natAbs < 10 ^ 17 then showInt n else repr value
    | none => repr value

/-- **The interpreter**: conversions between numbers and text, addition, and object sizes. -/
class CPython where
  /-- `float(text)`, `none` for a `ValueError`. -/
  parseFloat : Str → Option Double
  /-- `repr(number)`. -/
  reprFloat : Double → Str
  /-- `x + y`. -/
  addFloat : Double → Double → Double
  /-- `sys.getsizeof(text)`. -/
  strSize : Str → Nat
  /-- The printed form of a number is read back as that number. -/
  parseFloat_format : ∀ x : Double, x.isNan = false →
    parseFloat (formatFloatWith reprFloat x) = some x
  /-- The option words of ZADD are not numbers. -/
  parseFloat_word : ∀ (s : Str) (word : String), word ∈ ["NX", "XX", "GT", "LT", "CH", "INCR"] →
    isWord s word = true → parseFloat s = none

variable [CPython]

def formatFloat (value : Double) : Str := formatFloatWith CPython.reprFloat value

/-! ## Values -/

/-- **A value**, `Z` being what stands for a sorted set. -/
inductive Value (Z : Type)
  /-- A text. -/
  | str (s : Str)
  | list (items : List Str)
  | hash (fields : Dict Str Str)
  | set (members : KeySet)
  /-- A sorted set. -/
  | zset (z : Z)
  deriving DecidableEq

/-- The type of a value. -/
inductive Kind
  | str | list | hash | set | zset
  deriving DecidableEq, Repr

namespace Value

variable {Z W : Type}

/-- The type of a value. -/
def kind : Value Z → Kind
  | str _ => .str
  | list _ => .list
  | hash _ => .hash
  | set _ => .set
  | zset _ => .zset

/-- Change what stands for a sorted set. -/
def map (f : Z → W) : Value Z → Value W
  | str s => str s
  | list items => list items
  | hash fields => hash fields
  | set members => set members
  | zset z => zset (f z)

/-- Whether a value is an empty collection, which the store never keeps. -/
def isEmpty (len : Z → Nat) : Value Z → Bool
  | str _ => false
  | list items => items.isEmpty
  | hash fields => fields.entries.isEmpty
  | set members => members.items.isEmpty
  | zset z => len z = 0

end Value

def Kind.typeName : Kind → String
  | .str => "string"
  | .list => "list"
  | .hash => "hash"
  | .set => "set"
  | .zset => "zset"

/-! ## Sizes -/

def entryOverhead : Nat := 120

def listItemOverhead : Nat := 8

def hashItemOverhead : Nat := 50

def setItemOverhead : Nat := 60

def zsetItemOverhead : Nat := 200

def emptyContainer : Nat := 200

def strSize (s : Str) : Nat := CPython.strSize s

/-- `value_size`: the size of a text, or the running estimate `nbytes` of a collection. -/
def valueSize (value : Value SortedSet) (nbytes : Int) : Int :=
  match value with
  | .str s => strSize s
  | _ => nbytes

/-! ## Changes in place -/

/-- **A call that changes a list, a hash or a set** (`datatypes/containers.py`). -/
inductive Edit
  | pushLeft (values : List Str)
  | pushRight (values : List Str)
  | pop (count : Nat) (left : Bool)
  /-- `set` of a list. -/
  | setIndex (index : Int) (value : Str)
  | trim (start stop : Int)
  /-- `remove` of a list. -/
  | removeValue (count : Int) (value : Str)
  /-- `set` of a hash. -/
  | setField (field value : Str)
  /-- `delete` of a hash. -/
  | deleteField (field : Str)
  /-- `add` of a set. -/
  | addMember (member : Str)
  /-- `remove` of a set. -/
  | removeMember (member : Str)
  deriving DecidableEq

namespace Edit

omit [CPython] in
/-- What the call does to the elements. -/
def apply {Z : Type} : Edit → Value Z → Value Z
  | pushLeft values, .list items => .list (ListValue.pushLeft items values)
  | pushRight values, .list items => .list (ListValue.pushRight items values)
  | pop count left, .list items => .list (ListValue.pop items count left).2
  | setIndex index value, .list items => .list ((ListValue.set items index value).getD items)
  | trim start stop, .list items => .list (ListValue.trim items start stop)
  | removeValue count value, .list items => .list (ListValue.remove items count value).1
  | setField field value, .hash fields => .hash (fields.set field value)
  | deleteField field, .hash fields => .hash (fields.erase field)
  | addMember member, .set s => .set (s.add member)
  | removeMember member, .set s => .set (s.discard member)
  | _, v => v

/-- What a list adds for an element. -/
def itemBytes (value : Str) : Int := strSize value + listItemOverhead

/-- What a hash adds for a field. -/
def fieldBytes (field value : Str) : Int := strSize field + strSize value + hashItemOverhead

/-- What a set adds for a member. -/
def memberBytes (member : Str) : Int := strSize member + setItemOverhead

/-- **What the call does to `nbytes`**, as it goes along. -/
def count {Z : Type} : Edit → Value Z → Int → Int
  | pushLeft values, .list _, n => values.foldl (fun n value => n + itemBytes value) n
  | pushRight values, .list _, n => values.foldl (fun n value => n + itemBytes value) n
  | pop count left, .list items, n =>
    (ListValue.pop items count left).1.foldl (fun n value => n - itemBytes value) n
  | setIndex index value, .list items, n =>
    match (ListValue.normalize items index).bind fun pos => items[pos]? with
    | none => n
    | some old => n + (strSize value - strSize old)
  | trim start stop, .list items, _ =>
    (ListValue.trim items start stop).foldl (fun n value => n + itemBytes value) emptyContainer
  | removeValue count value, .list items, n =>
    n - (ListValue.remove items count value).2 * itemBytes value
  | setField field value, .hash fields, n =>
    match fields.get? field with
    | none => n + fieldBytes field value
    | some old => n + (strSize value - strSize old)
  | deleteField field, .hash fields, n =>
    match fields.get? field with
    | none => n
    | some old => n - fieldBytes field old
  | addMember member, .set s, n => if s.contains member then n else n + memberBytes member
  | removeMember member, .set s, n => if s.contains member then n - memberBytes member else n
  | _, _, n => n

end Edit

/-- Several calls, one after the other. -/
def Value.editAll {Z : Type} (edits : List Edit) (v : Value Z) : Value Z :=
  edits.foldl (fun v edit => edit.apply v) v

omit [CPython] in
@[simp] theorem Value.editAll_single {Z : Type} (edit : Edit) (v : Value Z) :
    v.editAll [edit] = edit.apply v := rfl

/-! ## Plain copies -/

/-- **A plain copy of a value**, as snapshots, DUMP and RESTORE carry it: the collections as plain
sequences, in which nothing keeps a member from occurring twice, and scores as bit patterns. -/
inductive Payload
  /-- A text. -/
  | str (s : Str)
  | list (items : List Str)
  /-- The fields of a hash. -/
  | hash (pairs : List (Str × Str))
  | set (members : List Str)
  /-- The members and scores of a sorted set. -/
  | zset (pairs : List (Str × Nat))
  deriving DecidableEq, Repr

/-- The type of the value a copy was made from. -/
def Payload.kind : Payload → Kind
  | str _ => .str
  | list _ => .list
  | hash _ => .hash
  | set _ => .set
  | zset _ => .zset

/-- No score of the copy is NaN. -/
def Payload.Real : Payload → Prop
  | zset pairs => ∀ p ∈ pairs, (Double.ofBits p.2).isNan = false
  | _ => True

instance (p : Payload) : Decidable p.Real :=
  match p with
  | .zset pairs => inferInstanceAs (Decidable (∀ p ∈ pairs, (Double.ofBits p.2).isNan = false))
  | .str _ => isTrue trivial
  | .list _ => isTrue trivial
  | .hash _ => isTrue trivial
  | .set _ => isTrue trivial

/-- `_record`: the copy of a value, given the elements of its sorted sets. -/
def Value.payload {Z : Type} (items : Z → List (Str × Double)) : Value Z → Payload
  | str s => .str s
  | list l => .list l
  | hash fields => .hash fields.entries
  | set members => .set members.items
  | zset z => .zset ((items z).map fun (m, s) => (m, s.bits))

end KvStore
