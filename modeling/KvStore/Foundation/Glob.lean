import KvStore.Foundation.Text

/-! # Shell patterns

`fnmatch.fnmatchcase` on code points: `*` matches any characters, `?` any one character, `[seq]` a
character of a set of single characters and ranges, `[!seq]` one outside it. A bracket that is never
closed stands for itself. -/

namespace KvStore

/-- One element of a pattern. -/
inductive Glob
  | star
  | any
  /-- A character that stands for itself. -/
  | lit (c : Nat)
  /-- A set, as inclusive ranges. -/
  | oneOf (negated : Bool) (ranges : List (Nat × Nat))
  deriving DecidableEq, Repr

namespace Glob

/-- The ranges of the inside of a bracket. -/
def ranges : List Nat → List (Nat × Nat)
  | a :: 45 :: b :: rest => (a, b) :: ranges rest
  | a :: rest => (a, a) :: ranges rest
  | [] => []

/-- The inside of a bracket and what follows the closing one. The first character is never the
closing bracket. -/
def splitClass : List Nat → Option (List Nat × List Nat)
  | [] => none
  | first :: rest =>
    match rest.span (· ≠ 93) with
    | (inside, 93 :: after) => some (first :: inside, after)
    | _ => none

/-- The elements of a pattern, one unit of fuel for each character. -/
def parseAux : Nat → List Nat → List Glob
  | 0, _ => []
  | _, [] => []
  | fuel + 1, 42 :: rest => star :: parseAux fuel rest
  | fuel + 1, 63 :: rest => any :: parseAux fuel rest
  | fuel + 1, 91 :: 33 :: rest =>
    match splitClass rest with
    | some (inside, after) => oneOf true (ranges inside) :: parseAux fuel after
    | none => lit 91 :: parseAux fuel (33 :: rest)
  | fuel + 1, 91 :: rest =>
    match splitClass rest with
    | some (inside, after) => oneOf false (ranges inside) :: parseAux fuel after
    | none => lit 91 :: parseAux fuel rest
  | fuel + 1, c :: rest => lit c :: parseAux fuel rest

/-- Whether one character matches one element. -/
def accepts : Glob → Nat → Bool
  | star, _ => true
  | any, _ => true
  | lit c, d => c = d
  | oneOf negated rs, d => (rs.any fun (lo, hi) => lo ≤ d && d ≤ hi) != negated

/-- Whether the characters match the elements, one unit of fuel for each step. -/
def matchAux : Nat → List Glob → List Nat → Bool
  | _, [], cs => cs.isEmpty
  | 0, _ :: _, _ => false
  | fuel + 1, star :: rest, cs =>
    matchAux fuel rest cs || match cs with
      | [] => false
      | _ :: cs => matchAux fuel (star :: rest) cs
  | fuel + 1, g :: rest, c :: cs => g.accepts c && matchAux fuel rest cs
  | _ + 1, _ :: _, [] => false

end Glob

/-- **`fnmatchcase(name, pattern)`**. -/
def fnmatchcase (name pattern : Str) : Bool :=
  let elements := Glob.parseAux (decode pattern).length (decode pattern)
  Glob.matchAux (elements.length + (decode name).length + 1) elements (decode name)

example : fnmatchcase (text "user:17") (text "user:*[0-9]") = true := by decide +kernel

example : fnmatchcase (text "user:x") (text "user:[!a-y]") = false := by decide +kernel

end KvStore
