import KvStore.Foundation.Text
import Mathlib.Data.List.GetD
import Mathlib.Data.List.Sort
import Mathlib.Data.List.TakeWhile

/-! # The hash ring

Consistent hashing with virtual nodes (`cluster/hash_ring.py`). Every group is hashed onto the ring at a
number of points; a key belongs to the first point clockwise from its own hash. What is hashed of a key is
its *hash tag*, if it has one.

The digest is that of the library (`Digest`); nothing here depends on which function it is. It is taken of
the *strict* UTF-8 form of a text, which a text with a surrogate escape does not have (`encodeStrict`).

* **`hashSlotKey`** — the part of a key that is hashed.
* **`ConsistentHashRing`** — the ring, its points sorted and owned.
* **`ConsistentHashRing.getNode`** — the owner of a key. Only a text that is not UTF-8 makes it fail on a
  ring with points (`getNode_eq_encoding`). -/

namespace KvStore

/-! ## What is hashed -/

/-- Whether a code point is a surrogate escape: what an undecodable byte stands for. -/
def isEscape (c : Nat) : Bool := 0xDC80 ≤ c && c ≤ 0xDCFF

/-- Whether the bytes of a text are valid UTF-8: none of them is escaped. -/
def isUtf8 (s : Str) : Bool := !(decode s).any isEscape

/-- `hash_slot_key`: the text between the first opening brace and the next closing one, if there is any,
else the whole key. -/
def hashSlotKey (key : Str) : Str :=
  match key.dropWhile (· ≠ 0x7B) with
  | [] => key
  | _ :: rest =>
    let tag := rest.takeWhile (· ≠ 0x7D)
    if 0x7D ∈ rest ∧ tag ≠ [] then tag else key

/-! ## Why there is no owner -/

/-- Why a ring does not name an owner. -/
inductive RingError
  /-- `UnicodeEncodeError`: the text has no strict UTF-8 form. -/
  | encoding
  /-- `LookupError`: "the hash ring has no nodes" -/
  | noNodes
  /-- `KeyError`: the owner is not among the targets of a migration. -/
  | unknownGroup
  deriving DecidableEq, Repr

/-- `value.encode()`: a text without surrogate escapes is encoded as its bytes. -/
def encodeStrict (value : Str) : Except RingError Str :=
  if isUtf8 value then .ok value else .error .encoding

/-- **The digest**: the first eight bytes of `hashlib.md5(data).digest()`, as a number. -/
class Digest where
  /-- The number. -/
  digest : Str → Nat

/-- **The digests of a few texts** by md5: the first points of three groups, and two keys. -/
@[reducible]
def Digest.sample : Digest where
  digest s := ([(text "1#0", 0xF3ED6582B1B9B63C), (text "2#0", 0x2AD08B1107570F9E),
    (text "3#0", 0x1669A46C9DF8058C), (text "a", 0x0CC175B9C0F1B6A8),
    (text "h", 0x2510C39011C5BE70)].lookup s).getD 0

/-! ## The ring -/

structure ConsistentHashRing where
  /-- The points of each node. -/
  virtualNodes : Nat
  owners : Nat → Option Str
  points : List Nat
  nodes : List Str
  sorted : points.Pairwise (· ≤ ·)
  owned : ∀ p ∈ points, (owners p).isSome

namespace ConsistentHashRing

/-- A ring without nodes. -/
def empty (virtualNodes : Nat) : ConsistentHashRing where
  virtualNodes
  owners _ := none
  points := []
  nodes := []
  sorted := .nil
  owned := by simp

/-- A point of a node; a point that is taken is skipped. -/
def addPoint (ring : ConsistentHashRing) (node : Str) (point : Nat) : ConsistentHashRing :=
  if (ring.owners point).isSome then ring
  else
    { ring with
      owners := Function.update ring.owners point (some node)
      points := ring.points.orderedInsert (· ≤ ·) point
      sorted := ring.sorted.orderedInsert point ring.points
      owned := by
        intro p hp
        rcases (List.mem_orderedInsert (· ≤ ·)).mp hp with rfl | hp
        · simp
        · by_cases heq : p = point
          · simp [heq]
          · simpa [Function.update_of_ne heq] using ring.owned p hp }

/-- `bisect.bisect`: how many points, which are sorted, are at or before a hash. -/
def bisect (points : List Nat) (h : Nat) : Nat := points.findIdx (h < ·)

variable [Digest]

def hash (value : Str) : Except RingError Nat := (encodeStrict value).map Digest.digest

/-- The loop of `add_node` over the points from `i` on. -/
def addPoints (node : Str) : Nat → Nat → ConsistentHashRing → Except RingError ConsistentHashRing
  | 0, _, ring => .ok ring
  | n + 1, i, ring => do
      let point ← hash (node ++ 35 :: showNat i)
      addPoints node n (i + 1) (ring.addPoint node point)

/-- `add_node` of a node that is not on the ring. -/
def addNode (ring : ConsistentHashRing) (node : Str) : Except RingError ConsistentHashRing :=
  addPoints node ring.virtualNodes 0 { ring with nodes := ring.nodes ++ [node] }

/-- `ConsistentHashRing(nodes, virtual_nodes=…)`. -/
def make (nodes : List Str) (virtualNodes : Nat) : Except RingError ConsistentHashRing :=
  nodes.foldlM addNode (empty virtualNodes)

/-- **`get_node`**: the owner of the first point behind the hash of a key, around the ring. -/
def getNode (ring : ConsistentHashRing) (key : Str) : Except RingError Str :=
  match ring.points with
  | [] => .error .noNodes
  | first :: rest => do
      let h ← hash key
      let points := first :: rest
      let point := points.getD (bisect points h) first
      .ok ((ring.owners point).getD [])

/-- The group that owns a key (`ShardRouter.owner`). -/
def owner (ring : ConsistentHashRing) (key : Str) : Except RingError Str :=
  ring.getNode (hashSlotKey key)

/-- **A key has no owner for want of an encoding** exactly if what is hashed of it is not UTF-8. -/
theorem owner_eq_encoding {ring : ConsistentHashRing} {key : Str} :
    ring.owner key = .error .encoding ↔ ring.points ≠ [] ∧ isUtf8 (hashSlotKey key) = false := by
  unfold owner getNode hash encodeStrict
  cases hpoints : ring.points with
  | nil => simp
  | cons first rest =>
    cases hutf8 : isUtf8 (hashSlotKey key) with
    | true | false => simp [Except.map, bind, Except.bind]

/-- **Every other key has an owner.** -/
theorem owner_isOk {ring : ConsistentHashRing} {key : Str} (hpoints : ring.points ≠ [])
    (hutf8 : isUtf8 (hashSlotKey key) = true) : ∃ node, ring.owner key = .ok node := by
  obtain ⟨first, rest, hcons⟩ := List.exists_cons_of_ne_nil hpoints
  simp only [owner, getNode, hcons, hash, encodeStrict, hutf8, if_true, Except.map, bind, Except.bind]
  exact ⟨_, rfl⟩

end ConsistentHashRing

end KvStore
