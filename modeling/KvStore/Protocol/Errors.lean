import KvStore.Foundation.Text

/-! # Errors on the wire

The exception hierarchy (`core/exceptions.py`) as far as a reply shows it. An error is sent as one line,
the first word a code in capitals, and the receiver rebuilds the class from that word. Several classes
share the word `ERR`, so what is rebuilt need not have the class that was sent; its line is the same.

* **`ErrorClass`** — the classes, the word each declares and the message it has by default.
* **`WireError`** — an error: its class, its first word and its message, any text.
* **`WireError.toResp`**, **`fromResp`** — the line of an error, and the error of a line.
* **`WireError.Raised`** — the errors the code raises. Their lines are stable: rebuilt and written again
  they are the same line (`fromResp_toResp`). -/

namespace KvStore

open List

/-! ## Capitals -/

/-- An ASCII capital letter. -/
def isCapital (b : UInt8) : Bool := 65 ≤ b && b ≤ 90

/-- An ASCII small letter. -/
def isSmall (b : UInt8) : Bool := 97 ≤ b && b ≤ 122

/-- **`text.isupper()`**: beyond ASCII it depends on the character tables of the interpreter. -/
class CaseTable where
  /-- `text.isupper()`. -/
  isUpper : Str → Bool
  /-- On ASCII: some letter, and no small one. -/
  isUpper_ascii : ∀ s : Str, (∀ b ∈ s, b < 0x80) → isUpper s = (s.any isCapital && !s.any isSmall)

/-- The tables of an interpreter that knows the ASCII letters only. -/
@[reducible]
def asciiCaseTable : CaseTable where
  isUpper s := s.any isCapital && !s.any isSmall
  isUpper_ascii _ _ := rfl

/-! ## Classes -/

/-- **The classes of errors.** -/
inductive ErrorClass
  | kvStore
  | command
  | unknownCommand
  | wrongArity
  | invalidArgument
  | wrongType
  | outOfMemory
  | keyNotFound
  | protocol
  | persistence
  | persistenceWrite
  | aofCorrupted
  | snapshotCorrupted
  | cluster
  | nodeUnavailable
  | connectFailed
  | crossShard
  | readOnlyReplica
  | tryAgain
  | askRedirect
  | notEnoughReplicas
  deriving DecidableEq, Repr

namespace ErrorClass

def name : ErrorClass → String
  | kvStore => "KVStoreError"
  | command => "CommandError"
  | unknownCommand => "UnknownCommandError"
  | wrongArity => "WrongArityError"
  | invalidArgument => "InvalidArgumentError"
  | wrongType => "WrongTypeError"
  | outOfMemory => "OutOfMemoryError"
  | keyNotFound => "KeyNotFoundError"
  | protocol => "ProtocolError"
  | persistence => "PersistenceError"
  | persistenceWrite => "PersistenceWriteError"
  | aofCorrupted => "AOFCorruptedError"
  | snapshotCorrupted => "SnapshotCorruptedError"
  | cluster => "ClusterError"
  | nodeUnavailable => "NodeUnavailableError"
  | connectFailed => "ConnectFailedError"
  | crossShard => "CrossShardError"
  | readOnlyReplica => "ReadOnlyReplicaError"
  | tryAgain => "TryAgainError"
  | askRedirect => "AskRedirectError"
  | notEnoughReplicas => "NotEnoughReplicasError"

/-- `resp_prefix`, the first word of the line. -/
def respWord : ErrorClass → String
  | wrongType => "WRONGTYPE"
  | outOfMemory => "OOM"
  | persistenceWrite => "MISCONF"
  | nodeUnavailable | connectFailed => "CLUSTERDOWN"
  | crossShard => "CROSSSLOT"
  | readOnlyReplica => "READONLY"
  | tryAgain => "TRYAGAIN"
  | askRedirect => "ASK"
  | notEnoughReplicas => "NOREPLICAS"
  | _ => "ERR"

/-- `_by_prefix`: the classes that declare a word of their own. -/
def byWord : List ErrorClass :=
  [wrongType, outOfMemory, persistenceWrite, nodeUnavailable, crossShard, readOnlyReplica, tryAgain,
   askRedirect, notEnoughReplicas]

/-- `_by_prefix.get(word, CommandError)`. -/
def ofWord (word : Str) : ErrorClass :=
  (byWord.find? fun cls => text cls.respWord = word).getD command

/-- The message of an error made without one. -/
def defaultMessage : ErrorClass → String
  | wrongType => "Operation against a key holding the wrong kind of value"
  | outOfMemory => "command not allowed when used memory > 'maxmemory'."
  | readOnlyReplica => "You can't write against a read only replica."
  | notEnoughReplicas => "Not enough good replicas to write."
  | cls => cls.name

/-- The message, a protocol error being introduced as one. -/
def introduced (cls : ErrorClass) (message : Str) : Str :=
  if cls = protocol ∧ (text "Protocol error").isPrefixOf message = false then
    text "Protocol error: " ++ message
  else message

/-- The message of an error, as the constructor of its class sets it. -/
def initMessage (cls : ErrorClass) (message : Str) : Str :=
  if cls.introduced message = [] then text cls.defaultMessage else cls.introduced message

theorem defaultMessage_ne_nil (cls : ErrorClass) : text cls.defaultMessage ≠ [] := by
  cases cls <;> decide

theorem initMessage_ne_nil (cls : ErrorClass) (message : Str) : cls.initMessage message ≠ [] := by
  unfold initMessage
  split
  · exact defaultMessage_ne_nil cls
  · assumption

/-- A message that is given is kept, but for the introduction of a protocol error. -/
theorem initMessage_of_ne_nil {cls : ErrorClass} (hcls : cls ≠ protocol) {message : Str}
    (h : message ≠ []) : cls.initMessage message = message := by
  simp [initMessage, introduced, hcls, h]

/-- No protocol error is rebuilt from a line. -/
theorem ofWord_ne_protocol (word : Str) : ofWord word ≠ protocol := by
  unfold ofWord
  cases h : byWord.find? fun cls => text cls.respWord = word with
  | none => decide
  | some cls =>
    have hmem := mem_of_find?_eq_some h
    rintro rfl
    revert hmem
    decide

end ErrorClass

/-! ## Errors -/

/-- **An error**: its class, the first word of its line, and its message. -/
structure WireError where
  cls : ErrorClass
  /-- The first word (`prefix`). -/
  code : Str
  message : Str
  deriving DecidableEq, Repr

namespace WireError

/-- `cls(message, prefix=word)`, a missing word being that of the class. -/
def make (cls : ErrorClass) (message : Str) (word : Option Str) : WireError :=
  { cls
    code := if word.getD [] = [] then text cls.respWord else word.getD []
    message := cls.initMessage message }

/-- `to_resp`: the line. -/
def toResp (e : WireError) : Str := e.code ++ 32 :: e.message

/-- `text.partition(" ")`, without the separator. -/
def partition : Str → Str × Str
  | [] => ([], [])
  | b :: rest =>
    if b = 32 then ([], rest)
    else
      let (word, message) := partition rest
      (b :: word, message)

/-- `from_resp`: the error of a line. -/
def fromResp [CaseTable] (line : Str) : WireError :=
  let (word, message) := partition line
  if CaseTable.isUpper word then make (ErrorClass.ofWord word) message (some word)
  else make .command line none

/-- A blank is where the line is split. -/
theorem partition_append {word : Str} (h : 32 ∉ word) (message : Str) :
    partition (word ++ 32 :: message) = (word, message) := by
  induction word with
  | nil => simp [partition]
  | cons b rest ih =>
    rw [mem_cons, not_or] at h
    have hb : ¬ b = 32 := fun heq => h.1 heq.symm
    rw [cons_append, partition, if_neg hb, ih h.2]

/-- **The errors the code raises**: those of a class, with any message; two commands name a word that
no class declares. -/
inductive Raised : WireError → Prop
  | plain (cls : ErrorClass) (message : Str) : Raised (make cls message none)
  /-- RESTORE on a key that exists. -/
  | busyKey : Raised (make .command (text "Target key name already exists.") (some (text "BUSYKEY")))
  /-- HELLO with a version that is not spoken. -/
  | noProto : Raised (make .command (text "unsupported protocol version") (some (text "NOPROTO")))

/-- A first word: ASCII capitals. -/
def isCode (word : Str) : Bool := word.all isCapital && !word.isEmpty

/-- **The first word of an error is written in capitals, and it has a message.** -/
theorem Raised.isCode {e : WireError} (h : e.Raised) : isCode e.code = true ∧ e.message ≠ [] := by
  cases h with
  | plain cls message =>
    refine ⟨?_, ErrorClass.initMessage_ne_nil cls message⟩
    show WireError.isCode (text cls.respWord) = true
    cases cls <;> decide
  | busyKey | noProto => decide

/-- A word in capitals has no blank, no line end and nothing outside ASCII. -/
theorem bounds_of_isCode {word : Str} (h : WireError.isCode word = true) {b : UInt8}
    (hb : b ∈ word) : 65 ≤ b ∧ b ≤ 90 := by
  rw [WireError.isCode, Bool.and_eq_true, all_eq_true] at h
  simpa [isCapital] using h.1 b hb

theorem isUpper_of_isCode [CaseTable] {word : Str} (h : WireError.isCode word = true) :
    CaseTable.isUpper word = true := by
  have hascii : ∀ b ∈ word, b < 0x80 := fun b hb =>
    UInt8.lt_of_le_of_lt (bounds_of_isCode h hb).2 (by decide : (90 : UInt8) < 0x80)
  have hsmall : word.any isSmall = false := by
    rw [any_eq_false]
    intro b hb
    have hle := (bounds_of_isCode h hb).2
    have hnot : ¬ (97 ≤ b) := UInt8.not_le.mpr (UInt8.lt_of_le_of_lt hle (by decide : (90 : UInt8) < 97))
    simp [isSmall, hnot]
  have hcapital : word.any isCapital = true := by
    rw [WireError.isCode, Bool.and_eq_true, all_eq_true] at h
    cases word with
    | nil => simp at h
    | cons b rest => simp [h.1 b mem_cons_self]
  rw [CaseTable.isUpper_ascii word hascii, hsmall, hcapital]
  rfl

/-- **The line of an error is stable**: what is rebuilt from it has the same line. -/
theorem fromResp_toResp [CaseTable] {code message : Str} (hcode : WireError.isCode code = true)
    (hmessage : message ≠ []) :
    fromResp (code ++ 32 :: message) = ⟨ErrorClass.ofWord code, code, message⟩ := by
  have hblank : (32 : UInt8) ∉ code := fun hmem =>
    absurd (bounds_of_isCode hcode hmem).1 (by decide)
  have hne : code ≠ [] := by
    rintro rfl
    simp [WireError.isCode] at hcode
  have hinit := ErrorClass.initMessage_of_ne_nil (ErrorClass.ofWord_ne_protocol code) hmessage
  simp only [fromResp, partition_append hblank, isUpper_of_isCode hcode, if_true, make,
    Option.getD_some, hne, if_false, hinit]

end WireError

end KvStore
