import KvStore.Cluster.Migration
import KvStore.Protocol.Resp
import Mathlib.Data.List.Sort

/-! # The router

The stateless router (`cluster/router.py`). A client's batch is checked and routed command by command; the
commands of each shard group go out together, and those that were not executed are sent again.

What the router meets is a parameter: the configuration it has at every attempt, and what comes of every
exchange with a node (`Attempt`). An exchange also says which commands the node executed, whether or not
the router learns of it; the executed commands are recorded in order (`Run.log`).

* **`route`** — which group a command belongs to, if any.
* **`sendWithRetries`** — the commands of one group, with the retries (`_send_with_retries`).
* **`executeBatch`** — a client's pipeline (`execute_batch`). The groups of one flush are served at the same
  time; the batch is recorded flush by flush (`BatchLog`).

A `KVStoreError` is a result like any other; every other exception loses the whole batch (`Crash`). -/

namespace KvStore

/-! ## Errors and replies -/

/-- The error of the engine's tables as a reply. -/
def KvError.wire (e : KvError) : WireError :=
  let cls : ErrorClass := match e.kind with
    | .command => .command
    | .unknownCommand => .unknownCommand
    | .wrongArity => .wrongArity
    | .invalidArgument => .invalidArgument
    | .wrongType => .wrongType
    | .outOfMemory => .outOfMemory
    | .persistence => .persistence
  .make cls (text e.message) (some (text e.code))

namespace Resp

/-- The class of an error reply (`isinstance(reply, …)`). -/
def errorClass : Resp → Option ErrorClass
  | .error e => some e.cls
  | _ => none

/-- `isinstance(reply, KVStoreError)`. -/
def isError (r : Resp) : Bool := r.errorClass.isSome

/-- `_RETRYABLE`: the node refused the command without running it. -/
def isRetryable (r : Resp) : Bool :=
  r.errorClass = some .readOnlyReplica || r.errorClass = some .tryAgain ||
    r.errorClass = some .askRedirect

end Resp

/-- The words of a text, at blanks (`text.split()`). -/
def words (s : Str) : List Str :=
  (s.splitBy fun a b => !isBlank a.toNat && !isBlank b.toNat).filter fun word =>
    word.any fun b => !isBlank b.toNat

/-- `AskRedirectError.target`: the last word of the message. -/
def WireError.target (e : WireError) : Option Str := (words e.message).getLast?

namespace Router

/-- An exception that is not a `KVStoreError`. -/
inductive Crash
  /-- `IndexError`: an empty command, or a redirection without an address. -/
  | index
  /-- `AssertionError`. -/
  | assertion
  /-- `UnicodeEncodeError` or `LookupError` of the ring. -/
  | ring (err : RingError)
  /-- `ValueError`: an address without a port. -/
  | address
  /-- `TypeError`: replies of several groups that cannot be merged. -/
  | type
  deriving DecidableEq

/-- The settings of the router. -/
structure Settings where
  retries : Nat
  waitReplicas : Nat
  readFromReplicas : Bool
  /-- The handlers of the stateless commands, which the router runs itself. -/
  answer : Command → List Str → Except WireError Resp

/-- What the router knows at some time: the configuration, whose ring has points, which replicas may
serve reads, and how many reads went to replicas (`_replica_turn`) when each command asks. -/
structure View where
  config : ClusterConfig
  ring : ConsistentHashRing
  /-- A configuration has a group on the ring. -/
  nonempty : ring.points ≠ []
  healthy : Address → Bool
  /-- `next(_replica_turn)`. -/
  turn : Nat → Nat

/-- **What comes of an exchange**: the exception or the replies, and which commands were executed, by
their number in the batch. A reply may depend on the command and its number. -/
inductive Outcome
  /-- No connection: nothing was sent (`ConnectFailedError`). -/
  | connectFailed (reason : Str)
  /-- A timeout, or the connection broke: anything may have been executed (`NodeUnavailableError`). -/
  | unavailable (reason : Str) (ran : Nat → Bool)
  /-- The replies, and the reply to WAIT if it was sent. -/
  | replied (reply : List Str → Nat → Resp) (ran : Nat → Bool) (confirmed : Except WireError Int)

/-- **What an attempt meets**: the router's view, and what comes of the exchange with each address. -/
structure Attempt where
  /-- The view at the begin of the attempt. -/
  view : View
  /-- The exchange with an address. -/
  outcome : Str → Outcome

/-! ## Routing -/

/-- An exception of the routing. -/
inductive Raised
  /-- A `KVStoreError`. -/
  | error (e : WireError)
  /-- Any other exception. -/
  | crash (c : Crash)

/-- Where a command goes (`_Routed`). -/
inductive Routed
  /-- Nowhere: the router has the reply. -/
  | answered (reply : Resp)
  /-- To every group. -/
  | fanout
  /-- To one group. -/
  | shard (id : Str)

/-- `FANOUT`: keyless commands that run on every group. -/
def fanoutCommands : List Command :=
  [.dbsize, .keys, .flushall, .flushdb, .bgsave, .bgrewriteaof, .save]

/-- The integers among the replies of several groups, all of which must be integers. -/
def integers : List Resp → Except Crash (List Int)
  | [] => .ok []
  | .integer n :: rest => (integers rest).map (n :: ·)
  | _ :: _ => .error .type

/-- The items of several arrays. -/
def concat : List Resp → Except Crash (List Resp)
  | [] => .ok []
  | .array items :: rest => (concat rest).map (items ++ ·)
  | _ :: _ => .error .type

/-- How the replies of all groups are merged: `_sum`, `_concat` or `_ok`. -/
def merge (c : Command) (replies : List Resp) : Except Crash Resp :=
  match c with
  | .dbsize => (integers replies).map fun ns => .integer ns.sum
  | .keys => (concat replies).map .array
  | _ => .ok (.status (text "OK"))

section
variable [Digest]

/-- The groups that own some keys. -/
def owners (ring : ConsistentHashRing) : List Str → Except RingError (List Str)
  | [] => .ok []
  | key :: keys => do
      let owner ← ring.owner key
      let rest ← owners ring keys
      .ok (owner :: rest)

def route (settings : Settings) (v : View) (command : List Str) : Except Raised Routed :=
  match command with
  | [] => .error (.crash .index)
  | name :: args =>
    match Command.ofText name with
    | none =>
      .error (.error (.make .unknownCommand (text "unknown command '" ++ name ++ [39]) none))
    | some c =>
      match c.checkArity args with
      | .error e => .error (.error e.wire)
      | .ok () =>
        if c.spec.stateless then
          match settings.answer c args with
          | .error e => .error (.error e)
          | .ok reply => .ok (.answered reply)
        else if c.keyArgs args = [] then
          if c ∈ fanoutCommands then .ok .fanout
          else .error (.error (.make .command
            (text ("'" ++ c.name ++ "' is not supported through the router")) none))
        else
          match owners v.ring (c.keyArgs args) with
          | .error err => .error (.crash (.ring err))
          | .ok [] => .error (.crash .index)
          | .ok (owner :: rest) =>
            if rest.all (· = owner) then .ok (.shard owner)
            else .error (.error (.make .crossShard
              (text "Keys in request don't hash to the same shard") none))

end

def isRead : List Str → Bool
  | [] => false
  | name :: _ =>
    match Command.ofText name with
    | none => false
    | some c => !c.spec.write

/-! ## Runs -/

/-- **A run**: what was executed, in order, and the result. -/
structure Run (ω α : Type) where
  /-- What was executed. -/
  log : List ω
  /-- The result, or the exception that ended it. -/
  result : Except Crash α

namespace Run

variable {ω α β : Type}

/-- A result at once. -/
def pure (a : α) : Run ω α := ⟨[], .ok a⟩

/-- An exception. -/
def crash (c : Crash) : Run ω α := ⟨[], .error c⟩

/-- One run, and then another. -/
def bind (x : Run ω α) (f : α → Run ω β) : Run ω β :=
  match x.result with
  | .error c => ⟨x.log, .error c⟩
  | .ok a => ⟨x.log ++ (f a).log, (f a).result⟩

/-- Something is executed, and then a run. -/
def after (executed : List ω) (x : Run ω α) : Run ω α := ⟨executed ++ x.log, x.result⟩

end Run

/-! ## The commands of one group -/

/-- The state of the retry loop: the results so far, and where the moved keys are. -/
structure Sending where
  results : Nat → Resp
  redirect : Nat → Option Str

/-- What is being sent: the group and its commands. -/
structure Share where
  /-- The group they were routed to. -/
  shard : Str
  commands : List (List Str)

namespace Share

/-- A command, by its number. -/
def command (p : Share) (i : Nat) : List Str := p.commands.getD i []

/-- Whether all commands are reads. -/
def readonly (p : Share) : Bool := p.commands.all isRead

end Share

/-- Where one command is sent in an attempt. -/
inductive Where
  | node (address : Str)
  /-- Nowhere: its result is an error. -/
  | refused (e : WireError)

/-- The address of a group, for a command that may be read from a replica. -/
def groupAddress (v : View) (i : Nat) (shard : Str) (replica : Bool) : Where :=
  match v.config.group? shard with
  | none =>
    .refused (.make .nodeUnavailable
      (text "shard group '" ++ shard ++ text "' left the cluster") none)
  | some group =>
    let healthy := group.replicas.filter v.healthy
    if replica ∧ healthy ≠ [] then
      .node (healthy.getD (v.turn i % healthy.length) group.primary).show
    else .node group.primary.show

section
variable [Digest]

/-- **`_address`**: without a group the command is routed again. -/
def address (settings : Settings) (v : View) (command : List Str) (i : Nat) (shard : Option Str)
    (replica : Bool) : Except Crash Where :=
  match shard with
  | some shard => .ok (groupAddress v i shard replica)
  | none =>
    match route settings v command with
    | .error (.error e) => .ok (.refused e)
    | .error (.crash c) => .error c
    | .ok (.shard shard) => .ok (groupAddress v i shard replica)
    | .ok (.answered _) => .error .assertion
    | .ok .fanout => .error .assertion

end

/-- `by_address.setdefault(address, []).append(i)`, the addresses being kept in the order they came. -/
def addTo (groups : List (Str × List Nat)) (address : Str) (i : Nat) : List (Str × List Nat) :=
  match groups with
  | [] => [(address, [i])]
  | (a, is) :: rest => if a = address then (a, is ++ [i]) :: rest else (a, is) :: addTo rest address i

section
variable [Digest]

/-- The addresses of an attempt: the results of the commands that are sent nowhere, and the commands for
each address. -/
def plan (settings : Settings) (p : Share) (v : View) (first replica : Bool)
    (redirect : Nat → Option Str) : List Nat → (Nat → Resp) × List (Str × List Nat) →
    Except Crash ((Nat → Resp) × List (Str × List Nat))
  | [], acc => .ok acc
  | i :: todo, (results, groups) =>
    match redirect i with
    | some a => plan settings p v first replica redirect todo (results, addTo groups a i)
    | none =>
      match address settings v (p.command i) i (if first then some p.shard else none) replica with
      | .error c => .error c
      | .ok (.refused e) =>
        plan settings p v first replica redirect todo
          (Function.update results i (.error e), groups)
      | .ok (.node a) =>
        plan settings p v first replica redirect todo (results, addTo groups a i)

end

/-- `KVClient.from_address` finds a port behind the last colon. -/
def hasPort (address : Str) : Bool :=
  (int (address.reverse.takeWhile (· ≠ 58)).reverse).isSome

/-- `_unavailable(exc)` and its like: the same exception for all the commands. -/
def failAll (cls : ErrorClass) (address reason : Str) (is : List Nat) (results : Nat → Resp) :
    Nat → Resp := fun i =>
  if i ∈ is then .error (.make cls (address ++ text " unavailable: " ++ reason) none) else results i

/-- The verdict of WAIT on a batch with writes (`_exchange`): a write that did not reach enough replicas is
reported as such. -/
def verdict (settings : Settings) (p : Share) (is : List Nat) (reply : List Str → Nat → Resp)
    (confirmed : Except WireError Int) (i : Nat) : Resp :=
  let r := reply (p.command i) i
  if settings.waitReplicas = 0 ∨ is.all (fun j => isRead (p.command j)) then r
  else
    match confirmed with
    | .ok n =>
      if (settings.waitReplicas : Int) ≤ n then r
      else if isRead (p.command i) || r.isError then r
      else notEnough (showInt n)
    | .error e => if isRead (p.command i) || r.isError then r else notEnough e.message
where
  /-- `NotEnoughReplicasError(f"write reached {confirmed} of {needed} replicas")`. -/
  notEnough (confirmed : Str) : Resp :=
    .error (.make .notEnoughReplicas (text "write reached " ++ confirmed ++ text " of " ++
      showNat settings.waitReplicas ++ text " replicas") none)

/-- The replies of one exchange, command by command: those that were refused are to be sent again, to the
address the refusal names if it names one. -/
def settleReplies (reply : Nat → Resp) : List Nat → Sending × List Nat →
    Except Crash (Sending × List Nat)
  | [], acc => .ok acc
  | i :: is, (s, retry) =>
    let results := Function.update s.results i (reply i)
    match reply i with
    | .error e =>
      if e.cls = .askRedirect then
        match e.target with
        | none => .error .index
        | some a =>
          settleReplies reply is
            (⟨results, Function.update s.redirect i (some a)⟩, retry ++ [i])
      else if (reply i).isRetryable then
        settleReplies reply is (⟨results, Function.update s.redirect i none⟩, retry ++ [i])
      else settleReplies reply is (⟨results, s.redirect⟩, retry)
    | _ => settleReplies reply is (⟨results, s.redirect⟩, retry)

/-- **One exchange**: one pipeline to one node. -/
def exchange (settings : Settings) (p : Share) (outcome : Outcome) (address : Str) (is : List Nat)
    (acc : Sending × List Nat) : Run Nat (Sending × List Nat) :=
  let (s, retry) := acc
  if hasPort address then
    match outcome with
    | .connectFailed reason =>
      .pure (⟨failAll .connectFailed address reason is s.results, s.redirect⟩, retry ++ is)
    | .unavailable reason ran =>
      .after (is.filter ran) (.pure (⟨failAll .nodeUnavailable address reason is s.results,
        s.redirect⟩, if p.readonly then retry ++ is else retry))
    | .replied reply ran confirmed =>
      .after (is.filter ran)
        ⟨[], settleReplies (verdict settings p is reply confirmed) is (s, retry)⟩
  else .crash .address

/-- The exchanges of one attempt, one after the other. -/
def exchanges (settings : Settings) (p : Share) (outcome : Str → Outcome) :
    List (Str × List Nat) → Sending × List Nat → Run Nat (Sending × List Nat)
  | [], acc => .pure acc
  | (a, is) :: groups, acc =>
    (exchange settings p (outcome a) a is acc).bind (exchanges settings p outcome groups)

section
variable [Digest]

/-- **One attempt** at the commands of `todo`: the state, and the commands to be sent again. -/
def attempt (settings : Settings) (p : Share) (at_ : Attempt) (first replica : Bool) (s : Sending)
    (todo : List Nat) : Run Nat (Sending × List Nat) :=
  match plan settings p at_.view first replica s.redirect todo (s.results, []) with
  | .error c => .crash c
  | .ok (results, groups) =>
    exchanges settings p at_.outcome groups (⟨results, s.redirect⟩, [])

/-- The attempts, until nothing is to be sent again or no attempt is left. -/
def attempts (settings : Settings) (p : Share) (env : Nat → Attempt) (replica : Bool) :
    Nat → Nat → Sending → List Nat → Run Nat Sending
  | 0, _, s, _ => .pure s
  | n + 1, t, s, todo =>
    (attempt settings p (env t) (t = 0) replica s todo).bind fun (s, retry) =>
      if retry = [] then .pure s
      else attempts settings p env replica n (t + 1) s (retry.insertionSort (· ≤ ·))

/-- Whether the commands are read from a replica: not while keys are moving. -/
def fromReplica (settings : Settings) (p : Share) (v : View) : Bool :=
  p.readonly && settings.readFromReplicas && v.config.rebalance.isNone

def sendWithRetries (settings : Settings) (env : Nat → Attempt) (p : Share) : Run Nat (List Resp) :=
  (attempts settings p env (fromReplica settings p (env 0).view) (settings.retries + 1) 0
    ⟨fun _ => .nil, fun _ => none⟩ (List.range p.commands.length)).bind fun s =>
    .pure ((List.range p.commands.length).map s.results)

end

/-! ## A client's batch -/

/-- What an exchange says of the commands of a batch, told of the `x`-th command of a share by its number
`is[x]` in the batch. -/
def Outcome.renumber (is : List Nat) : Outcome → Outcome
  | .connectFailed reason => .connectFailed reason
  | .unavailable reason ran => .unavailable reason fun x => ran (is.getD x 0)
  | .replied reply ran confirmed =>
    .replied (fun c x => reply c (is.getD x 0)) (fun x => ran (is.getD x 0)) confirmed

/-- The attempts at a share, what they meet being told by the numbers in the batch. -/
def renumber (is : List Nat) (env : Nat → Attempt) (t : Nat) : Attempt where
  view := (env t).view
  outcome a := ((env t).outcome a).renumber is

/-- **What a batch meets.** The router's view can change whenever it waits: `view k` is the one behind the
`k`-th wait. -/
structure BatchEnv where
  /-- The view the commands are routed with. -/
  view : Nat → View
  /-- What the commands of a group meet in the `k`-th wait, by their numbers in the batch. -/
  send : Nat → Str → Nat → Attempt

/-- What the batch did in one wait: for each group that was sent something, the commands it executed. -/
abbrev FlushLog := List (List Nat)

/-- The state of the loop over a batch. -/
structure BatchState where
  /-- How often the router waited. -/
  waits : Nat
  results : Nat → Resp
  pending : List (Str × List Nat)

/-- The first exception, or all results. -/
def gather {α : Type} : List (Except Crash α) → Except Crash (List α)
  | [] => .ok []
  | .error c :: _ => .error c
  | .ok a :: rest => (gather rest).map (a :: ·)

/-- `results[i] = reply`, for the commands of a group and their replies. -/
def scatter (results : Nat → Resp) (is : List Nat) (replies : List Resp) : Nat → Resp :=
  (is.zip replies).foldl (fun results (i, reply) => Function.update results i reply) results

section
variable [Digest]

/-- The share of a group is sent. -/
def sendGroup (settings : Settings) (env : Str → Nat → Attempt) (batch : List (List Str))
    (group : Str × List Nat) : Run Nat (List Resp) :=
  let run := sendWithRetries settings (renumber group.2 (env group.1))
    ⟨group.1, group.2.map fun i => batch.getD i []⟩
  ⟨run.log.map fun x => group.2.getD x 0, run.result⟩

/-- **`_flush`**: the groups that have commands waiting are served together. -/
def flush (settings : Settings) (env : BatchEnv) (batch : List (List Str)) (s : BatchState) :
    Run FlushLog BatchState :=
  if s.pending = [] then .pure s
  else
    let runs := s.pending.map (sendGroup settings (env.send s.waits) batch)
    match gather (runs.map Run.result) with
    | .error c => ⟨[runs.map Run.log], .error c⟩
    | .ok replies =>
      ⟨[runs.map Run.log], .ok
        { waits := s.waits + 1
          results := (s.pending.zip replies).foldl
            (fun results (group, replies) => scatter results group.2 replies) s.results
          pending := [] }⟩

/-- The reply of one group to a command for every group. -/
def single : List Resp → Resp
  | [r] => r
  | _ => .nil

/-- **`_fanout`**: the command runs on every group; an error of any of them is the result. -/
def fanout (settings : Settings) (env : BatchEnv) (batch : List (List Str)) (i : Nat) (c : Command)
    (s : BatchState) : Run FlushLog BatchState :=
  let groups := (env.view s.waits).config.shards.map fun group => (group.id, [i])
  let runs := groups.map (sendGroup settings (env.send s.waits) batch)
  let done (reply : Resp) : Run FlushLog BatchState :=
    ⟨[runs.map Run.log], .ok
      { s with waits := s.waits + 1, results := Function.update s.results i reply }⟩
  match gather (runs.map Run.result) with
  | .error c => ⟨[runs.map Run.log], .error c⟩
  | .ok replies =>
    let results := replies.map single
    match results.find? Resp.isError with
    | some e => done e
    | none =>
      match merge c results with
      | .error c => ⟨[runs.map Run.log], .error c⟩
      | .ok reply => done reply

/-- The loop of `execute_batch` over the commands from number `i` on. -/
def batchLoop (settings : Settings) (env : BatchEnv) (batch : List (List Str)) :
    List (List Str) → Nat → BatchState → Run FlushLog BatchState
  | [], _, s => flush settings env batch s
  | command :: commands, i, s =>
    match route settings (env.view s.waits) command with
    | .error (.crash c) => .crash c
    | .error (.error e) =>
      batchLoop settings env batch commands (i + 1)
        { s with results := Function.update s.results i (.error e) }
    | .ok (.answered reply) =>
      batchLoop settings env batch commands (i + 1)
        { s with results := Function.update s.results i reply }
    | .ok .fanout =>
      -- a barrier: everything before it is answered first
      (flush settings env batch s).bind fun s =>
        match command.head?.bind Command.ofText with
        | none => .crash .index
        | some c => (fanout settings env batch i c s).bind
            (batchLoop settings env batch commands (i + 1))
    | .ok (.shard id) =>
      batchLoop settings env batch commands (i + 1) { s with pending := addTo s.pending id i }

/-- **`execute_batch`**: one result for each command. -/
def executeBatch (settings : Settings) (env : BatchEnv) (batch : List (List Str)) :
    Run FlushLog (List Resp) :=
  (batchLoop settings env batch batch 0 ⟨0, fun _ => .nil, []⟩).bind fun s =>
    .pure ((List.range batch.length).map s.results)

end

end Router

end KvStore
