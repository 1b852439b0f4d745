import KvStore.Cluster.Manager

/-! # The manager and its nodes, step by step

A `World` is the manager, its running jobs and the nodes, with everything under way between them.
`World.step` executes one event; the events say, among other things, which node executes which
request and when, which replies arrive, and which calls the manager gives up on. A call that is
given up may have been executed, or may still be: its request stays in `World.late` and can reach
the node at any later time.

Between two awaits a job runs without interruption (`World.settle`).

`World.promoted` is a ledger, not part of the program: every `REPLICAOF NO ONE EPOCH e` that a node
accepted. -/

namespace KvStore

namespace Cluster

open Manager Prog

/-- How far a call is. -/
inductive Status
  /-- Its request has not been executed. -/
  | sent
  /-- Its request was executed; the reply is on its way. -/
  | executed (reply : Except Failure Reply)
  /-- The manager has its outcome. -/
  | settled (outcome : Except Failure Reply)
  deriving DecidableEq

/-- A call under way. -/
structure Flight where
  call : Call
  status : Status

/-- **A running job**: what is left of its program, and the calls it awaits. -/
structure Task where
  /-- What is left, up to the next await. -/
  rest : Code Unit
  flights : List Flight

/-- **The manager and its nodes.** -/
structure World where
  manager : Manager
  clock : ClusterClock
  /-- The job that holds the lock. -/
  lock : Option Nat
  tasks : Nat → Option Task
  nodes : Address → ShardNode
  /-- Requests of calls that were given up before they were executed. -/
  late : List (Address × Request)
  /-- Which node accepted a promotion under which epoch. -/
  promoted : List (Address × Nat)

/-- What can happen. -/
inductive Event
  /-- The loop starts a round, or an operator's request arrives. -/
  | spawn (i : Nat) (job : Job)
  | acquire (i : Nat)
  /-- A loop of job `i` is to go round `n` times. -/
  | choose (i n : Nat)
  | wake (i : Nat)
  /-- The node executes the request of call `j` of job `i`; `answer` is what it says if it is asked
  about a migration. -/
  | deliver (i j : Nat) (answer : Except Failure Reply)
  /-- The reply to call `j` of job `i` arrives. -/
  | answer (i j : Nat)
  /-- Call `j` of job `i` is given up: its request may still be executed, or its reply is lost. -/
  | timeout (i j : Nat)
  /-- Call `j` of job `i` fails without its request ever reaching the node. -/
  | lose (i j : Nat)
  /-- All calls of job `i` have outcomes: it goes on. -/
  | resume (i : Nat)
  /-- A request that was given up reaches its node after all. -/
  | straggle (k : Nat) (answer : Except Failure Reply)
  | advance (clock : ClusterClock)
  /-- A node's stream position or link changes. -/
  | progress (node : Address) (offset : Nat) (up : Bool)
  /-- A node's process starts again. -/
  | restart (node : Address) (replicaof : Option Address)

namespace World

/-- What the manager's code does at once; `none` for an await. -/
def atOnce : (o : Manager.Op) → World → Option (o.Resp × World)
  | .read, w => some (w.manager, w)
  | .health f, w =>
    some ((), { w with
      manager := { w.manager with health := f w.clock.monotonic w.manager.health } })
  | .setConfig c, w =>
    some ((), { w with
      manager := { w.manager with config := c, adopted := w.manager.adopted ++ [c] } })
  | .record e, w =>
    some ((), { w with manager := { w.manager with events := w.manager.events ++ [e] } })
  | .clock, w => some (w.clock, w)
  | .release, w => some ((), { w with lock := none })
  | .rounds, _ | .acquire, _ | .gather _, _ | .sleep, _ => none

/-- Run a program up to its next await. -/
def settle : Code Unit → World → Code Unit × World
  | .ret a, w => (.ret a, w)
  | .fail e, w => (.fail e, w)
  | .op o next, w =>
    match atOnce o w with
    | some (r, w') => settle (next r) w'
    | none => (.op o next, w)

/-- The calls that a program at an await has made. -/
def callsOf : Code Unit → List Call
  | .op (.gather calls) _ => calls
  | _ => []

/-- Those calls, sent. -/
def flightsOf (p : Code Unit) : List Flight := (callsOf p).map fun c => ⟨c, .sent⟩

/-- Job `i` goes on with `p`, up to its next await. -/
def proceed (w : World) (i : Nat) (p : Code Unit) : World :=
  { (settle p w).2 with
    tasks := Function.update w.tasks i (some ⟨(settle p w).1, flightsOf (settle p w).1⟩) }

/-- A node executes a request. -/
def serve (w : World) (node : Address) (request : Request) (answer : Except Failure Reply) :
    Except Failure Reply × World :=
  let done := (w.nodes node).execute request answer
  (done.1, { w with
    nodes := Function.update w.nodes node done.2
    promoted := match request, done.1 with
      | .replicaof none e, .ok _ => w.promoted ++ [(node, e)]
      | _, _ => w.promoted })

/-- Call `j` of job `i` with its status. -/
def flight? (w : World) (i j : Nat) : Option Flight := (w.tasks i).bind fun t => t.flights[j]?

/-- Call `j` of job `i` has come to `status`. -/
def mark (w : World) (i j : Nat) (status : Status) : World :=
  { w with tasks := Function.update w.tasks i ((w.tasks i).map fun t =>
      { t with flights := t.flights.modify j fun f => { f with status := status } }) }

/-- The outcome of a call reaches the manager: it is noted of the node, if the call does so. -/
def conclude (w : World) (i j : Nat) (call : Call) (outcome : Except Failure Reply) : World :=
  { w.mark i j (.settled outcome) with
    manager := { w.manager with
      health := Function.update w.manager.health call.node
        ((w.manager.health call.node).map (call.note w.clock.monotonic outcome)) } }

/-- The outcomes of a job's calls, if it has all of them. -/
def outcomes? (flights : List Flight) : Option (List (Except Failure Reply)) :=
  flights.mapM fun f => match f.status with
    | .settled outcome => some outcome
    | _ => none

/-- **One event**; `none` if it cannot happen. -/
def step (w : World) : Event → Option World
  | .spawn i job => if w.tasks i = none then some (w.proceed i job.code) else none
  | .acquire i =>
    match w.tasks i, w.lock with
    | some ⟨.op .acquire next, _⟩, none =>
      some ({ w with lock := some i }.proceed i (next ()))
    | _, _ => none
  | .choose i n =>
    match w.tasks i with
    | some ⟨.op .rounds next, _⟩ => some (w.proceed i (next n))
    | _ => none
  | .wake i =>
    match w.tasks i with
    | some ⟨.op .sleep next, _⟩ => some (w.proceed i (next ()))
    | _ => none
  | .deliver i j answer =>
    match w.flight? i j with
    | some ⟨call, .sent⟩ =>
      let done := w.serve call.node call.request answer
      some (done.2.mark i j (.executed done.1))
    | _ => none
  | .answer i j =>
    match w.flight? i j with
    | some ⟨call, .executed reply⟩ => some (w.conclude i j call reply)
    | _ => none
  | .timeout i j =>
    match w.flight? i j with
    | some ⟨call, .sent⟩ =>
      some { w.conclude i j call (.error .unavailable) with
        late := w.late ++ [(call.node, call.request)] }
    | some ⟨call, .executed _⟩ => some (w.conclude i j call (.error .unavailable))
    | _ => none
  | .lose i j =>
    match w.flight? i j with
    | some ⟨call, .sent⟩ => some (w.conclude i j call (.error .unavailable))
    | _ => none
  | .resume i =>
    match w.tasks i with
    | some ⟨.op (.gather _) next, flights⟩ =>
      (outcomes? flights).map fun outcomes => w.proceed i (next outcomes)
    | _ => none
  | .straggle k answer =>
    match w.late[k]? with
    | some (node, request) =>
      some { (w.serve node request answer).2 with late := w.late.eraseIdx k }
    | none => none
  | .advance clock => some { w with clock := clock }
  | .progress node offset up =>
    some { w with nodes := Function.update w.nodes node { w.nodes node with
      offset := offset
      role := match (w.nodes node).role with
        | .primary => .primary
        | .replica of _ => .replica of up } }
  | .restart node replicaof =>
    some { w with nodes := Function.update w.nodes node ((w.nodes node).restart replicaof) }

/-- **What an event does**, and when it can happen. -/
inductive Step (w : World) : Event → World → Prop
  | spawn {i job} (ht : w.tasks i = none) : Step w (.spawn i job) (w.proceed i job.code)
  | acquire {i next flights} (ht : w.tasks i = some ⟨.op .acquire next, flights⟩)
      (hlock : w.lock = none) :
      Step w (.acquire i) ({ w with lock := some i }.proceed i (next ()))
  /-- A loop is told how many rounds are left. -/
  | choose {i n next flights} (ht : w.tasks i = some ⟨.op .rounds next, flights⟩) :
      Step w (.choose i n) (w.proceed i (next n))
  | wake {i next flights} (ht : w.tasks i = some ⟨.op .sleep next, flights⟩) :
      Step w (.wake i) (w.proceed i (next ()))
  | deliver {i j answer call} (hf : w.flight? i j = some ⟨call, .sent⟩) :
      Step w (.deliver i j answer) ((w.serve call.node call.request answer).2.mark i j
        (.executed (w.serve call.node call.request answer).1))
  | answer {i j call reply} (hf : w.flight? i j = some ⟨call, .executed reply⟩) :
      Step w (.answer i j) (w.conclude i j call reply)
  /-- The caller gives up, and the request is still under way. -/
  | timeoutSent {i j call} (hf : w.flight? i j = some ⟨call, .sent⟩) :
      Step w (.timeout i j) { w.conclude i j call (.error .unavailable) with
        late := w.late ++ [(call.node, call.request)] }
  /-- The caller gives up, and the request has been executed. -/
  | timeoutExecuted {i j call reply} (hf : w.flight? i j = some ⟨call, .executed reply⟩) :
      Step w (.timeout i j) (w.conclude i j call (.error .unavailable))
  | lose {i j call} (hf : w.flight? i j = some ⟨call, .sent⟩) :
      Step w (.lose i j) (w.conclude i j call (.error .unavailable))
  | resume {i calls next flights outcomes}
      (ht : w.tasks i = some ⟨.op (.gather calls) next, flights⟩)
      (ho : outcomes? flights = some outcomes) : Step w (.resume i) (w.proceed i (next outcomes))
  /-- A node executes a request nobody waits for. -/
  | straggle {k answer node request} (hk : w.late[k]? = some (node, request)) :
      Step w (.straggle k answer)
        { (w.serve node request answer).2 with late := w.late.eraseIdx k }
  | advance {clock} : Step w (.advance clock) { w with clock := clock }
  | progress {node offset up} : Step w (.progress node offset up)
      { w with nodes := Function.update w.nodes node { w.nodes node with
        offset := offset
        role := match (w.nodes node).role with
          | .primary => .primary
          | .replica of _ => .replica of up } }
  | restart {node replicaof} : Step w (.restart node replicaof)
      { w with nodes := Function.update w.nodes node ((w.nodes node).restart replicaof) }

/-- Every event that happens is one of these. -/
theorem step_cases {w w' : World} {event : Event} (hstep : w.step event = some w') :
    Step w event w' := by
  cases event with
  | resume i =>
    simp only [step] at hstep
    split at hstep
    case h_1 ht =>
      obtain ⟨outcomes, ho, rfl⟩ := Option.map_eq_some_iff.mp hstep
      exact .resume ht ho
    case h_2 => cases hstep
  | timeout i j =>
    simp only [step] at hstep
    split at hstep
    case h_1 hf =>
      cases hstep
      exact .timeoutSent hf
    case h_2 hf =>
      cases hstep
      exact .timeoutExecuted hf
    case h_3 => cases hstep
  | spawn i job =>
    simp only [step, Option.ite_none_right_eq_some, Option.some.injEq] at hstep
    obtain ⟨ht, rfl⟩ := hstep
    exact .spawn ht
  | advance => cases hstep; exact .advance
  | progress => cases hstep; exact .progress
  | restart => cases hstep; exact .restart
  | _ =>
    simp only [step] at hstep
    split at hstep
    · cases hstep
      constructor <;> assumption
    · cases hstep

/-- Several events in a row. -/
def run (events : List Event) (w : World) : Option World :=
  events.foldlM (fun w event => w.step event) w

end World

end Cluster

end KvStore
