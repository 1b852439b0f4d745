import KvStore.Cluster.Redirects
import KvStore.Engine.Frames
import KvStore.Foundation.Runs
import KvStore.Persistence.RoundTrip

/-! # FLUSHALL while keys move

The router sends FLUSHALL to every group at once (`_fanout`), and a command without keys passes the check of a
migration. So the flush of a source, the flush of a target and the delivery of a copy that is on its way are
three unordered events.

* **`Traffic`** — the nodes, their migrations (`_run`, `_move`, `_send`), the pipelines between them and the
  fan-out of one FLUSHALL. `Traffic.step` executes one event; there is no write of a client among them.
* **`Traffic.readThrough`** — what a reader gets through the router: from the owner of the key, or from where the
  owner sends it by ASK.
* **`flushall_empties`** — once the router has answered OK no key can be read, in every run in which no node
  executes a RESTORE of a migration after it has executed the FLUSHALL. -/

namespace KvStore

open List

/-! ## Migrations and pipelines -/

/-- **The cluster as the router knows it**, and the migrations that run in it. -/
structure Fleet where
  config : ClusterConfig
  ring : ConsistentHashRing
  /-- The migration of a node, if it has one. -/
  migration : Address → Option KeyMigration
  /-- Keys move to primaries of groups that the router knows. -/
  covers : ∀ node m, migration node = some m → ∀ target ∈ m.plan.targets,
    target.2 ∈ config.shards.map ShardGroup.primary

/-- How far a `_send` is. -/
inductive SendPhase
  /-- It is about to write its pipeline, for the first time or again. -/
  | ready
  /-- It waits for the replies to a pipeline. -/
  | waiting (pipeline : Nat)
  /-- It has returned or raised. -/
  | over
  deriving DecidableEq

/-- **A `_send`**: the copies for one target. -/
structure Send where
  target : Address
  /-- `items`: the keys with the arguments of their RESTORE. -/
  items : List (Str × List Str)
  phase : SendPhase

/-- `state`, with the time before the scan apart. -/
inductive MoveState
  /-- The keys have not been listed yet. -/
  | starting
  | running
  | done
  | failed
  deriving DecidableEq

/-- **What changes of a `KeyMigration`**, with what `_run` and `_move` have in hand. -/
structure Mover where
  pending : List Str
  batch : List Str
  sends : List Send
  inFlight : List Str
  state : MoveState
  moved : Nat

/-- Why a node refuses a command. -/
inductive Refusal
  /-- Its migration does. -/
  | check (err : CheckError)
  | engine (err : KvError)
  /-- It has too few replicas. -/
  | replicas

/-- **A pipeline of RESTOREs** that has been written. -/
structure Pipeline where
  source : Address
  send : Nat
  target : Address
  /-- The arguments of the commands not executed yet. -/
  todo : List (List Str)
  replies : List (Except Refusal Reply)
  /-- Whether the `_send` still waits for it. -/
  awaited : Bool

/-- How far the FLUSHALL for a node is. -/
inductive Fanned
  | sent
  /-- Executed, with success or not. -/
  | executed (ok : Bool)
  /-- The reply has reached the router. -/
  | answered (ok : Bool)
  deriving DecidableEq

/-- The node has executed its FLUSHALL. -/
def Fanned.emptied : Fanned → Bool
  | .sent => false
  | .executed ok | .answered ok => ok

/-- **The nodes, and what is under way between them.** -/
structure Traffic (σ : Type) where
  nodes : Address → Engine σ
  movers : Address → Mover
  /-- The pipelines written so far. -/
  wire : List Pipeline
  flush : Address → Fanned

/-- What can happen. -/
inductive TrafficEvent
  /-- `_run` lists the keys to move. -/
  | scan (node : Address) (env : Env)
  /-- `_move` copies the next batch. -/
  | collect (node : Address) (env : Env)
  /-- A `_send` writes its pipeline. -/
  | write (node : Address) (j : Nat)
  /-- The target executes the next command of a pipeline, or refuses it for want of replicas. -/
  | deliver (k : Nat) (env : Env) (enough : Bool)
  /-- The replies to a pipeline arrive: the keys are deleted here, or `_send` raises. -/
  | answer (k : Nat) (env : Env)
  /-- `client.pipeline` raises: the `_send` will try again, what was written may still arrive. -/
  | giveUp (k : Nat)
  /-- What is left of a pipeline that was given up is lost. -/
  | lose (k : Nat)
  /-- The `_send`s of a batch have returned. -/
  | finish (node : Address)
  /-- A node executes the FLUSHALL, or refuses it for want of replicas. -/
  | flush (node : Address) (env : Env) (enough : Bool)
  /-- Its reply reaches the router. -/
  | reply (node : Address)
  | read (node : Address) (env : Env) (c : Command) (args : List Str)
  | cron (node : Address) (env : Env) (sampleSize : Nat) (auto : Bool)

namespace Traffic

variable [CPython] [Digest] {σ : Type} [EvictionPolicy σ]

/-- The arguments of the RESTORE that copies an entry. -/
def restoreArgs (key : Str) (entry : Entry) : List Str :=
  let ttlMs : Int := match entry.expiresAt with
    | none => 0
    | some d => max 1 (milliseconds (seconds d))
  [key, showInt ttlMs, dumpValue (entry.value.payload SortedSet.items), text "REPLACE"] ++
    if entry.expiresAt.isSome then [text "ABSTTL"] else []

/-- `by_target.setdefault(address, []).append(item)`. -/
def addItem (target : Address) (item : Str × List Str) : List Send → List Send
  | [] => [⟨target, [item], .ready⟩]
  | s :: rest =>
    if s.target = target then { s with items := s.items ++ [item] } :: rest
    else s :: addItem target item rest

/-- The loop of `_move`: the keys that are still here, with their targets. It stops where the ring raises. -/
def copies (m : KeyMigration) (now : Nat) : List Str → List Send → Engine σ →
    List Send × Option RingError × Engine σ
  | [], sends, e => (sends, none, e)
  | key :: keys, sends, e =>
    match e.lookup now key, m.destination key with
    | (_, e), .error err => (sends, some err, e)
    | (some entry, e), .ok (some destination) =>
      copies m now keys (addItem destination.2 (key, restoreArgs key entry) sends) e
    | (_, e), .ok _ => copies m now keys sends e

/-- The keys in some `_send`s. -/
def keysOf (sends : List Send) : List Str := sends.flatMap fun s => s.items.map Prod.fst

def batchSize : Nat := 100

variable (fleet : Fleet)

/-- The migration of a node as it is now. -/
def migrationAt (s : Traffic σ) (node : Address) : Option KeyMigration :=
  (fleet.migration node).map fun m => { m with inFlight := (s.movers node).inFlight }

/-- Change an engine. -/
def setNode (s : Traffic σ) (node : Address) (e : Engine σ) : Traffic σ :=
  { s with nodes := Function.update s.nodes node e }

/-- Change a migration. -/
def setMover (s : Traffic σ) (node : Address) (m : Mover) : Traffic σ :=
  { s with movers := Function.update s.movers node m }

/-- **A node is given a command**: its replicas and its migration are asked first. -/
def serve (s : Traffic σ) (node : Address) (env : Env) (enough : Bool) (c : Command) (args : List Str) :
    Except Refusal Reply × Engine σ :=
  if c.spec.write ∧ enough = false then (.error .replicas, s.nodes node)
  else
    match s.migrationAt fleet node with
    | none =>
      let (result, e) := (s.nodes node).execute env c args
      (result.mapError .engine, e)
    | some m =>
      match m.check env.now (some c) args (s.nodes node) with
      | (.error err, e) => (.error (.check err), e)
      | (.ok (), e) =>
        let (result, e) := e.execute env c args
        (result.mapError .engine, e)

/-- A `_send` of a node has come to `phase`. -/
def setPhase (j : Nat) (phase : SendPhase) (m : Mover) : Mover :=
  { m with sends := m.sends.modify j fun s => { s with phase := phase } }

/-- `_send` raises: `_move` gives its batch up. -/
def failMove (m : Mover) : Mover :=
  { m with state := .failed, inFlight := m.inFlight.filter (· ∉ m.batch) }

/-- The replies to a pipeline have arrived at the `_send` with these items. -/
def settle (s : Traffic σ) (p : Pipeline) (items : List (Str × List Str)) (env : Env) : Traffic σ :=
  let m := setPhase p.send .over (s.movers p.source)
  if p.replies.all Except.isOk then
    -- the copies are safe at the target
    let done := (s.nodes p.source).execute env .del (items.map Prod.fst)
    (s.setNode p.source done.2).setMover p.source
      (if done.1.isOk then { m with moved := m.moved + items.length } else failMove m)
  else s.setMover p.source (failMove m)

/-- **One event**; `none` if it cannot happen. -/
def step (s : Traffic σ) : TrafficEvent → Option (Traffic σ)
  | .scan node env =>
    match s.migrationAt fleet node, (s.movers node).state with
    | some m, .starting =>
      let s' := s.setNode node (m.scan env.now (s.nodes node)).2
      match (m.scan env.now (s.nodes node)).1 with
      | .error _ => some (s'.setMover node { s.movers node with state := .failed })
      | .ok keys => some (s'.setMover node { s.movers node with
          pending := keys, state := if keys = [] then .done else .running })
    | _, _ => none
  | .collect node env =>
    match s.migrationAt fleet node, s.movers node with
    | some m, ⟨pending, [], _, inFlight, .running, moved⟩ =>
      if pending = [] then none
      else
        let batch := pending.take batchSize
        match copies m env.now batch [] (s.nodes node) with
        | (sends, none, e) => some ((s.setNode node e).setMover node
            ⟨pending.drop batchSize, batch, sends, inFlight ++ keysOf sends, .running, moved⟩)
        | (sends, some _, e) => some ((s.setNode node e).setMover node
            ⟨pending.drop batchSize, batch, [], inFlight ++ keysOf sends, .failed, moved⟩)
    | _, _ => none
  | .write node j =>
    match (s.movers node).sends[j]? with
    | some ⟨target, items, .ready⟩ =>
      some { s.setMover node (setPhase j (.waiting s.wire.length) (s.movers node)) with
        wire := s.wire ++ [⟨node, j, target, items.map Prod.snd, [], true⟩] }
    | _ => none
  | .deliver k env enough =>
    match s.wire[k]? with
    | some ⟨source, send, target, args :: rest, replies, awaited⟩ =>
      let done := s.serve fleet target env enough .restore args
      some { s.setNode target done.2 with
        wire := s.wire.set k ⟨source, send, target, rest, replies ++ [done.1], awaited⟩ }
    | _ => none
  | .answer k env =>
    match s.wire[k]? with
    | some ⟨source, send, target, [], replies, true⟩ =>
      match (s.movers source).sends[send]? with
      | some ⟨_, items, .waiting k'⟩ =>
        if k' = k then
          some { s.settle ⟨source, send, target, [], replies, true⟩ items env with
            wire := s.wire.set k ⟨source, send, target, [], replies, false⟩ }
        else none
      | _ => none
    | _ => none
  | .giveUp k =>
    match s.wire[k]? with
    | some ⟨source, send, target, todo, replies, true⟩ =>
      some { s.setMover source (setPhase send .ready (s.movers source)) with
        wire := s.wire.set k ⟨source, send, target, todo, replies, false⟩ }
    | _ => none
  | .lose k =>
    match s.wire[k]? with
    | some ⟨source, send, target, _, replies, false⟩ =>
      some { s with wire := s.wire.set k ⟨source, send, target, [], replies, false⟩ }
    | _ => none
  | .finish node =>
    match s.movers node with
    | ⟨pending, batch, sends, inFlight, .running, moved⟩ =>
      if batch ≠ [] ∧ sends.all (fun t => t.phase = .over) then
        some (s.setMover node ⟨pending, [], [], inFlight.filter (· ∉ batch),
          if pending = [] then .done else .running, moved⟩)
      else none
    | _ => none
  | .flush node env enough =>
    if s.flush node = .sent then
      let done := s.serve fleet node env enough .flushall []
      some { s.setNode node done.2 with
        flush := Function.update s.flush node (.executed done.1.isOk) }
    else none
  | .reply node =>
    match s.flush node with
    | .executed ok => some { s with flush := Function.update s.flush node (.answered ok) }
    | _ => none
  | .read node env c args =>
    if c.spec.write then none
    else some (s.setNode node (s.serve fleet node env true c args).2)
  | .cron node env sampleSize auto =>
    some (s.setNode node ((s.nodes node).cron env sampleSize auto))

/-- The router has answered OK: the reply of every group is in, and none is an error. -/
def Answered (s : Traffic σ) : Prop :=
  ∀ g ∈ fleet.config.shards, s.flush g.primary = .answered true

/-! ## Reading -/

/-- What a reader gets from a node: the entry, or where the node sends it by ASK. -/
def readAt (s : Traffic σ) (now : Nat) (key : Str) (node : Address) : Option Entry :=
  match s.migrationAt fleet node with
  | none => ((s.nodes node).lookup now key).1
  | some m =>
    match m.check now (some .get) [key] (s.nodes node), m.destination key with
    | (.ok (), e), _ => (e.lookup now key).1
    | (.error (.refused err), _), .ok (some destination) =>
      if err.cls = .askRedirect then ((s.nodes destination.2).lookup now key).1 else none
    | _, _ => none

/-- **What a reader gets through the router.** -/
def readThrough (s : Traffic σ) (now : Nat) (key : Str) : Option Entry :=
  match fleet.ring.owner key with
  | .error _ => none
  | .ok id => (fleet.config.group? id).bind fun g => s.readAt fleet now key g.primary

/-! ## What is left of a keyspace -/

end Traffic

namespace Engine

variable [CPython] {σ : Type} [EvictionPolicy σ] {e e' : Engine σ}

/-- There is no key. -/
def Bare (e : Engine σ) : Prop := ∀ key, e.store.data.get? key = none

omit [CPython] [EvictionPolicy σ] in
theorem Bare.of_keySet (h : e.Bare) (hsub : e'.store.keySet ⊆ e.store.keySet) : e'.Bare := by
  intro key
  by_contra hkey
  obtain ⟨entry, hentry⟩ := Option.ne_none_iff_exists'.mp hkey
  have hmem := hsub ((e'.store.mem_keySet key).mpr ⟨entry, hentry⟩)
  obtain ⟨entry', hentry'⟩ := (e.store.mem_keySet key).mp hmem
  rw [h key] at hentry'
  exact absurd hentry' nofun

omit [CPython] in
/-- Where there is no key none is found. -/
theorem Bare.lookup (h : e.Bare) (now : Nat) (key : Str) : e.lookup now key = (none, e) := by
  simp only [Engine.lookup, h key]

/-- **A command that is no write, or may not add data, adds no key.** -/
theorem keySet_execute (env : Env) {c : Command} (args : List Str)
    (hc : c.spec.write = true → c.spec.denyoom = false) (e : Engine σ) :
    (e.execute env c args).2.store.keySet ⊆ e.store.keySet := by
  refine execute_induction (I := fun e' => e'.store.keySet ⊆ e.store.keySet)
    (fun e' h => (keySet_of_moves (moves_barrier _ e')).trans h)
    (fun key e' h => (keySet_of_moves (moves_lookup env.now key e')).trans h)
    (fun harity e' h => Finset.Subset.trans ?_ h)
    (fun e' h => (keySet_of_moves (moves_evict env _ e')).trans h) (fun _ _ h => h) subset_rfl
  cases hw : c.spec.write with
  | false =>
    rw [run_read env hw]
    exact keySet_reader env (reads_handler c args harity hw).uses e'
  | true =>
    rw [run_write env hw]
    refine (Store.keySet_refreshAll _ _).trans ?_
    exact Prog.run_invariant (P := Op.Sparing) (f := exec env)
      (I := fun e'' => e''.store.keySet ⊆ e'.store.keySet)
      (fun o e'' ho h => (keySet_exec env ho e'').trans h) (c.sparing_handler harity hw (hc hw)) subset_rfl

/-- **FLUSHALL leaves no key**, unless it fails. -/
theorem bare_flushall (env : Env) (h : (e.execute env .flushall []).1.isOk = true) :
    (e.execute env .flushall []).2.Bare := by
  obtain ⟨reply, hreply⟩ : ∃ reply, (e.execute env .flushall []).1 = .ok reply := by
    cases hresult : (e.execute env .flushall []).1 with
    | ok reply => exact ⟨reply, rfl⟩
    | error err =>
      rw [hresult] at h
      exact absurd h nofun
  obtain ⟨checked, ran, -, -, hrun, hfinal⟩ := execute_ok hreply
  have hran : ran.Bare := by
    have hdata : checked.flushAll.store.data = Dict.empty :=
      (sameCore_handOver (checked.onStore Store.clear)).data
    obtain ⟨-, rfl⟩ := Prod.mk.inj hrun
    intro key
    show (checked.flushAll.propagate _).store.data.get? key = none
    rw [store_propagate, hdata]
    rfl
  rw [hfinal]
  refine hran.of_keySet ?_
  exact keySet_of_moves (moves_evict env _ _)

theorem keySet_cron (env : Env) (sampleSize : Nat) (auto : Bool) (e : Engine σ) :
    (e.cron env sampleSize auto).store.keySet ⊆ e.store.keySet := by
  have hexpiry : (e.expireCycle env sampleSize).2.store.keySet ⊆ e.store.keySet :=
    keySet_of_moves (moves_expireCycle env sampleSize e)
  simp only [cron]
  split
  · exact hexpiry
  case h_2 p _ =>
    split
    · split
      · have hstart := acts_startRewrite (P := (· = .copy)) rfl env
          { (e.expireCycle env sampleSize).2 with
            persistence := some (Persistence.poll env.now env.written p) }
        exact Finset.Subset.trans (keySet_of_acts (by simp) (by simp) hstart) hexpiry
      · exact hexpiry
    · exact hexpiry

end Engine

namespace KeyMigration

variable [CPython] [Digest] {σ : Type} [EvictionPolicy σ] {m : KeyMigration}

theorem keySet_gone (now : Nat) (keys : List Str) (e : Engine σ) :
    (m.gone now keys e).2.store.keySet ⊆ e.store.keySet := by
  induction keys generalizing e with
  | nil => exact subset_rfl
  | cons key keys ih =>
    have hlookup : (e.lookup now key).2.store.keySet ⊆ e.store.keySet :=
      Engine.keySet_of_moves (Engine.moves_lookup now key e)
    unfold gone
    split
    case h_1 heq =>
      rw [heq] at hlookup
      exact (ih _).trans hlookup
    case h_2 heq =>
      rw [heq] at hlookup
      split
      · exact hlookup
      · exact (ih _).trans hlookup
      · exact (ih _).trans hlookup

theorem keySet_check (now : Nat) (c : Option Command) (args : List Str) (e : Engine σ) :
    (m.check now c args e).2.store.keySet ⊆ e.store.keySet := by
  cases c with
  | none => exact subset_rfl
  | some c =>
    have hgone := keySet_gone (m := m) now (c.keyArgs args) e
    unfold check
    simp only
    split
    · exact subset_rfl
    · split
      case h_1 heq => rwa [heq] at hgone
      case h_2 heq => rwa [heq] at hgone
      case h_3 heq =>
        rw [heq] at hgone
        split
        · exact hgone
        · split <;> exact hgone

end KeyMigration

/-! ## Runs -/

namespace Traffic

variable [CPython] [Digest] {σ : Type} [EvictionPolicy σ] {fleet : Fleet} {s s' : Traffic σ}

theorem keySet_copies (m : KeyMigration) (now : Nat) (keys : List Str) (sends : List Send) (e : Engine σ) :
    (copies m now keys sends e).2.2.store.keySet ⊆ e.store.keySet := by
  induction keys generalizing sends e with
  | nil => exact subset_rfl
  | cons key keys ih =>
    have hlookup : (e.lookup now key).2.store.keySet ⊆ e.store.keySet :=
      Engine.keySet_of_moves (Engine.moves_lookup now key e)
    unfold copies
    split
    case h_1 heq _ =>
      rw [heq] at hlookup
      exact hlookup
    case h_2 heq _ =>
      rw [heq] at hlookup
      exact (ih _ _).trans hlookup
    case h_3 heq _ =>
      rw [heq] at hlookup
      exact (ih _ _).trans hlookup

/-- A node that is given a command which adds no key. -/
theorem keySet_serve (s : Traffic σ) (node : Address) (env : Env) (enough : Bool) {c : Command}
    (hc : c.spec.write = true → c.spec.denyoom = false) (args : List Str) :
    (s.serve fleet node env enough c args).2.store.keySet ⊆ (s.nodes node).store.keySet := by
  unfold serve
  split
  · exact subset_rfl
  · split
    · exact Engine.keySet_execute env args hc (s.nodes node)
    case h_2 m _ =>
      have hcheck := KeyMigration.keySet_check (m := m) env.now (some c) args (s.nodes node)
      split
      case h_1 heq => rwa [heq] at hcheck
      case h_2 heq =>
        rw [heq] at hcheck
        exact (Engine.keySet_execute env args hc _).trans hcheck

/-- A node that executes FLUSHALL has no key left. -/
theorem bare_serve_flushall (s : Traffic σ) (node : Address) (env : Env) (enough : Bool)
    (h : (s.serve fleet node env enough .flushall []).1.isOk = true) :
    (s.serve fleet node env enough .flushall []).2.Bare := by
  have hok : ∀ {result : Except KvError Reply}, (result.mapError Refusal.engine).isOk = true →
      result.isOk = true := by
    intro result hresult
    cases result with
    | ok reply => rfl
    | error err => exact absurd hresult nofun
  unfold serve at h ⊢
  split at h
  · exact absurd h nofun
  case isFalse henough =>
    rw [if_neg henough]
    split at h
    · exact Engine.bare_flushall env (hok h)
    case h_2 m heq =>
      simp only
      split at h
      · exact absurd h nofun
      · exact Engine.bare_flushall env (hok h)

/-- A node executes a RESTORE after it has executed the FLUSHALL. -/
def Revives (s : Traffic σ) : TrafficEvent → Prop
  | .deliver k _ _ => ∃ p ∈ s.wire[k]?, (s.flush p.target).emptied = true
  | _ => False

/-- **The invariant**: the nodes that have executed the FLUSHALL have no key. -/
def Emptied (s : Traffic σ) : Prop := ∀ node, (s.flush node).emptied = true → (s.nodes node).Bare

omit [CPython] [Digest] [EvictionPolicy σ] in
/-- **One node changes**: it has no key left if it has executed the FLUSHALL by now. -/
theorem Emptied.update (h : s.Emptied) (node : Address) {e : Engine σ} {fanned : Fanned}
    (he : fanned.emptied = true → e.Bare) :
    Emptied { s.setNode node e with flush := Function.update s.flush node fanned } := by
  intro n hn
  show (Function.update s.nodes node e n).Bare
  by_cases hnode : n = node
  · subst hnode
    rw [Function.update_self]
    simp only [Function.update_self] at hn
    exact he hn
  · rw [Function.update_of_ne hnode]
    simp only [Function.update_of_ne hnode] at hn
    exact h n hn

omit [CPython] [Digest] [EvictionPolicy σ] in
/-- One engine changes, and has no key that it did not have. -/
theorem Emptied.setNode (h : s.Emptied) {node : Address} {e : Engine σ}
    (he : (s.flush node).emptied = true → e.store.keySet ⊆ (s.nodes node).store.keySet) :
    (s.setNode node e).Emptied := by
  have hupdate := h.update node (e := e) fun hflushed => (h node hflushed).of_keySet (he hflushed)
  rwa [Function.update_eq_self] at hupdate

/-- `_run` lists the keys to move. -/
theorem Emptied.scan (h : s.Emptied) {node : Address} {env : Env}
    (hstep : s.step fleet (.scan node env) = some s') : s'.Emptied := by
  simp only [Traffic.step] at hstep
  split at hstep
  case h_1 m _ _ =>
    have hscan : (s.setNode node (m.scan env.now (s.nodes node)).2).Emptied := by
      refine h.setNode fun _ => ?_
      exact Engine.keySet_of_moves
        (Engine.moves_of_acts (Engine.acts_iterKeys env.now _ (s.nodes node)) False.elim)
    split at hstep <;> cases hstep <;> exact hscan
  · cases hstep

/-- `_move` copies a batch. -/
theorem Emptied.collect (h : s.Emptied) {node : Address} {env : Env}
    (hstep : s.step fleet (.collect node env) = some s') : s'.Emptied := by
  simp only [Traffic.step] at hstep
  split at hstep
  case h_1 m pending _ inFlight moved hm _ =>
    have hcopies : (s.setNode node (copies m env.now (pending.take batchSize) [] (s.nodes node)).2.2).Emptied :=
      h.setNode fun _ => keySet_copies m env.now (pending.take batchSize) [] (s.nodes node)
    split at hstep
    · cases hstep
    · split at hstep
      all_goals
        rename_i heq
        rw [heq] at hcopies
        cases hstep
        exact hcopies
  · cases hstep

omit [Digest] in
/-- The replies to a pipeline: the keys are deleted at the source, or kept. -/
theorem Emptied.settle (h : s.Emptied) (p : Pipeline) (items : List (Str × List Str)) (env : Env) :
    (s.settle p items env).Emptied := by
  unfold Traffic.settle
  simp only
  split
  · have hdel : (s.setNode p.source ((s.nodes p.source).execute env .del (items.map Prod.fst)).2).Emptied :=
      h.setNode fun _ => Engine.keySet_execute env _ (fun _ => rfl) _
    exact hdel
  · exact h

/-- **Every event that revives nothing keeps the invariant.** -/
theorem Emptied.step {event : TrafficEvent} (h : s.Emptied) (hspare : ¬ s.Revives event)
    (hstep : s.step fleet event = some s') : s'.Emptied := by
  cases event with
  | scan node env => exact h.scan hstep
  | collect node env => exact h.collect hstep
  | write | giveUp | lose | finish =>
    -- neither an engine nor the fan-out changes
    simp only [Traffic.step] at hstep
    repeat' split at hstep
    all_goals cases hstep
    all_goals exact h
  | deliver k env enough =>
    simp only [Traffic.step] at hstep
    split at hstep
    case h_1 source send target args rest replies awaited hp =>
      have hnode : (s.setNode target (s.serve fleet target env enough .restore args).2).Emptied :=
        h.setNode fun hflushed => absurd ⟨_, hp, hflushed⟩ hspare
      cases hstep
      exact hnode
    · cases hstep
  | answer k env =>
    simp only [Traffic.step] at hstep
    repeat' split at hstep
    all_goals cases hstep
    exact h.settle _ _ env
  | flush node env enough =>
    simp only [Traffic.step] at hstep
    split at hstep
    · cases hstep
      exact h.update node fun hflushed => bare_serve_flushall s node env enough hflushed
    · cases hstep
  | reply node =>
    simp only [Traffic.step] at hstep
    split at hstep
    case h_1 ok hflush =>
      have hupdate : Emptied { s.setNode node (s.nodes node) with
          flush := Function.update s.flush node (.answered ok) } :=
        h.update node fun hok => h node (by rw [hflush]; exact hok)
      rw [Traffic.setNode, Function.update_eq_self] at hupdate
      cases hstep
      exact hupdate
    · cases hstep
  | read node env c args =>
    simp only [Traffic.step] at hstep
    split at hstep
    · cases hstep
    case isFalse hread =>
      cases hstep
      exact h.setNode fun _ => keySet_serve s node env true (fun hw => absurd hw hread) args
  | cron node env sampleSize auto =>
    cases hstep
    exact h.setNode fun _ => Engine.keySet_cron env sampleSize auto _

/-- No key is found in a node without keys, nor where it sends a reader. -/
theorem readAt_of_emptied (h : s.Emptied) (hanswered : s.Answered fleet) (now : Nat) (key : Str) {node : Address}
    (hnode : node ∈ fleet.config.shards.map ShardGroup.primary) : s.readAt fleet now key node = none := by
  have hbare : ∀ n ∈ fleet.config.shards.map ShardGroup.primary, (s.nodes n).Bare := by
    intro n hn
    obtain ⟨g, hg, rfl⟩ := mem_map.mp hn
    refine h g.primary ?_
    rw [hanswered g hg]
    rfl
  unfold readAt
  split
  · rw [(hbare node hnode).lookup]
  case h_2 m hm =>
    have hcheck := KeyMigration.keySet_check (m := m) now (some .get) [key] (s.nodes node)
    split
    case h_1 e heq =>
      rw [heq] at hcheck
      rw [((hbare node hnode).of_keySet hcheck).lookup]
    case h_2 destination _ hdestination =>
      split
      · -- the target is one of the groups that were flushed
        rw [Traffic.migrationAt] at hm
        obtain ⟨m₀, hm₀, rfl⟩ := Option.map_eq_some_iff.mp hm
        obtain ⟨before, after, htargets, -⟩ :=
          lookup_eq_some_iff.mp (KeyMigration.destination_eq_some hdestination).2
        have htarget : destination ∈ m₀.plan.targets := by
          rw [show m₀.plan.targets = before ++ (destination.1, destination.2) :: after from htargets]
          exact mem_append_right before mem_cons_self
        rw [(hbare _ (fleet.covers node m₀ hm₀ _ htarget)).lookup]
      · rfl
    · rfl

/-- **Runs in which no node executes a RESTORE after the FLUSHALL.** -/
abbrev SettledRun (fleet : Fleet) (events : List TrafficEvent) (s s' : Traffic σ) : Prop :=
  Runs (fun event s s' => ¬ s.Revives event ∧ s.step fleet event = some s') events s s'

/-- **FLUSHALL through the router empties the cluster**: in every run in which no node executes a RESTORE after
it has executed the FLUSHALL, once the router has answered OK no key can be read. -/
theorem flushall_empties {events : List TrafficEvent} (hsent : ∀ node, s.flush node = .sent)
    (hrun : SettledRun fleet events s s') (hanswered : s'.Answered fleet) (now : Nat) (key : Str) :
    s'.readThrough fleet now key = none := by
  have hstart : s.Emptied := by
    intro node hnode
    rw [hsent node] at hnode
    exact absurd hnode nofun
  have hend : s'.Emptied :=
    hrun.invariant (P := fun _ => True) (I := Emptied)
      (fun _ h hstep => h.step hstep.1 hstep.2) (fun _ _ => trivial) hstart
  unfold readThrough
  split
  · rfl
  case h_2 id _ =>
    cases hgroup : fleet.config.group? id with
    | none => rfl
    | some g =>
      exact readAt_of_emptied hend hanswered now key
        (mem_map.mpr ⟨g, ClusterConfig.mem_of_group? hgroup, rfl⟩)

/-- Several events in a row. -/
def run (fleet : Fleet) (events : List TrafficEvent) (s : Traffic σ) : Option (Traffic σ) :=
  events.foldlM (fun s event => s.step fleet event) s

end Traffic

/-! ## A copy that arrives late -/

section Concrete

noncomputable local instance flushesPython : CPython := referencePython

local instance flushesDigest : Digest := Digest.sample

namespace Traffic

/-- The ring of some groups, one point each. -/
def ringOf (groups : List Str) : ConsistentHashRing :=
  (ConsistentHashRing.make groups 1).toOption.getD (ConsistentHashRing.empty 1)

/-- The first group moves keys to the second. -/
def growingFleet : Fleet where
  config := .growing
  ring := ringOf [text "1"]
  migration node :=
    if node = localNode 1 then
      some ⟨⟨text "1", 1, [(text "1", localNode 1), (text "2", localNode 2)]⟩, ringOf [text "1", text "2"], []⟩
    else none
  covers node m h target htarget := by
    split at h
    · cases h
      revert target
      decide
    · exact absurd h nofun

/-- The first node has a key that belongs to the second group. -/
noncomputable def growing : Traffic NoEviction where
  nodes node :=
    let e := Engine.new (Engine.plainConfig Engine.allLow) (Env.quiet 0) none
    if node = localNode 1 then (e.execute (Env.quiet 0) .set [text "a", text "v"]).2 else e
  movers _ := ⟨[], [], [], [], .starting, 0⟩
  wire := []
  flush _ := .sent

/-- The FLUSHALL reaches the target, the copy after it, and the FLUSHALL the source. -/
def lateCopy : List TrafficEvent :=
  [.scan (localNode 1) (Env.quiet 0), .collect (localNode 1) (Env.quiet 0), .write (localNode 1) 0,
    .flush (localNode 2) (Env.quiet 0) true, .deliver 0 (Env.quiet 0) true, .flush (localNode 1) (Env.quiet 0) true,
    .reply (localNode 1), .reply (localNode 2), .answer 0 (Env.quiet 0), .finish (localNode 1)]

/-- Both nodes are flushed, and nothing moves. -/
def plainFlush : List TrafficEvent :=
  [.flush (localNode 1) (Env.quiet 0) true, .flush (localNode 2) (Env.quiet 0) true, .reply (localNode 1), .reply (localNode 2)]

/-- Without copies on their way the key is gone. -/
theorem flushall_empties_plain : ∃ s', SettledRun growingFleet plainFlush growing s' ∧
    s'.Answered growingFleet ∧ s'.readThrough growingFleet 0 (text "a") = none := by
  have hrun : (run growingFleet plainFlush growing).any (fun s' =>
      ClusterConfig.growing.shards.all fun g => s'.flush g.primary = .answered true) = true := by
    decide +kernel
  obtain ⟨s', hs', hall⟩ := (Option.any_eq_true _ _).mp hrun
  simp only [all_eq_true, decide_eq_true_eq] at hall
  have hsettled : SettledRun growingFleet plainFlush growing s' := by
    refine Runs.imp (.of_foldlM hs') fun event hevent _ _ hstep => ⟨?_, hstep⟩
    simp only [plainFlush, mem_cons, not_mem_nil, or_false] at hevent
    rcases hevent with rfl | rfl | rfl | rfl <;> exact id
  exact ⟨s', hsettled, hall, flushall_empties (fun _ => rfl) hsettled hall 0 (text "a")⟩

/-- **The flush of the target overtakes a copy**: the router has answered OK, and the key is there. -/
theorem flushall_revived : (∀ node, growing.flush node = .sent) ∧
    (growing.readThrough growingFleet 0 (text "a")).map Engine.seen = some ⟨.str (text "v"), none⟩ ∧
    ∃ s', Runs (fun event s s' => s.step growingFleet event = some s') lateCopy growing s' ∧
      s'.Answered growingFleet ∧
      (s'.readThrough growingFleet 0 (text "a")).map Engine.seen = some ⟨.str (text "v"), none⟩ := by
  have hrun : (run growingFleet lateCopy growing).any (fun s' =>
      (ClusterConfig.growing.shards.all fun g => s'.flush g.primary = .answered true) &&
        (s'.readThrough growingFleet 0 (text "a")).map Engine.seen = some ⟨.str (text "v"), none⟩) = true := by
    decide +kernel
  obtain ⟨s', hs', hall⟩ := (Option.any_eq_true _ _).mp hrun
  simp only [Bool.and_eq_true, all_eq_true, decide_eq_true_eq] at hall
  exact ⟨fun _ => rfl, by decide +kernel, s', .of_foldlM hs', hall.1, hall.2⟩

end Traffic

end Concrete

end KvStore
