import KvStore.Replication.Stream

/-! # The primary's side of replication

A primary appends what it logs to its backlog, and sends it to the replicas at each commit, to each from
the offset up to which it was sent before (`primary.py`, `Backlog` in `stream.py`). A replica that
reconnects continues at its own offset, if the backlog still holds what follows.

* **`Backlog.Holds origin history b`** — the backlog is the end of the history that began at `origin`.
* **`PrimaryReplication.step`** — what happens on a primary, in any order: commands are fed, replicas
  connect, get the snapshot, are sent the stream, acknowledge and leave.
* **`PrimaryReplication.Exact`** — on every link the stream was written without a gap or a repetition. -/

namespace KvStore

open List

/-! ## The backlog -/

namespace Backlog

def contains (offset : Int) (b : Backlog) : Bool := b.start ≤ offset ∧ offset ≤ b.stop

/-- **`since`**: every byte from an offset on, `none` if they are no longer held. -/
def since (offset : Int) (b : Backlog) : Option Str :=
  if b.contains offset then some (b.buf.drop (offset - b.start).toNat) else none

/-- **The backlog holds the end of a history** that began at an offset. -/
structure Holds (origin : Int) (history : Str) (b : Backlog) : Prop where
  kept : b.buf <:+ history
  stop : b.stop = origin + history.length
  start : b.start + b.buf.length = b.stop

variable {origin offset : Int} {history data : Str} {b : Backlog}

theorem Holds.append (h : b.Holds origin history) (data : Str) :
    (b.append data).Holds origin (history ++ data) where
  kept := (drop_suffix _ _).trans (suffix_append_inj_of_length_eq rfl |>.mpr ⟨h.kept, rfl⟩)
  stop := by
    have hstop := h.stop
    simp only [Backlog.append, length_append]
    omega
  start := by
    have hstart := h.start
    simp only [Backlog.append, length_drop, length_append]
    omega

/-- **What the backlog gives out is the history from the offset on.** -/
theorem Holds.since (h : b.Holds origin history) (hsince : b.since offset = some data) :
    ∃ n ≤ history.length, offset = origin + n ∧ data = history.drop n := by
  unfold Backlog.since at hsince
  split at hsince
  case isTrue hcontains =>
    simp only [contains, decide_eq_true_eq] at hcontains
    have hstart := h.start
    have hstop := h.stop
    have hlength := h.kept.length_le
    refine ⟨(offset - origin).toNat, by omega, by omega, ?_⟩
    rw [← Option.some.inj hsince, suffix_iff_eq_drop.mp h.kept, drop_drop]
    congr 1
    omega
  case isFalse => cases hsince

end Backlog

namespace ReplicationState

/-- **`can_continue`**: the history is the same, and what follows is held. -/
def canContinue (replid : Str) (offset : Int) (s : ReplicationState) : Bool :=
  (replid = s.replid ∨ replid = s.replid2 ∧ offset ≤ s.secondOffset) ∧ s.backlog.contains offset

end ReplicationState

/-! ## The primary -/

/-- **A replica that is connected.** -/
structure ConnectedReplica where
  id : Nat
  /-- It is online, or the snapshot is still on its way. -/
  online : Bool := false
  /-- The offset that its stream starts at. -/
  start : Int
  sentOffset : Int
  /-- What of the stream was written to its link. -/
  written : Str := []

/-- **The replication hook of a primary.** -/
structure PrimaryReplication where
  /-- The position in the stream. -/
  state : ReplicationState
  replicas : List ConnectedReplica := []
  nextId : Nat := 1
  /-- Whether a replica has ever asked for the stream. -/
  active : Bool := false

namespace PrimaryReplication

def feed (payload : Str) (p : PrimaryReplication) : PrimaryReplication :=
  if p.active then { p with state := { p.state with backlog := p.state.backlog.append payload } }
  else p

def feedCommand (args : List Str) (p : PrimaryReplication) : PrimaryReplication :=
  match encodeCommand args with
  | some payload => p.feed payload
  | none => p

/-- **`_send`**: what the replica was not sent yet. It is dropped if the backlog has lost the begin of
that, or if its link takes no more (`stuck`). -/
def send (stuck : Nat → Bool) (s : ReplicationState) (r : ConnectedReplica) :
    Option ConnectedReplica :=
  match s.backlog.since r.sentOffset with
  | none => none
  | some data =>
    if stuck r.id then none
    else if data = [] then some r
    else some { r with written := r.written ++ data, sentOffset := s.offset }

/-- The replicas selected are online and are sent the stream. -/
def sendIf (select : ConnectedReplica → Bool) (stuck : Nat → Bool) (p : PrimaryReplication) :
    PrimaryReplication :=
  { p with replicas := p.replicas.filterMap fun r =>
      if select r then send stuck p.state { r with online := true } else some r }

def flush : (Nat → Bool) → PrimaryReplication → PrimaryReplication := sendIf (·.online)

def ping (stuck : Nat → Bool) (p : PrimaryReplication) : PrimaryReplication :=
  if p.replicas.isEmpty then p else (p.feedCommand [text "PING"]).flush stuck

/-- **`serve`**, up to its first `await`: the words of the answer to PSYNC, and the new replica. -/
def serve (replid : Str) (offset : Int) (p : PrimaryReplication) : List Str × PrimaryReplication :=
  let full := !p.state.canContinue replid offset
  let start := if full then p.state.offset else offset
  (if full then [text "+FULLRESYNC", p.state.replid, showInt start]
    else [text "+CONTINUE", p.state.replid], { p with
      active := p.active || full
      replicas := p.replicas ++ [{ id := p.nextId, start := start, sentOffset := start }]
      nextId := p.nextId + 1 })

/-- `serve`, once the answer and the snapshot are through, if the replica is still there. -/
def ready (id : Nat) : (Nat → Bool) → PrimaryReplication → PrimaryReplication := sendIf (·.id = id)

def drop (id : Nat) (p : PrimaryReplication) : PrimaryReplication :=
  { p with replicas := p.replicas.filter fun r => r.id ≠ id }

/-! ## Runs -/

/-- **What happens on a primary.** -/
inductive Event
  | feed (args : List Str)
  | flush (stuck : Nat → Bool)
  | ping (stuck : Nat → Bool)
  | serve (replid : Str) (offset : Int)
  | ready (id : Nat) (stuck : Nat → Bool)
  | drop (id : Nat)

/-- What an event does. -/
def step (p : PrimaryReplication) : Event → PrimaryReplication
  | .feed args => p.feedCommand args
  | .flush stuck => p.flush stuck
  | .ping stuck => p.ping stuck
  | .serve replid offset => (p.serve replid offset).2
  | .ready id stuck => p.ready id stuck
  | .drop id => p.drop id

/-- The commands that an event adds to the stream. -/
def adds (p : PrimaryReplication) : Event → List (List Str)
  | .feed args => if p.active then [args] else []
  | .ping _ => if p.active ∧ ¬ p.replicas.isEmpty then [[text "PING"]] else []
  | .flush _ | .serve _ _ | .ready _ _ | .drop _ => []

/-- The commands that a run adds to the stream, and the primary after it. -/
def run (p : PrimaryReplication) : List Event → List (List Str) × PrimaryReplication
  | [] => ([], p)
  | ev :: rest => (p.adds ev ++ ((p.step ev).run rest).1, ((p.step ev).run rest).2)

/-- The bytes of commands. -/
def bytes (log : List (List Str)) : Str := (log.filterMap encodeCommand).flatten

theorem bytes_append (log log' : List (List Str)) : bytes (log ++ log') = bytes log ++ bytes log' := by
  simp [bytes]

/-- **On a link the stream was written** from the offset it starts at, without a gap or a repetition. -/
structure Streamed (origin : Int) (history : Str) (r : ConnectedReplica) : Prop where
  start : ∃ n : Nat, r.start = origin + n ∧ r.written <+: history.drop n
  /-- The offset counts what was written. -/
  sent : r.sentOffset = r.start + r.written.length

/-- **The links are exact.** -/
structure Exact (origin : Int) (history : Str) (p : PrimaryReplication) : Prop where
  /-- The backlog holds the end of the history. -/
  backlog : p.state.backlog.Holds origin history
  links : ∀ r ∈ p.replicas, Streamed origin history r

variable {origin : Int} {history : Str} {p : PrimaryReplication}

/-- **What is sent continues what was written**, up to the end of the history. -/
theorem Streamed.send {stuck : Nat → Bool} {s : ReplicationState}
    (hs : s.backlog.Holds origin history) {r r' : ConnectedReplica} (h : Streamed origin history r)
    (hsend : send stuck s r = some r') : Streamed origin history r' ∧ r'.sentOffset = s.offset := by
  unfold PrimaryReplication.send at hsend
  split at hsend
  · cases hsend
  case h_2 data hsince =>
    obtain ⟨⟨n, hstart, rest, hrest⟩, hsent⟩ := h
    obtain ⟨m, hm, hoffset, rfl⟩ := hs.since hsince
    have hend : s.offset = origin + history.length := hs.stop
    -- the backlog gives out what is left of the history
    have hdata : history.drop m = rest := by
      rw [show m = n + r.written.length by omega, ← drop_drop, ← hrest, drop_left]
    split at hsend
    · cases hsend
    · split at hsend
      case isTrue hnil =>
        obtain rfl := Option.some.inj hsend
        have hle := drop_eq_nil_iff.mp hnil
        exact ⟨⟨⟨n, hstart, rest, hrest⟩, hsent⟩, by omega⟩
      case isFalse =>
        obtain rfl := Option.some.inj hsend
        have hwritten : r.written ++ history.drop m = history.drop n := by rw [hdata, hrest]
        refine ⟨⟨⟨n, hstart, by rw [hwritten]⟩, ?_⟩, rfl⟩
        have hcount := congrArg List.length hwritten
        simp only [length_append, length_drop] at hcount ⊢
        omega

namespace Exact

theorem feedCommand (h : p.Exact origin history) (args : List Str) :
    (p.feedCommand args).Exact origin (history ++ bytes (if p.active then [args] else [])) := by
  unfold PrimaryReplication.feedCommand feed bytes
  cases hcode : encodeCommand args with
  | none => split <;> simpa [hcode] using h
  | some payload =>
    simp only
    split
    · simp only [filterMap_cons, hcode, filterMap_nil, flatten_singleton]
      refine ⟨h.backlog.append payload, fun r hr => ?_⟩
      obtain ⟨⟨n, hstart, hwritten⟩, hsent⟩ := h.links r hr
      refine ⟨⟨n, hstart, hwritten.trans ?_⟩, hsent⟩
      rw [drop_append]
      exact prefix_append _ _
    · simpa using h

/-- Whoever is sent the stream has been sent everything. -/
theorem sendIf (h : p.Exact origin history) (select : ConnectedReplica → Bool) (stuck : Nat → Bool) :
    (p.sendIf select stuck).Exact origin history ∧
      ∀ r' ∈ (p.sendIf select stuck).replicas, r' ∈ p.replicas ∧ select r' = false ∨
        r'.sentOffset = p.state.offset := by
  have hall : ∀ r' ∈ (p.sendIf select stuck).replicas, Streamed origin history r' ∧
      (r' ∈ p.replicas ∧ select r' = false ∨ r'.sentOffset = p.state.offset) := by
    intro r' hr'
    obtain ⟨r, hr, hsome⟩ := mem_filterMap.mp hr'
    have hlink := h.links r hr
    split at hsome
    · have hon : Streamed origin history { r with online := true } := ⟨hlink.start, hlink.sent⟩
      exact (hon.send h.backlog hsome).imp_right .inr
    case isFalse hoff =>
      obtain rfl := Option.some.inj hsome
      exact ⟨hlink, .inl ⟨hr, by simpa using hoff⟩⟩
  exact ⟨⟨h.backlog, fun r hr => (hall r hr).1⟩, fun r hr => (hall r hr).2⟩

theorem serve (h : p.Exact origin history) (replid : Str) (offset : Int) :
    (p.serve replid offset).2.Exact origin history := by
  refine ⟨h.backlog, fun r hr => ?_⟩
  rcases mem_append.mp hr with hold | hnew
  · exact h.links r hold
  · obtain rfl := mem_singleton.mp hnew
    -- the stream starts at the end, or at an offset that the backlog holds
    refine ⟨?_, (add_zero _).symm⟩
    cases hcontinue : p.state.canContinue replid offset with
    | false => exact ⟨history.length, h.backlog.stop, List.nil_prefix⟩
    | true =>
      simp only [ReplicationState.canContinue, decide_eq_true_eq] at hcontinue
      obtain ⟨n, -, hoffset, -⟩ := h.backlog.since (if_pos hcontinue.2)
      exact ⟨n, hoffset, List.nil_prefix⟩

/-- **Every event keeps the links exact.** -/
theorem step (h : p.Exact origin history) (ev : Event) :
    (p.step ev).Exact origin (history ++ bytes (p.adds ev)) := by
  have hsame : ∀ {q : PrimaryReplication}, q.Exact origin history →
      q.Exact origin (history ++ bytes []) := fun hq => by simpa [bytes] using hq
  cases ev with
  | feed args => exact h.feedCommand args
  | flush stuck | ready id stuck => exact hsame (h.sendIf _ stuck).1
  | ping stuck =>
    unfold PrimaryReplication.step ping adds
    cases hnone : p.replicas.isEmpty with
    | true => simpa [bytes] using h
    | false => simpa [flush] using ((h.feedCommand [text "PING"]).sendIf _ stuck).1
  | serve replid offset => exact hsame (h.serve replid offset)
  | drop id => exact hsame ⟨h.backlog, fun r hr => h.links r (mem_filter.mp hr).1⟩

theorem run (h : p.Exact origin history) (events : List Event) :
    (p.run events).2.Exact origin (history ++ bytes (p.run events).1) := by
  induction events generalizing p history with
  | nil => simpa [PrimaryReplication.run, bytes] using h
  | cons ev rest ih =>
    rw [PrimaryReplication.run, bytes_append, ← append_assoc]
    exact ih (h.step ev)

end Exact

/-- **No byte of the stream is lost, repeated or reordered on a link.** Whatever happens on a primary
that began without replicas: what was written to each link is the history from the offset announced to
that replica on, as far as it was sent; and after a commit it is all of it for every replica that is
online and was not dropped. -/
theorem links_exact (hbacklog : p.state.backlog.Holds origin history) (hnone : p.replicas = [])
    (events : List Event) (stuck : Nat → Bool) :
    let log := history ++ bytes (p.run events).1
    let q := (p.run events).2
    q.state.offset = origin + log.length ∧
      (∀ r ∈ q.replicas, ∃ n : Nat, r.start = origin + n ∧ r.sentOffset = r.start + r.written.length ∧
        r.written <+: log.drop n) ∧
      ∀ r ∈ (q.flush stuck).replicas, r.online = true →
        ∃ n : Nat, r.start = origin + n ∧ r.written = log.drop n := by
  intro log q
  have hexact : q.Exact origin log := Exact.run ⟨hbacklog, by simp [hnone]⟩ events
  refine ⟨hexact.backlog.stop, fun r hr => ?_, fun r hr hon => ?_⟩
  · obtain ⟨⟨n, hstart, hwritten⟩, hsent⟩ := hexact.links r hr
    exact ⟨n, hstart, hsent, hwritten⟩
  · obtain ⟨hlinks, hall⟩ := hexact.sendIf (·.online) stuck
    obtain ⟨⟨n, hstart, hwritten⟩, hsent⟩ := hlinks.links r hr
    have hoffset : r.sentOffset = q.state.offset := (hall r hr).resolve_left fun h => by simp [hon] at h
    have hstop : q.state.offset = origin + log.length := hexact.backlog.stop
    refine ⟨n, hstart, hwritten.eq_of_length_le ?_⟩
    rw [length_drop]
    omega

/-- A replica joins a primary that has just started, and a key is deleted meanwhile. -/
theorem links_exact_join :
    let p : PrimaryReplication := { state := ⟨⟨64, [], 0, 0⟩, [], noReplid, -1⟩ }
    let q := p.run [.serve (text "?") (-1), .feed [text "DEL", text "k"], .ready 1 fun _ => false]
    q.2.replicas.length = 1 ∧ ∀ r ∈ (q.2.flush fun _ => false).replicas, r.online = true →
      ∃ n : Nat, r.start = 0 + n ∧ r.written = ([] ++ bytes q.1).drop n :=
  ⟨by decide +kernel, (links_exact ⟨suffix_rfl, rfl, rfl⟩ rfl _ _).2.2⟩

end PrimaryReplication

end KvStore
