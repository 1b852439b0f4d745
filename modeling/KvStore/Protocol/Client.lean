import KvStore.Protocol.Resp
import Mathlib.Logic.Relation

/-! # The multiplexed connection

One connection of the client (`protocol/client.py`): the requests of all callers are queued on it, those
of one turn of the event loop are written together, and a reply belongs to the request that waits longest.

* **`Connection`** — the state of `_Connection`: the parser, the futures in the order they were made, those
  that wait, and the requests that are not written yet. A request is known by the number of its future.
* **`Link`** — a connection and its server, which answers the requests in the order they were written, and
  the bytes on their way back.
* **`Link.Step malformed`** — everything that can happen: callers submit, give up or are cancelled, the
  requests are written, the server answers, bytes arrive in any portions, the connection is aborted or lost.
  An answer can be `malformed`; the bytes behind it are then arbitrary.

`Link.Sound` relates the requests that wait, the answers that are not read and the bytes on their way. It
holds in every state that is reached while the parser refuses what is malformed (`Link.Broken`), so a future
has a value only from the answer to its own request (`replies_never_cross`). The parser does not look at the
two bytes behind a bulk string, though, so that a malformed answer can be read as two (`replies_cross`). -/

namespace KvStore

open List

/-- Why a connection failed. -/
inductive ConnectionFailure
  | protocol (err : WireError)
  | timeout
  /-- The connection was closed by the server or broke. -/
  | lost (reason : Str)
  | aborted

inductive Future
  | pending
  | value (reply : Resp)
  | failed (exc : ConnectionFailure)
  /-- Its caller was cancelled or gave up. -/
  | cancelled

/-- A future that is not done is set; one that is done stays as it is. -/
def settle (futures : List Future) (i : Nat) (f : Future) : List Future :=
  match futures[i]? with
  | some .pending => futures.set i f
  | _ => futures

structure Connection where
  parser : ReplyParser
  /-- Every future of this connection, in the order they were made. -/
  futures : List Future
  waiting : List Nat
  /-- `_out`: the requests of each payload. -/
  out : List (List Nat)
  flushScheduled : Bool
  error : Option ConnectionFailure

namespace Connection

/-- A new connection. -/
def init : Connection := ⟨.init, [], [], [], false, none⟩

/-- `submit` of a payload of `replies` requests, on a connection that did not fail. -/
def submit (c : Connection) (replies : Nat) : Connection :=
  let futures := List.range' c.futures.length replies
  { c with
    futures := c.futures ++ List.replicate replies .pending
    waiting := c.waiting ++ futures
    out := c.out ++ [futures]
    flushScheduled := true }

/-- `_flush`: the connection, and the requests that are written. -/
def flush (c : Connection) : Connection × List Nat :=
  ({ c with flushScheduled := false, out := [] }, if c.error.isNone then c.out.flatten else [])

/-- `_fail`: every request that waits gets the exception. -/
def fail (c : Connection) (exc : ConnectionFailure) : Connection :=
  { c with
    error := c.error.or (some exc)
    futures := c.waiting.foldl (fun futures i => settle futures i (.failed exc)) c.futures
    waiting := [] }

/-- A caller gives up on a future. The request keeps its place in the queue. -/
def cancel (c : Connection) (i : Nat) : Connection :=
  { c with futures := settle c.futures i .cancelled }

variable [CaseTable]

/-- The loop of `data_received`; each reply takes some bytes, so that fuel for the bytes is enough. A
malformed stream, or a reply that nobody waits for, aborts the connection. -/
def takeReplies : Nat → Connection → Connection
  | 0, c => c
  | fuel + 1, c =>
    match c.parser.nextReply with
    | .error err => c.fail (.protocol err)
    | .ok (none, parser) => { c with parser }
    | .ok (some reply, parser) =>
      match c.waiting with
      | [] => fail { c with parser } (.protocol (protocolError (text "reply without a request")))
      | i :: waiting =>
        takeReplies fuel
          { c with parser, waiting, futures := settle c.futures i (.value reply) }

def dataReceived (c : Connection) (data : Str) : Connection :=
  let parser := c.parser.feed data
  takeReplies (parser.unread.length + 1) { c with parser }

end Connection

/-! ## The connection and its server -/

/-- **A connection, its server, and what is on its way.** -/
structure Link where
  conn : Connection
  /-- The requests that were written, in order. -/
  written : List Nat
  /-- The server's answers, in order: one for each of the first requests written, `none` when it was
  malformed. -/
  answers : List (Option Resp)
  /-- The bytes the server sent that did not arrive yet. -/
  inflight : Str

namespace Link

/-- Nothing happened yet. -/
def init : Link := ⟨.init, [], [], []⟩

variable [CaseTable]

/-- Bytes that are not those of a reply. -/
def Malformed (bytes : Str) : Prop := ∀ r : Resp, r.Sendable → r.encode ≠ some bytes

/-- Bytes that the parser takes for no reply, whatever follows them. -/
def Broken (bytes : Str) : Prop :=
  ∀ s, s <+: bytes ∨ bytes <+: s → ∀ value rest, parseReply s ≠ .done value rest

/-- **What can happen on a connection** whose server may answer with `malformed` bytes. -/
inductive Step (malformed : Str → Prop) : Link → Link → Prop
  /-- A caller sends a pipeline of `n` commands. -/
  | submit (w : Link) (n : Nat) (h : w.conn.error = none) :
      Step malformed w { w with conn := w.conn.submit n }
  | flush (w : Link) (h : w.conn.flushScheduled = true) :
      Step malformed w { w with conn := w.conn.flush.1, written := w.written ++ w.conn.flush.2 }
  /-- The server answers the next request. -/
  | answer (w : Link) (r : Resp) (code : Str) (h : w.answers.length < w.written.length)
      (hsane : none ∉ w.answers) (hsend : r.Sendable) (hcode : r.encode = some code) :
      Step malformed w { w with answers := w.answers ++ [some r], inflight := w.inflight ++ code }
  /-- The server answers the next request with something malformed. -/
  | garble (w : Link) (bytes : Str) (h : w.answers.length < w.written.length)
      (hsane : none ∉ w.answers) (hbytes : malformed bytes) :
      Step malformed w { w with answers := w.answers ++ [none], inflight := w.inflight ++ bytes }
  /-- Behind a malformed reply the server may send anything. -/
  | noise (w : Link) (bytes : Str) (h : none ∈ w.answers) :
      Step malformed w { w with inflight := w.inflight ++ bytes }
  | deliver (w : Link) (data rest : Str) (h : w.inflight = data ++ rest) :
      Step malformed w { w with conn := w.conn.dataReceived data, inflight := rest }
  /-- A caller is cancelled, or gives up after a timeout. -/
  | cancel (w : Link) (i : Nat) : Step malformed w { w with conn := w.conn.cancel i }
  /-- The connection is aborted after a timeout or when the client is closed, or it is lost. -/
  | fail (w : Link) (exc : ConnectionFailure) : Step malformed w { w with conn := w.conn.fail exc }

/-- **The states a connection can reach** if the parser refuses every malformed answer. -/
def Reached (w : Link) : Prop := Relation.ReflTransGen (Step Broken) init w

/-- The future is resolved with the value. -/
def Resolved (w : Link) (i : Nat) (value : Resp) : Prop :=
  w.conn.futures[i]? = some (.value value)

/-- The value is the answer to the request: the server's answer to it, in the order requests were written,
is written with the same bytes. -/
def Answered (w : Link) (i : Nat) (value : Resp) : Prop :=
  ∃ (j : Nat) (r : Resp), w.written[j]? = some i ∧ w.answers[j]? = some (some r) ∧ value.encode = r.encode

end Link

/-! ## Futures -/

/-- An entry of a list is an entry of every longer one. -/
theorem getElem?_of_prefix {α : Type*} {l l' : List α} (h : l <+: l') {i : Nat} {a : α}
    (hi : l[i]? = some a) : l'[i]? = some a := by
  obtain ⟨t, rfl⟩ := h
  rw [getElem?_append_left (List.getElem?_eq_some_iff.mp hi).1]
  exact hi

/-- A future that has a value after another one was settled had it before, or is the one. -/
theorem value_of_settle {futures : List Future} {i j : Nat} {f : Future} {value : Resp}
    (h : (settle futures i f)[j]? = some (.value value)) :
    futures[j]? = some (.value value) ∨ j = i ∧ f = .value value := by
  unfold settle at h
  split at h
  · rename_i hi
    rw [getElem?_set] at h
    split at h
    · rename_i heq
      subst heq
      split at h
      · exact .inr ⟨rfl, Option.some.inj h⟩
      · cases h
    · exact .inl h
  · exact .inl h

@[simp] theorem length_settle (futures : List Future) (i : Nat) (f : Future) :
    (settle futures i f).length = futures.length := by
  unfold settle
  split <;> simp

/-- A failed connection gives no value to a future. -/
theorem value_of_fail {c : Connection} {exc : ConnectionFailure} {j : Nat} {value : Resp}
    (h : (c.fail exc).futures[j]? = some (.value value)) :
    c.futures[j]? = some (.value value) := by
  have hfold : ∀ (waiting : List Nat) (futures : List Future),
      (waiting.foldl (fun futures i => settle futures i (.failed exc)) futures)[j]? =
        some (.value value) → futures[j]? = some (.value value) := by
    intro waiting
    induction waiting with
    | nil => exact fun _ h => h
    | cons i waiting ih =>
      intro futures h
      rcases value_of_settle (ih _ h) with h | ⟨-, h⟩
      · exact h
      · cases h
  exact hfold _ _ h

theorem fail_error (c : Connection) (exc : ConnectionFailure) : (c.fail exc).error ≠ none := by
  cases h : c.error <;> simp [Connection.fail, h]

/-! ## What is on its way -/

section
variable [CaseTable]

/-- **The bytes of some answers.** Behind a malformed one anything can stand. -/
inductive Coming : List (Option Resp) → Str → Prop
  | nil : Coming [] []
  /-- An answer, and those behind it. -/
  | reply {r value : Resp} {code : Str} {answers : List (Option Resp)} {bytes : Str}
      (hencode : value.encode = r.encode) (hread : Reads parseReply code value)
      (rest : Coming answers bytes) : Coming (some r :: answers) (code ++ bytes)
  | broken {bytes : Str} (h : Link.Broken bytes) (noise : Str) : Coming [none] (bytes ++ noise)

namespace Coming

/-- One answer. -/
theorem single {r : Resp} {code : Str} (hsend : r.Sendable) (hcode : r.encode = some code) :
    Coming [some r] code := by
  obtain ⟨value, hvalue, -, n, hreads⟩ := hsend.faithful hcode
  rw [← append_nil code]
  exact .reply (hvalue.trans hcode.symm) (reads_parseReply hreads) .nil

/-- One malformed answer. -/
theorem garbled {bytes : Str} (h : Link.Broken bytes) : Coming [none] bytes := by
  rw [← append_nil bytes]
  exact .broken h []

/-- More answers behind those that are not malformed. -/
theorem append {answers more : List (Option Resp)} {bytes code : Str} (h : Coming answers bytes)
    (hsane : none ∉ answers) (hmore : Coming more code) : Coming (answers ++ more) (bytes ++ code) := by
  induction h with
  | nil => exact hmore
  | reply hencode hread _ ih =>
    rw [append_assoc]
    exact .reply hencode hread (ih fun hmem => hsane (mem_cons_of_mem _ hmem))
  | broken => exact absurd mem_cons_self hsane

/-- Anything behind a malformed answer. -/
theorem noise {answers : List (Option Resp)} {bytes : Str} (h : Coming answers bytes)
    (hbroken : none ∈ answers) (more : Str) : Coming answers (bytes ++ more) := by
  induction h with
  | nil => cases hbroken
  | reply hencode hread _ ih =>
    rw [append_assoc]
    exact .reply hencode hread (ih (by simpa using hbroken))
  | broken h noise =>
    rw [append_assoc]
    exact .broken h (noise ++ more)

/-- **What is read is the next answer.** -/
theorem read {answers : List (Option Resp)} {s t rest : Str} {value : Resp}
    (h : Coming answers (s ++ t)) (hparse : parseReply s = .done value rest) :
    ∃ r answers', answers = some r :: answers' ∧ value.encode = r.encode ∧
      Coming answers' (rest ++ t) := by
  generalize hbytes : s ++ t = bytes at h
  cases h with
  | nil =>
    rw [(append_eq_nil_iff.mp hbytes).1] at hparse
    cases hparse
  | reply hencode hread hrest =>
    rename_i r value' code answers' bytes'
    rcases prefix_cases ⟨t, hbytes⟩ with ⟨hpart, hne⟩ | ⟨s', rfl, -⟩
    · rw [hread.notReady s hpart hne] at hparse
      cases hparse
    · rw [hread.done, Parsed.done.injEq] at hparse
      obtain ⟨rfl, rfl⟩ := hparse
      rw [append_assoc] at hbytes
      exact ⟨r, answers', rfl, hencode, append_cancel_left hbytes ▸ hrest⟩
  | broken hbroken noise =>
    rename_i bytes'
    refine absurd hparse (hbroken s ?_ value rest)
    rcases prefix_cases ⟨t, hbytes⟩ with ⟨hpart, -⟩ | ⟨s', rfl, -⟩
    · exact .inl hpart
    · exact .inr (prefix_append _ _)

end Coming

/-! ## The invariant -/

namespace Link

/-- **The requests that wait and the answers on their way**, `k` replies being read: the requests from the
`k`-th on wait, in order, and what is unread are the answers from the `k`-th on. -/
structure Open (w : Link) (k : Nat) : Prop where
  /-- Those whose reply is not read wait. -/
  waiting : w.conn.waiting = List.range' k (w.conn.futures.length - k)
  /-- Requests are written in the order they were made. -/
  written : w.written ++ w.conn.out.flatten = List.range' 0 w.conn.futures.length
  /-- Only requests that were written are answered. -/
  answers_le : w.answers.length ≤ w.written.length
  /-- Only replies that were sent are read. -/
  le_answers : k ≤ w.answers.length
  sane : none ∉ w.answers.take k
  /-- The other answers are unread or on their way. -/
  coming : Coming (w.answers.drop k) (w.conn.parser.unread ++ w.inflight)

/-- **Every value is the answer to its request**, and nobody waits on a failed connection. -/
structure Sound (w : Link) : Prop where
  own : ∀ i value, w.Resolved i value → w.Answered i value
  /-- Nobody waits on a failed connection. -/
  failed : w.conn.error ≠ none → w.conn.waiting = []
  /-- A connection that did not fail is in order. -/
  inOrder : w.conn.error = none → ∃ k, w.Open k

theorem sound_init : Sound init where
  own i value h := by simp [Resolved, init, Connection.init] at h
  failed _ := rfl
  inOrder _ := ⟨0, rfl, rfl, le_rfl, le_rfl, by simp, .nil⟩

variable {w : Link}

omit [CaseTable] in
/-- An answer stays the answer as more is written and answered. -/
theorem Answered.append {i : Nat} {value : Resp} (h : w.Answered i value) {w' : Link}
    (hwritten : w.written <+: w'.written) (hanswers : w.answers <+: w'.answers) :
    w'.Answered i value := by
  obtain ⟨j, r, hj, hr, hencode⟩ := h
  exact ⟨j, r, getElem?_of_prefix hwritten hj, getElem?_of_prefix hanswers hr, hencode⟩

/-- A failed connection is sound if its values are. -/
theorem sound_fail (h : w.Sound) (parser : ReplyParser) (exc : ConnectionFailure) :
    Sound { w with conn := Connection.fail { w.conn with parser } exc } where
  own i value hvalue := h.own i value (value_of_fail hvalue)
  failed _ := rfl
  inOrder herror := absurd herror (fail_error _ exc)

/-- **The next reply goes to the request that waits longest.** -/
theorem Sound.resolve (h : w.Sound) {reply : Resp} {parser : ReplyParser} {i : Nat}
    {waiting : List Nat} (hparse : parseReply w.conn.parser.unread = .done reply parser.unread)
    (hwaiting : w.conn.waiting = i :: waiting) : Sound { w with conn := { w.conn with
      parser, waiting, futures := settle w.conn.futures i (.value reply) } } := by
  have herror : w.conn.error = none := by
    by_contra hne
    rw [h.failed hne] at hwaiting
    cases hwaiting
  obtain ⟨k, hopen⟩ := h.inOrder herror
  obtain ⟨r, answers', hdrop, hencode, hcoming⟩ := hopen.coming.read hparse
  have hk : k < w.answers.length := by
    by_contra hge
    rw [drop_eq_nil_of_le (not_lt.mp hge)] at hdrop
    cases hdrop
  have hanswer : w.answers[k]? = some (some r) := by
    rw [← head?_drop, hdrop, head?_cons]
  have hrest : w.answers.drop (k + 1) = answers' := by
    rw [← drop_drop, hdrop, drop_one, tail_cons]
  have hwritten : w.written[k]? = some k := by
    have hlt : k < w.written.length := lt_of_lt_of_le hk hopen.answers_le
    have hle : w.written.length ≤ w.conn.futures.length := by
      have hlength := congrArg List.length hopen.written
      simp only [length_append, length_range'] at hlength
      omega
    have happend : (w.written ++ w.conn.out.flatten)[k]? = w.written[k]? :=
      getElem?_append_left hlt
    rw [← happend, hopen.written, getElem?_range' (by omega)]
    simp
  -- the queue begins with the request whose reply is next
  have hqueue := hopen.waiting
  have hcount : w.conn.futures.length - k = w.conn.futures.length - (k + 1) + 1 := by
    have hne : w.conn.futures.length - k ≠ 0 := by
      intro hzero
      rw [hzero, hwaiting] at hqueue
      cases hqueue
    omega
  rw [hwaiting, hcount, range'_succ, List.cons.injEq] at hqueue
  obtain ⟨rfl, hqueue⟩ := hqueue
  refine ⟨fun j value hvalue => ?_, fun hne => absurd herror hne, fun _ => ⟨i + 1, ?_⟩⟩
  · rcases value_of_settle hvalue with hold | ⟨rfl, hnew⟩
    · exact h.own j value hold
    · cases hnew
      exact ⟨j, r, hwritten, hanswer, hencode⟩
  · refine ⟨?_, ?_, hopen.answers_le, hk, ?_, ?_⟩
    · simpa using hqueue
    · simpa using hopen.written
    · have hsane := hopen.sane
      simpa [take_add_one, hanswer] using hsane
    · simpa [hrest] using hcoming

/-- **Replies are taken in order.** -/
theorem Sound.takeReplies (h : w.Sound) (fuel : Nat) :
    Sound { w with conn := w.conn.takeReplies fuel } := by
  induction fuel generalizing w with
  | zero => exact h
  | succ fuel ih =>
    rcases w.conn.parser.nextReply_spec with
      ⟨-, hnext⟩ | ⟨err, -, hnext⟩ | ⟨reply, parser, hparse, hnext⟩
    · simp only [Connection.takeReplies, hnext]
      exact h
    · simp only [Connection.takeReplies, hnext]
      exact sound_fail h w.conn.parser (.protocol err)
    · simp only [Connection.takeReplies, hnext]
      cases hwaiting : w.conn.waiting with
      | nil => simpa only [hwaiting] using sound_fail h parser _
      | cons i waiting => exact ih (h.resolve hparse hwaiting)

/-- The server sends an answer to the next request. -/
theorem Sound.send (h : w.Sound) (hlt : w.answers.length < w.written.length)
    (hsane : none ∉ w.answers) {answer : Option Resp} {bytes : Str} (hsend : Coming [answer] bytes) :
    Sound { w with answers := w.answers ++ [answer], inflight := w.inflight ++ bytes } := by
  refine ⟨fun i value hvalue => (h.own i value hvalue).append prefix_rfl
    (prefix_append _ _), h.failed, fun herror => ?_⟩
  obtain ⟨k, hopen⟩ := h.inOrder herror
  refine ⟨k, hopen.waiting, hopen.written, ?_, ?_, ?_, ?_⟩
  · simpa using hlt
  · exact hopen.le_answers.trans (by simp)
  · rw [take_append_of_le_length hopen.le_answers]
    exact hopen.sane
  · rw [drop_append_of_le_length hopen.le_answers, ← append_assoc]
    exact hopen.coming.append (fun hmem => hsane (mem_of_mem_drop hmem)) hsend

/-- **Whatever happens on a connection, values are answers.** -/
theorem Step.sound {w' : Link} (hstep : Step Broken w w') (h : w.Sound) : w'.Sound := by
  cases hstep with
  | submit n herror =>
    refine ⟨fun i value hvalue => ?_, fun hne => absurd herror hne, fun _ => ?_⟩
    · simp only [Resolved, Connection.submit, getElem?_append] at hvalue
      split at hvalue
      · exact h.own i value hvalue
      · simp only [getElem?_replicate] at hvalue
        split at hvalue <;> cases hvalue
    · obtain ⟨k, hopen⟩ := h.inOrder herror
      have hlength := congrArg List.length hopen.written
      simp only [length_append, length_range'] at hlength
      have hk : k ≤ w.conn.futures.length := by
        have := hopen.answers_le
        have := hopen.le_answers
        omega
      refine ⟨k, ?_, ?_, hopen.answers_le, hopen.le_answers, hopen.sane, hopen.coming⟩
      · simp only [Connection.submit, length_append, length_replicate, hopen.waiting]
        rw [show w.conn.futures.length + n - k = (w.conn.futures.length - k) + n by omega,
          ← range'_append_1, Nat.add_sub_cancel' hk]
      · simp only [Connection.submit, length_append, length_replicate,
          flatten_append, flatten_singleton]
        rw [← append_assoc, hopen.written, ← range'_append_1, Nat.zero_add]
  | flush hscheduled =>
    refine ⟨fun i value hvalue => (h.own i value hvalue).append (prefix_append _ _)
      prefix_rfl, h.failed, fun herror => ?_⟩
    obtain ⟨k, hopen⟩ := h.inOrder herror
    have hflush : w.conn.flush.2 = w.conn.out.flatten := by
      simp [Connection.flush, show w.conn.error = none from herror]
    refine ⟨k, hopen.waiting, ?_, ?_, hopen.le_answers, hopen.sane, hopen.coming⟩
    · rw [hflush]
      simpa [Connection.flush] using hopen.written
    · exact hopen.answers_le.trans (by simp)
  | answer r code hlt hsane hsend hcode => exact h.send hlt hsane (.single hsend hcode)
  | garble bytes hlt hsane hbytes => exact h.send hlt hsane (.garbled hbytes)
  | noise bytes hbroken =>
    refine ⟨h.own, h.failed, fun herror => ?_⟩
    obtain ⟨k, hopen⟩ := h.inOrder herror
    have hcoming : none ∈ w.answers.drop k := by
      rw [← take_append_drop k w.answers, mem_append] at hbroken
      exact hbroken.resolve_left hopen.sane
    refine ⟨k, hopen.waiting, hopen.written, hopen.answers_le, hopen.le_answers, hopen.sane, ?_⟩
    rw [← append_assoc]
    exact hopen.coming.noise hcoming bytes
  | deliver data rest hinflight =>
    have hfed : Sound ⟨{ w.conn with parser := w.conn.parser.feed data }, w.written, w.answers,
        rest⟩ := by
      refine ⟨h.own, h.failed, fun herror => ?_⟩
      obtain ⟨k, hopen⟩ := h.inOrder herror
      refine ⟨k, hopen.waiting, hopen.written, hopen.answers_le, hopen.le_answers, hopen.sane, ?_⟩
      have hcoming := hopen.coming
      rw [hinflight, ← append_assoc, ← ReplyParser.unread_feed] at hcoming
      exact hcoming
    exact hfed.takeReplies _
  | cancel i =>
    refine ⟨fun j value hvalue => ?_, h.failed, fun herror => ?_⟩
    · rcases value_of_settle hvalue with hold | ⟨-, hnew⟩
      · exact h.own j value hold
      · cases hnew
    · obtain ⟨k, hopen⟩ := h.inOrder herror
      refine ⟨k, ?_, ?_, hopen.answers_le, hopen.le_answers, hopen.sane, hopen.coming⟩
      · simpa [Connection.cancel] using hopen.waiting
      · simpa [Connection.cancel] using hopen.written
  | fail exc => exact sound_fail h w.conn.parser exc

theorem Reached.sound (h : w.Reached) : w.Sound := by
  induction h with
  | refl => exact sound_init
  | tail _ hstep ih => exact hstep.sound ih

/-- An unknown type byte, or a number that is none, is refused whatever follows it. -/
theorem broken_of_line (kind : UInt8) (line : Str) (hline : 13 ∉ kind :: line)
    (hbad : kind ∉ [43, 45, 58, 36, 42] ∨ kind ∈ [58, 36, 42] ∧ intOfBytes line = none) :
    Broken (kind :: line ++ crlf) := by
  intro s hs value rest
  have hcomplete : ∀ tail, parseReply (kind :: line ++ crlf ++ tail) ≠ .done value rest := by
    intro tail
    rw [parseReply, parse, splitLine_append hline]
    simp only [mem_cons, not_mem_nil, or_false, not_or] at hbad
    rcases hbad with ⟨h₁, h₂, h₃, h₄, h₅⟩ | ⟨rfl | rfl | rfl, hnumber⟩
    · simp [h₁, h₂, h₃, h₄, h₅]
    all_goals simp [hnumber]
  -- before the line is complete there is no reply, either
  rcases hs with hpart | ⟨tail, rfl⟩
  · by_cases heq : s = kind :: line ++ crlf
    · rw [heq, ← append_nil (kind :: line ++ crlf)]
      exact hcomplete []
    · rw [parseReply, parse, splitLine_eq_none hline hpart heq]
      simp
  · exact hcomplete tail

/-! ## After a failure -/

/-- Nobody waits on a connection that failed. -/
def Dead (w : Link) : Prop := w.conn.error ≠ none ∧ w.conn.waiting = []

/-- On a connection that failed nothing that arrives is given to anybody. -/
theorem takeReplies_dead {c : Connection} (herror : c.error ≠ none) (hwaiting : c.waiting = [])
    (fuel : Nat) :
    (c.takeReplies fuel).error ≠ none ∧ (c.takeReplies fuel).waiting = [] ∧
      (c.takeReplies fuel).futures = c.futures := by
  have hfail : ∀ (parser : ReplyParser) (exc : ConnectionFailure),
      (Connection.fail { c with parser } exc).error ≠ none ∧
      (Connection.fail { c with parser } exc).waiting = [] ∧
      (Connection.fail { c with parser } exc).futures = c.futures := fun parser exc =>
    ⟨fail_error _ exc, rfl, by simp [Connection.fail, hwaiting]⟩
  cases fuel with
  | zero => exact ⟨herror, hwaiting, rfl⟩
  | succ fuel =>
    rcases c.parser.nextReply_spec with ⟨-, hnext⟩ | ⟨err, -, hnext⟩ | ⟨reply, parser, -, hnext⟩
    · simp only [Connection.takeReplies, hnext]
      exact ⟨herror, hwaiting, trivial⟩
    · simp only [Connection.takeReplies, hnext]
      exact hfail c.parser _
    · simp only [Connection.takeReplies, hnext, hwaiting]
      simpa only [hwaiting] using hfail parser _

/-- **A connection that failed stays so**, and gives no value to a future any more. -/
theorem Step.dead {malformed : Str → Prop} {w' : Link} (hstep : Step malformed w w') (h : w.Dead) :
    w'.Dead ∧ ∀ i value, w'.Resolved i value → w.Resolved i value := by
  obtain ⟨herror, hwaiting⟩ := h
  cases hstep with
  | submit n hnone => exact absurd hnone herror
  | flush | answer | garble | noise => exact ⟨⟨herror, hwaiting⟩, fun _ _ hvalue => hvalue⟩
  | deliver data rest hinflight =>
    obtain ⟨herror', hwaiting', hfutures⟩ :=
      takeReplies_dead (c := { w.conn with parser := w.conn.parser.feed data }) herror hwaiting
        ((w.conn.parser.feed data).unread.length + 1)
    refine ⟨⟨herror', hwaiting'⟩, fun i value hvalue => ?_⟩
    rw [Resolved, show (w.conn.dataReceived data).futures = w.conn.futures from hfutures] at hvalue
    exact hvalue
  | cancel i =>
    refine ⟨⟨herror, hwaiting⟩, fun j value hvalue => ?_⟩
    rcases value_of_settle hvalue with hold | ⟨-, hnew⟩
    · exact hold
    · cases hnew
  | fail exc => exact ⟨⟨fail_error _ exc, rfl⟩, fun _ _ hvalue => value_of_fail hvalue⟩

/-- **Replies never cross** while the parser refuses every malformed answer: in every state a connection can
reach, a future that has a value has the answer to its own request. And once the connection failed, whatever
happens then and whatever the server sends, no future gets a value that had none. -/
theorem replies_never_cross (h : w.Reached) :
    (∀ i value, w.Resolved i value → w.Answered i value) ∧
    (w.conn.error ≠ none → ∀ malformed w', Relation.ReflTransGen (Step malformed) w w' →
      ∀ i value, w'.Resolved i value → w.Resolved i value) := by
  refine ⟨h.sound.own, fun herror malformed w' hrun => ?_⟩
  have hdead : w'.Dead ∧ ∀ i value, w'.Resolved i value → w.Resolved i value := by
    induction hrun with
    | refl => exact ⟨⟨herror, h.sound.failed herror⟩, fun _ _ hvalue => hvalue⟩
    | tail _ hstep ih =>
      obtain ⟨hdead, hkept⟩ := hstep.dead ih.1
      exact ⟨hdead, fun i value hvalue => ih.2 i value (hkept i value hvalue)⟩
  exact hdead.2

end Link

end

namespace Link

section
local instance clientCaseTable : CaseTable := asciiCaseTable

/-- Three callers send a request each; all are written, and answered in three portions of bytes. The first
caller gave up meanwhile, and the third answer is malformed: its length is no number. -/
def threeCallers : Link where
  conn := (((((Connection.init.submit 1).submit 1).submit 1).flush.1.cancel 0).dataReceived
    (text "+OK\r\n$1")).dataReceived (text "\r\nv\r\n$x\r") |>.dataReceived (text "\n+5\r\n")
  written := [0, 1, 2]
  answers := [some (.status (text "OK")), some (.bulk (text "v")), none]
  inflight := []

theorem reached_threeCallers : threeCallers.Reached := by
  have hbroken : Broken (text "$x\r\n") :=
    broken_of_line 36 (text "x") (by decide) (.inr (by decide))
  exact .tail (.tail (.tail (.tail (.tail (.tail (.tail (.tail (.tail (.tail (.tail (.tail .refl
    (.submit init 1 rfl)) (.submit _ 1 rfl)) (.submit _ 1 rfl)) (.flush _ rfl)) (.cancel _ 0))
    (.answer _ (.status (text "OK")) _ (by decide) (by simp [init]) (.status (by decide)) rfl))
    (.answer _ (.bulk (text "v")) _ (by decide) (by simp [init]) (.bulk _) rfl))
    (.garble _ _ (by decide) (by simp [init]) hbroken))
    (.noise _ (text "+5\r\n") (by simp [init])))
    (.deliver _ (text "+OK\r\n$1") (text "\r\nv\r\n$x\r\n+5\r\n") rfl))
    (.deliver _ (text "\r\nv\r\n$x\r") (text "\n+5\r\n") rfl))
    (.deliver _ (text "\n+5\r\n") [] rfl)

/-- The second caller gets the second answer; the third gets no value, now or later. -/
theorem replies_never_cross_threeCallers :
    (threeCallers.Resolved 1 (.bulk (text "v")) ∧ threeCallers.Answered 1 (.bulk (text "v"))) ∧
      ∀ w', Relation.ReflTransGen (Step Malformed) threeCallers w' → ∀ value, ¬ w'.Resolved 2 value := by
  obtain ⟨hown, hfailed⟩ := replies_never_cross reached_threeCallers
  have hvalue : threeCallers.Resolved 1 (.bulk (text "v")) := rfl
  refine ⟨⟨hvalue, hown 1 _ hvalue⟩, fun w' hrun value hresolved => ?_⟩
  exact nomatch hfailed (by decide) _ w' hrun 2 value hresolved

/-- A bulk string of one byte that is not followed by the end of a line. -/
def unterminated : Str := text "$1\r\naZZ+5\r\n\r\n"

/-- Two callers send a request each, and the first is answered with `unterminated`. -/
def crossed : Link where
  conn := ((Connection.init.submit 1).submit 1).flush.1.dataReceived unterminated
  written := [0, 1]
  answers := [none]
  inflight := []

/-- The parser would read a reply to its end. -/
theorem malformed_unterminated : Malformed unterminated := by
  intro r hsend hcode
  obtain ⟨value, -, -, n, hreads⟩ := hsend.faithful hcode
  have hdone := (reads_parseReply hreads).done []
  rw [append_nil] at hdone
  have hrest : parseReply unterminated = .done (.bulk (text "a")) (text "+5\r\n\r\n") := rfl
  rw [hrest] at hdone
  cases hdone

/-- **A malformed answer is read as two replies**: the second caller gets the number five, and no answer to
its request was sent. -/
theorem replies_cross :
    Relation.ReflTransGen (Step Malformed) init crossed ∧
      crossed.Resolved 1 (.status (text "5")) ∧ ¬ crossed.Answered 1 (.status (text "5")) := by
  refine ⟨?_, rfl, ?_⟩
  · exact .tail (.tail (.tail (.tail (.tail .refl
      (.submit init 1 rfl)) (.submit _ 1 rfl)) (.flush _ rfl))
      (.garble _ unterminated (by decide) (by simp [init]) malformed_unterminated))
      (.deliver _ unterminated [] rfl)
  · rintro ⟨j, r, hwritten, hanswer, -⟩
    match j with
    | 0 => cases hwritten
    | j + 1 => cases hanswer

end

end Link

end KvStore
