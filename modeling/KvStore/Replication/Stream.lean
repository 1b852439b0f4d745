import KvStore.Protocol.Chunking
import KvStore.Replication.Resync

/-! # The replication stream

A primary sends every effect as an encoded command. A replica buffers what arrives, takes the complete
commands off the buffer and applies them; its offset counts the bytes of those (`stream.py`,
`ReplicaLink._stream`).

* **`Stream.nextCommand`** — the command at a position of the buffer. A length may be negative here, so
  that positions are those of the interpreter, which count from the end when they are negative.
* **`ReplicaLink.stream`** — what a chunk does.
* **`ReplicaLink.framing_exact`** — encoded commands are taken off by the server's parser and by a
  replica exactly as they were sent, however they are split. -/

namespace KvStore

open List

/-! ## Positions -/

/-- A bound of a slice: counted from the end if it is negative, and cut to what there is. -/
def sliceBound (len : Nat) (i : Int) : Nat := (min (if i < 0 then i + len else i) len).toNat

/-- `buf[i:j]`. -/
def slice (buf : Str) (i j : Int) : Str :=
  (buf.take (sliceBound buf.length j)).drop (sliceBound buf.length i)

/-- `buf[i]`, `none` for an `IndexError`. -/
def byteAt (buf : Str) (i : Int) : Option UInt8 :=
  if i < -buf.length then none else buf[(if i < 0 then i + buf.length else i).toNat]?

/-- `buf.find(b"\r\n", i)`. -/
def findCrlf (buf : Str) (i : Int) : Option Nat :=
  (splitLine (buf.drop (sliceBound buf.length i))).map fun (line, _) =>
    sliceBound buf.length i + line.length

/-! ## The command at a position -/

/-- What ends a stream. -/
inductive StreamError
  /-- A `ProtocolError`. -/
  | protocol (message : Str)
  /-- A `ValueError`: a number that is none. -/
  | value
  /-- An `IndexError`. -/
  | index
  /-- The primary closed the link. -/
  | closed
  /-- The loop over the buffer goes on for ever. -/
  | endless
  deriving DecidableEq

namespace Stream

/-- The bulk strings of a command. -/
def nextArgs (buf : Str) : Nat → Int → List Str → Except StreamError (Option (List Str × Int))
  | 0, cursor, args => .ok (some (args, cursor))
  | n + 1, cursor, args =>
    if (buf.length : Int) ≤ cursor then .ok none
    else
      match byteAt buf cursor with
      | none => .error .index
      | some b =>
        if b ≠ 36 then
          .error (.protocol (text "expected a bulk string in the replication stream"))
        else
          match findCrlf buf cursor with
          | none => .ok none
          | some eol =>
            match intOfBytes (slice buf (cursor + 1) eol) with
            | none => .error .value
            | some size =>
              let start : Int := eol + 2
              if (buf.length : Int) < start + size + 2 then .ok none
              else nextArgs buf n (start + size + 2)
                (args ++ [slice buf start (start + size)])

/-- **`next_command`**: the command at `pos` and the position after it, `none` if it is incomplete. -/
def nextCommand (buf : Str) (pos : Int) : Except StreamError (Option (List Str × Int)) :=
  if (buf.length : Int) ≤ pos then .ok none
  else
    match byteAt buf pos with
    | none => .error .index
    | some b =>
      if b ≠ 42 then
        .error (.protocol (text "expected an array in the replication stream, got " ++
          showNat b.toNat))
      else
        match findCrlf buf pos with
        | none => .ok none
        | some eol =>
          match intOfBytes (slice buf (pos + 1) eol) with
          | none => .error .value
          | some count => nextArgs buf count.toNat (eol + 2) []

end Stream

/-! ## The loop -/

/-- `append`: the oldest bytes make room. -/
def Backlog.append (data : Str) (b : Backlog) : Backlog :=
  let buf := b.buf ++ data
  let excess := buf.length - b.capacity
  { b with buf := buf.drop excess, start := b.start + excess, stop := b.stop + data.length }

/-- **A replica that follows a stream.** -/
structure Follower (σ : Type) where
  replica : Replica σ
  /-- What it wrote back on the link. -/
  sent : List (List Str) := []
  /-- The world around each command that it applies. -/
  world : Nat → Env
  /-- How many it has applied. -/
  applied : Nat := 0

namespace ReplicaLink

variable [CPython] {σ : Type} [EvictionPolicy σ]

/-- **`_apply`** of a command with a name. An error of the engine is logged, and that is all. -/
def perform (name : Str) (args : List Str) (f : Follower σ) : Follower σ :=
  let f' := { f with applied := f.applied + 1 }
  if isWord name "PING" then f'
  else if isWord name "REPLCONF" then
    if args.head?.any fun arg => isWord arg "GETACK" then
      { f' with
        sent := f.sent ++ [[text "REPLCONF", text "ACK", showInt f.replica.state.offset]] }
    else f'
  else
    match Command.ofText name with
    | none => f'
    | some c =>
      let engine := (f.replica.disk.engine.applyReplicated (f.world f.applied) ⟨c, args⟩).2
      { f' with replica := { f.replica with disk := { f.replica.disk with engine } } }

/-- The offset counts these bytes. -/
def count (data : Str) (f : Follower σ) : Follower σ :=
  { f with replica := { f.replica with state := { f.replica.state with
      backlog := f.replica.state.backlog.append data } } }

/-- A command is applied, and then counted. -/
def follow (args : List Str) (data : Str) (f : Follower σ) : Follower σ :=
  count data (perform (args.headD []) args.tail f)

/-- The commands on the buffer are taken off one by one; the position behind them. A position that
comes up twice comes up for ever. -/
def takeOff (buf : Str) : Nat → Int → Follower σ → Except StreamError (Int × Follower σ)
  | 0, _, _ => .error .endless
  | fuel + 1, pos, f =>
    match Stream.nextCommand buf pos with
    | .error e => .error e
    | .ok none => .ok (pos, f)
    | .ok (some (args, stop)) =>
      if args = [] then .error .index
      else takeOff buf fuel stop (follow args (slice buf pos stop) f)

/-- **A chunk of the stream** (`_stream`): the bytes that are left on the buffer, and the replica. -/
def stream (data buf : Str) (f : Follower σ) : Except StreamError (Str × Follower σ) :=
  if data = [] then .error .closed
  else
    let buf := buf ++ data
    (takeOff buf (2 * buf.length + 2) 0 f).map fun (pos, f) =>
      (buf.drop (sliceBound buf.length pos), f)

/-- Chunks one by one. -/
def streamAll : List Str → Str → Follower σ → Except StreamError (Str × Follower σ)
  | [], buf, f => .ok (buf, f)
  | data :: chunks, buf, f =>
    match stream data buf f with
    | .error e => .error e
    | .ok (buf, f) => streamAll chunks buf f

end ReplicaLink

/-! ## Encoded commands on a buffer -/

theorem sliceBound_natCast {len n : Nat} (h : n ≤ len) : sliceBound len n = n := by
  rw [sliceBound, if_neg (by omega), min_eq_left (by omega), Int.toNat_natCast]

theorem slice_natCast {buf : Str} {i j : Nat} (hij : i ≤ j) (hj : j ≤ buf.length) :
    slice buf i j = (buf.drop i).take (j - i) := by
  rw [slice, sliceBound_natCast hj, sliceBound_natCast (hij.trans hj), drop_take]

theorem byteAt_natCast (buf : Str) (n : Nat) : byteAt buf n = (buf.drop n).head? := by
  rw [byteAt, if_neg (by omega), if_neg (by omega), Int.toNat_natCast, head?_drop]

theorem findCrlf_natCast {buf : Str} {n : Nat} (h : n ≤ buf.length) :
    findCrlf buf n = (splitLine (buf.drop n)).map fun q => n + q.1.length := by
  rw [findCrlf, sliceBound_natCast h]

namespace Stream

open Request

variable {buf digits tail : Str} {n : Nat} {kind : UInt8}

/-- What there is at a position is there. -/
theorem lt_length (h : buf.drop n ≠ []) : n < buf.length := by
  by_contra hle
  exact h (drop_eq_nil_of_le (by omega))

/-- The line of a number, with its end. -/
theorem header_found (hdrop : buf.drop n = kind :: digits ++ crlf ++ tail)
    (hline : 13 ∉ kind :: digits) :
    byteAt buf n = some kind ∧ findCrlf buf n = some (n + (digits.length + 1)) ∧
      slice buf (n + 1) ((n + (digits.length + 1) : Nat) : Int) = digits := by
  have hlt : n < buf.length := lt_length (by rw [hdrop]; simp)
  have hlength : buf.length - n = digits.length + 1 + 2 + tail.length := by
    rw [← length_drop, hdrop]
    simp [crlf]
    omega
  refine ⟨?_, ?_, ?_⟩
  · rw [byteAt_natCast, hdrop]
    rfl
  · rw [findCrlf_natCast hlt.le, hdrop, splitLine_append hline]
    simp
  · rw [show (n : Int) + 1 = ((n + 1 : Nat) : Int) by omega, slice_natCast (by omega) (by omega),
      ← drop_drop, hdrop, cons_append, cons_append, drop_one, tail_cons,
      append_assoc, take_left' (by omega)]

/-- The line of a number before its end. -/
theorem header_open (hs : buf.drop n <+: kind :: digits ++ crlf)
    (hne : buf.drop n ≠ kind :: digits ++ crlf) (hline : 13 ∉ kind :: digits)
    (hpos : buf.drop n ≠ []) : byteAt buf n = some kind ∧ findCrlf buf n = none := by
  have hlt := lt_length hpos
  constructor
  · rw [byteAt_natCast]
    obtain ⟨b, s, hs'⟩ := exists_cons_of_ne_nil hpos
    rw [hs', cons_append, cons_prefix_cons] at hs
    rw [hs', hs.1]
    rfl
  · rw [findCrlf_natCast hlt.le, splitLine_eq_none hline hs hne]
    rfl

theorem not_mem_header {k : Int} (hdigits : formatInt k = some digits) (hkind : kind ≠ 13) :
    13 ∉ kind :: digits := by
  rw [mem_cons, not_or]
  exact ⟨hkind.symm, (formatInt_spec hdigits).2⟩

theorem nextArgs_item {data rest : Str} (k : Nat) (args : List Str)
    (hdigits : formatInt data.length = some digits)
    (hdrop : buf.drop n = 36 :: digits ++ crlf ++ (data ++ crlf ++ rest)) :
    nextArgs buf (k + 1) n args = nextArgs buf k
      ((n + (36 :: digits ++ crlf ++ (data ++ crlf)).length : Nat) : Int) (args ++ [data]) := by
  obtain ⟨hbyte, hfind, hslice⟩ := header_found hdrop (not_mem_header hdigits (by decide))
  have hlt : n < buf.length := lt_length (by rw [hdrop]; simp)
  have hlength : buf.length - n = digits.length + 1 + 2 + (data.length + 2 + rest.length) := by
    rw [← length_drop, hdrop]
    simp [crlf]
    omega
  have hdata : slice buf ((n + (digits.length + 1) : Nat) + 2)
      ((n + (digits.length + 1) : Nat) + 2 + data.length) = data := by
    rw [show (((n + (digits.length + 1) : Nat) : Int) + 2) = ((n + (digits.length + 3) : Nat) : Int)
      by omega, show (((n + (digits.length + 3) : Nat) : Int) + data.length) =
        ((n + (digits.length + 3) + data.length : Nat) : Int) by omega,
      slice_natCast (by omega) (by omega), ← drop_drop, hdrop,
      drop_left' (by simp [crlf]), append_assoc, take_left' (by omega)]
  rw [nextArgs, if_neg (by omega), hbyte]
  simp only [hfind, hslice, (formatInt_spec hdigits).1]
  rw [if_neg (by decide), if_neg (by omega), hdata]
  congr 1
  simp [crlf]
  omega

/-- A bulk string that is not complete is waited for. -/
theorem nextArgs_open {data : Str} (k : Nat) (args : List Str)
    (hdigits : formatInt data.length = some digits)
    (hs : buf.drop n <+: 36 :: digits ++ crlf ++ (data ++ crlf))
    (hne : buf.drop n ≠ 36 :: digits ++ crlf ++ (data ++ crlf)) :
    nextArgs buf (k + 1) n args = .ok none := by
  have hline := not_mem_header hdigits (show (36 : UInt8) ≠ 13 by decide)
  rw [nextArgs]
  by_cases hpos : buf.drop n = []
  · rw [if_pos]
    have := drop_eq_nil_iff.mp hpos
    omega
  · have hlt := lt_length hpos
    rw [if_neg (by omega)]
    rcases prefix_cases hs with ⟨hpart, hpartne⟩ | ⟨s, hdrop, hs'⟩
    · obtain ⟨hbyte, hfind⟩ := header_open hpart hpartne hline hpos
      rw [hbyte]
      simp only [hfind]
      rw [if_neg (by decide)]
    · obtain ⟨hbyte, hfind, hslice⟩ := header_found hdrop hline
      have hshort : s.length < data.length + 2 := by
        refine lt_of_le_of_ne (by simpa [crlf] using hs'.length_le) fun heq => hne ?_
        rw [hdrop, hs'.eq_of_length (by simpa [crlf] using heq)]
      have hlength : buf.length - n = digits.length + 1 + 2 + s.length := by
        rw [← length_drop, hdrop]
        simp [crlf]
        omega
      rw [hbyte]
      simp only [hfind, hslice, (formatInt_spec hdigits).1]
      rw [if_neg (by decide), if_pos (by omega)]

/-- The bulk strings of a command are taken off. -/
theorem nextArgs_items {args codes : List Str} {rest : Str}
    (hcodes : args.mapM encodeBulk = some codes) (hdrop : buf.drop n = codes.flatten ++ rest)
    (done : List Str) :
    nextArgs buf args.length n done =
      .ok (some (done ++ args, ((n + codes.flatten.length : Nat) : Int))) := by
  induction args generalizing codes n done with
  | nil =>
    obtain rfl : codes = [] := by simpa using hcodes.symm
    simp [nextArgs]
  | cons arg args ih =>
    obtain ⟨code, codes, hcode, hcodes', rfl⟩ := mapM_cons_eq_some hcodes
    obtain ⟨digits, hdigits, rfl⟩ := encodeBulk_eq_some hcode
    have hdrop' : buf.drop n =
        36 :: digits ++ crlf ++ (arg ++ crlf ++ (codes.flatten ++ rest)) := by
      rw [hdrop, flatten_cons]
      simp only [append_assoc]
    have hrest : buf.drop (n + (36 :: digits ++ crlf ++ (arg ++ crlf)).length) =
        codes.flatten ++ rest := by
      rw [← drop_drop, hdrop, flatten_cons, append_assoc _ codes.flatten, drop_left]
    have hstop : n + (36 :: digits ++ crlf ++ (arg ++ crlf)).length + codes.flatten.length =
        n + ((36 :: digits ++ crlf ++ (arg ++ crlf)) :: codes).flatten.length := by
      simp only [flatten_cons, length_append]
      omega
    rw [length_cons, nextArgs_item _ _ hdigits hdrop', ih hcodes' hrest, hstop,
      append_assoc, singleton_append]

/-- Bulk strings that are not all there are waited for. -/
theorem nextArgs_items_open {args codes : List Str} (hcodes : args.mapM encodeBulk = some codes)
    (hs : buf.drop n <+: codes.flatten) (hne : buf.drop n ≠ codes.flatten) (done : List Str) :
    nextArgs buf args.length n done = .ok none := by
  induction args generalizing codes n done with
  | nil =>
    obtain rfl : codes = [] := by simpa using hcodes.symm
    exact absurd (prefix_nil.mp hs) hne
  | cons arg args ih =>
    obtain ⟨code, codes, hcode, hcodes', rfl⟩ := mapM_cons_eq_some hcodes
    obtain ⟨digits, hdigits, rfl⟩ := encodeBulk_eq_some hcode
    rw [flatten_cons] at hs hne
    rw [length_cons]
    rcases prefix_cases hs with ⟨hpart, hpartne⟩ | ⟨s, hdrop, hs'⟩
    · exact nextArgs_open _ _ hdigits hpart hpartne
    · have hdrop' : buf.drop n = 36 :: digits ++ crlf ++ (arg ++ crlf ++ s) := by
        rw [hdrop]
        simp only [append_assoc]
      have hrest : buf.drop (n + (36 :: digits ++ crlf ++ (arg ++ crlf)).length) = s := by
        rw [← drop_drop, hdrop, drop_left]
      rw [nextArgs_item _ _ hdigits hdrop']
      refine ih hcodes' (hrest ▸ hs') (fun heq => hne ?_) _
      rw [hdrop, ← heq, hrest]

/-- **An encoded command is taken off.** -/
theorem nextCommand_encoded {args : List Str} {code rest : Str}
    (hcode : encodeCommand args = some code) (hdrop : buf.drop n = code ++ rest) :
    nextCommand buf n = .ok (some (args, ((n + code.length : Nat) : Int))) := by
  obtain ⟨digits, codes, hdigits, hcodes, rfl⟩ := encodeCommand_eq_some hcode
  rw [append_assoc] at hdrop
  obtain ⟨hbyte, hfind, hslice⟩ := header_found hdrop (not_mem_header hdigits (by decide))
  have hlt : n < buf.length := lt_length (by rw [hdrop]; simp)
  have hrest : buf.drop (n + (digits.length + 3)) = codes.flatten ++ rest := by
    rw [← drop_drop, hdrop, drop_left' (by simp [crlf])]
  rw [nextCommand, if_neg (by omega), hbyte]
  simp only [hfind, hslice, (formatInt_spec hdigits).1]
  rw [if_neg (by decide), Int.toNat_natCast,
    show (((n + (digits.length + 1) : Nat) : Int) + 2) = ((n + (digits.length + 3) : Nat) : Int)
      by omega, nextArgs_items hcodes hrest, nil_append]
  simp [crlf]
  omega

/-- **An encoded command that is not complete is waited for.** -/
theorem nextCommand_open {args : List Str} {code : Str} (hcode : encodeCommand args = some code)
    (hs : buf.drop n <+: code) (hne : buf.drop n ≠ code) : nextCommand buf n = .ok none := by
  obtain ⟨digits, codes, hdigits, hcodes, rfl⟩ := encodeCommand_eq_some hcode
  have hline := not_mem_header hdigits (show (42 : UInt8) ≠ 13 by decide)
  rw [nextCommand]
  by_cases hpos : buf.drop n = []
  · rw [if_pos]
    have := drop_eq_nil_iff.mp hpos
    omega
  · have hlt := lt_length hpos
    rw [if_neg (by omega)]
    rcases prefix_cases hs with ⟨hpart, hpartne⟩ | ⟨s, hdrop, hs'⟩
    · obtain ⟨hbyte, hfind⟩ := header_open hpart hpartne hline hpos
      rw [hbyte]
      simp only [hfind]
      rw [if_neg (by decide)]
    · obtain ⟨hbyte, hfind, hslice⟩ := header_found hdrop hline
      have hrest : buf.drop (n + (digits.length + 3)) = s := by
        rw [← drop_drop, hdrop, drop_left' (by simp [crlf])]
      rw [hbyte]
      simp only [hfind, hslice, (formatInt_spec hdigits).1]
      rw [if_neg (by decide), Int.toNat_natCast,
        show (((n + (digits.length + 1) : Nat) : Int) + 2) = ((n + (digits.length + 3) : Nat) : Int)
          by omega]
      refine nextArgs_items_open hcodes (hrest ▸ hs') (fun heq => hne ?_) []
      rw [hdrop, ← heq, hrest]

end Stream

/-! ## What a replica makes of a stream -/

namespace ReplicaLink

open Request

variable [CPython] {σ : Type} [EvictionPolicy σ]

/-- **Commands are followed one by one**: each is applied and its bytes are counted. -/
def followAll (l : List (Str × List Str)) (f : Follower σ) : Follower σ :=
  l.foldl (fun f q => follow q.2 q.1 f) f

/-- Encoded commands, none of them empty, each behind its bytes. -/
def Sent (l : List (Str × List Str)) : Prop :=
  ∀ q ∈ l, encodeCommand q.2 = some q.1 ∧ q.2 ≠ []

theorem offset_follow (args : List Str) (data : Str) (f : Follower σ) :
    (follow args data f).replica.state.offset = f.replica.state.offset + data.length := by
  have hstate : (perform (args.headD []) args.tail f).replica.state = f.replica.state := by
    unfold perform
    dsimp only
    split
    · rfl
    · split
      · split <;> rfl
      · split <;> rfl
  unfold follow count ReplicationState.offset Backlog.append
  rw [hstate]

/-- **The offset counts the bytes of the commands.** -/
theorem offset_followAll (l : List (Str × List Str)) (f : Follower σ) :
    (followAll l f).replica.state.offset =
      f.replica.state.offset + (Parser.stream l).length := by
  induction l generalizing f with
  | nil => simp [followAll, Parser.stream]
  | cons q l ih =>
    obtain ⟨code, args⟩ := q
    rw [Parser.stream_cons, followAll, foldl_cons]
    show (followAll l (follow args code f)).replica.state.offset = _
    rw [ih, offset_follow, length_append]
    omega

/-- **The complete commands on the buffer are taken off**, and nothing else. -/
theorem takeOff_sent {l : List (Str × List Str)} (hl : Sent l) {buf : Str} {n fuel : Nat}
    (hs : buf.drop n <+: Parser.stream l) (hfuel : (buf.drop n).length < fuel) (f : Follower σ) :
    ∃ l₁ l₂ left, l = l₁ ++ l₂ ∧ buf.drop n = Parser.stream l₁ ++ left ∧ Parser.Waiting l₂ left ∧
      takeOff buf fuel n f = .ok (((n + (Parser.stream l₁).length : Nat) : Int), followAll l₁ f) := by
  induction l generalizing n fuel f with
  | nil =>
    have hnil : buf.drop n = [] := prefix_nil.mp (by simpa [Parser.stream] using hs)
    obtain ⟨fuel, rfl⟩ := Nat.exists_eq_succ_of_ne_zero (Nat.ne_zero_of_lt hfuel)
    refine ⟨[], [], [], rfl, hnil, rfl, ?_⟩
    have hle := drop_eq_nil_iff.mp hnil
    rw [takeOff, Stream.nextCommand, if_pos (by omega)]
    rfl
  | cons q l ih =>
    obtain ⟨code, args⟩ := q
    obtain ⟨hcode, hne⟩ := hl (code, args) mem_cons_self
    obtain ⟨fuel, rfl⟩ := Nat.exists_eq_succ_of_ne_zero (Nat.ne_zero_of_lt hfuel)
    rw [Parser.stream_cons] at hs
    rcases prefix_cases hs with ⟨hpart, hpartne⟩ | ⟨s, hdrop, hs'⟩
    · -- the next command is not complete
      refine ⟨[], _, buf.drop n, rfl, rfl, ⟨hpart, hpartne⟩, ?_⟩
      rw [takeOff, Stream.nextCommand_open hcode hpart hpartne]
      rfl
    · have hrest : buf.drop (n + code.length) = s := by
        rw [← drop_drop, hdrop, drop_left]
      have hcodepos : code ≠ [] := by
        obtain ⟨digits, codes, -, -, rfl⟩ := encodeCommand_eq_some hcode
        simp
      have hlt : n < buf.length := Stream.lt_length (by rw [hdrop]; simp [hcodepos])
      have hlength : buf.length - n = code.length + s.length := by
        rw [← length_drop, hdrop, length_append]
      have hslice : slice buf n ((n + code.length : Nat) : Int) = code := by
        rw [slice_natCast (by omega) (by omega), hdrop, Nat.add_sub_cancel_left, take_left]
      have hpos := length_pos_iff.mpr hcodepos
      have hfuel' : (buf.drop (n + code.length)).length < fuel := by
        rw [hrest]
        rw [hdrop, length_append] at hfuel
        omega
      obtain ⟨l₁, l₂, left, rfl, hleft, hwaiting, htake⟩ :=
        ih (fun q hq => hl q (mem_cons_of_mem _ hq)) (hrest ▸ hs') hfuel'
          (follow args code f)
      refine ⟨(code, args) :: l₁, l₂, left, rfl, ?_, hwaiting, ?_⟩
      · rw [hdrop, Parser.stream_cons, append_assoc, ← hleft, hrest]
      · rw [takeOff, Stream.nextCommand_encoded hcode hdrop]
        dsimp only
        rw [if_neg hne, hslice, htake, Parser.stream_cons, length_append, Nat.add_assoc]
        rfl

/-- **However the stream is split, a replica follows each command once and in order**, as soon as it is
complete. -/
theorem streamAll_sent {l : List (Str × List Str)} (hl : Sent l) {chunks : List Str}
    (hchunks : ∀ c ∈ chunks, c ≠ []) {buf : Str} (hbuf : Parser.Waiting l buf)
    (hs : buf ++ chunks.flatten <+: Parser.stream l) (f : Follower σ) :
    ∃ l₁ l₂ left, l = l₁ ++ l₂ ∧ buf ++ chunks.flatten = Parser.stream l₁ ++ left ∧
      Parser.Waiting l₂ left ∧ streamAll chunks buf f = .ok (left, followAll l₁ f) := by
  induction chunks generalizing l buf f with
  | nil => exact ⟨[], l, buf, rfl, by simp [Parser.stream], hbuf, rfl⟩
  | cons data chunks ih =>
    rw [flatten_cons, ← append_assoc] at hs ⊢
    have hprefix : (buf ++ data).drop 0 <+: Parser.stream l := (prefix_append _ _).trans hs
    have hfuel : ((buf ++ data).drop 0).length < 2 * (buf ++ data).length + 2 := by
      rw [drop_zero]
      omega
    obtain ⟨l₁, l₂, left, rfl, hleft, hwaiting, htake⟩ := takeOff_sent hl hprefix hfuel f
    rw [drop_zero] at hleft
    have hsplit : Parser.stream (l₁ ++ l₂) = Parser.stream l₁ ++ Parser.stream l₂ := by
      simp [Parser.stream]
    have hrest : left ++ chunks.flatten <+: Parser.stream l₂ := by
      rw [hleft, hsplit, append_assoc] at hs
      exact (prefix_append_right_inj _).mp hs
    obtain ⟨l₃, l₄, left', rfl, hleft', hwaiting', hmore⟩ :=
      ih (fun q hq => hl q (mem_append_right _ hq))
        (fun c hc => hchunks c (mem_cons_of_mem _ hc)) hwaiting hrest (followAll l₁ f)
    refine ⟨l₁ ++ l₃, l₄, left', by rw [append_assoc], ?_, hwaiting', ?_⟩
    · rw [hleft, append_assoc, hleft']
      simp [Parser.stream]
    · have hstream : stream data buf f = .ok (left, followAll l₁ f) := by
        rw [stream, if_neg (hchunks data mem_cons_self)]
        dsimp only
        rw [show (0 : Int) = ((0 : Nat) : Int) from rfl, htake]
        show Except.ok ((buf ++ data).drop (sliceBound (buf ++ data).length _), _) = _
        rw [sliceBound_natCast (by rw [hleft, length_append]; omega), hleft, Nat.zero_add,
          drop_left]
      rw [streamAll, hstream]
      dsimp only
      rw [hmore, followAll, followAll, followAll, foldl_append]

/-- **The framing of commands delimits itself under any chunking.** The server's parser returns exactly
the commands that were encoded; and a replica, after any number of chunks, has followed those that have
arrived in full, each once and in order, and its offset has moved by their length. -/
theorem framing_exact {maxBulk : Nat} {l : List (Str × List Str)}
    (hl : ∀ q ∈ l, encodeCommand q.2 = some q.1 ∧ Fits maxBulk q.2) {chunks : List Str}
    (hchunks : chunks.flatten = Parser.stream l) :
    RequestParser.receiveAll chunks (.init maxBulk) = (l.map Prod.snd, [], none) ∧
    ∀ received rest, chunks = received ++ rest → (∀ c ∈ received, c ≠ []) → ∀ f : Follower σ,
      ∃ complete todo left f', l = complete ++ todo ∧
        received.flatten = Parser.stream complete ++ left ∧ Parser.Waiting todo left ∧
        streamAll received [] f = .ok (left, f') ∧ f' = followAll complete f ∧
        f'.replica.state.offset = f.replica.state.offset + (Parser.stream complete).length := by
  have hsent : Sent l := fun q hq => ⟨(hl q hq).1, (hl q hq).2.ne_nil⟩
  constructor
  · have hcodes : (l.map Prod.snd).mapM encodeCommand = some (l.map Prod.fst) := by
      rw [mapM_map]
      clear hchunks hsent
      induction l with
      | nil => rfl
      | cons q l ih =>
        rw [mapM_cons, ih fun q' hq' => hl q' (mem_cons_of_mem _ hq')]
        simp [(hl q mem_cons_self).1]
    refine receiveAll_encoded hcodes (fun c hc => ?_) hchunks
    obtain ⟨q, hq, rfl⟩ := mem_map.mp hc
    exact (hl q hq).2
  · rintro received rest rfl hreceived f
    have hwaiting : Parser.Waiting l [] := by
      cases l with
      | nil => rfl
      | cons q l =>
        refine ⟨List.nil_prefix, fun hnil => ?_⟩
        obtain ⟨digits, codes, -, -, hcode⟩ := encodeCommand_eq_some (hsent q mem_cons_self).1
        rw [← hnil] at hcode
        cases hcode
    have hs : [] ++ received.flatten <+: Parser.stream l := by
      rw [← hchunks, flatten_append, nil_append]
      exact prefix_append _ _
    obtain ⟨complete, todo, left, hsplit, hleft, hwaiting', hstream⟩ :=
      streamAll_sent hsent hreceived hwaiting hs f
    exact ⟨complete, todo, left, _, hsplit, hleft, hwaiting', hstream, rfl, offset_followAll _ f⟩

end ReplicaLink

section Concrete

open ReplicaLink Request

noncomputable local instance streamPython : CPython := referencePython

/-- Two commands, the value of the first looking like a part of the framing. -/
def framedPair : List (Str × List Str) :=
  [(text "*3\r\n$3\r\nSET\r\n$1\r\nk\r\n$3\r\n\r\n$\r\n", [text "SET", text "k", text "\r\n$"]),
    (text "*1\r\n$4\r\nPING\r\n", [text "PING"])]

/-- A replica at offset 10 that has just begun to follow. -/
noncomputable def newFollower : Follower NoEviction where
  replica := emptyReplica none
  world := Env.quiet

/-- Cut inside that value, the pair is read by the server's parser and followed by a replica. -/
theorem framing_exact_framedPair :
    let chunks := [(Parser.stream framedPair).take 25, (Parser.stream framedPair).drop 25]
    RequestParser.receiveAll chunks (.init 4) = (framedPair.map Prod.snd, [], none) ∧
      ∃ complete todo left f', framedPair = complete ++ todo ∧
        (Parser.stream framedPair).take 25 = Parser.stream complete ++ left ∧
        streamAll [(Parser.stream framedPair).take 25] [] newFollower = .ok (left, f') ∧
        f'.replica.state.offset = 10 + (Parser.stream complete).length := by
  intro chunks
  have hfits : ∀ q ∈ framedPair, encodeCommand q.2 = some q.1 ∧ Fits 4 q.2 := by
    intro q hq
    simp only [framedPair, mem_cons, not_mem_nil, or_false] at hq
    rcases hq with rfl | rfl
    · exact ⟨by decide +kernel, by decide, by decide, by decide⟩
    · exact ⟨by decide +kernel, by decide, by decide, by decide⟩
  have hchunks : chunks.flatten = Parser.stream framedPair := by
    simp only [chunks, flatten_cons, flatten_nil, append_nil, take_append_drop]
  obtain ⟨hparser, hreplica⟩ := framing_exact (σ := NoEviction) hfits hchunks
  obtain ⟨complete, todo, left, f', hsplit, hleft, -, hstream, -, hoffset⟩ :=
    hreplica [(Parser.stream framedPair).take 25] _ rfl (by decide) newFollower
  refine ⟨hparser, complete, todo, left, f', hsplit, ?_, hstream, hoffset⟩
  rw [← hleft]
  simp

end Concrete

end KvStore
