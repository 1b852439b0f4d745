import KvStore.Protocol.Requests

/-! # Requests that arrive in pieces

The parser of requests gives up on a line that has not ended when more than `maxInline` bytes of it
have arrived. It looks at no line that has, so that what it makes of a longer line depends on whether
the end of the line comes with the rest.

* **`Request.ShortLines`** — the streams without such lines.
* **`RequestParser.split_irrelevant_iff`** — for these and no others it makes no difference how the
  bytes are split.
* **`Request.receiveAll_encoded`** — encoded commands are such a stream, and come out again. -/

namespace KvStore

open List

/-! ## Whether it matters how the bytes are split -/

namespace Request

/-- **No line is too long**: every line that a request of the stream has, its end included, is at most
one byte longer than the limit on a line that has not ended. -/
def ShortLines (maxBulk : Nat) (stream : Str) : Prop :=
  ∀ commands st rest, (scanner maxBulk).Reaches .idle stream commands st rest →
    ∀ line after, cutLine st rest = some (line, after) →
      rest.length - after.length ≤ maxInline + 1

/-- Where no line has ended, nothing but more can be asked for. -/
theorem step_eq_notReady {maxBulk : Nat} {st : Stage} {s : Str} (hrefuse : refuse st s = none)
    (hcut : cutLine st s = none) : (scanner maxBulk).step st s = .notReady := by
  rw [scanner_step, step, hrefuse, hcut]

theorem refuse_of_notReady {maxBulk : Nat} {st : Stage} {s : Str}
    (h : (scanner maxBulk).step st s = .notReady) : refuse st s = none := by
  have h : step maxBulk st s = .notReady := h
  rw [step] at h
  cases hrefuse : refuse st s with
  | none => rfl
  | some e =>
    rw [hrefuse] at h
    cases h

/-- The limit is kept exactly where a line has not ended. -/
theorem giveUp_eq_some {st : Stage} {s : Str} {e : WireError} :
    giveUp st s = some e ↔ cutLine st s = none ∧ maxInline < s.length ∧ e = tooBigLine := by
  unfold giveUp
  split
  · rename_i h
    simp [h.1, h.2, eq_comm]
  · rename_i h
    simp only [reduceCtorEq, false_iff]
    exact fun h' => h ⟨h'.1, h'.2.1⟩

/-- No other error has the words of the limit. -/
theorem ne_tooBigLine {maxBulk : Nat} {st : Stage} {s : Str} {e : WireError}
    (h : (scanner maxBulk).step st s = .malformed e) : e ≠ tooBigLine := by
  have h : step maxBulk st s = .malformed e := h
  have hnotBulk : ∀ b, notBulk b ≠ tooBigLine := by
    intro b heq
    have hletter : ((notBulk b).message.drop 16).head? = some 101 := rfl
    rw [heq] at hletter
    exact absurd hletter (by decide)
  rw [step] at h
  cases hrefuse : refuse st s with
  | some e' =>
    rw [hrefuse] at h
    cases h
    cases st with
    | idle => cases hrefuse
    | items args more =>
      rw [refuse] at hrefuse
      cases hhead : s.head? with
      | none =>
        rw [hhead] at hrefuse
        cases hrefuse
      | some b =>
        rw [hhead, Option.bind_some] at hrefuse
        split at hrefuse
        · cases hrefuse
        · cases hrefuse
          exact hnotBulk b
    | oversized =>
      cases hrefuse
      decide
  | none =>
    rw [hrefuse] at h
    cases hcut : cutLine st s with
    | none =>
      rw [hcut] at h
      cases h
    | some found =>
      obtain ⟨line, rest⟩ := found
      rw [hcut] at h
      have h : behind maxBulk st line rest = .malformed e := h
      cases st with
      | idle =>
        rw [behind] at h
        split at h
        · rw [header] at h
          repeat' split at h
          all_goals cases h
          decide
        · cases h
      | items args more =>
        rw [behind, bulk] at h
        repeat' split at h
        all_goals cases h
        all_goals decide
      | oversized => cases h

/-- **Giving up is for good exactly if no line is too long.** -/
theorem givesUpForGood_iff {maxBulk : Nat} {stream : Str} :
    (scanner maxBulk).GivesUpForGood giveUp .idle stream ↔ ShortLines maxBulk stream := by
  constructor
  · intro hgood commands st rest hreaches line after hcut
    by_contra hlong
    obtain ⟨code, hne, rfl, hhead, hcuts⟩ := cuts_cutLine hcut
    rw [length_append, Nat.add_sub_cancel] at hlong
    -- all of the line but its last byte
    have hpart : code = code.dropLast ++ [code.getLast hne] := (dropLast_concat_getLast hne).symm
    have hopen : cutLine st code.dropLast = none := by
      refine hcuts.open_ _ (List.dropLast_prefix code) fun heq => ?_
      have := congrArg List.length heq
      rw [length_dropLast] at this
      have := length_pos_iff.mpr hne
      omega
    have hlength : maxInline < code.dropLast.length := by
      rw [length_dropLast]
      omega
    have hrefuse : refuse st code.dropLast = none := by
      have hsame : code.dropLast.head? = (code ++ after).head? := by
        match code, hne with
        | [b], _ => simp [maxInline] at hlength
        | b :: c :: code, _ => rfl
      rw [refuse_congr hsame]
      cases hst : st with
      | idle => rfl
      | oversized =>
        rw [hst] at hcut
        cases hcut
      | items args more =>
        rw [hst, cutLine] at hcut
        split at hcut
        · rename_i hbulk
          rw [refuse, hbulk]
          rfl
        · cases hcut
    obtain ⟨-, hgive⟩ := hgood commands st _ hreaches code.dropLast ([code.getLast hne] ++ after)
      (by rw [← append_assoc, ← hpart]) tooBigLine (step_eq_notReady hrefuse hopen)
      (giveUp_eq_some.mpr ⟨hopen, hlength, rfl⟩)
    rw [giveUp_eq_some, hcut] at hgive
    cases hgive.1
  · intro hshort commands st rest hreaches part more hrest e hstep hgive
    obtain ⟨hopen, hlength, rfl⟩ := giveUp_eq_some.mp hgive
    have hrefuse : refuse st rest = none := by
      rw [← refuse_of_notReady hstep]
      refine refuse_congr ?_
      obtain ⟨b, part, rfl⟩ := exists_cons_of_ne_nil
        (length_pos_iff.mp (show 0 < part.length by omega))
      rw [hrest]
      rfl
    have hcut : cutLine st rest = none := by
      by_contra hsome
      obtain ⟨⟨line, after⟩, hcut⟩ := Option.ne_none_iff_exists'.mp hsome
      have hline := hshort commands st rest hreaches line after hcut
      obtain ⟨code, hne, hcode, -, hcuts⟩ := cuts_cutLine hcut
      rw [hcode, length_append, Nat.add_sub_cancel] at hline
      -- the part that has arrived would hold all of the line
      have hcode' : code <+: rest := hcode ▸ prefix_append _ _
      have hpart' : part <+: rest := hrest ▸ prefix_append _ _
      obtain ⟨tail, rfl⟩ := prefix_of_prefix_length_le hcode' hpart' (by omega)
      rw [hcuts.found] at hopen
      cases hopen
    refine ⟨step_eq_notReady hrefuse hcut, giveUp_eq_some.mpr ⟨hcut, ?_, rfl⟩⟩
    rw [hrest, length_append]
    omega

theorem stopsAt_init (maxBulk : Nat) : (scanner maxBulk).StopsAt giveUp .idle [] none :=
  .inl ⟨rfl, rfl⟩

end Request

namespace RequestParser

open Request

/-- **What the server understands does not depend on how bytes are split, exactly if no line is too
long**: the commands, the place in the stream where the parser stands in the end, and its error. -/
theorem split_irrelevant_iff (maxBulk : Nat) (stream : Str) :
    (∀ chunks chunks' : List Str, chunks.flatten = stream → chunks'.flatten = stream →
      receiveAll chunks (init maxBulk) = receiveAll chunks' (init maxBulk)) ↔
    ShortLines maxBulk stream := by
  have hinit : ∀ chunks, receiveAll chunks (init maxBulk) =
      (((scanner maxBulk).receive giveUp chunks .idle []).1,
        ((scanner maxBulk).receive giveUp chunks .idle []).2.2) :=
    fun chunks => receiveAll_spec chunks (init maxBulk)
  have herr : ∀ {st s part e}, (scanner maxBulk).step st s = .malformed e →
      giveUp st part ≠ some e :=
    fun hstep hgive => ne_tooBigLine hstep (giveUp_eq_some.mp hgive).2.2
  rw [← givesUpForGood_iff, ← Scanner.receive_eq_iff (stopsAt_init maxBulk) herr]
  constructor
  · intro hsame pieces hpieces
    have h := hsame pieces [stream] hpieces (by simp)
    rw [hinit, hinit, Prod.mk.injEq] at h
    exact h
  · intro hsame chunks chunks' hchunks hchunks'
    rw [hinit, hinit, (hsame chunks hchunks).1, (hsame chunks hchunks).2, (hsame chunks' hchunks').1,
      (hsame chunks' hchunks').2]

/-- A line of one word is a command, once its end is there; before that the parser gives up on it when
it is long. -/
theorem receive_word {n : Nat} (hn : maxInline < n) (maxBulk : Nat) :
    receiveAll [List.replicate n 97, [10]] (init maxBulk) =
        ([], List.replicate n 97 ++ [10], some tooBigLine) ∧
      receiveAll [List.replicate n 97 ++ [10]] (init maxBulk) =
        ([[List.replicate n 97]], [], none) := by
  have hpos : n ≠ 0 := Nat.ne_zero_of_lt hn
  have hword : (List.replicate n (97 : UInt8)) ≠ [] := by simp [hpos]
  have hmem : ∀ b ∈ List.replicate n (97 : UInt8), b = 97 := fun b hb => eq_of_mem_replicate hb
  have hhead : ∀ more, (List.replicate n (97 : UInt8) ++ more).head? = some 97 := by
    intro more
    obtain ⟨n, rfl⟩ := Nat.exists_eq_succ_of_ne_zero hpos
    rfl
  have hcut : ∀ more, cutLine .idle (List.replicate n 97 ++ more) =
      splitNewline (List.replicate n 97 ++ more) := by
    intro more
    rw [cutLine, if_neg (by rw [hhead more]; decide)]
  have hopen : cutLine .idle (List.replicate n 97) = none := by
    have h := hcut []
    rw [append_nil] at h
    rw [h]
    exact splitNewline_eq_none fun hten => absurd (hmem 10 hten) (by decide)
  have hfound : cutLine .idle (List.replicate n 97 ++ [10]) = some (List.replicate n 97, []) := by
    rw [hcut]
    exact splitNewline_append (fun hten => absurd (hmem 10 hten) (by decide)) []
  have hwords : inlineWords (List.replicate n 97) = [List.replicate n 97] := by
    rw [inlineWords, rdropWhile_eq_self_iff.mpr, splitWords, splitOnP_eq_singleton]
    · simp [hpos]
    · intro b hb
      rw [hmem b hb]
      rfl
    · intro hne
      rw [hmem _ (getLast_mem hne)]
      decide
  constructor
  · have hpart : (scanner maxBulk).receive giveUp [[] ++ List.replicate n 97, [10]] .idle [] =
        ([], .idle, List.replicate n 97 ++ [10], some tooBigLine) :=
      Scanner.receive_part (fun u => .refl _ u) (step_eq_notReady rfl hopen)
        (giveUp_eq_some.mpr ⟨hopen, by simpa using hn, rfl⟩)
    rw [receiveAll_spec]
    exact congrArg (fun r => (r.1, r.2.2)) hpart
  · have hstep : (scanner maxBulk).step .idle (List.replicate n 97 ++ [10]) =
        .done (.idle, some [List.replicate n 97]) [] := by
      rw [scanner_step, step, refuse, hfound]
      show behind maxBulk .idle _ [] = _
      rw [behind, if_neg, hwords]
      have h := hhead []
      rw [append_nil] at h
      rw [h]
      decide
    have hdrain := Scanner.drain_of_stop (.step hstep (.refl _ _)) (stopsAt_init maxBulk)
      (Nat.lt_succ_self _)
    rw [receiveAll_spec]
    exact congrArg (fun r => (r.1, r.2.2)) ((Scanner.receive_single _ _ _ _).trans hdrain)

/-- A line of one word longer than the limit is understood when it arrives at once, and refused when
its last byte arrives on its own. -/
theorem split_word_matters :
    receiveAll [List.replicate 65537 97, [10]] (init defaultMaxBulk) =
        ([], List.replicate 65537 97 ++ [10], some tooBigLine) ∧
      receiveAll [List.replicate 65537 97 ++ [10]] (init defaultMaxBulk) =
        ([[List.replicate 65537 97]], [], none) :=
  receive_word (by decide) defaultMaxBulk

end RequestParser

/-! ## Encoded commands -/

namespace Request

/-- **A command the parser has room for.** -/
structure Fits (maxBulk : Nat) (args : List Str) : Prop where
  ne_nil : args ≠ []
  few : args.length ≤ maxArray
  short : ∀ arg ∈ args, arg.length ≤ maxBulk

/-- **Encoded commands**, from some place in a request on. -/
inductive Encoded (maxBulk : Nat) : Stage → Str → Prop
  | nil : Encoded maxBulk .idle []
  | command {args : List Str} {digits rest : Str} (hdigits : formatInt args.length = some digits)
      (hfits : Fits maxBulk args) (hrest : Encoded maxBulk (.items [] (args.length - 1)) rest) :
      Encoded maxBulk .idle (42 :: digits ++ crlf ++ rest)
  | item {args : List Str} {more : Nat} {data digits rest : Str}
      (hdigits : formatInt data.length = some digits) (hshort : data.length ≤ maxBulk)
      (hrest : Encoded maxBulk (Stage.take args more data).1 rest) :
      Encoded maxBulk (.items args more) (36 :: digits ++ crlf ++ (data ++ crlf ++ rest))

variable {maxBulk : Nat} {args : List Str} {digits rest : Str}

theorem cutLine_digits {st : Stage} {kind : UInt8} {n : Int} (hdigits : formatInt n = some digits)
    (hkind : kind ≠ 13)
    (hst : ∀ s : Str, s.head? = some kind → cutLine st s = splitLine s) :
    cutLine st (kind :: digits ++ crlf ++ rest) = some (kind :: digits, rest) := by
  rw [hst _ rfl]
  refine splitLine_append (fun hmem => ?_) rest
  rcases mem_cons.mp hmem with heq | hmem
  · exact hkind heq.symm
  · exact (formatInt_spec hdigits).2 hmem

theorem cutLine_command {n : Int} (hdigits : formatInt n = some digits) :
    cutLine .idle (42 :: digits ++ crlf ++ rest) = some (42 :: digits, rest) :=
  cutLine_digits hdigits (by decide) fun s hs => by rw [cutLine, if_pos hs]

theorem cutLine_item {more : Nat} {n : Int} (hdigits : formatInt n = some digits) :
    cutLine (.items args more) (36 :: digits ++ crlf ++ rest) = some (36 :: digits, rest) :=
  cutLine_digits hdigits (by decide) fun s hs => by rw [cutLine, if_pos hs]

theorem step_command (hdigits : formatInt args.length = some digits) (hfits : Fits maxBulk args) :
    (scanner maxBulk).step .idle (42 :: digits ++ crlf ++ rest) =
      .done (.items [] (args.length - 1), none) rest := by
  have hpos := length_pos_iff.mpr hfits.ne_nil
  have hfew := hfits.few
  rw [scanner_step, Request.step, refuse, cutLine_command hdigits]
  show behind maxBulk .idle (42 :: digits) rest = _
  rw [behind, if_pos (show (42 :: digits : Str).head? = some 42 from rfl), header, tail_cons,
    (formatInt_spec hdigits).1]
  simp only
  rw [if_neg (by omega), if_neg (by omega), Int.toNat_natCast]

theorem step_item {more : Nat} {data : Str} (hdigits : formatInt data.length = some digits)
    (hshort : data.length ≤ maxBulk) :
    (scanner maxBulk).step (.items args more) (36 :: digits ++ crlf ++ (data ++ crlf ++ rest)) =
      .done (Stage.take args more data) rest := by
  rw [scanner_step, Request.step, cutLine_item hdigits]
  show behind maxBulk (.items args more) (36 :: digits) (data ++ crlf ++ rest) = _
  have hlong : ¬ (data ++ crlf ++ rest).length < data.length + 2 := by
    simp only [length_append, crlf, length_cons, length_nil]
    omega
  have hend : ¬ ((data ++ crlf ++ rest).drop data.length).take 2 ≠ crlf := by
    rw [not_not, append_assoc, drop_left]
    rfl
  have hrest : (data ++ crlf ++ rest).drop (data.length + 2) = rest :=
    drop_left' (by simp [crlf])
  rw [behind, bulk, tail_cons, (formatInt_spec hdigits).1]
  simp only
  rw [if_neg (by omega), Int.toNat_natCast, if_neg hlong, if_neg hend, hrest, append_assoc,
    take_left]

/-- What is behind a unit is encoded too. -/
theorem Encoded.step {st st' : Stage} {s : Str} {v : Option (List Str)} (h : Encoded maxBulk st s)
    (hstep : (scanner maxBulk).step st s = .done (st', v) rest) : Encoded maxBulk st' rest := by
  cases h with
  | nil => cases hstep
  | command hdigits hfits hrest =>
    rw [step_command hdigits hfits] at hstep
    cases hstep
    exact hrest
  | item hdigits hshort hrest =>
    rw [step_item hdigits hshort, Parsed.done.injEq] at hstep
    obtain ⟨htake, rfl⟩ := hstep
    rw [htake] at hrest
    exact hrest

/-- **Encoded commands have no long lines.** -/
theorem Encoded.shortLines {s : Str} (h : Encoded maxBulk .idle s) : ShortLines maxBulk s := by
  intro commands st rest hreaches line after hcut
  have hdigits : ∀ {n : Int} {digits : Str}, formatInt n = some digits →
      digits.length ≤ maxStrDigits + 1 := by
    intro n digits hdigits
    unfold formatInt at hdigits
    split at hdigits
    · cases hdigits
      unfold showInt
      split
      · rw [length_cons]
        omega
      · omega
    · cases hdigits
  have hrest : Encoded maxBulk st rest := hreaches.invariant (Encoded maxBulk) Encoded.step h
  cases hrest with
  | nil => cases hcut
  | command hn hfits hrest =>
    rw [cutLine_command hn] at hcut
    cases hcut
    have := hdigits hn
    simp only [length_append, length_cons, crlf, length_nil, maxInline] at *
    unfold maxStrDigits at this
    omega
  | item hn hshort hrest =>
    rw [cutLine_item hn] at hcut
    cases hcut
    have := hdigits hn
    simp only [length_append, length_cons, crlf, length_nil, maxInline] at *
    unfold maxStrDigits at this
    omega

theorem encodeBulk_eq_some {data code : Str} (h : encodeBulk data = some code) :
    ∃ digits, formatInt data.length = some digits ∧
      code = 36 :: digits ++ crlf ++ (data ++ crlf) := by
  unfold encodeBulk at h
  cases hdigits : formatInt data.length with
  | none => simp [hdigits] at h
  | some digits =>
    simp only [hdigits, Option.pure_def, Option.bind_eq_bind, Option.bind_some,
      Option.some.injEq] at h
    exact ⟨digits, rfl, by rw [← h, append_assoc]⟩

theorem encodeCommand_eq_some {code : Str} (h : encodeCommand args = some code) :
    ∃ digits codes, formatInt args.length = some digits ∧ args.mapM encodeBulk = some codes ∧
      code = 42 :: digits ++ crlf ++ codes.flatten := by
  unfold encodeCommand at h
  cases hdigits : formatInt args.length with
  | none => simp [hdigits] at h
  | some digits =>
    cases hcodes : args.mapM encodeBulk with
    | none => simp [hdigits, hcodes] at h
    | some codes =>
      simp only [hdigits, hcodes, Option.pure_def, Option.bind_eq_bind, Option.bind_some,
        Option.some.injEq] at h
      exact ⟨digits, codes, rfl, rfl, h.symm⟩

theorem mapM_cons_eq_some {α β : Type} {f : α → Option β} {a : α} {l : List α} {bs : List β}
    (h : (a :: l).mapM f = some bs) :
    ∃ b bs', f a = some b ∧ l.mapM f = some bs' ∧ bs = b :: bs' := by
  rw [mapM_cons] at h
  cases hb : f a with
  | none => simp [hb] at h
  | some b =>
    cases hbs : l.mapM f with
    | none => simp [hb, hbs] at h
    | some bs' =>
      simp only [hb, hbs, Option.pure_def, Option.bind_eq_bind, Option.bind_some,
        Option.some.injEq] at h
      exact ⟨b, bs', rfl, rfl, h.symm⟩

/-- **The bulk strings of a command** are read one after the other, and complete it. -/
theorem encoded_items {codes : List Str} {tail : Str} (hcodes : args.mapM encodeBulk = some codes)
    (hne : args ≠ []) (hshort : ∀ arg ∈ args, arg.length ≤ maxBulk)
    (htail : Encoded maxBulk .idle tail) (done : List Str) :
    Encoded maxBulk (.items done (args.length - 1)) (codes.flatten ++ tail) ∧
      (scanner maxBulk).Reaches (.items done (args.length - 1)) (codes.flatten ++ tail)
        [done ++ args] .idle tail := by
  induction args generalizing done codes with
  | nil => exact absurd rfl hne
  | cons arg args ih =>
    obtain ⟨code, codes, hcode, hcodes', rfl⟩ := mapM_cons_eq_some hcodes
    obtain ⟨digits, hdigits, rfl⟩ := encodeBulk_eq_some hcode
    have harg := hshort arg mem_cons_self
    rw [flatten_cons, append_assoc, append_assoc (36 :: digits ++ crlf),
      length_cons, Nat.add_sub_cancel]
    cases args with
    | nil =>
      obtain rfl : codes = [] := by simpa using hcodes'.symm
      exact ⟨.item hdigits harg htail, .step (step_item hdigits harg) (.refl _ _)⟩
    | cons next args =>
      obtain ⟨hencoded, hreaches⟩ := ih hcodes' (cons_ne_nil _ _)
        (fun a ha => hshort a (mem_cons_of_mem _ ha)) (done ++ [arg])
      refine ⟨.item hdigits harg hencoded, ?_⟩
      rw [append_assoc] at hreaches
      exact .step (step_item hdigits harg) hreaches

/-- **Encoded commands are read** one after the other, whatever their arguments hold. -/
theorem encoded_commands {commands : List (List Str)} {codes : List Str}
    (hcodes : commands.mapM encodeCommand = some codes) (hfits : ∀ c ∈ commands, Fits maxBulk c) :
    Encoded maxBulk .idle codes.flatten ∧
      (scanner maxBulk).Reaches .idle codes.flatten commands .idle [] := by
  induction commands generalizing codes with
  | nil =>
    obtain rfl : codes = [] := by simpa using hcodes.symm
    exact ⟨.nil, .refl _ _⟩
  | cons args commands ih =>
    obtain ⟨code, codes, hcode, hcodes', rfl⟩ := mapM_cons_eq_some hcodes
    obtain ⟨hencoded, hreaches⟩ := ih hcodes' fun c hc => hfits c (mem_cons_of_mem _ hc)
    obtain ⟨digits, items, hdigits, hitems, rfl⟩ := encodeCommand_eq_some hcode
    have hargs := hfits args mem_cons_self
    obtain ⟨hencoded', hreaches'⟩ := encoded_items hitems hargs.ne_nil hargs.short hencoded []
    rw [flatten_cons, append_assoc]
    exact ⟨.command hdigits hargs hencoded',
      .step (step_command hdigits hargs) (hreaches'.trans hreaches)⟩

/-- **Encoded commands come out again**, however they are split. -/
theorem receiveAll_encoded {commands : List (List Str)} {codes chunks : List Str}
    (hcodes : commands.mapM encodeCommand = some codes) (hfits : ∀ c ∈ commands, Fits maxBulk c)
    (hchunks : chunks.flatten = codes.flatten) :
    RequestParser.receiveAll chunks (.init maxBulk) = (commands, [], none) := by
  obtain ⟨hencoded, hreaches⟩ := encoded_commands hcodes hfits
  have hgood : (scanner maxBulk).GivesUpForGood giveUp .idle ([] ++ chunks.flatten) := by
    rw [nil_append, hchunks]
    exact givesUpForGood_iff.mpr hencoded.shortLines
  have hreceive := Scanner.receive_eq_drain (stopsAt_init maxBulk) hgood
  rw [nil_append, hchunks,
    Scanner.drain_of_stop hreaches (stopsAt_init maxBulk) (Nat.lt_succ_self _)] at hreceive
  rw [RequestParser.receiveAll_spec]
  exact congrArg (fun r => (r.1, r.2.2)) hreceive

end Request

end KvStore
