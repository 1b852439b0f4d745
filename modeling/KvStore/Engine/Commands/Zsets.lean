import KvStore.Engine.Commands.Lists
import KvStore.Engine.Commands.Strings

/-! # Sorted set commands

`commands/zsets.py`. Whatever the options, ZADD logs the scores it ended up with, and the pops log
the members that went. Queries are answered from the elements in their order. -/

namespace KvStore.Commands

variable [CPython]

/-! ## ZADD -/

structure ZaddOptions where
  nx : Bool := false
  xx : Bool := false
  gt : Bool := false
  lt : Bool := false
  ch : Bool := false
  incr : Bool := false

/-- The options in front of the scores and members, and what follows them. -/
def zaddOptions : List Str → ZaddOptions → ZaddOptions × List Str
  | [], o => (o, [])
  | arg :: rest, o =>
    if isWord arg "NX" then zaddOptions rest { o with nx := true }
    else if isWord arg "XX" then zaddOptions rest { o with xx := true }
    else if isWord arg "GT" then zaddOptions rest { o with gt := true }
    else if isWord arg "LT" then zaddOptions rest { o with lt := true }
    else if isWord arg "CH" then zaddOptions rest { o with ch := true }
    else if isWord arg "INCR" then zaddOptions rest { o with incr := true }
    else (o, arg :: rest)

/-- The scores and members of ZADD. -/
def zaddPairs : List Str → Except KvError (List (Double × Str))
  | score :: member :: rest =>
    match floatArg score with
    | .error e => .error e
    | .ok s =>
      match zaddPairs rest with
      | .error e => .error e
      | .ok ps => .ok ((s, member) :: ps)
  | _ => .ok []

/-- The checks of ZADD on its arguments after the key. -/
def zaddParse (args : List Str) : Except KvError (ZaddOptions × List (Double × Str)) :=
  let (o, rest) := zaddOptions args {}
  if rest = [] ∨ rest.length % 2 = 1 then .error .syntaxError
  else if o.nx ∧ o.xx then
    .error (.invalidArgument "XX and NX options at the same time are not compatible")
  else if [o.gt, o.lt, o.nx].count true > 1 then
    .error (.invalidArgument "GT, LT, and/or NX options at the same time are not compatible")
  else if o.incr ∧ rest.length ≠ 2 then
    .error (.invalidArgument "INCR option supports a single increment-element pair")
  else match zaddPairs rest with
    | .error e => .error e
    | .ok ps => .ok (o, ps)

/-- The arguments ZADD accepts: proper scores, and only one pair with INCR. -/
theorem zaddParse_ok {args : List Str} {o : ZaddOptions} {ps : List (Double × Str)}
    (h : zaddParse args = .ok (o, ps)) :
    (∀ p ∈ ps, p.1.isNan = false) ∧ (o.incr = true → ps.length ≤ 1) := by
  have hpairs : ∀ (args : List Str) (ps : List (Double × Str)), zaddPairs args = .ok ps →
      (∀ p ∈ ps, p.1.isNan = false) ∧ 2 * ps.length ≤ args.length := by
    intro args
    induction args using zaddPairs.induct with
    | case1 score member rest e he => intro ps h; simp [zaddPairs, he] at h
    | case2 score member rest s hs e he ih => intro ps h; simp [zaddPairs, hs, he] at h
    | case3 score member rest s hs qs hqs ih =>
      intro ps h
      simp only [zaddPairs, hs, hqs, Except.ok.injEq] at h
      subst h
      obtain ⟨hreal, hlen⟩ := ih qs hqs
      simp only [List.length_cons]
      refine ⟨?_, by omega⟩
      intro p hp
      rcases List.mem_cons.mp hp with rfl | hp
      · exact floatArg_real hs
      · exact hreal p hp
    | case4 args hne =>
      intro ps h
      have hps : ps = [] := by
        unfold zaddPairs at h
        split at h
        · exact absurd rfl (hne _ _ _)
        · simpa using h.symm
      subst hps
      exact ⟨by simp, by simp⟩
  unfold zaddParse at h
  generalize zaddOptions args {} = parsed at h
  obtain ⟨o', rest⟩ := parsed
  simp only at h
  split_ifs at h with _ _ _ hincr
  cases hp : zaddPairs rest with
  | error e => simp [hp] at h
  | ok qs =>
    simp only [hp, Except.ok.injEq, Prod.mk.injEq] at h
    obtain ⟨rfl, rfl⟩ := h
    obtain ⟨hreal, hlen⟩ := hpairs rest qs hp
    refine ⟨hreal, fun hi => ?_⟩
    have htwo : rest.length = 2 := by
      by_contra hne
      exact hincr ⟨hi, hne⟩
    omega

/-- What the loop of ZADD accumulates. -/
structure ZaddState where
  /-- Members added. -/
  added : Nat := 0
  /-- Members whose score changed. -/
  changed : Nat := 0
  /-- The arguments of the effect, after the key. -/
  effects : List Str := []
  /-- The last score computed. -/
  result : Option Double := none

/-- The score a member gets. -/
def zaddScore (o : ZaddOptions) (old : Option Double) (score : Double) : Double :=
  match old with
  | some x => if o.incr then CPython.addFloat x score else score
  | none => score

/-- Whether GT or LT keeps the old score. -/
def zaddKept (o : ZaddOptions) (old : Option Double) (new : Double) : Bool :=
  match old with
  | some x => (o.gt && new.le x) || (o.lt && x.le new)
  | none => false

/-- What ZADD does about one member. -/
inductive ZaddMove
  /-- An option says to leave it alone. -/
  | skip
  /-- The score would be NaN. -/
  | nan
  /-- It has that score already. -/
  | same (new : Double)
  | insert (new : Double)
  /-- Its score changes. -/
  | change (new : Double)

/-- One round of the loop of ZADD, decided from the old score. -/
def zaddMove (o : ZaddOptions) (old : Option Double) (score : Double) : ZaddMove :=
  if (old = none ∧ o.xx) ∨ (old ≠ none ∧ o.nx) then .skip
  else
    let new := zaddScore o old score
    if new.isNan then .nan
    else if zaddKept o old new then .skip
    else match old with
      | none => .insert new
      | some x => if new.eq x then .same new else .change new

/-- A member is inserted only with a proper score, and only if it was missing. -/
theorem zaddMove_insert {o : ZaddOptions} {old : Option Double} {score new : Double}
    (h : zaddMove o old score = .insert new) : new.isNan = false ∧ old = none := by
  unfold zaddMove at h
  cases old <;> grind

/-- A score is changed only to a proper one, and to a different one. -/
theorem zaddMove_change {o : ZaddOptions} {old : Option Double} {score new : Double}
    (h : zaddMove o old score = .change new) :
    new.isNan = false ∧ ∃ x, old = some x ∧ new.eq x = false := by
  unfold zaddMove at h
  cases old <;> grind

theorem zaddMove_nan {o : ZaddOptions} {old : Option Double} {score : Double}
    (h : zaddMove o old score = .nan) (hscore : score.isNan = false) : o.incr = true := by
  unfold zaddMove at h
  cases old <;> grind [zaddScore]

def zaddLoop (o : ZaddOptions) (key : Str) : List (Double × Str) → ZaddState → Cmd ZaddState
  | [], st => return st
  | (score, member) :: rest, st => do
      let old ← call (.zset key (.score member))
      match zaddMove o old score with
      | .skip => zaddLoop o key rest st
      | .nan => raise (.invalidArgument "resulting score is not a number (NaN)")
      | .same new => zaddLoop o key rest { st with result := some new }
      | .insert new =>
        call (.zset key (.add member new))
        zaddLoop o key rest { st with
          added := st.added + 1
          effects := st.effects ++ [formatFloat new, member]
          result := some new }
      | .change new =>
        call (.zset key (.add member new))
        zaddLoop o key rest { st with
          changed := st.changed + 1
          effects := st.effects ++ [formatFloat new, member]
          result := some new }

/-- The effect of ZADD, if it had one. -/
def zaddLog (key : Str) (effects : List Str) : Cmd Unit :=
  if effects = [] then return () else propagate .zadd (key :: effects)

def zaddReply (o : ZaddOptions) (st : ZaddState) : Reply :=
  if o.incr then .ofOption (st.result.map formatFloat)
  else .integer (if o.ch then st.added + st.changed else st.added)

/-- ZADD key [NX | XX] [GT | LT] [CH] [INCR] score member [score member ...]. -/
def zadd : List Str → Cmd Reply
  | key :: args => do
      let (o, ps) ← attempt (zaddParse args)
      let existing ← readZset key
      if existing = false ∧ o.xx then return if o.incr then .nil else .integer 0
      else do
        let _ ← if existing then pure (Value.zset ()) else writeTarget key .zset
        let st ← zaddLoop o key ps {}
        zaddLog key st.effects
        return zaddReply o st
  | _ => badArity .zadd

def zincrby : List Str → Cmd Reply
  | [key, arg, member] => do
      let delta ← attempt (floatArg arg)
      let _ ← readZset key
      let _ ← writeTarget key .zset
      let old ← call (.zset key (.score member))
      let new := CPython.addFloat (old.getD (Double.ofBits 0)) delta
      if new.isNan then raise (.invalidArgument "resulting score is not a number (NaN)")
      else do
        call (.zset key (.add member new))
        propagate .zadd [key, formatFloat new, member]
        return .bulk (formatFloat new)
  | _ => badArity .zincrby

/-! ## Removal -/

def zrem : List Str → Cmd Reply
  | key :: members => do
      if ← readZset key then do
        let removed ← keepIf (fun m => call (.zset key (.remove m))) members
        if removed = [] then return .integer 0
        else do
          propagate .zrem (key :: removed)
          return .integer removed.length
      else return .integer 0
  | _ => badArity .zrem

/-- The loop of `SortedSet.pop`. The skip list is never shorter than the dictionary, so there is a
node to take while the dictionary is not empty. -/
def zpopLoop (key : Str) (fromMax : Bool) : Nat → Cmd (List (Str × Double))
  | 0 => return []
  | count + 1 => do
      let n ← call (.zset key .length)
      if n = 0 then return []
      else do
        let node ← if fromMax then call (.zset key .last) else call (.zset key .first)
        match node with
        | none => return []
        | some (member, score) =>
          let _ ← call (.zset key (.remove member))
          return (member, score) :: (← zpopLoop key fromMax count)

def flattenScores (items : List (Str × Double)) : List Str :=
  items.flatMap fun (member, score) => [member, formatFloat score]

def zpop (fromMax : Bool) : List Str → Cmd Reply
  | key :: rest => do
      let count ← attempt (popCount rest)
      if ← readZset key then do
        let popped ← zpopLoop key fromMax (count.getD 1)
        if popped = [] then return .texts []
        else do
          propagate .zrem (key :: popped.map Prod.fst)
          return .texts (flattenScores popped)
      else return .texts []
  | _ => badArity (if fromMax then .zpopmax else .zpopmin)

def zpopmin (args : List Str) : Cmd Reply := zpop false args

def zpopmax (args : List Str) : Cmd Reply := zpop true args

/-! ## Queries -/

/-- The elements of the sorted set at a key, `none` if it is missing. -/
def zsetItems (key : Str) : Cmd (Option (List (Str × Double))) := do
  if ← readZset key then return some (← call (.zset key .items))
  else return none

def zscore : List Str → Cmd Reply
  | [key, member] => do
      if ← readZset key then do
        let score ← call (.zset key (.score member))
        return .ofOption (Option.map formatFloat score)
      else return .nil
  | _ => badArity .zscore

def zcard : List Str → Cmd Reply
  | [key] => do
      if ← readZset key then do
        let n ← call (.zset key .length)
        return .integer n
      else return .integer 0
  | _ => badArity .zcard

/-- Whether a score lies between two bounds. -/
def inRange (lo hi : Double × Bool) (score : Double) : Bool :=
  (if lo.2 then lo.1.lt score else lo.1.le score) && (if hi.2 then score.lt hi.1 else score.le hi.1)

def zcount : List Str → Cmd Reply
  | [key, loArg, hiArg] => do
      let lo ← attempt (scoreBound loArg)
      let hi ← attempt (scoreBound hiArg)
      match ← zsetItems key with
      | none => return .integer 0
      | some items => return .integer (items.filter fun e => inRange lo hi e.2).length
  | _ => badArity .zcount

def rank (reverse : Bool) : List Str → Cmd Reply
  | [key, member] => do
      match ← zsetItems key with
      | none => return .nil
      | some items =>
        match items.findIdx? (fun e => e.1 = member) with
        | none => return .nil
        | some i => return .integer (if reverse then (items.length : Int) - 1 - i else i)
  | _ => badArity (if reverse then .zrevrank else .zrank)

def zrank (args : List Str) : Cmd Reply := rank false args

def zrevrank (args : List Str) : Cmd Reply := rank true args

/-- The options of the range commands. -/
structure RangeOptions where
  /-- BYSCORE. -/
  byScore : Bool := false
  /-- REV. -/
  reverse : Bool := false
  /-- LIMIT: the offset and the count. -/
  limit : Option (Int × Int) := none
  /-- WITHSCORES. -/
  withScores : Bool := false

def parseRangeOptions : List Str → RangeOptions → Except KvError RangeOptions
  | [], o => .ok o
  | arg :: rest, o =>
    if isWord arg "BYSCORE" then parseRangeOptions rest { o with byScore := true }
    else if isWord arg "REV" then parseRangeOptions rest { o with reverse := true }
    else if isWord arg "WITHSCORES" then parseRangeOptions rest { o with withScores := true }
    else if isWord arg "LIMIT" then
      match rest with
      | offsetArg :: countArg :: rest =>
        match intArg offsetArg, intArg countArg with
        | .ok offset, .ok count =>
          parseRangeOptions rest { o with limit := some (offset, count) }
        | .error e, _ => .error e
        | _, .error e => .error e
      | _ => .error .syntaxError
    else .error .syntaxError

/-- The elements of a range of scores: `offset` of them dropped, and `count` taken unless it is
negative. -/
def rangeByScore (items : List (Str × Double)) (lo hi : Double × Bool) (reverse : Bool)
    (offset count : Int) : List (Str × Double) :=
  let found := items.filter fun e => inRange lo hi e.2
  let found := (if reverse then found.reverse else found).drop offset.toNat
  if count < 0 then found else found.take count.toNat

/-- The elements of a range of ranks. -/
def rangeByRank (items : List (Str × Double)) (start stop : Int) (reverse : Bool) :
    List (Str × Double) :=
  match ListValue.clamp start stop items.length with
  | none => []
  | some (lo, hi) => ((if reverse then items.reverse else items).drop lo).take (hi + 1 - lo)

def zrangeWith (key start stop : Str) (o : RangeOptions) : Cmd Reply := do
  let show_ := fun items : List (Str × Double) =>
    Reply.texts (if o.withScores then flattenScores items else items.map Prod.fst)
  if o.byScore then do
    let lo ← attempt (scoreBound (if o.reverse then stop else start))
    let hi ← attempt (scoreBound (if o.reverse then start else stop))
    let (offset, count) := o.limit.getD (0, -1)
    if offset < 0 then return .texts []
    else do
      match ← zsetItems key with
      | none => return .texts []
      | some items => return show_ (rangeByScore items lo hi o.reverse offset count)
  else if o.limit.isSome then raise .syntaxError
  else do
    let first ← attempt (intArg start)
    let last ← attempt (intArg stop)
    match ← zsetItems key with
    | none => return .texts []
    | some items => return show_ (rangeByRank items first last o.reverse)

/-- ZRANGE key start stop [BYSCORE] [REV] [LIMIT offset count] [WITHSCORES]. -/
def zrange : List Str → Cmd Reply
  | key :: start :: stop :: options => do
      let o ← attempt (parseRangeOptions options {})
      zrangeWith key start stop o
  | _ => badArity .zrange

def zrevrange : List Str → Cmd Reply
  | key :: start :: stop :: options => do
      let o ← attempt (parseRangeOptions options {})
      zrangeWith key start stop { reverse := true, withScores := o.withScores }
  | _ => badArity .zrevrange

def rangeByScoreWith (c : Command) (reverse : Bool) : List Str → Cmd Reply
  | key :: start :: stop :: options => do
      let o ← attempt (parseRangeOptions options {})
      if o.byScore ∨ o.reverse then raise .syntaxError
      else zrangeWith key start stop { o with byScore := true, reverse := reverse }
  | _ => badArity c

def zrangebyscore : List Str → Cmd Reply := rangeByScoreWith .zrangebyscore false

def zrevrangebyscore : List Str → Cmd Reply := rangeByScoreWith .zrevrangebyscore true

end KvStore.Commands
