import KvStore.Engine.Replay.Effects

/-! # The effects of the sorted set commands

ZADD logs the scores it assigned, whatever its options made of the arguments. Replaying them finds
every member as the original did, because the members it skipped were not changed
(`zaddLoop_outcome`). The pops log the ZREM of the members that went. -/

namespace KvStore

open Commands Reg List Prog

variable [CPython] {env : Env} {key : Str} {cur : Option Item}

/-! ## Rankings -/

omit [CPython] in
/-- The scores of a ranking are not NaN. -/
theorem Ranking.score_real {r : Ranking} {member : Str} {x : Double} (h : r.score member = some x) :
    x.isNan = false :=
  r.real (member, x) (mem_of_assocGet h)

omit [CPython] in
/-- Assigning the score a member has changes nothing. -/
theorem Ranking.add_same {r : Ranking} {member : Str} {x : Double} (h : r.score member = some x) :
    r.add member x = r := by
  rw [Ranking.add, dif_pos (Ranking.score_real h), if_pos h]

/-- Removing members one after the other: what is left, and the members that were there. -/
def zremLoop (z : Ranking) : List Str → Ranking × List Str
  | [] => (z, [])
  | m :: rest =>
    match z.score m with
    | none => zremLoop z rest
    | some _ => ((zremLoop (z.remove m) rest).1, m :: (zremLoop (z.remove m) rest).2)

omit [CPython] in
/-- The members removed, removed again from the same ranking. -/
theorem zremLoop_removed (z : Ranking) (members : List Str) :
    zremLoop z (zremLoop z members).2 = zremLoop z members := by
  induction members generalizing z with
  | nil => rfl
  | cons m rest ih =>
    cases hscore : z.score m with
    | none =>
      simp only [zremLoop, hscore]
      exact ih z
    | some s => simp only [zremLoop, hscore, ih (z.remove m)]

/-! ## The text of scores -/

/-- The arguments under which assigned scores are logged. -/
def zaddArgs (es : List (Double × Str)) : List Str :=
  es.flatMap fun (score, member) => [formatFloat score, member]

/-- A printed score is no option of ZADD. -/
theorem zaddOptions_format {x : Double} (hx : x.isNan = false) (rest : List Str) (o : ZaddOptions) :
    zaddOptions (formatFloat x :: rest) o = (o, formatFloat x :: rest) := by
  have hword : ∀ w ∈ ["NX", "XX", "GT", "LT", "CH", "INCR"], isWord (formatFloat x) w = false := by
    intro w hw
    by_contra h
    have hnone := CPython.parseFloat_word (formatFloat x) w hw (by simpa using h)
    rw [formatFloat, CPython.parseFloat_format x hx] at hnone
    cases hnone
  simp [zaddOptions, hword]

/-- The printed scores and members are read back. -/
theorem zaddPairs_args {es : List (Double × Str)} (hes : ∀ e ∈ es, e.1.isNan = false) :
    zaddPairs (zaddArgs es) = .ok es := by
  induction es with
  | nil => rfl
  | cons e rest ih =>
    obtain ⟨score, member⟩ := e
    have hscore : score.isNan = false := hes (score, member) (by simp)
    have hrest := ih fun e he => hes e (by simp [he])
    have hargs : zaddArgs ((score, member) :: rest) =
        formatFloat score :: member :: zaddArgs rest := rfl
    rw [hargs, zaddPairs, floatArg_formatFloat hscore]
    simp only [hrest]

/-- The logged arguments of ZADD are accepted. -/
theorem zaddParse_args {es : List (Double × Str)} (hes : ∀ e ∈ es, e.1.isNan = false)
    (hne : es ≠ []) : zaddParse (zaddArgs es) = .ok ({}, es) := by
  have hpairs := zaddPairs_args hes
  have heven : ∀ es : List (Double × Str), (zaddArgs es).length % 2 = 0 := by
    intro es
    induction es with
    | nil => rfl
    | cons e rest ih =>
      have hargs : zaddArgs (e :: rest) = formatFloat e.1 :: e.2 :: zaddArgs rest := rfl
      rw [hargs, length_cons, length_cons]
      omega
  have heven' := heven es
  cases es with
  | nil => exact absurd rfl hne
  | cons e rest =>
    have hargs : zaddArgs (e :: rest) = formatFloat e.1 :: e.2 :: zaddArgs rest := rfl
    rw [hargs] at hpairs heven' ⊢
    rw [zaddParse, zaddOptions_format (hes e (by simp))]
    have hodd : ¬ ((formatFloat e.1 :: e.2 :: zaddArgs rest) = [] ∨
        (formatFloat e.1 :: e.2 :: zaddArgs rest).length % 2 = 1) := by
      simp only [reduceCtorEq, false_or]
      omega
    simp only [hpairs, if_neg hodd]
    simp

/-! ## The loop of ZADD -/

section Loop

variable {m : Mode} {out : List Effect} {z : Ranking} {d : Option Int}

omit [CPython] in
theorem exec_score (member : Str) :
    exec env m key (.zset key (.score member)) ⟨some ⟨.zset z, d⟩, out⟩ =
      (z.score member, ⟨some ⟨.zset z, d⟩, out⟩) := rfl

omit [CPython] in
theorem exec_add (member : Str) (score : Double) :
    exec env m key (.zset key (.add member score)) ⟨some ⟨.zset z, d⟩, out⟩ =
      ((), ⟨some ⟨.zset (z.add member score), d⟩, out⟩) := rfl

/-- Assigning a score that a member does not have yet. -/
theorem zaddLoop_assign {new : Double} (hnew : new.isNan = false) {member : Str}
    (hne : z.score member ≠ some new) (rest : List (Double × Str)) (st : ZaddState) :
    ∃ st', (zaddLoop {} key ((new, member) :: rest) st).run (exec env m key)
        ⟨some ⟨.zset z, d⟩, out⟩ =
      (zaddLoop {} key rest st').run (exec env m key) ⟨some ⟨.zset (z.add member new), d⟩, out⟩ := by
  rw [zaddLoop, bind_eq, perform_bind, run_op, exec_score]
  cases hold : z.score member with
  | none =>
    have hmove : zaddMove {} none new = .insert new := by
      simp [zaddMove, zaddScore, zaddKept, hnew]
    simp only [hmove]
    exact ⟨_, rfl⟩
  | some x =>
    have hneq : new.eq x = false := by
      rw [Bool.eq_false_iff]
      intro h
      rw [Double.eq_iff hnew (Ranking.score_real hold)] at h
      exact hne (h ▸ hold)
    have hmove : zaddMove {} (some x) new = .change new := by
      simp [zaddMove, zaddScore, zaddKept, hnew, hneq]
    simp only [hmove]
    exact ⟨_, rfl⟩

/-- Assignments to a sorted set that take it to another one, wherever they are replayed. -/
def Assigns (key : Str) (d : Option Int) (es : List (Double × Str)) (z z' : Ranking) : Prop :=
  (∀ e ∈ es, e.1.isNan = false) ∧ ∀ (env : Env) (m : Mode) (st : ZaddState) (out : List Effect),
    ∃ st', (zaddLoop {} key es st).run (exec env m key) ⟨some ⟨.zset z, d⟩, out⟩ =
      (.ok st', ⟨some ⟨.zset z', d⟩, out⟩)

theorem Assigns.cons {new : Double} (hnew : new.isNan = false) {member : Str}
    (hne : z.score member ≠ some new) {es : List (Double × Str)} {z' : Ranking}
    (h : Assigns key d es (z.add member new) z') : Assigns key d ((new, member) :: es) z z' := by
  refine ⟨?_, fun env m st out => ?_⟩
  · intro e he
    rcases mem_cons.mp he with rfl | he
    · exact hnew
    · exact h.1 e he
  · obtain ⟨st', hassign⟩ := @zaddLoop_assign _ env key m out z d new hnew member hne es st
    rw [hassign]
    exact h.2 env m st' out

theorem Assigns.single {new : Double} (hnew : new.isNan = false) (member : Str) :
    Assigns key d [(new, member)] z (z.add member new) := by
  by_cases hold : z.score member = some new
  · refine ⟨by simpa using hnew, fun env m st out => ?_⟩
    have hmove : zaddMove {} (some new) new = .same new := by
      simp [zaddMove, zaddScore, zaddKept, hnew, (Double.eq_iff hnew hnew).mpr rfl]
    rw [zaddLoop, bind_eq, perform_bind, run_op, exec_score, hold, Ranking.add_same hold]
    simp only [hmove]
    exact ⟨_, rfl⟩
  · exact Assigns.cons hnew hold ⟨by simp, fun _ _ st _ => ⟨st, rfl⟩⟩

/-- **What the loop of ZADD does**: it assigns some scores and remembers them; or it meets a NaN,
which only INCR can produce, at its only element. -/
theorem zaddLoop_outcome (o : ZaddOptions) (ps : List (Double × Str)) (st : ZaddState)
    (hreal : ∀ p ∈ ps, p.1.isNan = false) (hincr : o.incr = true → ps.length ≤ 1) :
    (∃ st' z' es, (zaddLoop o key ps st).run (exec env m key) ⟨some ⟨.zset z, d⟩, out⟩ =
        (.ok st', ⟨some ⟨.zset z', d⟩, out⟩) ∧ st'.effects = st.effects ++ zaddArgs es ∧
        Assigns key d es z z') ∨
    (∃ err, o.incr = true ∧ ps ≠ [] ∧
      (zaddLoop o key ps st).run (exec env m key) ⟨some ⟨.zset z, d⟩, out⟩ =
        (.error err, ⟨some ⟨.zset z, d⟩, out⟩)) := by
  induction ps generalizing z st with
  | nil => exact Or.inl ⟨st, z, [], rfl, by simp [zaddArgs], by simp, fun _ _ st₀ _ => ⟨st₀, rfl⟩⟩
  | cons p rest ih =>
    obtain ⟨score, member⟩ := p
    have hrest : ∀ p ∈ rest, p.1.isNan = false := fun p hp => hreal p (by simp [hp])
    have hnil : o.incr = true → rest = [] := by
      intro h
      have hlen := hincr h
      rw [length_cons] at hlen
      exact eq_nil_of_length_eq_zero (by omega)
    -- past its first element the loop cannot meet a NaN any more
    have hok : ∀ (z : Ranking) (st : ZaddState), ∃ st' z' es,
        (zaddLoop o key rest st).run (exec env m key) ⟨some ⟨.zset z, d⟩, out⟩ =
          (.ok st', ⟨some ⟨.zset z', d⟩, out⟩) ∧ st'.effects = st.effects ++ zaddArgs es ∧
          Assigns key d es z z' := by
      intro z st
      rcases @ih z st hrest (fun h => by simp [hnil h]) with h | ⟨_, hi, hne, -⟩
      · exact h
      · exact absurd (hnil hi) hne
    have hassign : ∀ (new : Double) (st₁ : ZaddState), new.isNan = false →
        z.score member ≠ some new →
        st₁.effects = st.effects ++ [formatFloat new, member] →
        ∃ st' z' es, (zaddLoop o key rest st₁).run (exec env m key)
            ⟨some ⟨.zset (z.add member new), d⟩, out⟩ = (.ok st', ⟨some ⟨.zset z', d⟩, out⟩) ∧
          st'.effects = st.effects ++ zaddArgs es ∧ Assigns key d es z z' := by
      intro new st₁ hnew hne heff
      obtain ⟨st', z', es, hrun, heff', hassigns⟩ := hok (z.add member new) st₁
      refine ⟨st', z', (new, member) :: es, hrun, ?_, hassigns.cons hnew hne⟩
      rw [heff', heff, append_assoc]
      rfl
    rw [zaddLoop, bind_eq, perform_bind, run_op, exec_score]
    cases hmove : zaddMove o (z.score member) score with
    | skip => exact Or.inl (hok z st)
    | nan => exact Or.inr ⟨_, zaddMove_nan hmove (hreal (score, member) (by simp)), by simp, rfl⟩
    | same new => exact Or.inl (hok z { st with result := some new })
    | insert new =>
      obtain ⟨hnew, hold⟩ := zaddMove_insert hmove
      exact Or.inl (hassign new _ hnew (by simp [hold]) rfl)
    | change new =>
      obtain ⟨hnew, x, hold, hneq⟩ := zaddMove_change hmove
      refine Or.inl (hassign new _ hnew ?_ rfl)
      rw [hold, Ne, Option.some.injEq]
      rintro rfl
      rw [(Double.eq_iff hnew hnew).mpr rfl] at hneq
      cases hneq

end Loop

/-! ## Replaying the effects -/

omit [CPython] in
/-- Looking for a sorted set, for a key that can be written as one. -/
theorem run_readZset {α : Type} {m : Mode} (hfound : Found m env.now key cur) {z : Ranking}
    {d : Option Int} (hcur : targetOf .zset cur = some ⟨.zset z, d⟩) (f : Bool → Cmd α)
    (out : List Effect) :
    ((readZset key).bind f).run (exec env m key) ⟨cur, out⟩ =
      (f cur.isSome).run (exec env m key) ⟨cur, out⟩ := by
  rcases cur with _ | ⟨v, e⟩
  · simp [readZset, run_op, exec, hfound out]
  · simp only [targetOf] at hcur
    split at hcur
    case isFalse => cases hcur
    case isTrue =>
      obtain ⟨rfl, rfl⟩ := Item.mk.inj (Option.some.inj hcur)
      simp [readZset, run_op, exec, hfound out, Item.seen, Value.map]

omit [CPython] in
/-- Preparing the sorted set of ZADD, when the key is found. -/
theorem run_zaddTarget {α : Type} {m : Mode} (hfound : Found m env.now key cur) {z : Ranking}
    {d : Option Int} (hcur : targetOf .zset cur = some ⟨.zset z, d⟩) (p : Cmd α)
    (out : List Effect) :
    Prog.run (exec env m key) (if cur.isSome then p else (writeTarget key .zset).bind fun _ => p)
        ⟨cur, out⟩ =
      p.run (exec env m key) ⟨some ⟨.zset z, d⟩, out⟩ := by
  rcases cur with _ | item
  · exact run_writeTarget hfound hcur (fun _ => p) out
  · have hitem : item = ⟨.zset z, d⟩ := by
      simp only [targetOf] at hcur
      split at hcur <;> simp_all
    rw [hitem]
    rfl

/-- ZADD of the scores that were assigned. -/
theorem step_zadd {es : List (Double × Str)} {z z' : Ranking} {d : Option Int}
    (hcur : targetOf .zset cur = some ⟨.zset z, d⟩) (hes : Assigns key d es z z') (hne : es ≠ []) :
    Step key ⟨.zadd, key :: zaddArgs es⟩ cur (finish (some ⟨.zset z', d⟩)) := by
  have harity : Command.checkArity .zadd (key :: zaddArgs es) = .ok () := by
    cases es with
    | nil => exact absurd rfl hne
    | cons e rest => simp [Command.checkArity, Command.spec, zaddArgs]
  refine .of_run _ rfl rfl trivial harity fun env m hm _ _ => ?_
  have hfound := found_off hm env.now key cur
  obtain ⟨st', hloop⟩ := hes.2 env m {} []
  have hrun : ((Command.handler .zadd (key :: zaddArgs es)).run (exec env m key) ⟨cur, []⟩) =
      ((zaddLog key st'.effects).bind fun _ => (.ret (zaddReply {} st') : Cmd Reply)).run
        (exec env m key) ⟨some ⟨.zset z', d⟩, []⟩ := by
    have hxx : ¬ (cur.isSome = false ∧ ({} : ZaddOptions).xx = true) := by simp
    simp only [Command.handler, Commands.zadd, bind_eq, zaddParse_args hes.1 hne,
      ofExcept_ok, ret_bind, run_readZset hfound hcur, pure_eq]
    rw [if_neg hxx, run_zaddTarget hfound hcur, run_bind, hloop]
  rw [hrun]
  unfold zaddLog
  split <;> simp [propagate, run_op, Reg.exec]

omit [CPython] in
/-- Removing members one after the other. -/
theorem run_zrem (z : Ranking) (d : Option Int) (members : List Str) (env : Env) (m : Mode)
    (out : List Effect) :
    (keepIf (fun x => call (.zset key (.remove x))) members).run (exec env m key)
        ⟨some ⟨.zset z, d⟩, out⟩ =
      (.ok (zremLoop z members).2, ⟨some ⟨.zset (zremLoop z members).1, d⟩, out⟩) := by
  induction members generalizing z with
  | nil => rfl
  | cons x rest ih =>
    have hexec : exec env m key (.zset key (.remove x)) ⟨some ⟨.zset z, d⟩, out⟩ =
        ((z.score x).isSome, ⟨some ⟨.zset (z.remove x), d⟩, out⟩) := rfl
    rw [keepIf, bind_eq, perform_bind, run_op, hexec]
    cases hscore : z.score x with
    | none =>
      simp only [zremLoop, hscore, Option.isSome_none, Bool.false_eq_true, if_false]
      rw [Ranking.remove_of_score_none hscore]
      exact ih z
    | some s =>
      simp only [zremLoop, hscore, Option.isSome_some, if_true, bind_eq]
      rw [run_bind, ih (z.remove x)]
      rfl

theorem step_zrem {z : Ranking} {d : Option Int} {members : List Str} (hne : members ≠ [])
    (hremoved : (zremLoop z members).2 = members) :
    Step key ⟨.zrem, key :: members⟩ (some ⟨.zset z, d⟩)
      (finish (some ⟨.zset (zremLoop z members).1, d⟩)) := by
  refine .of_run _ rfl rfl trivial (by simp [Command.checkArity, Command.spec, hne])
    fun env m hm _ _ => ?_
  have hcur : targetOf .zset (some ⟨.zset z, d⟩) = some ⟨.zset z, d⟩ := rfl
  simp only [Command.handler, Commands.zrem, bind_eq,
    run_readZset (found_off hm env.now key _) hcur, Option.isSome_some, if_true]
  rw [run_bind, run_zrem, hremoved]
  simp [hne, propagate, run_op, Reg.exec]

/-! ## The handlers -/

/-- Reading a sorted set that is going to be written. -/
theorem faithful_zsetTarget {α : Type} {f : Bool → Cmd α} (hcur : finish cur = cur)
    (hf : ∀ found z d, Live env.now found → finish found = found →
      targetOf .zset found = some ⟨.zset z, d⟩ → Faithful env key (f found.isSome) found found) :
    Faithful env key ((readZset key).bind f) cur cur := by
  refine faithful_readZset hcur ?_ fun z d hlive hfinish => ?_
  · exact hf none Ranking.empty none (by simp [Live]) rfl rfl
  · exact hf (some ⟨.zset z, d⟩) z d (by simpa [Live] using hlive) hfinish rfl

theorem faithful_zadd (args : List Str) (hcur : finish cur = cur) :
    Faithful env key (Commands.zadd (key :: args)) cur cur := by
  refine faithful_attempt hcur fun parsed hparse => ?_
  obtain ⟨o, ps⟩ := parsed
  obtain ⟨hreal, hincr⟩ := zaddParse_ok hparse
  refine faithful_zsetTarget hcur fun found z d hlive hfinish htarget => ?_
  dsimp only
  split
  · exact faithful_ret _ hfinish
  · have hsame := finish_target (by simp) hfinish htarget
    have hfound := found_live hlive .normal key
    unfold Faithful
    simp only [bind_eq, pure_eq, ret_bind]
    rw [run_zaddTarget hfound htarget, run_bind]
    rcases @zaddLoop_outcome _ env key .normal [] z d o ps {} hreal hincr with
      ⟨st', z', es, hrun, heff, hassigns⟩ | ⟨err, -, -, hrun⟩
    · rw [hrun]
      have heff' : st'.effects = zaddArgs es := heff
      cases es with
      | nil =>
        obtain ⟨_, hz⟩ := hassigns.2 env .normal {} []
        obtain ⟨-, hz⟩ := Prod.mk.inj hz
        have hz' : z = z' := by simpa [zaddLoop] using hz
        simp only [zaddLog, heff', zaddArgs, flatMap_nil, if_true]
        rw [← hz'] at *
        exact hsame ▸ .nil _
      | cons e rest =>
        have hne : zaddArgs (e :: rest) ≠ [] := by simp [zaddArgs]
        simp only [zaddLog, heff', if_neg hne]
        exact .single (step_zadd htarget hassigns (by simp))
    · rw [hrun]
      exact hsame ▸ .nil _

theorem faithful_zincrby (rest : List Str) (hcur : finish cur = cur) :
    Faithful env key (Commands.zincrby (key :: rest)) cur cur := by
  match rest with
  | [arg, member] =>
    refine faithful_attempt hcur fun delta _ => ?_
    refine faithful_zsetTarget hcur fun found z d hlive hfinish htarget => ?_
    refine faithful_target hlive htarget (faithful_op (exec_score member) ?_)
    simp only [ret_bind]
    split
    · exact faithful_fail _ (finish_target (by simp) hfinish htarget)
    case isFalse hnan =>
      refine faithful_op (exec_add member _) (faithful_log _ ?_)
      exact step_zadd htarget (Assigns.single (by simpa using hnan) member) (by simp)
  | [] | [_] | _ :: _ :: _ :: _ => exact faithful_fail _ hcur

theorem faithful_zrem (members : List Str) (hcur : finish cur = cur) :
    Faithful env key (Commands.zrem (key :: members)) cur cur := by
  refine faithful_readZset hcur (faithful_ret _ rfl) fun z d _ hfinish => ?_
  unfold Faithful
  rw [if_pos rfl, bind_eq, run_bind, run_zrem]
  have hagain := zremLoop_removed z members
  by_cases hremoved : (zremLoop z members).2 = []
  · rw [hremoved] at hagain
    simp only [hremoved, if_true]
    rw [← hagain]
    exact hfinish.symm ▸ .nil _
  · simp only [hremoved, if_false]
    have hstep := @step_zrem _ key z d _ hremoved (congrArg Prod.snd hagain)
    rw [hagain] at hstep
    exact .single hstep

omit [CPython] in
/-- What the pops do: the members go one after the other. -/
theorem zpopLoop_outcome (fromMax : Bool) (count : Nat) (z : Ranking) (d : Option Int) (m : Mode)
    (out : List Effect) :
    ∃ popped, (zpopLoop key fromMax count).run (exec env m key) ⟨some ⟨.zset z, d⟩, out⟩ =
        (.ok popped, ⟨some ⟨.zset (zremLoop z (popped.map Prod.fst)).1, d⟩, out⟩) ∧
      (zremLoop z (popped.map Prod.fst)).2 = popped.map Prod.fst := by
  induction count generalizing z with
  | zero => exact ⟨[], rfl, rfl⟩
  | succ count ih =>
    have hlength : exec env m key (.zset key .length) ⟨some ⟨.zset z, d⟩, out⟩ =
        (z.items.length, ⟨some ⟨.zset z, d⟩, out⟩) := rfl
    rw [zpopLoop, bind_eq, perform_bind, run_op, hlength]
    by_cases hempty : z.items.length = 0
    · simp only [hempty, if_true]
      exact ⟨[], rfl, rfl⟩
    · have htake : ∀ e ∈ z.items, ∃ popped, Prog.run (exec env m key)
          (.op (.zset key (.remove e.1)) fun _ =>
            (zpopLoop key fromMax count).bind fun rest => .ret (e :: rest))
          ⟨some ⟨.zset z, d⟩, out⟩ =
            (.ok popped, ⟨some ⟨.zset (zremLoop z (popped.map Prod.fst)).1, d⟩, out⟩) ∧
          (zremLoop z (popped.map Prod.fst)).2 = popped.map Prod.fst := by
        intro e he
        obtain ⟨rest, hrun, hrest⟩ := ih (z.remove e.1)
        have hscore : z.score e.1 = some e.2 := assocGet_of_mem z.nodup he
        have hexec : (exec env m key (.zset key (.remove e.1)) ⟨some ⟨.zset z, d⟩, out⟩).2 =
            ⟨some ⟨.zset (z.remove e.1), d⟩, out⟩ := rfl
        refine ⟨e :: rest, ?_, ?_⟩
        · rw [run_op, hexec, run_bind, hrun]
          simp [zremLoop, hscore]
        · simp [zremLoop, hscore, hrest]
      have hne : z.items ≠ [] := by
        rintro h
        simp [h] at hempty
      simp only [hempty, if_false]
      cases fromMax with
      | true =>
        have hlast : exec env m key (.zset key .last) ⟨some ⟨.zset z, d⟩, out⟩ =
            (z.items.getLast?, ⟨some ⟨.zset z, d⟩, out⟩) := rfl
        obtain ⟨popped, hpopped⟩ := htake (z.items.getLast hne) (getLast_mem hne)
        refine ⟨popped, ?_, hpopped.2⟩
        rw [← hpopped.1]
        simp only [if_true, bind_eq, perform_bind]
        rw [run_op, hlast, getLast?_eq_some_getLast hne]
        rfl
      | false =>
        have hfirst : exec env m key (.zset key .first) ⟨some ⟨.zset z, d⟩, out⟩ =
            (z.items.head?, ⟨some ⟨.zset z, d⟩, out⟩) := rfl
        obtain ⟨popped, hpopped⟩ := htake (z.items.head hne) (head_mem hne)
        refine ⟨popped, ?_, hpopped.2⟩
        rw [← hpopped.1]
        simp only [Bool.false_eq_true, if_false, bind_eq, perform_bind]
        rw [run_op, hfirst, head?_eq_some_head hne]
        rfl

theorem faithful_zpop (fromMax : Bool) (rest : List Str) (hcur : finish cur = cur) :
    Faithful env key (zpop fromMax (key :: rest)) cur cur := by
  refine faithful_attempt hcur fun count _ => ?_
  refine faithful_readZset hcur (faithful_ret _ rfl) fun z d _ hfinish => ?_
  obtain ⟨popped, hrun, hremoved⟩ := @zpopLoop_outcome env key fromMax (count.getD 1) z d .normal []
  unfold Faithful
  rw [if_pos rfl, bind_eq, run_bind, hrun]
  by_cases hpopped : popped = []
  · simp only [hpopped, if_true]
    exact hfinish.symm ▸ .nil _
  · simp only [hpopped, if_false]
    exact .single (step_zrem (by simpa using hpopped) hremoved)

end KvStore
