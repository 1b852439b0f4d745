import KvStore.Engine.Locality

/-! # What the handler of a write does

A handler of a write on one key may create its key in place right after it has found it missing, and fails
before any other change (`Creating`, **`Command.creating_handler`**). A handler of a write on several keys
changes these keys only (**`Command.obeys_several`**). -/

namespace KvStore

open Commands List Prog

/-! ## The operations of a handler -/

/-- The operations that change the keys `ks` only, create none in place and do not touch the files. -/
@[simp] def Op.Near (ks : List Str) : Op → Prop
  | .insert _ _ => False
  | .mutate key _ | .zset key (.add _ _) | .zset key (.remove _) | .set key _ _ | .setExpiry key _
  | .persist key | .loadRecord key _ _ => key ∈ ks
  | .startRewrite | .save => False
  | _ => True

theorem Op.Tame.near {key : Str} {o : Op} (h : o.Tame key) : o.Near [key] := by
  cases o <;> simp_all
  case zset _ call => cases call <;> simp

/-- **Programs that create the key in place** only right after they have found it missing, by `write_target`,
and fail before the first change or right after that one. -/
inductive Creating (key : Str) {α : Type} : Cmd α → Prop
  | plain {p : Cmd α} (h : p.Obeys (Op.Brings key fun _ => false) Op.Views fun _ => True) : Creating key p
  /-- First a look at the key. -/
  | bind {β : Type} {p : Cmd β} {f : β → Cmd α} (hp : p.Uses (· = .get key))
      (hf : ∀ b, Creating key (f b)) : Creating key (p.bind f)
  /-- The key is created if it is missing. -/
  | target (kind : Kind) {f : Value Unit → Cmd α} (hkind : kind ≠ .str)
      (hf : ∀ v, (f v).Obeys (Op.Brings key fun _ => false) Op.Rests fun _ => True) :
      Creating key ((writeTarget key kind).bind f)

section Creating

variable {key : Str} {α β : Type}

/-- The operations of such a program: it brings its key and nothing else. -/
theorem Creating.uses {p : Cmd α} (hp : Creating key p) {news : News → Bool} (hkey : news .key = true) :
    p.Uses (Op.Brings key news) := by
  have hweak : ∀ o, Op.Brings key (fun _ => false) o → Op.Brings key news o :=
    fun o ho => ⟨ho.1, fun n hn => absurd (ho.2 n hn) (by simp)⟩
  induction hp with
  | plain h => exact h.uses.mono hweak
  | bind hp _ ih => exact (hp.mono fun _ ho => ho ▸ Op.brings_get key news).bind ih
  | target kind _ hf =>
    refine Prog.Uses.bind ?_ fun v => (hf v).uses.mono hweak
    simp [writeTarget, Option.forall, hkey]

/-- A computation on the arguments comes before anything else. -/
theorem creating_attempt (x : Except KvError β) {f : β → Cmd α}
    (hf : ∀ b, x = .ok b → Creating key (f b)) : Creating key ((attempt x).bind f) := by
  cases x with
  | error err => exact .plain trivial
  | ok b => exact hf b rfl

/-- LPUSH and RPUSH. -/
theorem creating_push (left : Bool) (values : List Str) : Creating key (push left (key :: values)) :=
  .target .list nofun fun v => by cases v <;> simp

/-- HSET. -/
theorem creating_hset (rest : List Str) : Creating key (hset (key :: rest)) := by
  simp only [hset]
  split
  · exact .plain trivial
  · exact .target .hash nofun fun v => by cases v <;> simp

/-- Setting one field, and then a part that does not fail. -/
theorem creating_hsetField_bind (field value : Str) {f : Unit → Cmd α}
    (hf : (f ()).Obeys (Op.Brings key fun _ => false) Op.Rests fun _ => False) :
    Creating key ((hsetField key field value).bind f) := by
  unfold hsetField
  rw [bind_eq, Prog.bind_assoc]
  refine .target .hash nofun fun v => ?_
  cases v <;> simp [hf]

theorem uses_readHash : (readHash key).Uses (· = .get key) := by
  simp [readHash, Option.forall, Seen.forall_iff, Value.forall_iff]

theorem uses_readZset : (readZset key).Uses (· = .get key) := by
  simp [readZset, Option.forall, Seen.forall_iff, Value.forall_iff]

/-- HSETNX. -/
theorem creating_hsetnx (rest : List Str) : Creating key (hsetnx (key :: rest)) := by
  unfold hsetnx
  split
  case h_2 => exact .plain trivial
  case h_1 field value heq =>
    obtain ⟨rfl, rfl⟩ := List.cons.inj heq
    refine .bind uses_readHash fun found => ?_
    split
    · exact .plain trivial
    · exact creating_hsetField_bind field value (by simp)

/-- HINCRBY. -/
theorem creating_hincrby (rest : List Str) : Creating key (hincrby (key :: rest)) := by
  unfold hincrby
  split
  case h_2 => exact .plain trivial
  case h_1 field arg heq =>
    obtain ⟨rfl, rfl⟩ := List.cons.inj heq
    refine creating_attempt _ fun delta _ => .bind uses_readHash fun found => ?_
    split
    · exact .plain trivial
    · exact creating_attempt _ fun result _ => creating_hsetField_bind field _ (by simp)

/-- SADD. -/
theorem creating_sadd (rest : List Str) : Creating key (sadd (key :: rest)) :=
  .target .set nofun fun v => by cases v <;> simp

variable [CPython]

/-- Without INCR the loop of ZADD does not fail. -/
theorem obeys_zaddLoop_of_not_incr {Q : Op → Prop} {E : KvError → Prop} {o : ZaddOptions}
    (hincr : o.incr = false) {ps : List (Double × Str)} (hreal : ∀ p ∈ ps, p.1.isNan = false)
    (st : ZaddState) : (zaddLoop o key ps st).Obeys (Op.Brings key fun _ => false) Q E := by
  induction ps generalizing st E with
  | nil => trivial
  | cons p rest ih =>
    obtain ⟨score, member⟩ := p
    have hrest : ∀ st {E}, (zaddLoop o key rest st).Obeys (Op.Brings key fun _ => false) Q E :=
      fun st _ => ih (fun q hq => hreal q (mem_cons_of_mem _ hq)) st
    simp only [zaddLoop, bind_eq, perform_bind, obeys_op]
    refine ⟨by simp, fun old => ?_⟩
    cases hmove : zaddMove o old score with
    | skip => exact hrest st
    | nan =>
      have := zaddMove_nan hmove (hreal _ mem_cons_self)
      rw [hincr] at this
      cases this
    | same new => exact hrest _
    | insert new => exact ⟨by simp [(zaddMove_insert hmove).1], fun _ => hrest _⟩
    | change new => exact ⟨by simp [(zaddMove_change hmove).1], fun _ => hrest _⟩

/-- The loop of ZADD fails before the first change: with INCR it has one round. -/
theorem obeys_zaddLoop {E : KvError → Prop} (hE : ∀ e, E e) {o : ZaddOptions} {ps : List (Double × Str)}
    (hreal : ∀ p ∈ ps, p.1.isNan = false) (hone : o.incr = true → ps.length ≤ 1) (st : ZaddState) :
    (zaddLoop o key ps st).Obeys (Op.Brings key fun _ => false) Op.Rests E := by
  induction ps generalizing st E with
  | nil => trivial
  | cons p rest ih =>
    obtain ⟨score, member⟩ := p
    have hreal' : ∀ q ∈ rest, q.1.isNan = false := fun q hq => hreal q (mem_cons_of_mem _ hq)
    have hlast : o.incr = true → rest = [] := by
      intro hincr
      have hlength := hone hincr
      rw [length_cons] at hlength
      exact length_eq_zero_iff.mp (by omega)
    -- after a change no round fails
    have hafter : ∀ st {E}, (zaddLoop o key rest st).Obeys (Op.Brings key fun _ => false) Op.Rests E := by
      intro st E
      cases hincr : o.incr with
      | true =>
        rw [hlast hincr]
        trivial
      | false => exact obeys_zaddLoop_of_not_incr hincr hreal' st
    have hrest : ∀ st, (zaddLoop o key rest st).Obeys (Op.Brings key fun _ => false) Op.Rests
        fun e => Op.Rests (.zset key (.score member)) ∧ E e :=
      ih (fun e => ⟨trivial, hE e⟩) hreal' fun hincr => by rw [hlast hincr]; simp
    simp only [zaddLoop, bind_eq, perform_bind, obeys_op]
    refine ⟨by simp, fun old => ?_⟩
    cases hmove : zaddMove o old score with
    | skip => exact hrest st
    | nan => exact ⟨trivial, hE _⟩
    | same new => exact hrest _
    | insert new => exact ⟨by simp [(zaddMove_insert hmove).1], fun _ => hafter _⟩
    | change new => exact ⟨by simp [(zaddMove_change hmove).1], fun _ => hafter _⟩

/-- ZADD. -/
theorem creating_zadd (args : List Str) : Creating key (zadd (key :: args)) := by
  refine creating_attempt _ fun parsed hparsed => .bind uses_readZset fun existing => ?_
  obtain ⟨hreal, hone⟩ := zaddParse_ok hparsed
  have hloop : ((zaddLoop parsed.1 key parsed.2 {}).bind fun st => (zaddLog key st.effects).bind
      fun _ => (Prog.ret (zaddReply parsed.1 st) : Cmd Reply)).Obeys (Op.Brings key fun _ => false)
        Op.Rests fun _ => True := by
    refine (obeys_zaddLoop (fun _ => trivial) hreal hone {}).andThen fun st =>
      Prog.Obeys.andThen ?_ fun _ => trivial
    simp [zaddLog]
  split
  · split <;> exact .plain trivial
  · cases existing
    · exact .target .zset nofun fun _ => hloop
    · exact .plain (hloop.mono (fun _ => id) (fun _ => Op.Rests.views) fun _ => id)

/-- ZINCRBY. -/
theorem creating_zincrby (rest : List Str) : Creating key (zincrby (key :: rest)) := by
  unfold zincrby
  split
  case h_2 => exact .plain trivial
  case h_1 arg member heq =>
    obtain ⟨rfl, rfl⟩ := List.cons.inj heq
    exact creating_attempt _ fun delta _ => .bind uses_readZset fun _ =>
      .target .zset nofun fun _ => by simp

/-- **The handlers of the commands that create their key.** -/
theorem Command.creating_handler (c : Command) (rest : List Str) (hcreates : c.creates = true) :
    Creating key (c.handler (key :: rest)) := by
  cases c <;> simp only [Command.creates, Bool.false_eq_true] at hcreates
  case lpush | rpush => exact creating_push _ rest
  case hset => exact creating_hset rest
  case hsetnx => exact creating_hsetnx rest
  case hincrby => exact creating_hincrby rest
  case sadd => exact creating_sadd rest
  case zadd => exact creating_zadd rest
  case zincrby => exact creating_zincrby rest

/-- **A handler of a write on a single key touches its key only**, and brings what its command may, whatever
one asks of these operations. -/
theorem Command.uses_write {P : Op → Prop} (c : Command) (rest : List Str)
    (hc : c.spec.keySpec = some singleKey) (hw : c.spec.write = true)
    (hP : ∀ o, Op.Brings key c.brings o → P o)
    (hload : c = .restore → ∀ payload atMs, (c.Real (key :: rest) → payload.Real) →
      P (.loadRecord key payload atMs)) : (c.handler (key :: rest)).Uses P := by
  cases hcreates : c.creates with
  | true => exact ((c.creating_handler rest hcreates).uses hcreates).mono hP
  | false => exact (c.obeys_write rest hc hw hcreates hP hload).uses

/-- **A handler of a single-key command touches its key only.** -/
theorem Command.uses_handler (c : Command) (rest : List Str) (hc : c.spec.keySpec = some singleKey)
    (hreal : c.Real (key :: rest)) : (c.handler (key :: rest)).Uses (Op.At key) := by
  cases hw : c.spec.write with
  | false => exact (c.obeys_read rest hc hw).uses.mono fun _ ho => ho.2
  | true => exact c.uses_write rest hc hw (fun _ ho => ho.1) fun _ _ _ h => by simp [h hreal]

end Creating

/-! ## The commands on several keys -/

variable {args : List Str}

/-- The keys of MSET are keys of the command. -/
theorem mem_select_of_mem_pairs {p : Str × Str} (hp : p ∈ pairs args) :
    p.1 ∈ everyOtherKey.select args := by
  have hfrom : ∀ (args : List Str) (i : Nat) (last : Int), i % 2 = 0 → i + args.length ≤ last + 1 →
      p ∈ pairs args → p.1 ∈ everyOtherKey.selectFrom last i args := by
    intro args
    induction args using pairs.induct with
    | case1 a b rest ih =>
      intro i last hi hlast hp
      simp only [length_cons] at hlast
      have hlast' : ((i + 2 : Nat) : Int) + rest.length ≤ last + 1 := by push_cast at hlast ⊢; omega
      have hle : (i : Int) ≤ last := by push_cast at hlast; omega
      have hsnd : ¬ (i + 1) % 2 = 0 := by omega
      simp only [KeySpec.selectFrom, everyOtherKey, Nat.zero_le, hle, Nat.sub_zero, hi, and_self,
        if_true, hsnd, and_false, if_false]
      rcases mem_cons.mp hp with rfl | hp
      · simp
      · exact mem_cons_of_mem _ (ih (i + 2) last (by omega) hlast' hp)
    | case2 args hargs =>
      intro i last hi hlast hp
      rw [pairs] at hp
      · simp at hp
      · exact hargs
  exact hfrom args 0 _ rfl (by simp [everyOtherKey]) hp

/-- DEL and UNLINK, whatever one asks of the deletion of a key. -/
theorem obeys_delete {P Q : Op → Prop} {E : KvError → Prop}
    (hdelete : ∀ key ∈ args, P (.delete key)) (hlog : ∀ x, P (.propagate x)) :
    (delete args).Obeys P Q E := by
  refine (obeys_keepIf fun key hkey => by simp [hdelete key hkey]).andThen fun deleted => ?_
  split <;> simp [hlog]

/-- MSET, whatever one asks of the setting of a key. -/
theorem obeys_mset {P Q : Op → Prop}
    (hset : ∀ key ∈ everyOtherKey.select args, ∀ value, P (.set key value false))
    (hlog : ∀ x, P (.propagate x)) : (mset args).Obeys P Q fun _ => True := by
  have hloop : ∀ (E : KvError → Prop) (entries : List (Str × Str)),
      (∀ p ∈ entries, p.1 ∈ everyOtherKey.select args) → (msetLoop entries).Obeys P Q E := by
    intro E entries
    induction entries generalizing E with
    | nil => exact fun _ => trivial
    | cons p rest ih =>
      intro h
      exact ⟨hset _ (h p mem_cons_self) _, fun _ => ih _ fun q hq => h q (mem_cons_of_mem p hq)⟩
  unfold mset
  split
  · trivial
  · exact (hloop _ _ fun p => mem_select_of_mem_pairs).andThen fun _ => by simp [hlog]

/-- **The handler of a write on several keys, or on all**, whatever one asks of its operations. -/
theorem Command.obeys_several [CPython] {P Q : Op → Prop} (c : Command) (args : List Str)
    (hc : c.spec.keySpec ≠ some singleKey) (hw : c.spec.write = true)
    (hdelete : ∀ key ∈ c.keyArgs args, P (.delete key))
    (hflush : c = .flushall ∨ c = .flushdb → P .flushAll) (hlog : ∀ x, P (.propagate x))
    (hset : c.spec.denyoom = true → ∀ key ∈ c.keyArgs args, ∀ value, P (.set key value false)) :
    (c.handler args).Obeys P Q c.Raises := by
  have hall : P .flushAll → (Commands.flushall args).Obeys P Q KvError.Ordinary := by
    intro h
    unfold Commands.flushall
    split <;> simp [h, hlog]
  cases c <;> simp only [Command.spec, Bool.false_eq_true] at hw <;>
    simp only [Command.spec, ne_eq, not_true_eq_false] at hc <;>
    simp only [Command.handler]
  case del | unlink => exact obeys_delete (fun key h => hdelete key (by simpa [keyArgs, spec] using h)) hlog
  case flushall => exact (hall (hflush (.inl rfl))).mono (fun _ => id) (fun _ => id) fun _ he _ _ => he
  case flushdb => exact (hall (hflush (.inr rfl))).mono (fun _ => id) (fun _ => id) fun _ he _ _ => he
  case mset => exact (obeys_mset (hset rfl) hlog).mono (fun _ => id) (fun _ => id) (by simp [Raises, spec])

/-! ## The key of a command on a single key -/

/-- A command on a single key has one, if the number of its arguments is right. -/
theorem Command.exists_key {c : Command} (hc : c.spec.keySpec = some singleKey)
    (harity : c.checkArity args = .ok ()) :
    ∃ key rest, args = key :: rest ∧ c.keyArgs args = [key] := by
  cases args with
  | cons key rest => exact ⟨key, rest, rfl, by simp [Command.keyArgs, hc]⟩
  | nil =>
    exfalso
    cases c <;> simp [Command.spec, singleKey, allKeys, everyOtherKey] at hc <;>
      simp [Command.checkArity, Command.spec] at harity

/-- **A write that does not create its key in place fails before the first change.** -/
theorem Command.views_handler [CPython] {c : Command} (harity : c.checkArity args = .ok ())
    (hw : c.spec.write = true) (hcreates : c.creates = false) :
    (c.handler args).Obeys (fun _ => True) Op.Views c.Raises := by
  by_cases hc : c.spec.keySpec = some singleKey
  · obtain ⟨key, rest, rfl, -⟩ := c.exists_key hc harity
    exact c.obeys_write rest hc hw hcreates (fun _ _ => trivial) fun _ _ _ _ => trivial
  · exact c.obeys_several args hc hw (fun _ _ => trivial) (fun _ => trivial) (fun _ => trivial)
      fun _ _ _ _ => trivial

end KvStore
