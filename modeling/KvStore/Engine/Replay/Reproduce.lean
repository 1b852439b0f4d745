import KvStore.Engine.Reference
import KvStore.Engine.Replay.Reachable

/-! # Logged effects reproduce the command

Whatever a command logs, the deletions of the keys it found expired and of the keys it evicted
included, takes the keyspace before it to the keyspace after it when it is replayed while loading, at
any clock (`execute_reproduced`). The engines are those that can be reached without a NaN among the
scores. With one it is false (`restore_nan_not_reproduced`): a NaN compares with nothing, so where
the skip list puts the members around it depends on the random levels, which are drawn anew.

The only way in for a NaN is a serialized value that holds one: without that no engine ever has one
(`scores_comparable`), and a RESTORE of one is accepted (`restore_brings_nan`). -/

namespace KvStore

namespace Engine

section Reproduce

variable [CPython] {σ : Type} [EvictionPolicy σ]

/-- The store of an engine is well-formed: it holds some keyspace. -/
def WellFormed (e : Engine σ) : Prop := ∃ K, e.store.Shows K

/-- **Work that logs what it does**: its effects lead from the keyspace that the engine holds to the one it holds
then. -/
structure Recounts (e e' : Engine σ) : Prop where
  serving : e'.Serving
  deletes : e'.store.expiryDeletes = e.store.expiryDeletes
  runs : ∀ {K : Keyspace}, e.store.Shows K → K.NoEmpty →
    ∃ E K', e'.propagated = e.propagated ++ E ∧ e'.store.Shows K' ∧ K'.NoEmpty ∧ Runs Space.Step E K K'

section

omit [EvictionPolicy σ]

/-- Nothing is done. -/
theorem Recounts.refl {e : Engine σ} (h : e.Serving) : Recounts e e :=
  ⟨h, rfl, fun hshows hK => ⟨[], _, (List.append_nil _).symm, hshows, hK, .nil _⟩⟩

/-- **One piece of work after the other.** -/
theorem Recounts.trans {e e' e'' : Engine σ} (h : Recounts e e') (h' : Recounts e' e'') : Recounts e e'' where
  serving := h'.serving
  deletes := h'.deletes.trans h.deletes
  runs hshows hK := by
    obtain ⟨E, K', hlog, hshows', hK', hruns⟩ := h.runs hshows hK
    obtain ⟨E', K'', hlog', hshows'', hK'', hruns'⟩ := h'.runs hshows' hK'
    exact ⟨E ++ E', K'', by simp [hlog', hlog], hshows'', hK'', hruns.append hruns'⟩

/-- A phase of a call is such work. -/
theorem Follows.recounts {now : Nat} {builds : Str → Prop} {e e' : Engine σ} (h : Follows now builds e e') :
    Recounts e e' where
  serving := h.serving
  deletes := h.deletes
  runs hshows hK := by
    obtain ⟨E, K', hlog, hshows', hK', hfollow⟩ := h.follow hshows hK
    exact ⟨E, K', hlog, hshows', hK', hfollow.exact hK⟩

end

/-- **Replayed, the log reproduces the work**, if every number in it can be read. -/
theorem Recounts.reproduced {e e' : Engine σ} (h : Recounts e e') (hsound : e.Sound) :
    ∃ E, e'.propagated = e.propagated ++ E ∧
      ∀ (l : Engine σ) (envs : Nat → Env), l.Loading → l.WellFormed →
        l.store.keyspace = e.store.keyspace → (∀ x ∈ E, x.Readable) →
        ∃ l', l.replay envs E = .ok l' ∧ l'.store.keyspace = e'.store.keyspace := by
  obtain ⟨-, K, hshows, hK⟩ := hsound
  obtain ⟨E, K', hlog, hshows', -, hruns⟩ := h.runs hshows hK
  refine ⟨E, hlog, fun l envs hl ⟨L, hL⟩ hsame hread => ?_⟩
  obtain ⟨l', hreplay, hshows''⟩ := replay_runs hruns hread hl (hshows.transfer hL hsame) envs
  exact ⟨l', hreplay, by rw [hshows''.keyspace_eq, hshows'.keyspace_eq]⟩

/-- **What a command logs reproduces it.** -/
theorem execute_reproduced {e : Engine σ} (h : e.Reachable) (env : Env) {c : Command}
    {args : List Str} (hrole : e.store.expiryDeletes = true ∨ c.spec.write = false)
    (hreal : c.Real args) :
    ∃ E, (e.execute env c args).2.propagated = e.propagated ++ E ∧
      ∀ (l l' : Engine σ) (envs : Nat → Env), l.Loading → l.WellFormed →
        l.store.keyspace = e.store.keyspace → l.replay envs E = .ok l' →
        l'.store.keyspace = (e.execute env c args).2.store.keyspace := by
  obtain ⟨E, hlog, hreproduced⟩ := (follows_execute h.sound.serving env hrole hreal).recounts.reproduced h.sound
  refine ⟨E, hlog, fun l l' envs hl hwf hsame hreplay => ?_⟩
  obtain ⟨l'', hreplay', hkeyspace⟩ := hreproduced l envs hl hwf hsame (readable_of_replay hreplay)
  rw [hreplay, Except.ok.injEq] at hreplay'
  rw [hreplay', hkeyspace]

/-- **No other way in for a NaN**: in an engine that was reached without one in the payload of a
RESTORE, in a snapshot or in the stream of a primary, every score of every sorted set, in the
dictionary and in the skip list, is a number. -/
theorem scores_comparable {e : Engine σ} (h : e.Reachable) {key : Str} {z : SortedSet}
    (hz : e.store.zsetAt key = some z) :
    (∀ node ∈ z.nodes, node.score.isNan = false) ∧
      ∀ member score, z.score member = some score → score.isNan = false := by
  obtain ⟨K, hshows, -⟩ := h.sound.holds
  -- the sorted set stands for a ranking, and the scores of a ranking are numbers
  obtain ⟨r, hr⟩ : ∃ r : Ranking, z.Models r := by
    unfold Store.zsetAt at hz
    split at hz
    case h_1 z' deadline size nbytes copied hget =>
      obtain rfl := Option.some.inj hz
      obtain ⟨item, -, hmodels⟩ := hshows.present hget
      have hvalue := hmodels.1
      cases hitem : item.value with
      | zset r => exact ⟨r, by rwa [hitem] at hvalue⟩
      | str _ | list _ | hash _ | set _ => exact absurd hvalue (by simp [hitem, Value.Models])
    case h_2 => cases hz
  constructor
  · intro node hnode
    have hmem : node.entry ∈ r.items := hr.items_eq ▸ List.mem_map_of_mem hnode
    exact r.real _ hmem
  · intro member score hscore
    rw [hr.score_eq] at hscore
    exact r.real _ (mem_of_assocGet hscore)

end Reproduce

/-! ## A NaN score -/

section Concrete

noncomputable local instance : CPython := referencePython

/-- RPUSH on a new engine is reproduced by the one effect it logs. -/
theorem execute_reproduced_rpush :
    let e := new (plainConfig allLow) (Env.quiet 0) none
    let e' := (e.execute (Env.quiet 0) .rpush [text "k", text "a"]).2
    e.Reachable ∧ e'.propagated = [⟨.rpush, [text "k", text "a"]⟩] ∧
      ∃ E, e'.propagated = e.propagated ++ E ∧
        ∀ (l l' : Engine NoEviction) (envs : Nat → Env), l.Loading → l.WellFormed →
          l.store.keyspace = e.store.keyspace → l.replay envs E = .ok l' →
          l'.store.keyspace = e'.store.keyspace :=
  ⟨.memory _ _, by decide +kernel,
    execute_reproduced (.memory _ _) (Env.quiet 0) (.inl rfl) trivial⟩

/-- A sorted set with a NaN between two numbers. -/
def nanPayload : Payload :=
  .zset [(text "a", 0x3FF0000000000000), (text "b", 0x7FF8000000000000),
    (text "c", 0x4000000000000000)]

/-- RESTORE of a sorted set with an infinite score on a new engine. -/
theorem scores_comparable_inf :
    let raw := dumpValue (.zset [(text "m", 0x7FF0000000000000)])
    let e := ((new (plainConfig allLow) (Env.quiet 0) none).execute (Env.quiet 0) .restore
      [text "z", text "0", raw]).2
    e.Reachable ∧ ∃ z, e.store.zsetAt (text "z") = some z ∧
      (∀ node ∈ z.nodes, node.score.isNan = false) ∧
      ∀ member score, z.score member = some score → score.isNan = false := by
  intro raw e
  have hreal : Command.Real .restore [text "z", text "0", raw] := by
    intro payload hload
    have hdump : loadValue raw = .ok (.zset [(text "m", 0x7FF0000000000000)]) := by decide +kernel
    rw [hdump, Except.ok.injEq] at hload
    rw [← hload]
    decide +kernel
  have hreach : e.Reachable := .execute (Env.quiet 0) (.memory _ _) (.inl rfl) hreal
  have hz : (e.store.zsetAt (text "z")).isSome = true := by decide +kernel
  obtain ⟨z, hz⟩ := Option.isSome_iff_exists.mp hz
  exact ⟨hreach, z, hz, scores_comparable hreach hz⟩

theorem one_lt_maxLevel : 1 < maxLevel := by decide

/-- Levels that put the first member one level higher than the others. -/
def firstHigh : Levels := fun n => if n = 0 then ⟨1, one_lt_maxLevel⟩ else allLow n

/-- RESTORE of a payload with a NaN score: the effect it logs, replayed from the empty keyspace it
started from, gives the members in another order. -/
theorem restore_nan_not_reproduced :
    let e := new (plainConfig firstHigh) (Env.quiet 0) none
    let e' := (e.execute (Env.quiet 0) .restore [text "z", text "0", dumpValue nanPayload]).2
    let l := (new (plainConfig allLow) (Env.quiet 0) none).beginLoad
    ∃ l', l.Loading ∧ l.WellFormed ∧ l.store.keyspace = e.store.keyspace ∧
      e'.propagated.length = 1 ∧
      l.replay (fun _ => Env.quiet 0) e'.propagated = .ok l' ∧
      l'.store.keyspace ≠ e'.store.keyspace := by
  intro e e' l
  have hlength : e'.propagated.length = 1 := by decide +kernel
  have hok : (l.replay (fun _ => Env.quiet 0) e'.propagated).toOption.isSome = true := by
    decide +kernel
  have horder : (l.replay (fun _ => Env.quiet 0) e'.propagated).toOption.map
      (fun l' => l'.store.keyspace (text "z")) ≠ some (e'.store.keyspace (text "z")) := by
    decide +kernel
  cases hreplay : l.replay (fun _ => Env.quiet 0) e'.propagated with
  | error err => simp [hreplay, Except.toOption] at hok
  | ok l' =>
    have hempty : l.store.Shows fun _ => none :=
      (shows_new (plainConfig allLow) (Env.quiet 0) none).of_eq rfl rfl
    refine ⟨l', ⟨rfl, rfl⟩, ⟨_, hempty⟩, rfl, hlength, rfl, ?_⟩
    intro hsame
    rw [hreplay] at horder
    refine horder ?_
    change some (l'.store.keyspace (text "z")) = _
    rw [hsame]

/-- RESTORE of a payload with a NaN score is accepted, and the score is in the keyspace. -/
theorem restore_brings_nan :
    let e := new (plainConfig firstHigh) (Env.quiet 0) none
    let run := e.execute (Env.quiet 0) .restore [text "z", text "0", dumpValue nanPayload]
    run.1 = .ok .ok ∧ ∃ z score, run.2.store.zsetAt (text "z") = some z ∧
      z.score (text "b") = some score ∧ score.isNan = true := by
  intro e run
  have hscore : ((run.2.store.zsetAt (text "z")).bind fun z => z.score (text "b")).any
      Double.isNan = true := by decide +kernel
  refine ⟨by decide +kernel, ?_⟩
  cases hz : run.2.store.zsetAt (text "z") with
  | none => simp [hz] at hscore
  | some z =>
    rw [hz, Option.bind_some, Option.any_eq_true] at hscore
    obtain ⟨score, hget, hnan⟩ := hscore
    exact ⟨z, score, rfl, hget, hnan⟩

end Concrete

end Engine

end KvStore
