import KvStore.Engine.Lifecycle
import KvStore.Engine.Replay.Execute

/-! # Replaying effects on an engine

An effect that is replayed is accepted exactly if its numbers can be read (`Effect.Readable`), and
then it does to the engine's keyspace what `Space.Step` says.

* **`Engine.apply_step`**, **`Engine.applyReplicated_step`** — one effect, from the append-only file
  or from the stream.
* **`Engine.replay_runs`** — a whole log. -/

namespace KvStore

open Commands

variable [CPython]

/-! ## Accepted effects are readable -/

section Readable

variable {S : Type} {f : (o : Op) → S → o.Resp × S}

omit [CPython] in
/-- A program that begins with a parse succeeds only if the parse does. -/
theorem ok_of_run_attempt {α β : Type} {x : Except KvError β} {k : β → Cmd α} {s : S} {a : α}
    (h : (((attempt x).bind k).run f s).1 = .ok a) : ∃ b, x = .ok b ∧ ((k b).run f s).1 = .ok a := by
  cases x with
  | error e => simp at h
  | ok b => exact ⟨b, rfl, h⟩

omit [CPython] in
theorem readable_counts {counts : List Str} {count : Option Nat} (h : popCount counts = .ok count)
    (hlength : counts.length ≤ 1) : ∀ arg ∈ counts, ∃ n, intArg arg = .ok n := by
  match counts, hlength with
  | [], _ => simp
  | [arg], _ =>
    simp only [popCount] at h
    split at h
    · simp at h
    · rename_i n hn
      simpa using ⟨n, hn⟩

/-- **An effect that is accepted has readable numbers.** -/
theorem Effect.readable_of_ok {x : Effect} {s : S} {reply : Reply}
    (h : (x.program.run f s).1 = .ok reply) : x.Readable := by
  obtain ⟨c, args⟩ := x
  obtain ⟨⟨⟩, harity, hrun⟩ := ok_of_run_attempt h
  simp only [Readable, numbers]
  split
  case h_1 | h_2 | h_3 | h_7 | h_9 =>
    obtain ⟨n, hn, -⟩ := ok_of_run_attempt hrun
    simpa using ⟨n, hn⟩
  case h_4 key arg rest =>
    cases rest with
    | nil => simp [Command.handler, restore, badArity] at hrun
    | cons raw options =>
      obtain ⟨n, hn, -⟩ := ok_of_run_attempt hrun
      simpa using ⟨n, hn⟩
  case h_5 | h_6 =>
    obtain ⟨count, hcount, -⟩ := ok_of_run_attempt hrun
    exact readable_counts hcount (by simpa [Command.checkArity, Command.spec] using harity)
  case h_8 =>
    obtain ⟨n, hn, hrun⟩ := ok_of_run_attempt hrun
    obtain ⟨n', hn', -⟩ := ok_of_run_attempt hrun
    simpa using ⟨⟨n, hn⟩, ⟨n', hn'⟩⟩
  case h_10 => simp

end Readable

namespace Engine

variable {σ : Type} [EvictionPolicy σ]

/-! ## One effect -/

/-- Running the handler of an effect and accounting its keys again is replaying it. -/
theorem run_step {x : Effect} {K K' : Keyspace} (hstep : Space.Step x K K') {m : Mode}
    (hm : m.expiry = false) {base : List Effect} {e : Engine σ} (hsim : Sim m base e ⟨K, []⟩)
    {env : Env} (hfresh : x.Fresh m env.now) (hread : x.Readable) :
    x.command.checkArity x.args = .ok () ∧
      ∃ reply out, (e.run env x.command x.args).1 = .ok reply ∧
        Sim m base (e.run env x.command x.args).2 ⟨K', out⟩ := by
  have happly := hstep.apply_eq env m hm hfresh hread
  obtain ⟨hanswer, hsim'⟩ := run_sim env hstep.plain hsim
  have harity : x.command.checkArity x.args = .ok () := by
    cases h : x.command.checkArity x.args with
    | ok u => rfl
    | error err => simp [Space.apply, Effect.program, h] at happly
  have hprogram : x.program = x.command.handler x.args := by
    simp [Effect.program, harity]
  rw [hprogram] at hanswer hsim'
  simp only [Space.apply, hprogram] at happly
  split at happly
  case h_2 => cases happly
  case h_1 reply sp heq =>
    rw [Except.ok.injEq] at happly
    rw [heq] at hanswer hsim'
    refine ⟨harity, reply, sp.out, ?_, ?_⟩
    · rw [run_write env hstep.write]
      exact hanswer
    · rw [run_write env hstep.write, ← happly]
      have hflags := eq_of_flags (phase_refreshAll (x.command.keyArgs x.args)
        ((x.command.handler x.args).run (exec env) e).2).flags
      exact ⟨shows_refreshAll hsim'.shows _, hflags.1.trans hsim'.replaying,
        hflags.2.1.trans hsim'.expiry, hflags.2.2.trans hsim'.deletes, hsim'.log⟩

/-- The switches while the files are read. -/
structure Loading (e : Engine σ) : Prop where
  replaying : e.replaying = true
  expiry : e.store.expiryEnabled = false

/-- **A record of the log**, if its numbers can be read. -/
theorem apply_step {x : Effect} {K K' : Keyspace} (hstep : Space.Step x K K') {e : Engine σ}
    (h : e.Loading) (hshows : e.store.Shows K) (env : Env) (hread : x.Readable) :
    ∃ e', e.apply env x = .ok e' ∧ e'.Loading ∧ e'.store.Shows K' := by
  have hsim : Sim ⟨true, false, e.store.expiryDeletes⟩ e.propagated e ⟨K, []⟩ :=
    ⟨hshows, h.replaying, h.expiry, rfl, by simp⟩
  obtain ⟨harity, reply, out, hok, hsim'⟩ := run_step hstep rfl hsim (.inl rfl) hread
  refine ⟨(e.run env x.command x.args).2, ?_, ⟨hsim'.replaying, hsim'.expiry⟩, hsim'.shows⟩
  rcases hrun : e.run env x.command x.args with ⟨result, e'⟩
  rw [hrun] at hok
  simp only at hok
  simp [apply, harity, hrun, hok]

/-- A record that is accepted has readable numbers. -/
theorem readable_of_apply {x : Effect} {env : Env} {e e' : Engine σ} (h : e.apply env x = .ok e') :
    x.Readable := by
  simp only [apply] at h
  split at h
  case h_1 => cases h
  case h_2 harity =>
    split at h
    case h_1 => cases h
    case h_2 reply e₁ hrun =>
      have hok : ((x.command.handler x.args).run (exec env) e).1 = .ok reply := by
        cases hw : x.command.spec.write with
        | true =>
          rw [run_write env hw] at hrun
          exact congrArg Prod.fst hrun
        | false =>
          rw [run_read env hw] at hrun
          exact congrArg Prod.fst hrun
      have hprogram : (x.program.run (exec env) e).1 = .ok reply := by
        simpa [Effect.program, harity] using hok
      exact Effect.readable_of_ok hprogram

/-! ## A log -/

/-- **A log whose numbers can be read is replayed**, whatever the clock readings. -/
theorem replay_runs {E : List Effect} {K K' : Keyspace} (hruns : Runs Space.Step E K K')
    (hread : ∀ x ∈ E, x.Readable) {e : Engine σ} (h : e.Loading) (hshows : e.store.Shows K)
    (envs : Nat → Env) : ∃ e', e.replay envs E = .ok e' ∧ e'.store.Shows K' := by
  induction hruns generalizing e envs with
  | nil K => exact ⟨e, rfl, hshows⟩
  | cons hstep _ ih =>
    obtain ⟨e₁, happly, hloading, hshows₁⟩ :=
      apply_step hstep h hshows (envs 0) (hread _ List.mem_cons_self)
    obtain ⟨e₂, hreplay, hshows₂⟩ :=
      ih (fun x hx => hread x (List.mem_cons_of_mem _ hx)) hloading hshows₁ fun n => envs (n + 1)
    exact ⟨e₂, by simp [replay, happly, hreplay], hshows₂⟩

/-- A log that is accepted has readable numbers. -/
theorem readable_of_replay {E : List Effect} {envs : Nat → Env} {e e' : Engine σ}
    (h : e.replay envs E = .ok e') : ∀ x ∈ E, x.Readable := by
  induction E generalizing e envs with
  | nil => simp
  | cons x rest ih =>
    simp only [replay] at h
    split at h
    case h_1 => cases h
    case h_2 e₁ happly =>
      intro y hy
      rcases List.mem_cons.mp hy with rfl | hy
      · exact readable_of_apply happly
      · exact ih h y hy

end Engine

end KvStore
