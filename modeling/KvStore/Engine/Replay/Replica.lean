import KvStore.Engine.Replay.Reproduce

/-! # Replicas

A replica that applies its primary's stream, starting from the primary's keyspace, holds the
primary's keyspace (`replica_converges`), provided that each deadline in the stream is still to come
when the replica applies it. Otherwise it need not (`late_replica_diverges`): `apply_replicated`
switches the store's own expiry off, but the handler of PEXPIREAT still compares the deadline with
the replica's clock and removes the key at once if it has passed. -/

namespace KvStore

open List

namespace Engine

section Stream

variable [CPython] {σ τ : Type} [EvictionPolicy σ] [EvictionPolicy τ]

/-- What a primary does: a command of a client, or housekeeping. -/
inductive Work
  | execute (env : Env) (c : Command) (args : List Str)
  /-- Housekeeping. -/
  | cron (env : Env) (sampleSize : Nat) (auto : Bool)

/-- It brings in no NaN. -/
def Work.Real : Work → Prop
  | .execute _ c args => c.Real args
  | .cron _ _ _ => True

/-- One piece of work. -/
def work (e : Engine σ) : Work → Engine σ
  | .execute env c args => (e.execute env c args).2
  | .cron env sampleSize auto => e.cron env sampleSize auto

/-- **A replica applies the stream**, each command at its own clock reading. A command that fails is
reported and passed over. -/
def follow (envs : Nat → Env) : List Effect → Engine σ → Engine σ
  | [], e => e
  | x :: rest, e => follow (fun n => envs (n + 1)) rest (e.applyReplicated (envs 0) x).2

variable {e : Engine σ}

/-- One piece of work is logged. -/
theorem recounts_work (h : e.Serving) (hprimary : e.store.expiryDeletes = true) {w : Work}
    (hw : w.Real) : Recounts e (e.work w) := by
  cases w with
  | execute env c args => exact (follows_execute h env (.inl hprimary) hw).recounts
  | cron env sampleSize auto =>
    have hcron : Follows 0 (fun _ => True) e (e.cron env sampleSize auto) := follows_cron h env sampleSize auto
    exact hcron.recounts

/-- **A primary at work** logs what it does. -/
theorem recounts_works (ws : List Work) (hws : ∀ w ∈ ws, w.Real) (h : e.Serving)
    (hprimary : e.store.expiryDeletes = true) : Recounts e (ws.foldl work e) := by
  induction ws generalizing e with
  | nil => exact .refl h
  | cons w rest ih =>
    have hwork := recounts_work h hprimary (hws w mem_cons_self)
    exact hwork.trans (ih (fun w' hw' => hws w' (mem_cons_of_mem _ hw')) hwork.serving
      (hwork.deletes.trans hprimary))

/-- **One command of the stream**, applied before its deadline. -/
theorem applyReplicated_step {x : Effect} {K K' : Keyspace} (hstep : Space.Step x K K')
    (h : e.Serving) (hshows : e.store.Shows K) (env : Env) (hread : x.Readable)
    (hfresh : ∀ ms, x.deadline = some ms → toMs env.now < ms) :
    (e.applyReplicated env x).1 = .ok () ∧ (e.applyReplicated env x).2.Serving ∧
      (e.applyReplicated env x).2.store.Shows K' := by
  -- the keys are copied for a running snapshot, and the store's expiry is off while the command runs
  obtain ⟨hreplaying, hexpiry, hdeletes⟩ :=
    eq_of_flags (phase_barrier (x.command.keyArgs x.args) e).flags
  let e₀ := (e.barrier (x.command.keyArgs x.args)).onStore fun s => { s with expiryEnabled := false }
  have hsim : Sim ⟨false, false, e.store.expiryDeletes⟩ e.propagated e₀ ⟨K, []⟩ :=
    ⟨(hshows.barrierAll _).of_eq rfl rfl, hreplaying.trans h.replaying, rfl, hdeletes,
      by simp [e₀, onStore, barrier]⟩
  obtain ⟨harity, reply, out, hok, hsim'⟩ := run_step hstep rfl hsim (.inr hfresh) hread
  have happly : e.applyReplicated env x =
      (((e₀.run env x.command x.args).1).map fun _ => (),
        (e₀.run env x.command x.args).2.onStore fun s =>
          { s with expiryEnabled := e.store.expiryEnabled }) := by
    simp only [applyReplicated, harity, hexpiry]
    rfl
  rw [happly, hok]
  exact ⟨rfl, ⟨hsim'.replaying, h.expiry⟩, hsim'.shows.of_eq rfl rfl⟩

/-- **The whole stream.** -/
theorem follow_runs {E : List Effect} {K K' : Keyspace} (hruns : Runs Space.Step E K K')
    {envs : Nat → Env} (hread : ∀ x ∈ E, x.Readable)
    (hfresh : ∀ (n : Nat) (x : Effect) (ms : Int), E[n]? = some x → x.deadline = some ms →
      toMs (envs n).now < ms) (h : e.Serving) (hshows : e.store.Shows K) :
    (e.follow envs E).store.Shows K' := by
  induction hruns generalizing e envs with
  | nil K => exact hshows
  | cons hstep _ ih =>
    obtain ⟨-, hserving, hshows₁⟩ := applyReplicated_step hstep h hshows (envs 0)
      (hread _ mem_cons_self) fun ms => hfresh 0 _ ms rfl
    exact ih (fun x hx => hread x (mem_cons_of_mem _ hx))
      (fun n x ms hx => hfresh (n + 1) x ms hx) hserving hshows₁

/-- **Replicas converge.** After any work of a primary, a replica that started from the primary's
keyspace and applied the stream, each command before the deadline in it, if any, holds exactly the
primary's keyspace. -/
theorem replica_converges (h : e.Reachable) (hprimary : e.store.expiryDeletes = true)
    {ws : List Work} (hws : ∀ w ∈ ws, w.Real) {r : Engine τ} (hr : r.Serving) (hwf : r.WellFormed)
    (hsame : r.store.keyspace = e.store.keyspace) :
    ∃ E, (ws.foldl work e).propagated = e.propagated ++ E ∧
      ∀ envs : Nat → Env, (∀ x ∈ E, x.Readable) →
        (∀ (n : Nat) (x : Effect) (ms : Int), E[n]? = some x → x.deadline = some ms →
          toMs (envs n).now < ms) →
        (r.follow envs E).store.keyspace = (ws.foldl work e).store.keyspace := by
  obtain ⟨hserving, K, hshows, hK⟩ := h.sound
  obtain ⟨E, K', hlog, hshows', -, hruns⟩ := (recounts_works ws hws hserving hprimary).runs hshows hK
  refine ⟨E, hlog, fun envs hread hfresh => ?_⟩
  obtain ⟨L, hL⟩ := hwf
  rw [(follow_runs hruns hread hfresh hr (hshows.transfer hL hsame)).keyspace_eq, hshows'.keyspace_eq]

end Stream

/-! ## A replica that is late -/

section Concrete

noncomputable local instance : CPython := referencePython

/-- A primary on which a key is set and given a second to live, at time zero. -/
def briefKey : List Work :=
  [.execute (Env.quiet 0) .set [text "k", text "v"],
    .execute (Env.quiet 0) .pexpire [text "k", text "1000"]]

/-- The stream of that primary. -/
def briefStream : List Effect :=
  [⟨.set, [text "k", text "v"]⟩, ⟨.pexpireat, [text "k", text "1000"]⟩]

theorem propagated_briefKey :
    (briefKey.foldl work (new (plainConfig allLow) (Env.quiet 0) none)).propagated =
      briefStream := by
  decide +kernel

/-- A replica that applies the stream at time zero holds what the primary holds. -/
theorem replica_converges_brief :
    let e := new (plainConfig allLow) (Env.quiet 0) none
    let r := (new (plainConfig allLow) (Env.quiet 0) none).setRole false
    (r.follow (fun _ => Env.quiet 0) briefStream).store.keyspace =
      (briefKey.foldl work e).store.keyspace := by
  intro e r
  have hwf : r.WellFormed :=
    ⟨_, (shows_new (plainConfig allLow) (Env.quiet 0) none).of_eq rfl rfl⟩
  have hreal : ∀ w ∈ briefKey, w.Real := by
    intro w hw
    rcases mem_cons.mp hw with rfl | hw
    · trivial
    · cases mem_singleton.mp hw
      trivial
  have hr : r.Serving := ⟨rfl, rfl⟩
  obtain ⟨E, hlog, hconverges⟩ :=
    replica_converges (.memory (plainConfig allLow) (Env.quiet 0)) rfl hreal hr hwf rfl
  have hE : E = briefStream := by
    rw [propagated_briefKey] at hlog
    exact hlog.symm
  subst hE
  refine hconverges _ ?_ ?_
  · intro x hx
    rcases mem_cons.mp hx with rfl | hx
    · simp [Effect.Readable, Effect.numbers]
    · cases mem_singleton.mp hx
      intro arg harg
      cases mem_singleton.mp harg
      exact ⟨1000, by decide +kernel⟩
  · intro n x ms hx hms
    rcases n with _ | _ | n
    · cases hx
      cases hms
    · cases hx
      have : ms = 1000 := by
        have hdeadline : (⟨.pexpireat, [text "k", text "1000"]⟩ : Effect).deadline = some 1000 := by
          decide +kernel
        exact (Option.some.inj (hdeadline.symm.trans hms)).symm
      subst this
      decide
    · cases hx

/-- The replica applies the same stream two seconds later: it removes the key, which the primary
still has with its deadline. -/
theorem late_replica_diverges :
    let e := new (plainConfig allLow) (Env.quiet 0) none
    let r := (new (plainConfig allLow) (Env.quiet 0) none).setRole false
    e.Reachable ∧ r.Serving ∧ r.WellFormed ∧ r.store.keyspace = e.store.keyspace ∧
      (briefKey.foldl work e).propagated = e.propagated ++ briefStream ∧
      (r.follow (fun _ => Env.quiet 2000000) briefStream).store.keyspace ≠
        (briefKey.foldl work e).store.keyspace := by
  intro e r
  refine ⟨.memory _ _, ⟨rfl, rfl⟩,
    ⟨_, (shows_new (plainConfig allLow) (Env.quiet 0) none).of_eq rfl rfl⟩, rfl,
    propagated_briefKey, ?_⟩
  intro hsame
  have hkey := congrFun hsame (text "k")
  have hgone : (r.follow (fun _ => Env.quiet 2000000) briefStream).store.keyspace (text "k") = none := by
    decide +kernel
  have hthere : ((briefKey.foldl work e).store.keyspace (text "k")).isSome = true := by
    decide +kernel
  rw [← hkey, hgone] at hthere
  cases hthere

end Concrete

end Engine

end KvStore
