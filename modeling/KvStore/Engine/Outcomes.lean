import KvStore.Engine.Steps

/-! # How a command ends

`Engine.execute` goes through the same stations for every command: the arity, the open files, the copies for a
running snapshot, the check of the limits, the handler, the eviction.

* **`Engine.Outcome`** — the ways a command can end, one constructor for each station it can stop at;
  `Engine.outcome` says that there are no others.
* **`Engine.ordinary_execute`** — only the check of the limits refuses a command for want of memory. -/

namespace KvStore

open Commands Prog

namespace Engine

variable [CPython] {σ : Type} [EvictionPolicy σ]

/-! ## Stations -/

/-- The error of a write before the files are open. -/
def notOpen : KvError := ⟨.persistence, "ERR", "engine is not open; call open() before writing"⟩

/-- The engine after the copies for a running snapshot, which only a write needs. -/
def guarded (c : Command) (args : List Str) (e : Engine σ) : Engine σ :=
  if c.spec.write then e.barrier (c.keyArgs args) else e

omit [CPython] [EvictionPolicy σ] in
/-- The copies leave the switches alone. -/
@[simp] theorem flags_guarded (c : Command) (args : List Str) (e : Engine σ) :
    (e.guarded c args).flags = e.flags := by
  unfold guarded
  split
  · exact (phase_barrier _ e).flags
  · rfl

/-- The engine after the eviction that follows a write, the command being counted. -/
def settled (env : Env) (c : Command) (args : List Str) (e : Engine σ) : Engine σ :=
  let e := if c.spec.write then e.evict env (c.keyArgs args) else e
  { e with commandsProcessed := e.commandsProcessed + 1 }

/-- **The ways a command can end.** -/
inductive Outcome (env : Env) (c : Command) (args : List Str) (e : Engine σ) :
    Except KvError Reply → Engine σ → Prop
  /-- The number of arguments is wrong. -/
  | arity {err : KvError} (h : c.checkArity args = .error err) : Outcome env c args e (.error err) e
  | closed (hw : c.spec.write = true) : Outcome env c args e (.error notOpen) e
  | refused {err : KvError} {e' : Engine σ} (harity : c.checkArity args = .ok ())
      (h : (e.guarded c args).checkMemory env c args = (.error err, e')) :
      Outcome env c args e (.error err) e'
  | failed {err : KvError} {checked e' : Engine σ} (harity : c.checkArity args = .ok ())
      (hcheck : (e.guarded c args).checkMemory env c args = (.ok (), checked))
      (h : checked.run env c args = (.error err, e')) : Outcome env c args e (.error err) e'
  | done {reply : Reply} {checked ran : Engine σ} (harity : c.checkArity args = .ok ())
      (hcheck : (e.guarded c args).checkMemory env c args = (.ok (), checked))
      (h : checked.run env c args = (.ok reply, ran)) :
      Outcome env c args e (.ok reply) (ran.settled env c args)

/-- **Every command ends in one of them.** -/
theorem outcome (env : Env) (c : Command) (args : List Str) (e : Engine σ) :
    Outcome env c args e (e.execute env c args).1 (e.execute env c args).2 := by
  rw [execute]
  split
  case h_1 err harity => exact .arity harity
  case h_2 harity =>
    split
    case isTrue hclosed => exact .closed hclosed.1
    case isFalse =>
      simp only
      split
      case h_1 err e' hcheck => exact .refused harity hcheck
      case h_2 checked hcheck =>
        split
        case h_1 err e' hrun => exact .failed harity hcheck hrun
        case h_2 reply ran hrun => exact .done harity hcheck hrun

/-- A successful command has gone through all stations. -/
theorem execute_ok {env : Env} {c : Command} {args : List Str} {e : Engine σ} {reply : Reply}
    (h : (e.execute env c args).1 = .ok reply) :
    ∃ checked ran, c.checkArity args = .ok () ∧
      (e.guarded c args).checkMemory env c args = (.ok (), checked) ∧
      checked.run env c args = (.ok reply, ran) ∧ (e.execute env c args).2 = ran.settled env c args := by
  have houtcome := outcome env c args e
  rw [h] at houtcome
  generalize (e.execute env c args).2 = final at houtcome
  cases houtcome with
  | done harity hcheck hrun => exact ⟨_, _, harity, hcheck, hrun, rfl⟩

/-- The outcome of `_run` is that of the handler. -/
theorem fst_run (env : Env) (c : Command) (args : List Str) (e : Engine σ) :
    (e.run env c args).1 = ((c.handler args).run (exec env) e).1 := by
  cases hw : c.spec.write with
  | true => rw [run_write env hw]
  | false => rw [run_read env hw]

end Engine

/-! ## Errors about memory -/

namespace Engine

variable [CPython] {σ : Type} [EvictionPolicy σ]

variable {e : Engine σ} {err : KvError}

omit [CPython] [EvictionPolicy σ] in
theorem ordinary_startRewrite {env : Env} (h : (e.startRewrite env).1 = .error err) : err.Ordinary := by
  unfold startRewrite at h
  split at h
  · cases h
    simp
  · simp only at h
    split at h
    · cases h
      simp
    · split at h <;> cases h

omit [CPython] [EvictionPolicy σ] in
theorem ordinary_save {env : Env} (h : (e.save env).1 = .error err) : err.Ordinary := by
  unfold save at h
  split at h
  case h_1 err' e' hstart =>
    cases h
    exact ordinary_startRewrite (congrArg Prod.fst hstart)
  case h_2 =>
    simp only at h
    split at h
    · cases h
    · cases h
      exact nofun

omit [EvictionPolicy σ] in
/-- **A command raises its errors only.** -/
theorem raises_run {c : Command} {args : List Str} (harity : c.checkArity args = .ok ()) {S : Type}
    {f : (o : Op) → S → o.Resp × S} {s : S} (h : ((c.handler args).run f s).1 = .error err) :
    c.Raises err := by
  cases hw : c.spec.write with
  | false => exact (reads_handler c args harity hw).of_run h
  | true =>
    cases hcreates : c.creates with
    | false => exact (Command.views_handler harity hw hcreates).of_run h
    | true =>
      cases c <;> simp only [Command.creates, Bool.false_eq_true] at hcreates <;>
        simp [Command.Raises, Command.spec]

/-- **A command without the flag `denyoom` does not fail for want of memory**, if the reports on the server
do not. -/
theorem ordinary_run (env : Env)
    (hreports : ∀ c args err, env.introspect c args = .error err → err.Ordinary) {c : Command}
    (hdeny : c.spec.denyoom = false) {args : List Str} (harity : c.checkArity args = .ok ())
    (h : ((c.handler args).run (exec env) e).1 = .error err) : err.Ordinary := by
  cases hasks : c.asks with
  | false => exact raises_run harity h hasks hdeny
  | true =>
    -- the outcome the context gives is the outcome of the command
    have hreport : ∀ c', ((report c' args).run (exec env) e).1 = .error err → err.Ordinary := by
      intro c' h
      simp only [report, bind_eq, perform_bind, run_op, exec] at h
      cases hout : env.introspect c' args with
      | ok a => simp [hout] at h
      | error err' =>
        simp only [hout, ofExcept_error, fail_bind, run_fail, Except.error.injEq] at h
        exact h ▸ hreports c' args err' hout
    have hstart : ∀ line, (((call .startRewrite).bind fun outcome =>
        (attempt outcome).bind fun _ => (Prog.ret (.status line) : Cmd Reply)).run
          (exec env) e).1 = .error err → err.Ordinary := by
      intro line h
      simp only [perform_bind, run_op, exec] at h
      cases hout : (e.startRewrite env).1 with
      | ok a => simp [hout] at h
      | error err' =>
        simp only [hout, ofExcept_error, fail_bind, run_fail, Except.error.injEq] at h
        exact h ▸ ordinary_startRewrite hout
    cases c <;> simp only [Command.asks, Bool.false_eq_true] at hasks <;>
      simp only [Command.handler] at h
    case save =>
      simp only [Commands.save, bind_eq, perform_bind, run_op, exec] at h
      cases hout : (e.save env).1 with
      | ok a => simp [hout] at h
      | error err' =>
        simp only [hout, ofExcept_error, fail_bind, run_fail, Except.error.injEq] at h
        exact h ▸ ordinary_save hout
    case bgsave =>
      unfold bgsave at h
      split at h
      · cases h
        simp
      · exact hstart _ h
    case bgrewriteaof => exact hstart _ h
    all_goals exact hreport _ h

/-- Only the check of the limits refuses a command for want of memory, and only one with the flag. -/
theorem ordinary_execute (env : Env)
    (hreports : ∀ c args err, env.introspect c args = .error err → err.Ordinary) {c : Command}
    (hdeny : c.spec.denyoom = false) {args : List Str} (h : (e.execute env c args).1 = .error err) :
    err.Ordinary := by
  have houtcome := outcome env c args e
  rw [h] at houtcome
  generalize (e.execute env c args).2 = final at houtcome
  cases houtcome with
  | arity harity =>
    unfold Command.checkArity at harity
    split at harity
    · cases harity
      simp
    · cases harity
  | closed => exact nofun
  | refused _ hcheck => simp [checkMemory, hdeny] at hcheck
  | @failed _ checked _ harity _ hrun =>
    have houtcome : ((c.handler args).run (exec env) checked).1 = .error err := by
      rw [← fst_run, hrun]
    exact ordinary_run env hreports hdeny harity houtcome

end Engine

end KvStore
