import KvStore.Cluster.Router

/-! # Retries

What the retry loop of the router does to one command, whatever it meets. An exchange is described by three
functions of the command: whether it was executed, its result, and whether it is to be sent again
(`Outcome.ran`, `Outcome.result`, `Outcome.again`). An attempt sends a command in one exchange at most
(`plan_count`), so what the loop does to a command is what one exchange an attempt does to it.

A node that answers says whether it executed a command (`Outcome.Honest`): it did if the reply is no error,
and it did not if it refused the command to be tried again. A write is sent again only if it was not
executed, so that it is executed once at most (`write_at_most_once`). -/

namespace KvStore

open List

namespace Router

/-! ## Runs -/

namespace Run

variable {ω α β : Type}

theorem bind_ok {x : Run ω α} {f : α → Run ω β} {a : α} (h : x.result = .ok a) :
    x.bind f = ⟨x.log ++ (f a).log, (f a).result⟩ := by
  simp [bind, h]

theorem bind_error {x : Run ω α} {f : α → Run ω β} {c : Crash} (h : x.result = .error c) :
    x.bind f = ⟨x.log, .error c⟩ := by
  simp [bind, h]

end Run

/-! ## One exchange -/

namespace Outcome

/-- Whether a command was executed. -/
def ran : Outcome → Nat → Bool
  | .connectFailed _ => fun _ => false
  | .unavailable _ ran | .replied _ ran _ => ran

/-- The result of a command. -/
def result (settings : Settings) (p : Share) (address : Str) (is : List Nat) :
    Outcome → Nat → Resp
  | .connectFailed reason => fun _ =>
    .error (.make .connectFailed (address ++ text " unavailable: " ++ reason) none)
  | .unavailable reason _ => fun _ =>
    .error (.make .nodeUnavailable (address ++ text " unavailable: " ++ reason) none)
  | .replied reply _ confirmed => verdict settings p is reply confirmed

/-- Whether a command is to be sent again. -/
def again (p : Share) : Outcome → Nat → Bool
  | .connectFailed _ => fun _ => true
  | .unavailable _ _ => fun _ => p.readonly
  | .replied reply _ _ => fun i => (reply (p.command i) i).isRetryable

/-- **What a reply says**: a command with a reply that is no error was executed, one that is to be tried
again was not. -/
def Honest : Outcome → Prop
  | .replied reply ran _ => ∀ c i, ((reply c i).isError = false → ran i = true) ∧
      ((reply c i).isRetryable = true → ran i = false)
  | _ => True

end Outcome

/-- A reply to be tried again is an error. -/
theorem isError_of_isRetryable {r : Resp} (h : r.isRetryable = true) : r.isError = true := by
  unfold Resp.isRetryable at h
  unfold Resp.isError
  cases r <;> simp_all [Resp.errorClass]

section
variable {settings : Settings} {p : Share} {is : List Nat} {reply : List Str → Nat → Resp}
  {confirmed : Except WireError Int} {i : Nat}

/-- The verdict of WAIT: the reply, or that a write did not reach enough replicas. -/
theorem verdict_cases (settings : Settings) (p : Share) (is : List Nat)
    (reply : List Str → Nat → Resp) (confirmed : Except WireError Int) (i : Nat) :
    verdict settings p is reply confirmed i = reply (p.command i) i ∨
      ((reply (p.command i) i).isError = false ∧
        ∃ n, verdict settings p is reply confirmed i = verdict.notEnough settings n) := by
  cases confirmed with
  | ok n =>
    unfold verdict
    dsimp only
    split_ifs with hall hle hread
    · exact .inl rfl
    · exact .inl rfl
    · exact .inl rfl
    · rw [Bool.or_eq_true, not_or, Bool.not_eq_true, Bool.not_eq_true] at hread
      exact .inr ⟨hread.2, _, rfl⟩
  | error e =>
    unfold verdict
    dsimp only
    split_ifs with hall hread
    · exact .inl rfl
    · exact .inl rfl
    · simp only [Bool.or_eq_true, not_or, Bool.not_eq_true] at hread
      exact .inr ⟨hread.2, _, rfl⟩

/-- A result that is no error is the reply of the node. -/
theorem verdict_of_not_isError (h : (verdict settings p is reply confirmed i).isError = false) :
    verdict settings p is reply confirmed i = reply (p.command i) i := by
  rcases verdict_cases settings p is reply confirmed i with heq | ⟨-, n, heq⟩
  · exact heq
  · rw [heq] at h
    cases h

/-- A reply to be tried again is the result. -/
theorem verdict_of_isRetryable (h : (reply (p.command i) i).isRetryable = true) :
    verdict settings p is reply confirmed i = reply (p.command i) i := by
  rcases verdict_cases settings p is reply confirmed i with heq | ⟨herror, -⟩
  · exact heq
  · rw [isError_of_isRetryable h] at herror
    cases herror

/-- The verdict of WAIT makes no command be sent again, and keeps none from it. -/
theorem isRetryable_verdict (settings : Settings) (p : Share) (is : List Nat)
    (reply : List Str → Nat → Resp) (confirmed : Except WireError Int) (i : Nat) :
    (verdict settings p is reply confirmed i).isRetryable =
      (reply (p.command i) i).isRetryable := by
  rcases verdict_cases settings p is reply confirmed i with heq | ⟨herror, n, heq⟩
  · rw [heq]
  · cases hretry : (reply (p.command i) i).isRetryable with
    | false =>
      rw [heq]
      rfl
    | true =>
      rw [isError_of_isRetryable hretry] at herror
      cases herror

end

section
variable {reply : Nat → Resp} {is retry retry' : List Nat} {s s' : Sending}

/-- One reply is settled: it is the result of its command, which is to be sent again if it says so. -/
theorem settleReplies_cons {i : Nat} (h : settleReplies reply (i :: is) (s, retry) = .ok (s', retry')) :
    ∃ s₁ : Sending, s₁.results = Function.update s.results i (reply i) ∧
      settleReplies reply is (s₁, retry ++ [i].filter fun i => (reply i).isRetryable) =
        .ok (s', retry') := by
  cases hreply : reply i with
  | error e =>
    by_cases hask : e.cls = .askRedirect
    · have hretry : (Resp.error e).isRetryable = true := by
        simp [Resp.isRetryable, Resp.errorClass, hask]
      cases htarget : e.target with
      | none => simp [settleReplies, hreply, hask, htarget] at h
      | some a =>
        simp only [settleReplies, hreply, hask, htarget, if_true] at h
        exact ⟨_, rfl, by simpa [hreply, hretry] using h⟩
    · simp only [settleReplies, hreply, hask, if_false] at h
      cases hretry : (Resp.error e).isRetryable with
      | true | false =>
        rw [hretry] at h
        exact ⟨_, rfl, by simpa [hreply, hretry] using h⟩
  | _ =>
    simp only [settleReplies, hreply] at h
    exact ⟨_, rfl, by simpa [hreply, Resp.isRetryable, Resp.errorClass] using h⟩

/-- **The replies of an exchange, as a whole.** -/
theorem settleReplies_ok (h : settleReplies reply is (s, retry) = .ok (s', retry')) :
    (∀ k, s'.results k = if k ∈ is then reply k else s.results k) ∧
    retry' = retry ++ is.filter fun i => (reply i).isRetryable := by
  induction is generalizing s retry with
  | nil =>
    cases h
    simp
  | cons i is ih =>
    obtain ⟨s₁, hfirst, h⟩ := settleReplies_cons h
    obtain ⟨hresults, hretry⟩ := ih h
    refine ⟨fun k => ?_, ?_⟩
    · rw [hresults, hfirst]
      by_cases hk : k = i
      · subst hk
        simp
      · simp [hk]
    · rw [hretry, append_assoc, ← filter_append, singleton_append]

end

section
variable {settings : Settings} {p : Share} {outcome : Outcome} {a : Str} {is retry retry' : List Nat}
  {s s' : Sending}

/-- What is executed in an exchange. -/
theorem exchange_log (settings : Settings) (p : Share) (outcome : Outcome) (a : Str) (is : List Nat)
    (acc : Sending × List Nat) :
    (exchange settings p outcome a is acc).log = if hasPort a then is.filter outcome.ran else [] := by
  obtain ⟨s, retry⟩ := acc
  unfold exchange
  dsimp only
  split
  · cases outcome <;> simp [Run.pure, Run.after, Outcome.ran]
  · rfl

/-- **An exchange, as a whole**: what becomes of the commands, unless it crashes. -/
theorem exchange_ok (h : (exchange settings p outcome a is (s, retry)).result = .ok (s', retry')) :
    hasPort a = true ∧
    (∀ k, s'.results k = if k ∈ is then outcome.result settings p a is k else s.results k) ∧
    retry' = retry ++ is.filter (outcome.again p) := by
  unfold exchange at h
  dsimp only at h
  split at h
  · rename_i hport
    cases outcome with
    | connectFailed reason =>
      cases h
      exact ⟨hport, fun k => rfl, by simp [Outcome.again]⟩
    | unavailable reason ran =>
      cases h
      refine ⟨hport, fun k => rfl, ?_⟩
      cases hread : p.readonly <;> simp [Outcome.again, hread]
    | replied reply ran confirmed =>
      obtain ⟨hresults, hretry⟩ := settleReplies_ok h
      refine ⟨hport, hresults, ?_⟩
      simp only [isRetryable_verdict] at hretry
      exact hretry
  · cases h

end

/-! ## The exchanges of an attempt -/

/-- The commands that are sent in an attempt. -/
def planned (groups : List (Str × List Nat)) : List Nat := groups.flatMap Prod.snd

theorem planned_cons (a : Str) (is : List Nat) (groups : List (Str × List Nat)) :
    planned ((a, is) :: groups) = is ++ planned groups := rfl

theorem exchanges_log_count (settings : Settings) (p : Share) (outcome : Str → Outcome)
    (groups : List (Str × List Nat)) (acc : Sending × List Nat) (k : Nat) :
    (exchanges settings p outcome groups acc).log.count k ≤ (planned groups).count k := by
  induction groups generalizing acc with
  | nil => simp [exchanges, Run.pure]
  | cons group groups ih =>
    obtain ⟨a, is⟩ := group
    have hlog : (exchange settings p (outcome a) a is acc).log.count k ≤ is.count k := by
      rw [exchange_log]
      split
      · exact filter_sublist.count_le k
      · simp
    rw [exchanges, planned_cons, count_append]
    cases hresult : (exchange settings p (outcome a) a is acc).result with
    | error c =>
      rw [Run.bind_error hresult]
      exact hlog.trans (Nat.le_add_right _ _)
    | ok acc' =>
      rw [Run.bind_ok hresult, count_append]
      exact Nat.add_le_add hlog (ih acc')

section
variable {settings : Settings} {p : Share} {outcome : Str → Outcome} {groups : List (Str × List Nat)}
  {s s' : Sending} {retry retry' : List Nat} {k : Nat}

/-- The first exchange of an attempt that does not crash, and the others. -/
theorem exchanges_cons_ok {a : Str} {is : List Nat}
    (h : (exchanges settings p outcome ((a, is) :: groups) (s, retry)).result = .ok (s', retry')) :
    ∃ acc : Sending × List Nat,
      (∀ k, acc.1.results k =
        if k ∈ is then (outcome a).result settings p a is k else s.results k) ∧
      acc.2 = retry ++ is.filter ((outcome a).again p) ∧
      (exchanges settings p outcome groups acc).result = .ok (s', retry') ∧
      (exchanges settings p outcome ((a, is) :: groups) (s, retry)).log =
        is.filter (outcome a).ran ++ (exchanges settings p outcome groups acc).log := by
  rw [exchanges] at h ⊢
  cases hresult : (exchange settings p (outcome a) a is (s, retry)).result with
  | error c =>
    rw [Run.bind_error hresult] at h
    cases h
  | ok acc =>
    obtain ⟨hport, hresults, hretry⟩ := exchange_ok hresult
    rw [Run.bind_ok hresult] at h ⊢
    refine ⟨acc, hresults, hretry, h, ?_⟩
    rw [exchange_log, if_pos hport]

/-- What the exchanges of an attempt do to a command that is not sent: nothing. -/
theorem exchanges_not_sent (hk : k ∉ planned groups)
    (h : (exchanges settings p outcome groups (s, retry)).result = .ok (s', retry')) :
    s'.results k = s.results k ∧ (k ∈ retry' ↔ k ∈ retry) := by
  induction groups generalizing s retry with
  | nil =>
    cases h
    exact ⟨rfl, Iff.rfl⟩
  | cons group groups ih =>
    obtain ⟨a, is⟩ := group
    rw [planned_cons, mem_append, not_or] at hk
    obtain ⟨acc, hresults, hretry, h, -⟩ := exchanges_cons_ok h
    obtain ⟨hresults', hretry'⟩ := ih hk.2 h
    refine ⟨?_, ?_⟩
    · rw [hresults', hresults, if_neg hk.1]
    · rw [hretry', hretry, mem_append]
      simp [hk.1]

/-- **What the exchanges of an attempt do to a command that is sent**: what its one exchange does. -/
theorem exchanges_sent (hcount : (planned groups).count k = 1) (hretry : k ∉ retry)
    (h : (exchanges settings p outcome groups (s, retry)).result = .ok (s', retry')) :
    ∃ a is, s'.results k = (outcome a).result settings p a is k ∧
      (k ∈ retry' ↔ (outcome a).again p k = true) ∧
      (exchanges settings p outcome groups (s, retry)).log.count k =
        ((outcome a).ran k).toNat := by
  induction groups generalizing s retry with
  | nil => simp [planned] at hcount
  | cons group groups ih =>
    obtain ⟨a, is⟩ := group
    rw [planned_cons, count_append] at hcount
    obtain ⟨acc, hresults, hretry₁, h, hlog⟩ := exchanges_cons_ok h
    rw [hlog, count_append]
    by_cases hk : k ∈ is
    · -- its exchange is this one, and it is in none behind
      have hone : is.count k = 1 := by
        have := count_pos_iff.mpr hk
        omega
      have hnot : k ∉ planned groups := by
        rw [← count_eq_zero]
        omega
      obtain ⟨hresults', hretry'⟩ := exchanges_not_sent hnot h
      have hbehind := exchanges_log_count settings p outcome groups acc k
      rw [count_eq_zero.mpr hnot] at hbehind
      refine ⟨a, is, ?_, ?_, ?_⟩
      · rw [hresults', hresults, if_pos hk]
      · rw [hretry', hretry₁, mem_append, mem_filter]
        simp [hretry, hk]
      · rw [Nat.le_zero.mp hbehind, Nat.add_zero]
        cases hran : (outcome a).ran k with
        | true => rw [count_filter hran, hone, Bool.toNat_true]
        | false => simp [count_eq_zero, mem_filter, hran]
    · have hzero : is.count k = 0 := count_eq_zero.mpr hk
      have hnot : k ∉ acc.2 := by
        rw [hretry₁, mem_append, mem_filter]
        simp [hretry, hk]
      obtain ⟨a', is', hres, hagain, hran⟩ := ih (by omega) hnot h
      have hfilter : (is.filter (outcome a).ran).count k = 0 :=
        Nat.le_zero.mp ((filter_sublist.count_le k).trans hzero.le)
      exact ⟨a', is', hres, hagain, by rw [hfilter, Nat.zero_add, hran]⟩

/-- No more is to be sent again than was sent. -/
theorem exchanges_retry_count
    (h : (exchanges settings p outcome groups (s, retry)).result = .ok (s', retry')) (k : Nat) :
    retry'.count k ≤ retry.count k + (planned groups).count k := by
  induction groups generalizing s retry with
  | nil =>
    cases h
    simp
  | cons group groups ih =>
    obtain ⟨a, is⟩ := group
    obtain ⟨acc, -, hretry, h, -⟩ := exchanges_cons_ok h
    have hle := ih h
    have hfilter : (is.filter ((outcome a).again p)).count k ≤ is.count k :=
      filter_sublist.count_le k
    rw [hretry, count_append] at hle
    rw [planned_cons, count_append]
    omega

end

/-! ## One attempt -/

/-- A command is added to the commands of one address. -/
theorem count_addTo (groups : List (Str × List Nat)) (a : Str) (i k : Nat) :
    (planned (addTo groups a i)).count k = (planned groups).count k + [i].count k := by
  induction groups with
  | nil => simp [addTo, planned]
  | cons group groups ih =>
    obtain ⟨b, is⟩ := group
    unfold addTo
    split
    · simp only [planned_cons, count_append]
      omega
    · simp only [planned_cons, count_append, ih]
      omega

section
variable [Digest]

variable {p : Share} {todo : List Nat}

/-- **A command that is to be sent is sent once, or its result is an error.** -/
theorem plan_count {settings : Settings} {v : View} {first replica : Bool}
    {redirect : Nat → Option Str} {results results' : Nat → Resp}
    {groups groups' : List (Str × List Nat)}
    (h : plan settings p v first replica redirect todo (results, groups) = .ok (results', groups'))
    (k : Nat) :
    (k ∉ todo → results' k = results k ∧
      (planned groups').count k = (planned groups).count k) ∧
    (todo.count k = 1 →
      (results' k = results k ∧ (planned groups').count k = (planned groups).count k + 1) ∨
      ((results' k).isError = true ∧ (planned groups').count k = (planned groups).count k)) := by
  induction todo generalizing results groups with
  | nil =>
    cases h
    simp
  | cons i todo ih =>
    -- command `i` is sent to an address
    have hsent : ∀ a, plan settings p v first replica redirect todo (results, addTo groups a i) =
        .ok (results', groups') → (k ∉ i :: todo → results' k = results k ∧
          (planned groups').count k = (planned groups).count k) ∧
        ((i :: todo).count k = 1 →
          (results' k = results k ∧ (planned groups').count k = (planned groups).count k + 1) ∨
          ((results' k).isError = true ∧
            (planned groups').count k = (planned groups).count k)) := by
      intro a ha
      obtain ⟨hother, hone⟩ := ih ha
      have hcount := count_addTo groups a i k
      refine ⟨fun hk => ?_, fun hk => ?_⟩
      · rw [mem_cons, not_or] at hk
        obtain ⟨hres, hcnt⟩ := hother hk.2
        refine ⟨hres, ?_⟩
        have hzero : [i].count k = 0 := count_eq_zero.mpr (by simpa using hk.1)
        rw [hcnt, hcount, hzero, Nat.add_zero]
      · by_cases hki : k = i
        · subst hki
          have hnot : k ∉ todo := by
            rw [← count_eq_zero]
            simpa using hk
          obtain ⟨hres, hcnt⟩ := hother hnot
          exact .inl ⟨hres, by rw [hcnt, hcount]; simp⟩
        · have hzero : [i].count k = 0 := count_eq_zero.mpr (by simpa using hki)
          rw [hzero, Nat.add_zero] at hcount
          rw [count_cons_of_ne (Ne.symm hki)] at hk
          rw [← hcount]
          exact hone hk
    rw [plan] at h
    split at h
    · exact hsent _ h
    · split at h
      · cases h
      · -- command `i` is sent nowhere
        obtain ⟨hother, hone⟩ := ih h
        refine ⟨fun hk => ?_, fun hk => ?_⟩
        · rw [mem_cons, not_or] at hk
          obtain ⟨hres, hcnt⟩ := hother hk.2
          exact ⟨by rw [hres, Function.update_of_ne hk.1], hcnt⟩
        · by_cases hki : k = i
          · subst hki
            have hnot : k ∉ todo := by
              rw [← count_eq_zero]
              simpa using hk
            obtain ⟨hres, hcnt⟩ := hother hnot
            refine .inr ⟨?_, hcnt⟩
            rw [hres, Function.update_self]
            rfl
          · rw [count_cons_of_ne (Ne.symm hki)] at hk
            rw [← Function.update_of_ne hki (.error _) results]
            exact hone hk
      · exact hsent _ h

/-- What is to be sent again is sent once. -/
theorem attempt_retry_nodup {settings : Settings} {at_ : Attempt} {first replica : Bool}
    {s s' : Sending} {retry : List Nat} (hnodup : todo.Nodup)
    (h : (attempt settings p at_ first replica s todo).result = .ok (s', retry)) : retry.Nodup := by
  unfold attempt at h
  cases hplan : plan settings p at_.view first replica s.redirect todo (s.results, []) with
  | error c =>
    rw [hplan] at h
    cases h
  | ok planned' =>
    obtain ⟨results, groups⟩ := planned'
    rw [hplan] at h
    refine nodup_iff_count_le_one.mpr fun k => ?_
    have hagain := exchanges_retry_count h k
    obtain ⟨hother, hone⟩ := plan_count hplan k
    simp only [planned, flatMap_nil, count_nil, Nat.zero_add] at hother hone hagain
    by_cases hk : k ∈ todo
    · rcases hone (count_eq_one_of_mem hnodup hk) with ⟨-, hsent⟩ | ⟨-, hsent⟩ <;> omega
    · have hsent := (hother hk).2
      omega

/-- What an attempt does to a command that is not to be sent: nothing. -/
theorem attempt_other (settings : Settings) (p : Share) (at_ : Attempt) (first replica : Bool)
    (s : Sending) {k : Nat} (hk : k ∉ todo) :
    (attempt settings p at_ first replica s todo).log.count k = 0 ∧
      ∀ s' retry, (attempt settings p at_ first replica s todo).result = .ok (s', retry) →
        s'.results k = s.results k ∧ k ∉ retry := by
  unfold attempt
  cases hplan : plan settings p at_.view first replica s.redirect todo (s.results, []) with
  | error c => exact ⟨rfl, fun s' retry h => by cases h⟩
  | ok planned' =>
    obtain ⟨results, groups⟩ := planned'
    obtain ⟨hres, hcount⟩ := (plan_count hplan k).1 hk
    have hnot : k ∉ planned groups := by
      rw [← count_eq_zero, hcount]
      rfl
    constructor
    · have hle := exchanges_log_count settings p at_.outcome groups (⟨results, s.redirect⟩, []) k
      rw [count_eq_zero.mpr hnot] at hle
      exact Nat.le_zero.mp hle
    · intro s' retry h
      obtain ⟨hres', hretry⟩ := exchanges_not_sent hnot h
      exact ⟨hres'.trans hres, fun hmem => absurd (hretry.mp hmem) not_mem_nil⟩

/-- **What an attempt does to a write that is to be sent**: it is executed once at most; if it is to be sent
again it was not executed and its result is an error, and if its result is no error it was executed. -/
theorem attempt_write (settings : Settings) {at_ : Attempt} (first replica : Bool) (s : Sending)
    {k : Nat} (hhonest : ∀ a, (at_.outcome a).Honest) (hwrite : p.readonly = false)
    (hk : todo.count k = 1) :
    (attempt settings p at_ first replica s todo).log.count k ≤ 1 ∧
      ∀ s' retry, (attempt settings p at_ first replica s todo).result = .ok (s', retry) →
        (k ∈ retry → (attempt settings p at_ first replica s todo).log.count k = 0 ∧
          (s'.results k).isError = true) ∧
        ((s'.results k).isError = false →
          (attempt settings p at_ first replica s todo).log.count k = 1) := by
  unfold attempt
  cases hplan : plan settings p at_.view first replica s.redirect todo (s.results, []) with
  | error c => exact ⟨Nat.zero_le _, fun s' retry h => by cases h⟩
  | ok planned' =>
    obtain ⟨results, groups⟩ := planned'
    have hle := exchanges_log_count settings p at_.outcome groups (⟨results, s.redirect⟩, []) k
    rcases (plan_count hplan k).2 hk with ⟨-, hcount⟩ | ⟨herror, hcount⟩
    · rw [show (planned []).count k = 0 from rfl, Nat.zero_add] at hcount
      refine ⟨hle.trans hcount.le, fun s' retry h => ?_⟩
      obtain ⟨a, is, hres, hagain, hlog⟩ := exchanges_sent hcount not_mem_nil h
      have hhonest := hhonest a
      simp only [hlog, hres, hagain]
      cases houtcome : at_.outcome a with
      | connectFailed reason =>
        exact ⟨fun _ => ⟨rfl, rfl⟩, fun hno => by cases hno⟩
      | unavailable reason ran =>
        refine ⟨fun hread => ?_, fun hno => by cases hno⟩
        rw [show Outcome.again p (.unavailable reason ran) k = p.readonly from rfl, hwrite] at hread
        cases hread
      | replied reply ran confirmed =>
        rw [houtcome] at hhonest
        obtain ⟨hran, hrefused⟩ := hhonest (p.command k) k
        simp only [Outcome.again, Outcome.result, Outcome.ran]
        refine ⟨fun hretry => ?_, fun hno => ?_⟩
        · rw [verdict_of_isRetryable hretry, hrefused hretry]
          exact ⟨rfl, isError_of_isRetryable hretry⟩
        · rw [verdict_of_not_isError hno] at hno
          rw [hran hno]
          rfl
    · have hnot : k ∉ planned groups := by
        rw [← count_eq_zero, hcount]
        rfl
      rw [count_eq_zero.mpr hnot] at hle
      refine ⟨hle.trans (Nat.zero_le _), fun s' retry h => ?_⟩
      obtain ⟨hres, hretry⟩ := exchanges_not_sent hnot h
      refine ⟨fun hmem => absurd (hretry.mp hmem) not_mem_nil, fun hno => ?_⟩
      rw [hres, herror] at hno
      cases hno

/-! ## The loop -/

/-- A write that was executed so far `n` times, and its result: if that is no error, it was executed. -/
def Settled (n : Nat) (result : Resp) : Prop := n ≤ 1 ∧ (result.isError = false → n = 1)

/-- A write over all attempts: if it is still to be sent it was not executed before. -/
theorem attempts_write (settings : Settings) {env : Nat → Attempt} (replica : Bool)
    (hhonest : ∀ t a, ((env t).outcome a).Honest) (hwrite : p.readonly = false) (k n t : Nat)
    (s : Sending) (todo : List Nat) (before : Nat) (hnodup : todo.Nodup)
    (htodo : k ∈ todo → before = 0) (hdone : n = 0 ∨ k ∉ todo → Settled before (s.results k)) :
    before + (attempts settings p env replica n t s todo).log.count k ≤ 1 ∧
      ∀ s', (attempts settings p env replica n t s todo).result = .ok s' →
        Settled (before + (attempts settings p env replica n t s todo).log.count k)
          (s'.results k) := by
  induction n generalizing t s todo before with
  | zero =>
    have hsettled := hdone (.inl rfl)
    refine ⟨by simpa [attempts, Run.pure] using hsettled.1, fun s' h => ?_⟩
    cases h
    simpa [attempts, Run.pure] using hsettled
  | succ n ih =>
    rw [attempts]
    generalize hrun : attempt settings p (env t) (t = 0) replica s todo = run
    -- what this attempt does to the write
    have hattempt : before + run.log.count k ≤ 1 ∧ ∀ s' retry, run.result = .ok (s', retry) →
        (k ∈ retry → before + run.log.count k = 0) ∧
        Settled (before + run.log.count k) (s'.results k) := by
      rw [← hrun]
      by_cases hk : k ∈ todo
      · obtain ⟨hle, hok⟩ := attempt_write settings (t = 0) replica s (hhonest t) hwrite
          (count_eq_one_of_mem hnodup hk)
        rw [htodo hk, Nat.zero_add]
        refine ⟨hle, fun s' retry h => ?_⟩
        obtain ⟨hretry, hno⟩ := hok s' retry h
        exact ⟨fun hmem => (hretry hmem).1, hle, hno⟩
      · obtain ⟨hzero, hok⟩ := attempt_other settings p (env t) (t = 0) replica s hk
        have hsettled := hdone (.inr hk)
        rw [hzero, Nat.add_zero]
        refine ⟨hsettled.1, fun s' retry h => ?_⟩
        obtain ⟨hres, hnot⟩ := hok s' retry h
        exact ⟨fun hmem => absurd hmem hnot, by rw [hres]; exact hsettled⟩
    cases hresult : run.result with
    | error c =>
      rw [Run.bind_error hresult]
      exact ⟨hattempt.1, fun s' h => by cases h⟩
    | ok acc =>
      obtain ⟨s₁, retry⟩ := acc
      obtain ⟨hretry, hsettled⟩ := hattempt.2 s₁ retry hresult
      rw [Run.bind_ok hresult]
      dsimp only
      split
      · rw [Run.pure, append_nil]
        refine ⟨hsettled.1, fun s' h => ?_⟩
        cases h
        exact hsettled
      · have hnodup' : (retry.insertionSort (· ≤ ·)).Nodup := by
          rw [(perm_insertionSort _ _).nodup_iff]
          rw [← hrun] at hresult
          exact attempt_retry_nodup hnodup hresult
        have hrest := ih (t + 1) s₁ _ (before + run.log.count k) hnodup'
          (fun hmem => hretry ((mem_insertionSort _).mp hmem)) fun _ => hsettled
        rw [count_append, ← Nat.add_assoc]
        exact hrest

/-- **The router applies no write twice.** Whatever the configuration is at each attempt and whatever comes of
each exchange, with or without WAIT: a write is executed once at most, also if the loop ends with an
exception, and exactly once if its result is no error. -/
theorem write_at_most_once (settings : Settings) (env : Nat → Attempt)
    (hhonest : ∀ t a, ((env t).outcome a).Honest) (shard : Str) (commands : List (List Str)) (k : Nat)
    (command : List Str) (hk : commands[k]? = some command) (hwrite : isRead command = false) :
    (sendWithRetries settings env ⟨shard, commands⟩).log.count k ≤ 1 ∧
      ∀ results, (sendWithRetries settings env ⟨shard, commands⟩).result = .ok results →
        results.length = commands.length ∧ ∀ r, results[k]? = some r → r.isError = false →
          (sendWithRetries settings env ⟨shard, commands⟩).log.count k = 1 := by
  have hreadonly : Share.readonly ⟨shard, commands⟩ = false := by
    rw [Share.readonly, all_eq_false]
    exact ⟨command, mem_of_getElem? hk, by simp [hwrite]⟩
  have hlt : k < commands.length := (List.getElem?_eq_some_iff.mp hk).1
  have hmem : k ∈ List.range commands.length := mem_range.mpr hlt
  have hloop := attempts_write settings (fromReplica settings ⟨shard, commands⟩ (env 0).view)
    hhonest hreadonly k (settings.retries + 1) 0 ⟨fun _ => .nil, fun _ => none⟩ (List.range commands.length) 0
    nodup_range (fun _ => rfl) (fun h => absurd hmem (h.resolve_left (Nat.succ_ne_zero _)))
  rw [Nat.zero_add] at hloop
  unfold sendWithRetries
  generalize attempts settings ⟨shard, commands⟩ env _ (settings.retries + 1) 0 _ _ = run at hloop ⊢
  cases hresult : run.result with
  | error c =>
    rw [Run.bind_error hresult]
    exact ⟨hloop.1, fun results h => by cases h⟩
  | ok s =>
    rw [Run.bind_ok hresult, Run.pure, append_nil]
    refine ⟨hloop.1, fun results h => ?_⟩
    cases h
    refine ⟨by simp, fun r hr hno => ?_⟩
    have hr' : s.results k = r := by simpa [hlt] using hr
    subst hr'
    exact (hloop.2 s hresult).2 hno

end

/-! ## A write that is refused and sent again -/

/-- One group of one node. -/
def soloConfig (port : Nat) : ClusterConfig := .solo 0 (text "shard-1") (localNode port)

/-- A ring on which the group owns every key. -/
def soloRing : ConsistentHashRing where
  virtualNodes := 1
  owners _ := some (text "shard-1")
  points := [0]
  nodes := [text "shard-1"]
  sorted := pairwise_singleton _ _
  owned _ _ := rfl

/-- The view of a router of one group. -/
def soloView (port : Nat) : View :=
  ⟨soloConfig port, soloRing, cons_ne_nil _ _, fun _ => true, fun _ => 0⟩

/-- The settings of the router in these runs: three retries. -/
def soloSettings : Settings := ⟨3, 0, false, fun _ _ => .ok .nil⟩

/-- The first node is a replica by now, the second one takes the write. -/
def demoted (t : Nat) : Attempt where
  view := soloView (7000 + t)
  outcome _ := if t = 0 then .replied (fun _ _ => .error (.make .readOnlyReplica [] none))
      (fun _ => false) (.ok 0)
    else .replied (fun _ _ => .status (text "OK")) (fun _ => true) (.ok 0)

/-- The write is sent twice and executed once. -/
theorem write_at_most_once_demoted :
    (@sendWithRetries Digest.sample soloSettings demoted
      ⟨text "shard-1", [[text "SET", text "k", text "v"]]⟩).log.count 0 = 1 := by
  have hhonest : ∀ t a, ((demoted t).outcome a).Honest := by
    intro t a
    unfold demoted
    dsimp only
    split <;> (intro _ _; dsimp only; decide)
  have honce := @write_at_most_once Digest.sample soloSettings demoted hhonest (text "shard-1")
    [[text "SET", text "k", text "v"]] 0 _ rfl (by decide)
  exact (honce.2 [.status (text "OK")] rfl).2 _ rfl rfl

end Router

end KvStore
