import KvStore.Cluster.Bystanders
import KvStore.Cluster.World

/-! # What a job may do in a rebalance

A rebalance publishes the ring it moves to (`config.rebalance`), moves the keys, and then publishes that
ring as the one in force. It is refused if another one is under way, but that test and the publishing are
apart: between them the job waits for the manager's lock.

* **`Job.Intends`** — the ring a request is to lead to, made from the ring in force.
* **`ClusterConfig.Succeeds`** — how a configuration may follow another one: a target is not replaced by
  another one, and the ring changes by the target becoming the ring, as a request intends it.
* **`Manager.move`** — a rebalance from the test on.
* **`Course`** — what a job may do, by its part in a rebalance (`Part`). **`Job.course`** says that every job
  keeps to it. -/

namespace KvStore

open List

namespace Cluster

/-! ## Configurations -/

/-- **What a request intends**: the ring with its own group added at the end, or without it. -/
def Manager.Job.Intends : Manager.Job → List Str → List Str → Prop
  | .addGroup group, ring, target => target = ring ++ [group.id]
  | .removeGroup shard, ring, target => target = ring.filter (· ≠ shard) ∧ target ≠ []
  | _, _, _ => False

end Cluster

namespace ClusterConfig

/-- **How a configuration follows another one**, as far as rings go, `aim` saying which ring may be made
from which. -/
def Succeeds (aim : List Str → List Str → Prop) (c c' : ClusterConfig) : Prop :=
  match c.rebalance, c'.rebalance with
  | none, none => c'.ringIds = c.ringIds
  | none, some target => c'.ringIds = c.ringIds ∧ aim c.ringIds target
  | some target, some target' => target' = target ∧ c'.ringIds = c.ringIds
  | some target, none => c'.ringIds = target ∧ aim c.ringIds target

variable {aim aim' : List Str → List Str → Prop} {c c' : ClusterConfig}

/-- The ring and the target that a configuration was made with. -/
theorem rings_make {epoch vn : Nat} {shards : List ShardGroup} {rebalance : Option (List Str)}
    {ring : List Str} (h : make epoch shards vn rebalance ring = .ok c) (hring : ring ≠ []) :
    c.rebalance = rebalance ∧ c.ringIds = ring := by
  unfold make at h
  split_ifs at h
  cases h
  exact ⟨rfl, if_neg hring⟩

/-- What leaves ring and target alone. -/
theorem Succeeds.of_same (hrebalance : c'.rebalance = c.rebalance) (hring : c'.ringIds = c.ringIds) :
    c.Succeeds aim c' := by
  unfold Succeeds
  rw [hrebalance]
  cases c.rebalance with
  | none => exact hring
  | some target => exact ⟨rfl, hring⟩

/-- More may be aimed at. -/
theorem Succeeds.mono (h : c.Succeeds aim c') (haim : ∀ ring target, aim ring target → aim' ring target) :
    c.Succeeds aim' c' := by
  unfold Succeeds at h ⊢
  split at h
  · exact h
  · exact ⟨h.1, haim _ _ h.2⟩
  · exact h
  · exact ⟨h.1, haim _ _ h.2⟩

end ClusterConfig

namespace Cluster

open Manager Prog

/-- **A rebalance that has passed the test.** -/
def Manager.move (target : List Str) : Code Unit := do
  adopt fun c => c.nextEpoch c.shards (some target) c.ringIds
  let sources := (← read).config.ringIds
  let n ← rounds
  let p ← pollUntilDone target sources n .none
  adopt fun c => c.nextEpoch (c.shards.filter (·.id ∈ target)) none target
  let m ← read
  forEach (stopSource (m.config.shards.filter (·.id ∈ target)) p) sources

/-- A rebalance begins with the test. -/
theorem Manager.rebalance_eq (target : List Str) : rebalance target = read.bind fun m =>
    if m.config.rebalance.isSome then fail (.cluster .inProgress)
    else move target := rfl

/-! ## What jobs may do -/

/-- **The part a job has in a rebalance.** -/
inductive Part
  | free
  /-- It has passed the test, and will publish its target. -/
  | waiting (target : List Str)
  | moving (target : List Str)

/-- A job has passed the test only. -/
def Part.Waiting : Part → Prop
  | .waiting _ => True
  | _ => False

/-- A job that gives the lock back without having published its target has failed. -/
def Part.released : Part → Part
  | .waiting _ => .free
  | part => part

/-- **Where a job stands.** -/
structure Place where
  held : Bool
  /-- The configuration in force, if it has read it since the last await, or holds the lock. -/
  known : Option ClusterConfig
  part : Part

/-- After an await outside the lock the configuration may be another one. -/
def Place.awoken (s : Place) : Place := { s with known := if s.held then s.known else none }

/-- **What each operation requires and gives.** -/
def passage : Spec Manager.Op Manager.Op.Resp Place where
  pre
    | .read, Q, s => ∀ m : Manager, (∀ c, s.known = some c → m.config = c) → m.config.ringIds ≠ [] →
        Q m { s with known := some m.config }
    | .health _, Q, s => Q () s
    | .record _, Q, s => Q () s
    | .clock, Q, s => ∀ t, Q t s
    | .setConfig c', Q, s => s.held = true ∧ c'.ringIds ≠ [] ∧ ∃ c, s.known = some c ∧
        match s.part with
        | .free => c'.rebalance = c.rebalance ∧ c'.ringIds = c.ringIds ∧ Q () ⟨true, some c', .free⟩
        | .waiting target => c'.rebalance = some target ∧ c'.ringIds = c.ringIds ∧
            Q () ⟨true, some c', .moving target⟩
        | .moving target => c'.rebalance = none ∧ c'.ringIds = target ∧ Q () ⟨true, some c', .free⟩
    | .rounds, Q, s => ¬ s.part.Waiting ∧ ∀ n, Q n s.awoken
    | .sleep, Q, s => ¬ s.part.Waiting ∧ Q () s.awoken
    | .gather _, Q, s => ¬ s.part.Waiting ∧ ∀ outcomes, Q outcomes s.awoken
    | .acquire, Q, s => s.held = false ∧ ∀ c : ClusterConfig, c.ringIds ≠ [] →
        Q () ⟨true, some c, s.part⟩
    | .release, Q, s => s.held = true ∧ Q () ⟨false, s.known, s.part.released⟩
  mono := by
    intro o P P' h s hP
    cases o with
    | read => exact fun m hm hring => h _ _ (hP m hm hring)
    | health | record => exact h _ _ hP
    | clock => exact fun t => h _ _ (hP t)
    | setConfig c' =>
      obtain ⟨hheld, hring, c, hknown, hpart⟩ := hP
      refine ⟨hheld, hring, c, hknown, ?_⟩
      cases hs : s.part with
      | free =>
        rw [hs] at hpart
        exact ⟨hpart.1, hpart.2.1, h _ _ hpart.2.2⟩
      | waiting target =>
        rw [hs] at hpart
        exact ⟨hpart.1, hpart.2.1, h _ _ hpart.2.2⟩
      | moving target =>
        rw [hs] at hpart
        exact ⟨hpart.1, hpart.2.1, h _ _ hpart.2.2⟩
    | rounds => exact ⟨hP.1, fun n => h _ _ (hP.2 n)⟩
    | sleep | release => exact ⟨hP.1, h _ _ hP.2⟩
    | gather calls => exact ⟨hP.1, fun outcomes => h _ _ (hP.2 outcomes)⟩
    | acquire => exact ⟨hP.1, fun c hring => h _ _ (hP.2 c hring)⟩

/-- A job outside the lock reads the configuration, passes the test and comes to wait. -/
def Enters (aim : List Str → List Str → Prop) (s : Place) (m : Manager) (rest : Code Unit) : Prop :=
  s.held = false ∧ s.part = .free ∧ m.config.rebalance = none ∧
    ∃ target, aim m.config.ringIds target ∧ target ≠ [] ∧ rest = move target

/-- **A job keeps to its part** up to the test of a rebalance, where its part changes; `aim` says which ring
it may make from which. -/
def Course (aim : List Str → List Str → Prop) : Code Unit → Place → Prop
  | .ret _, s => s.held = false ∧ ¬ s.part.Waiting
  | .fail _, s => s.held = false ∧ ¬ s.part.Waiting
  | .op .read next, s => ∀ m : Manager, (∀ c, s.known = some c → m.config = c) →
      m.config.ringIds ≠ [] →
        Course aim (next m) { s with known := some m.config } ∨ Enters aim s m (next m)
  | .op o next, s => passage.pre o (fun r s' => Course aim (next r) s') s

section Rules

variable {α β : Type} {s : Place} {c : ClusterConfig} {aim aim' : List Str → List Str → Prop}

/-- A program that keeps to its part, and ends as `Q` says. -/
abbrev Passes (p : Code α) (Q : Except Failure α → Place → Prop) (s : Place) : Prop :=
  p.wp passage Q s

/-- More may be aimed at. -/
theorem Course.mono {p : Code Unit} (h : Course aim p s)
    (haim : ∀ ring target, aim ring target → aim' ring target) : Course aim' p s := by
  induction p generalizing s with
  | ret | fail => exact h
  | op o next ih =>
    cases o with
    | read =>
      intro m hm hring
      rcases h m hm hring with hnext | ⟨hheld, hfree, hnone, target, htarget, hne, hrest⟩
      · exact .inl (ih m hnext)
      · exact .inr ⟨hheld, hfree, hnone, target, haim _ _ htarget, hne, hrest⟩
    | _ => exact passage.mono _ (fun r s' hr => ih r hr) s h

/-- A program that keeps to its part, followed by one that keeps to the part it is left with. -/
theorem Passes.course {p : Code β} {f : β → Code Unit} {R : Except Failure β → Place → Prop}
    (hp : Passes p R s) (hok : ∀ b s', R (.ok b) s' → Course aim (f b) s')
    (herror : ∀ e s', R (.error e) s' → s'.held = false ∧ ¬ s'.part.Waiting) :
    Course aim (p.bind f) s := by
  induction p generalizing s with
  | ret b => exact hok b s hp
  | fail e => exact herror e s hp
  | op o next ih =>
    have hnext := passage.mono o (fun r s' hr => ih r hr) s hp
    cases o with
    | read => exact fun m hm hring => .inl (hnext m hm hring)
    | _ => exact hnext

/-- A program that keeps to its part to the end. -/
theorem Passes.course_end {p : Code Unit}
    (hp : Passes p (fun _ s' => s'.held = false ∧ ¬ s'.part.Waiting) s) : Course aim p s := by
  induction p generalizing s with
  | ret | fail => exact hp
  | op o next ih =>
    have hnext := passage.mono o (fun r s' hr => ih r hr) s hp
    cases o with
    | read => exact fun m hm hring => .inl (hnext m hm hring)
    | _ => exact hnext

/-- Two places that differ at most in what is known outside the lock. -/
structure Alike (s s' : Place) : Prop where
  held : s'.held = s.held
  part : s'.part = s.part
  /-- Who holds the lock knows the configuration. -/
  known : s.held = true → s.known ≠ none → s'.known ≠ none

theorem Alike.refl (s : Place) : Alike s s := ⟨rfl, rfl, fun _ h => h⟩

/-- One such place after the other. -/
theorem Alike.trans {s s' s'' : Place} (h : Alike s s') (h' : Alike s' s'') : Alike s s'' :=
  ⟨h'.held.trans h.held, h'.part.trans h.part,
    fun hheld hknown => h'.known (h.held.trans hheld) (h.known hheld hknown)⟩

/-- An await. -/
theorem alike_awoken (s : Place) : Alike s s.awoken :=
  ⟨rfl, rfl, fun hheld hknown => by simpa [Place.awoken, hheld] using hknown⟩

/-- **Programs that publish nothing** leave a job where it stands. -/
theorem passes_of_bystands {P : Request → Prop} {p : Code α} (hp : p.Uses (Bystands P)) (hs : ¬ s.part.Waiting) :
    Passes p (fun _ s' => Alike s s') s := by
  induction p generalizing s with
  | ret | fail => exact .refl s
  | op o next ih =>
    obtain ⟨ho, hnext⟩ := hp
    have hgo : ∀ {s'} (r : o.Resp), Alike s s' → Passes (next r) (fun _ s' => Alike s s') s' :=
      fun r hs' => (ih r (hnext r) (hs'.part ▸ hs)).mono fun _ _ h => hs'.trans h
    cases o with
    | read => exact fun m _ _ => hgo m ⟨rfl, rfl, fun _ _ => nofun⟩
    | health f | record e => exact hgo () (.refl s)
    | clock => exact fun t => hgo t (.refl s)
    | rounds => exact ⟨hs, fun n => hgo n (alike_awoken s)⟩
    | sleep => exact ⟨hs, hgo () (alike_awoken s)⟩
    | gather calls => exact ⟨hs, fun outcomes => hgo outcomes (alike_awoken s)⟩
    | setConfig c' | acquire | release => exact ho.elim

/-- **In the lock.** -/
theorem passes_locked {body : Code α} {R Q : Except Failure α → Place → Prop} (hs : s.held = false)
    (hbody : ∀ c : ClusterConfig, c.ringIds ≠ [] → Passes body R ⟨true, some c, s.part⟩)
    (hQ : ∀ r s', R r s' → s'.held = true ∧ Q r ⟨false, s'.known, s'.part.released⟩) :
    Passes (locked body) Q s :=
  wp_locked passage ⟨hs, hbody⟩ hQ

/-- Loops of programs that keep an invariant. -/
theorem passes_forEach {I : Place → Prop} {body : β → Code Unit}
    (hbody : ∀ b s, I s → Passes (body b) (fun _ s' => I s') s) (l : List β) (hs : I s) :
    Passes (forEach body l) (fun _ s' => I s') s := by
  induction l generalizing s with
  | nil => exact hs
  | cons b rest ih => exact (hbody b s hs).bind (fun _ _ h => ih h) fun _ _ h => h

end Rules

/-! ## Rounds and failovers -/

section Rounds

variable {α β : Type} {s : Place} {aim : List Str → List Str → Prop}

/-- A job that holds the lock and has no part in a rebalance. -/
structure Inside (s : Place) : Prop where
  held : s.held = true
  part : s.part = .free
  known : s.known ≠ none

/-- It does not wait to publish a target. -/
theorem Inside.not_waiting (h : Inside s) : ¬ s.part.Waiting := by
  rw [h.part]
  exact id

/-- It stays so over an await. -/
theorem Inside.alike {s' : Place} (h : Inside s) (h' : Alike s s') : Inside s' :=
  ⟨h'.held.trans h.held, h'.part.trans h.part, h'.known h.held h.known⟩

/-- It stays so as it reads the configuration. -/
theorem Inside.reading (h : Inside s) (c : ClusterConfig) : Inside { s with known := some c } :=
  ⟨h.held, h.part, Option.some_ne_none c⟩

/-- It stays so in a program that publishes nothing. -/
theorem Inside.passes {P : Request → Prop} {p : Code α} (h : Inside s) (hp : p.Uses (Bystands P)) :
    Passes p (fun _ s' => Inside s') s :=
  (passes_of_bystands hp h.not_waiting).mono fun _ _ => h.alike

/-- A failover publishes a configuration with the same rings. -/
theorem passes_publish (h : Inside s) (group : ShardGroup) (addresses : List Address)
    (winner : Address) (epoch : Nat) (reason : Str) :
    Passes (publish group addresses winner epoch reason) (fun _ s' => Inside s') s := by
  intro m _ hring
  have hread := h.reading m.config
  simp only [ret_bind]
  split
  · exact hread
  · rename_i c hc
    obtain ⟨hrebalance, hrings⟩ := ClusterConfig.rings_make hc hring
    refine ⟨h.held, by rw [hrings]; exact hring, m.config, rfl, ?_⟩
    simp only [h.part]
    refine ⟨hrebalance, hrings, fun now => ?_⟩
    have hset : Inside ⟨true, some c, .free⟩ := ⟨rfl, rfl, Option.some_ne_none c⟩
    refine hset.passes (P := Request.Any) ⟨trivial, fun _ => ⟨trivial, fun _ => ?_⟩⟩
    split
    · trivial
    · exact (bystands_reconcile _).bind fun _ => trivial

/-- A failover has no part in a rebalance. -/
theorem passes_failover (h : Inside s) (group : ShardGroup) (reason : Str) (graceful : Bool) :
    Passes (failover group reason graceful) (fun _ s' => Inside s') s := by
  intro m _ _
  have hread := h.reading m.config
  show Passes (if candidates group m = [] then _ else _) _ _
  split
  · exact hread
  · refine (hread.passes (bystands_waitFor group (candidates group m) graceful)).bind ?_
      fun _ _ hs => hs
    intro _ s₁ hs₁ m _ _
    have hread₁ := hs₁.reading m.config
    simp only [ret_bind]
    split
    · exact hread₁
    · rename_i winner health _
      refine (hread₁.passes (P := Request.Any) (bystands_call _ trivial)).bind ?_ fun _ _ hs => hs
      intro r s₂ hs₂
      cases r with
      | error e => exact hs₂
      | ok reply => exact passes_publish hs₂ _ _ _ _ _

/-- A group's turn in a round has no part in a rebalance. -/
theorem passes_tickGroup (group : ShardGroup) (s : Place) (h : Inside s) :
    Passes (tickGroup group) (fun _ s' => Inside s') s := by
  intro m _ _
  have hread := h.reading m.config
  simp only [ret_bind]
  split
  · exact hread
  · split
    · exact (passes_failover hread _ _ _).bind (fun _ _ hs => hs) fun _ _ hs => hs
    · split
      · exact hread
      · exact hread.passes (bystands_reconcile _)

/-- What has no part in a rebalance has none afterwards. -/
theorem course_locked {body : Code Unit}
    (h : ∀ s, Inside s → Passes body (fun _ s' => Inside s') s) :
    Course aim (locked body) ⟨false, none, .free⟩ := by
  refine Passes.course_end (passes_locked rfl (fun c _ => h _ ⟨rfl, rfl, nofun⟩) ?_)
  intro r s' hs'
  rw [hs'.part]
  exact ⟨hs'.held, rfl, id⟩

/-- **A round.** -/
theorem course_tick : Course aim tick ⟨false, none, .free⟩ := by
  refine course_locked fun s h m _ _ => ?_
  have hread := h.reading m.config
  refine (hread.passes (bystands_probe _)).bind ?_ fun _ _ hs => hs
  intro _ s₁ hs₁ m₁ _ _
  exact passes_forEach passes_tickGroup _ (hs₁.reading m₁.config)

/-- **A failover asked for.** -/
theorem course_failoverRequest (shard : Str) :
    Course aim (failoverRequest shard) ⟨false, none, .free⟩ := by
  refine course_locked fun s h m _ _ => ?_
  have hread := h.reading m.config
  simp only [ret_bind]
  split
  · exact hread
  · refine (passes_failover hread _ _ _).bind ?_ fun _ _ hs => hs
    intro event s₁ hs₁
    cases event with
    | none | some => exact hs₁

end Rounds

/-! ## Requests -/

section Requests

variable {aim : List Str → List Str → Prop}

/-- Only a job that waits loses its part with the lock. -/
theorem Part.released_eq {part : Part} (h : ¬ part.Waiting) : part.released = part := by
  cases part with
  | free | moving => rfl
  | waiting target => exact absurd trivial h

/-- **A job publishes a configuration as its part allows.** -/
theorem passes_adopt {s : Place} {next : ClusterConfig → Except ConfigError ClusterConfig}
    (part : Part) (hs : s.held = false) (hpart : ¬ part.Waiting)
    (hnext : ∀ c c', c.ringIds ≠ [] → next c = .ok c' → c'.ringIds ≠ [] ∧ match s.part with
      | .free => c'.rebalance = c.rebalance ∧ c'.ringIds = c.ringIds ∧ part = .free
      | .waiting target => c'.rebalance = some target ∧ c'.ringIds = c.ringIds ∧
          part = .moving target
      | .moving target => c'.rebalance = none ∧ c'.ringIds = target ∧ part = .free) :
    Passes (adopt next) (fun r s' => s'.held = false ∧ match r with
      | .ok _ => s'.part = part
      | .error _ => s'.part = s.part.released) s := by
  refine passes_locked (R := fun r s' => s'.held = true ∧ match r with
    | .ok _ => s'.part = part
    | .error _ => s'.part = s.part) hs (fun c hring m hm _ => ?_) ?_
  · obtain rfl : m.config = c := hm c rfl
    simp only [ret_bind]
    split
    · exact ⟨rfl, rfl⟩
    · rename_i c' hc'
      obtain ⟨hring', hallowed⟩ := hnext m.config c' hring hc'
      refine ⟨rfl, hring', m.config, rfl, ?_⟩
      cases hs : s.part with
      | free | waiting | moving =>
        rw [hs] at hallowed
        exact ⟨hallowed.1, hallowed.2.1, rfl, hallowed.2.2.symm⟩
  · rintro r s' ⟨hheld, hs'⟩
    refine ⟨hheld, rfl, ?_⟩
    cases r with
    | ok u =>
      show s'.part.released = part
      rw [show s'.part = part from hs', Part.released_eq hpart]
    | error e => exact congrArg Part.released hs'

/-- **A rebalance, from the test on.** -/
theorem course_move {target : List Str} (htarget : target ≠ []) (known : Option ClusterConfig) :
    Course aim (move target) ⟨false, known, .waiting target⟩ := by
  have hpublish : Passes (adopt fun c => c.nextEpoch c.shards (some target) c.ringIds)
      (fun r s' => s'.held = false ∧ match r with
        | .ok _ => s'.part = .moving target
        | .error _ => s'.part = (Part.waiting target).released)
      ⟨false, known, .waiting target⟩ := by
    refine passes_adopt (s := ⟨false, known, .waiting target⟩) (.moving target) rfl id fun c c' hring hc' => ?_
    obtain ⟨hrebalance, hrings⟩ := ClusterConfig.rings_make hc' hring
    exact ⟨by rw [hrings]; exact hring, hrebalance, hrings, rfl⟩
  refine hpublish.course ?_ ?_
  · rintro _ s₁ ⟨hheld, hpart⟩
    refine Passes.course_end fun m _ _ => ?_
    have hmoving : ¬ s₁.part.Waiting := by
      rw [show s₁.part = .moving target from hpart]
      exact id
    -- the keys are moved, and nothing is published meanwhile
    show Passes (rounds.bind _) _ _
    refine (passes_of_bystands (s := { s₁ with known := some m.config }) (P := Request.Any)
      (p := rounds) ⟨trivial, fun _ => trivial⟩ hmoving).bind ?_
      fun e s' hs' => ⟨hs'.held.trans hheld, hs'.part ▸ hmoving⟩
    intro n s₂ hs₂
    refine (passes_of_bystands (bystands_pollUntilDone target m.config.ringIds n .none)
      (hs₂.part ▸ hmoving)).bind ?_ fun e s' hs' => ⟨hs'.held.trans (hs₂.held.trans hheld),
        hs'.part ▸ hs₂.part ▸ hmoving⟩
    intro p s₃ hs₃
    have hpart₃ : s₃.part = .moving target := hs₃.part.trans (hs₂.part.trans hpart)
    have hheld₃ : s₃.held = false := hs₃.held.trans (hs₂.held.trans hheld)
    have hswitch : Passes
        (adopt fun c => c.nextEpoch (c.shards.filter (·.id ∈ target)) none target)
        (fun r s' => s'.held = false ∧ match r with
          | .ok _ => s'.part = .free
          | .error _ => s'.part = s₃.part.released) s₃ := by
      refine passes_adopt .free hheld₃ id fun c c' _ hc' => ?_
      obtain ⟨hrebalance, hrings⟩ := ClusterConfig.rings_make hc' htarget
      rw [hpart₃]
      exact ⟨by rw [hrings]; exact htarget, hrebalance, hrings, rfl⟩
    refine hswitch.bind ?_ ?_
    · rintro _ s₄ ⟨hheld₄, hpart₄⟩ m' _ _
      have hfree : ¬ s₄.part.Waiting := by
        rw [show s₄.part = .free from hpart₄]
        exact id
      refine (passes_of_bystands (s := { s₄ with known := some m'.config })
        (uses_forEach (bystands_stopSource _ p) m.config.ringIds) hfree).mono ?_
      exact fun _ _ hs => ⟨hs.held.trans hheld₄, hs.part ▸ hfree⟩
    · rintro e s₄ ⟨hheld₄, hpart₄⟩
      refine ⟨hheld₄, ?_⟩
      rw [show s₄.part = s₃.part.released from hpart₄, hpart₃]
      exact id
  · rintro e s₁ ⟨hheld, hpart⟩
    refine ⟨hheld, ?_⟩
    rw [show s₁.part = .free from hpart]
    exact id

/-- Some configuration lets a target be published. -/
theorem exists_nextEpoch (target : List Str) : ∃ c c' : ClusterConfig, c.ringIds ≠ [] ∧
    c.rebalance = none ∧ c.nextEpoch c.shards (some target) c.ringIds = .ok c' := by
  -- every group that the target names, and one more
  let names := ([] :: target).dedup
  have hnames : ∀ id ∈ [] :: target, id ∈ names := fun id hid => mem_dedup.mpr hid
  let shards : List ShardGroup := names.map fun id => ⟨id, ⟨id, 0⟩, []⟩
  have hids : shards.map ShardGroup.id = names := by
    simp only [shards, map_map]
    exact map_id names
  have hmembers : (shards.flatMap ShardGroup.members).Nodup := by
    have : shards.flatMap ShardGroup.members = names.map fun id => ⟨id, 0⟩ := by
      rw [flatMap_map]
      exact (map_eq_flatMap ..).symm
    rw [this]
    exact (nodup_dedup _).map fun a b hab => congrArg Address.host hab
  have hne : names ≠ [] := ne_nil_of_mem (hnames [] (by simp))
  refine ⟨⟨0, shards, 0, none, names, by simpa [shards] using hne, hids ▸ nodup_dedup _,
    hmembers, by simp [hids]⟩, ?_⟩
  have hmade : ∃ c', ClusterConfig.make (0 + 1) shards 0 (some target) names = .ok c' := by
    refine ClusterConfig.exists_make (by simpa [shards] using hne) (hids ▸ nodup_dedup _)
      hmembers fun id hid => ?_
    rw [ClusterConfig.ringOr, if_neg hne, mem_append] at hid
    rw [hids]
    exact hid.elim (fun hid => hid) fun hid => hnames id (mem_cons_of_mem _ hid)
  obtain ⟨c', hc'⟩ := hmade
  exact ⟨c', hne, rfl, hc'⟩

/-- **Only who waits is about to publish a target.** -/
theorem part_of_course_move {target : List Str} {s : Place} (h : Course aim (move target) s) :
    s.part = .waiting target := by
  obtain ⟨c, c', hring, hnone, hc'⟩ := exists_nextEpoch target
  have hpublish := (h.2 c hring ⟨⟨0, 0, false⟩, c, fun _ => none, [], []⟩
    (fun _ => Option.some.inj) hring).resolve_right fun henters => nomatch henters.1
  simp only [ret_bind, hc'] at hpublish
  obtain ⟨-, -, c₀, hc₀, hpart⟩ := hpublish
  obtain rfl := Option.some.inj hc₀
  obtain ⟨hrebalance, -⟩ := ClusterConfig.rings_make hc' hring
  cases hs : s.part with
  | free =>
    simp only [hs, hrebalance, hnone] at hpart
    exact nomatch hpart.1
  | waiting target' =>
    simp only [hs, hrebalance] at hpart
    rw [Option.some.inj hpart.1]
  | moving target' =>
    simp only [hs, hrebalance] at hpart
    exact nomatch hpart.1

/-- **A rebalance**, its target made from the ring in force. -/
theorem course_rebalance {c : ClusterConfig} {target : List Str} (h : aim c.ringIds target)
    (hne : target ≠ []) : Course aim (rebalance target) ⟨false, some c, .free⟩ := by
  rw [rebalance_eq]
  intro m hm _
  obtain rfl : m.config = c := hm c rfl
  show Course aim (if m.config.rebalance.isSome then _ else _) _ ∨
    Enters aim _ m (if m.config.rebalance.isSome then _ else _)
  split
  · exact .inl ⟨rfl, id⟩
  · rename_i hnone
    exact .inr ⟨rfl, rfl, by simpa using hnone, target, h, hne, rfl⟩

/-- **A request to add a group** publishes the ring with this group. -/
theorem course_addGroup (group : ShardGroup) :
    Course (Job.addGroup group).Intends (addGroup group) ⟨false, none, .free⟩ := by
  intro m _ _
  left
  show Course _ (if group.id ∈ m.config.shards.map ShardGroup.id then _ else _) _
  split
  · exact ⟨rfl, id⟩
  · refine Passes.course (passes_of_bystands (bystands_probe [group.primary]) id) ?_ ?_
    · intro answered s₁ hs₁
      show Course _ (if answered ≠ [true] then _ else _) _
      have hfree : ¬ s₁.part.Waiting := hs₁.part ▸ id
      split
      · exact ⟨hs₁.held, hfree⟩
      · have hadd : Passes (adopt fun c => c.nextEpoch (c.shards ++ [group]) c.rebalance c.ringIds)
            (fun r s' => s'.held = false ∧ match r with
              | .ok _ => s'.part = .free
              | .error _ => s'.part = s₁.part.released) s₁ := by
          refine passes_adopt .free hs₁.held id fun c c' hring hc' => ?_
          obtain ⟨hrebalance, hrings⟩ := ClusterConfig.rings_make hc' hring
          rw [show s₁.part = .free from hs₁.part]
          exact ⟨by rw [hrings]; exact hring, hrebalance, hrings, rfl⟩
        refine hadd.course ?_ ?_
        · rintro _ s₂ ⟨hheld, hpart⟩ m' _ _
          left
          have hplace : ({ s₂ with known := some m'.config } : Place) =
              ⟨false, some m'.config, .free⟩ := by
            rw [← hheld, ← (show s₂.part = .free from hpart)]
          rw [hplace]
          exact course_rebalance rfl (by simp)
        · rintro e s₂ ⟨hheld, hpart⟩
          refine ⟨hheld, ?_⟩
          rw [show s₂.part = s₁.part.released from hpart, show s₁.part = .free from hs₁.part]
          exact id
    · exact fun e s₁ hs₁ => ⟨hs₁.held, hs₁.part ▸ id⟩

/-- **A request to remove a group** publishes the ring without this group. -/
theorem course_removeGroup (shard : Str) :
    Course (Job.removeGroup shard).Intends (removeGroup shard) ⟨false, none, .free⟩ := by
  intro m _ _
  left
  simp only [ret_bind]
  split
  · exact ⟨rfl, id⟩
  · show Course _ (if m.config.ringIds.filter (· ≠ shard) = [] then _ else _) _
    split
    · exact ⟨rfl, id⟩
    · rename_i hne
      exact course_rebalance ⟨rfl, hne⟩ hne

/-- **Every job keeps to its part**, and publishes what it intends. -/
theorem Manager.Job.course (job : Job) : Course job.Intends job.code ⟨false, none, .free⟩ := by
  cases job with
  | tick => exact course_tick
  | failover shard => exact course_failoverRequest shard
  | addGroup group => exact course_addGroup group
  | removeGroup shard => exact course_removeGroup shard

end Requests

end Cluster

end KvStore
