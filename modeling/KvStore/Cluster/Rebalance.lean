import KvStore.Cluster.Courses
import KvStore.Cluster.Epochs

/-! # One rebalance at a time

Two requests that have both passed the test that no rebalance is under way, and both wait for the lock,
publish one target after the other (`two_targets`).

* **`World.Waits`** — a job has passed the test, and waits for the lock.
* **`Requested`** — the ring that the request behind a job intends.
* **`Turns`** — the invariant between the steps, **`Working`** while a job runs.

If no two jobs wait at a time, every configuration that a job publishes succeeds the one before it as its own
request intends, and whoever waits will find no target published (`rebalance_exclusive`). -/

namespace KvStore

open List

namespace Cluster

open Manager Prog

/-! ## The manager at work -/

/-- The job that goes on in an event. -/
def Event.job : Event → Option Nat
  | .spawn i _ | .acquire i | .choose i _ | .wake i | .resume i => some i
  | _ => none

namespace World

/-- **A job has passed the test, and waits for the lock** to publish its target. -/
def Waits (w : World) (i : Nat) (target : List Str) : Prop :=
  ∃ t, w.tasks i = some t ∧ t.rest = move target

/-- **At most one job waits** to publish a target. -/
def Alone (w : World) : Prop :=
  ∀ i j target target', w.Waits i target → w.Waits j target' → i = j

/-- A job at an await keeps to its part. -/
def Keeping (aim : List Str → List Str → Prop) (w : World) (i : Nat) (part : Part) (t : Task) : Prop :=
  ∃ s, Course aim t.rest s ∧ s.part = part ∧ (s.held = true ↔ w.lock = some i) ∧
    (s.held = true → s.known = some w.manager.config)

/-- What a part in a rebalance says of the configuration in force. -/
def Bears (aim : List Str → List Str → Prop) (config : ClusterConfig) : Part → Prop
  | .free => True
  | .waiting target => config.rebalance = none ∧ aim config.ringIds target
  | .moving target => config.rebalance = some target ∧ aim config.ringIds target

/-- **What was published since**: each configuration succeeds the one before it. -/
def Since (aim : List Str → List Str → Prop) (m₀ m : Manager) : Prop :=
  ∃ more, m.adopted = m₀.adopted ++ more ∧
    (m₀.config :: more).IsChain (ClusterConfig.Succeeds aim) ∧
    (m₀.config :: more).getLast? = some m.config

/-- The invariant, for the jobs in `js`: at most one has a part in a rebalance; `aim i` is what job `i`
intends. -/
structure TurnsOf (js : Nat → Prop) (aim : Nat → List Str → List Str → Prop) (part : Nat → Part)
    (w : World) : Prop where
  ring : w.manager.config.ringIds ≠ []
  holder : ∀ i, js i → w.lock = some i → ∃ t, w.tasks i = some t
  jobs : ∀ i t, js i → w.tasks i = some t → w.Keeping (aim i) i (part i) t
  absent : ∀ i, js i → w.tasks i = none → part i = .free
  unique : ∀ i j, js i → js j → part i ≠ .free → part j ≠ .free → i = j
  bears : ∀ i, js i → Bears (aim i) w.manager.config (part i)
  waits : ∀ i target, js i → part i = .waiting target → w.Waits i target

/-- **The invariant**: of all jobs. -/
abbrev Turns := TurnsOf fun _ => True

/-- The invariant while job `i` runs, which began when the manager was `m₀`. -/
structure Working (aim : Nat → List Str → List Str → Prop) (m₀ : Manager) (i : Nat) (part : Nat → Part)
    (s : Place) (w : World) : Prop extends TurnsOf (· ≠ i) aim part w where
  since : Since (aim i) m₀ w.manager
  /-- If another job has a part this one has none. -/
  other : ∀ j, j ≠ i → part j ≠ .free → s.part = .free
  own : Bears (aim i) w.manager.config s.part
  held : s.held = true ↔ w.lock = some i
  known : ∀ c, s.known = some c → w.manager.config = c
  /-- Who holds the lock knows the configuration. -/
  informed : s.held = true → s.known ≠ none
  /-- Between the test and the publishing it does nothing outside the lock. -/
  busy : s.part.Waiting → s.held = true

/-- **What the invariant is for**: who waits will find no target published; it is kept as long as no two jobs
wait. -/
structure Exclusive (aim : Nat → List Str → List Str → Prop) (w : World) : Prop where
  ring : w.manager.config.ringIds ≠ []
  waits : ∀ i target, w.Waits i target → Bears (aim i) w.manager.config (.waiting target)
  turns : w.Alone → ∃ part, Turns aim part w

section Turns

variable {aim : Nat → List Str → List Str → Prop} {m₀ : Manager} {w w' : World} {i : Nat}
  {part : Nat → Part} {s : Place}

/-- Nothing was published. -/
theorem Since.refl (aim : List Str → List Str → Prop) (m : Manager) : Since aim m m :=
  ⟨[], by simp, isChain_singleton _, rfl⟩

/-- What publishes nothing. -/
theorem Since.of_same {aim : List Str → List Str → Prop} {m m' : Manager} (h : Since aim m₀ m)
    (hconfig : m'.config = m.config) (hadopted : m'.adopted = m.adopted) : Since aim m₀ m' := by
  obtain ⟨more, hmore, hchain, hlast⟩ := h
  exact ⟨more, hadopted.trans hmore, hchain, hconfig ▸ hlast⟩

/-- More may be aimed at. -/
theorem Since.mono {aim aim' : List Str → List Str → Prop} {m : Manager} (h : Since aim m₀ m)
    (haim : ∀ ring target, aim ring target → aim' ring target) : Since aim' m₀ m := by
  obtain ⟨more, hmore, hchain, hlast⟩ := h
  exact ⟨more, hmore, hchain.imp fun c c' hc => hc.mono haim, hlast⟩

/-- One more configuration. -/
theorem Since.adopt {aim : List Str → List Str → Prop} {m : Manager} (h : Since aim m₀ m)
    {c : ClusterConfig} (hc : m.config.Succeeds aim c) :
    Since aim m₀ { m with config := c, adopted := m.adopted ++ [c] } := by
  obtain ⟨more, hmore, hchain, hlast⟩ := h
  refine ⟨more ++ [c], by simp [hmore], ?_, ?_⟩ <;> rw [← cons_append]
  case refine_2 => exact getLast?_concat ..
  refine isChain_append.mpr ⟨hchain, isChain_singleton _, ?_⟩
  intro x hx y hy
  rw [hlast] at hx
  cases hx
  cases hy
  exact hc

/-- Who is about to publish a target has passed the test. -/
theorem Keeping.waits {aim : List Str → List Str → Prop} {t : Task} {target : List Str}
    (h : w.Keeping aim i (part i) t)
    (hrest : t.rest = move target) : part i = .waiting target := by
  obtain ⟨s, hcourse, hpart, -⟩ := h
  rw [hrest] at hcourse
  rw [← hpart, part_of_course_move hcourse]

/-- The invariant is for this. -/
theorem Turns.exclusive (h : Turns aim part w) : w.Exclusive aim where
  ring := h.ring
  waits i _ hwaits := by
    obtain ⟨t, ht, hrest⟩ := hwaits
    have hbears := h.bears i trivial
    rwa [(h.jobs i t trivial ht).waits hrest] at hbears
  turns _ := ⟨part, h⟩

/-- The other jobs do not notice what the holder of the lock does. -/
theorem Working.others (h : Working aim m₀ i part s w) (hlock : w.lock = some i)
    (hlock' : w'.lock = w.lock ∨ w'.lock = none) (htasks : w'.tasks = w.tasks) :
    ∀ j t, j ≠ i → w'.tasks j = some t → w'.Keeping (aim j) j (part j) t := by
  intro j t hj ht
  rw [htasks] at ht
  obtain ⟨s', hcourse, hpart, hheld, -⟩ := h.jobs j t hj ht
  have hfree : s'.held = false := by
    rw [Bool.eq_false_iff, Ne, hheld, hlock]
    exact fun heq => hj (Option.some.inj heq).symm
  have hnot : w'.lock ≠ some j := by
    rcases hlock' with heq | heq
    · rw [heq, hlock]
      exact fun heq => hj (Option.some.inj heq).symm
    · rw [heq]
      nofun
  exact ⟨s', hcourse, hpart, by simp [hfree, hnot], by simp [hfree]⟩

/-- The configuration that a job publishes, as its part allows. -/
theorem Working.setConfig (h : Working aim m₀ i part s w) {c' : ClusterConfig} (part' : Part)
    (hheld : s.held = true) (hring : c'.ringIds ≠ []) (hsucceeds : w.manager.config.Succeeds (aim i) c')
    (hsame : s.part = .free → part' = .free ∧ c'.rebalance = w.manager.config.rebalance ∧
      c'.ringIds = w.manager.config.ringIds)
    (hown : Bears (aim i) c' part') (hwaiting : ¬ part'.Waiting) :
    Working aim m₀ i part ⟨true, some c', part'⟩ { w with
      manager := { w.manager with config := c', adopted := w.manager.adopted ++ [c'] } } where
  ring := hring
  since := h.since.adopt hsucceeds
  holder := h.holder
  jobs := h.others (h.held.mp hheld) (.inl rfl) rfl
  absent := h.absent
  unique := h.unique
  bears j hj := by
    have hbears := h.bears j hj
    cases hpart : part j with
    | free => trivial
    | waiting | moving =>
      rw [hpart] at hbears
      obtain ⟨-, hrebalance, hrings⟩ := hsame (h.other j hj (by simp [hpart]))
      exact ⟨hrebalance.trans hbears.1, by rw [hrings]; exact hbears.2⟩
  waits := h.waits
  other j hj hpart := (hsame (h.other j hj hpart)).1
  own := hown
  held := ⟨fun _ => h.held.mp hheld, fun _ => rfl⟩
  known c hc := Option.some.inj hc
  informed _ := nofun
  busy hw := absurd hw hwaiting

/-- **What a job does at once**, one operation at a time. -/
theorem Working.atOnce {o : Manager.Op} {r : o.Resp} {Q : o.Resp → Place → Prop}
    (h : Working aim m₀ i part s w) (ho : World.atOnce o w = some (r, w')) (hQ : passage.pre o Q s) :
    ∃ s', Working aim m₀ i part s' w' ∧ Q r s' := by
  cases o with
  | read =>
    cases ho
    refine ⟨_, ?_, hQ _ h.known h.ring⟩
    exact { h with known := fun c hc => Option.some.inj hc, informed := fun _ => nofun }
  | health | record =>
    cases ho
    exact ⟨s, { h with since := h.since.of_same rfl rfl }, hQ⟩
  | clock =>
    cases ho
    exact ⟨s, h, hQ _⟩
  | release =>
    cases ho
    obtain ⟨hheld, hQ⟩ := hQ
    refine ⟨_, ?_, hQ⟩
    have hown := h.own
    exact { h with
      holder := nofun
      jobs := h.others (h.held.mp hheld) (.inr rfl) rfl
      other := fun j hj hpart => by
        show s.part.released = .free
        rw [h.other j hj hpart]
        rfl
      own := by
        show Bears (aim i) w.manager.config s.part.released
        cases hs : s.part with
        | free | waiting target => trivial
        | moving target =>
          rw [hs] at hown
          exact hown
      held := by simp
      informed := nofun
      busy := fun hw => by
        cases hs : s.part <;> simp [hs, Part.released, Part.Waiting] at hw }
  | setConfig c' =>
    cases ho
    obtain ⟨hheld, hring, c, hc, hpart⟩ := hQ
    obtain rfl : w.manager.config = c := h.known c hc
    have hown := h.own
    cases hs : s.part with
    | free =>
      rw [hs] at hpart
      obtain ⟨hrebalance, hrings, hQ⟩ := hpart
      exact ⟨_, h.setConfig .free hheld hring (.of_same hrebalance hrings)
        (fun _ => ⟨rfl, hrebalance, hrings⟩) trivial id, hQ⟩
    | waiting target =>
      rw [hs] at hpart hown
      obtain ⟨hrebalance, hrings, hQ⟩ := hpart
      refine ⟨_, h.setConfig (.moving target) hheld hring ?_ (by simp [hs])
        ⟨hrebalance, by rw [hrings]; exact hown.2⟩ id, hQ⟩
      simp only [ClusterConfig.Succeeds, hown.1, hrebalance]
      exact ⟨hrings, hown.2⟩
    | moving target =>
      rw [hs] at hpart hown
      obtain ⟨hrebalance, hrings, hQ⟩ := hpart
      refine ⟨_, h.setConfig .free hheld hring ?_ (by simp [hs]) trivial id, hQ⟩
      simp only [ClusterConfig.Succeeds, hown.1, hrebalance]
      exact ⟨hrings, hown.2⟩
  | rounds | acquire | gather | sleep => cases ho

/-- **Where a job comes to**: an await at which it keeps to its part, or the wait after the test. -/
def Arrives (aim : Nat → List Str → List Str → Prop) (m₀ : Manager) (i : Nat) (part : Nat → Part)
    (rest : Code Unit) (w : World) : Prop :=
  (∃ s, Working aim m₀ i part s w ∧ Course (aim i) rest s ∧ ¬ s.part.Waiting) ∨
    ∃ s target, Working aim m₀ i part s w ∧ s.held = false ∧ s.part = .free ∧ rest = move target ∧
      w.manager.config.rebalance = none ∧ aim i w.manager.config.ringIds target ∧ target ≠ []

/-- **A job runs up to its next await.** -/
theorem Working.settle {p : Code Unit} (h : Working aim m₀ i part s w) (hp : Course (aim i) p s) :
    Arrives aim m₀ i part (settle p w).1 (settle p w).2 := by
  induction p generalizing s w with
  | ret | fail => exact .inl ⟨s, h, hp, hp.2⟩
  | op o next ih =>
    have hgo : ∀ {r w₁}, World.atOnce o w = some (r, w₁) →
        passage.pre o (fun r s' => Course (aim i) (next r) s') s →
        Arrives aim m₀ i part (World.settle (.op o next) w).1 (World.settle (.op o next) w).2 := by
      intro r w₁ ho hpassage
      obtain ⟨s', hrun, hnext⟩ := h.atOnce ho hpassage
      simp only [World.settle, ho]
      exact ih r hrun hnext
    cases o with
    | read =>
      rcases hp w.manager h.known h.ring with hnext | hnext
      · refine ih w.manager (s := { s with known := some w.manager.config }) ?_ hnext
        exact { h with known := fun c hc => Option.some.inj hc, informed := fun _ => nofun }
      · obtain ⟨hheld, hfree, hrebalance, target, haim, hne, hrest⟩ := hnext
        -- the program that waits goes no further
        have hsettle : World.settle (.op .read next) w = (move target, w) := by
          show World.settle (next w.manager) w = _
          rw [hrest]
          rfl
        rw [hsettle]
        exact .inr ⟨s, target, h, hheld, hfree, rfl, hrebalance, haim, hne⟩
    | health f | record e | clock | release | setConfig c' => exact hgo rfl hp
    | rounds | sleep | gather calls => exact .inl ⟨s, h, hp, hp.1⟩
    | acquire =>
      refine .inl ⟨s, h, hp, fun hw => ?_⟩
      have := h.busy hw
      rw [hp.1] at this
      cases this

/-- The job that ran is at an await again, with this or another part. -/
theorem Working.turns {part' : Part} {t : Task} (h : Working aim m₀ i part s w)
    (hmanager : w'.manager = w.manager) (hlock : w'.lock = w.lock) (hself : w'.tasks i = some t)
    (hne : ∀ j, j ≠ i → w'.tasks j = w.tasks j) (hcourse : Course (aim i) t.rest { s with part := part' })
    (hother : ∀ j, j ≠ i → part j ≠ .free → part' = .free) (hown : Bears (aim i) w.manager.config part')
    (hwaits : ∀ target, part' = .waiting target → t.rest = move target) :
    Turns aim (Function.update part i part') w' := by
  have hpart : ∀ {j}, j ≠ i → Function.update part i part' j = part j :=
    fun hj => Function.update_of_ne hj _ _
  refine ⟨hmanager ▸ h.ring, fun j _ hj => ?_, fun j t' _ ht' => ?_, fun j _ hj => ?_,
    fun j k _ _ hj hk => ?_, fun j _ => ?_, fun j target _ hj => ?_⟩
  · by_cases hji : j = i
    · exact ⟨t, hji ▸ hself⟩
    · obtain ⟨t', ht'⟩ := h.holder j hji (hlock ▸ hj)
      exact ⟨t', (hne j hji).trans ht'⟩
  · by_cases hji : j = i
    · subst hji
      obtain rfl := Option.some.inj (hself.symm.trans ht')
      refine ⟨_, hcourse, by simp, hlock ▸ h.held, fun hheld => ?_⟩
      obtain ⟨c, hc⟩ := Option.ne_none_iff_exists'.mp (h.informed hheld)
      rw [hmanager, h.known c hc]
      exact hc
    · rw [hpart hji, Keeping, hlock, hmanager]
      exact h.jobs j t' hji ((hne j hji).symm.trans ht')
  · by_cases hji : j = i
    · subst hji
      exact nomatch hself.symm.trans hj
    · rw [hpart hji]
      exact h.absent j hji ((hne j hji).symm.trans hj)
  · by_cases hji : j = i
    · by_cases hki : k = i
      · rw [hji, hki]
      · subst hji
        rw [hpart hki] at hk
        rw [Function.update_self] at hj
        exact absurd (hother k hki hk) hj
    · rw [hpart hji] at hj
      by_cases hki : k = i
      · subst hki
        rw [Function.update_self] at hk
        exact absurd (hother j hji hj) hk
      · rw [hpart hki] at hk
        exact h.unique j k hji hki hj hk
  · rw [hmanager]
    by_cases hji : j = i
    · rw [hji, Function.update_self]
      exact hown
    · rw [hpart hji]
      exact h.bears j hji
  · by_cases hji : j = i
    · subst hji
      rw [Function.update_self] at hj
      exact ⟨t, hself, hwaits target hj⟩
    · rw [hpart hji] at hj
      obtain ⟨t', ht', hrest⟩ := h.waits j target hji hj
      exact ⟨t', (hne j hji).trans ht', hrest⟩

/-- **A job goes on**, up to its next await, and publishes what it intends. -/
theorem Working.proceed {p : Code Unit} (h : Working aim m₀ i part s w) (hp : Course (aim i) p s) :
    (w.proceed i p).Exclusive aim ∧ Since (aim i) m₀ (w.proceed i p).manager := by
  have hself : (w.proceed i p).tasks i =
      some ⟨(World.settle p w).1, flightsOf (World.settle p w).1⟩ := Function.update_self _ _ _
  have hne : ∀ j, j ≠ i → (w.proceed i p).tasks j = (World.settle p w).2.tasks j := by
    intro j hj
    rw [settle_tasks]
    exact Function.update_of_ne hj _ _
  rcases h.settle hp with ⟨s', hrun, hcourse, hwaiting⟩ |
    ⟨s', target, hrun, hheld, hfree, hrest, hrebalance, haim, htarget⟩
  · refine ⟨Turns.exclusive
      (hrun.turns rfl rfl hself hne hcourse hrun.other hrun.own fun target htarget => ?_), hrun.since⟩
    rw [htarget] at hwaiting
    exact absurd trivial hwaiting
  · have hcourse : Course (aim i) (World.settle p w).1 { s' with part := .waiting target } := by
      rw [hrest, hheld]
      exact course_move htarget _
    refine ⟨⟨hrun.ring, fun j target' hwaits => ?_, fun halone => ?_⟩, hrun.since⟩
    · obtain ⟨t, ht, hmove⟩ := hwaits
      by_cases hj : j = i
      · subst hj
        obtain rfl := Option.some.inj (hself.symm.trans ht)
        rw [show (World.settle p w).1 = move target' from hmove] at hcourse
        rw [← part_of_course_move hcourse]
        exact ⟨hrebalance, haim⟩
      · rw [hne j hj] at ht
        have hbears := hrun.bears j hj
        rwa [(hrun.jobs j t hj ht).waits hmove] at hbears
    · refine ⟨_, hrun.turns rfl rfl hself hne hcourse (fun j hj hpart => ?_) ⟨hrebalance, haim⟩
        fun target' htarget' => by rw [← Part.waiting.inj htarget']; exact hrest⟩
      exfalso
      have hbears := hrun.bears j hj
      cases hj' : part j with
      | free => exact hpart hj'
      | moving target' =>
        rw [hj'] at hbears
        exact nomatch hrebalance.symm.trans hbears.1
      | waiting target' =>
        -- two jobs would wait
        obtain ⟨t, ht, hmove⟩ := hrun.waits j target' hj hj'
        exact hj (halone j i target' target ⟨t, (hne j hj).trans ht, hmove⟩ ⟨_, hself, hrest⟩)

/-- Of the other jobs. -/
theorem Turns.others (h : Turns aim part w) (i : Nat) : TurnsOf (· ≠ i) aim part w where
  ring := h.ring
  holder j _ := h.holder j trivial
  jobs j t _ := h.jobs j t trivial
  absent j _ := h.absent j trivial
  unique j k _ _ := h.unique j k trivial trivial
  bears j _ := h.bears j trivial
  waits j target _ := h.waits j target trivial

/-- If another job has a part this one has none. -/
theorem Turns.alone (h : Turns aim part w) {j : Nat} (hj : j ≠ i) (hpart : part j ≠ .free) {own : Part}
    (hown : own = part i) : own = .free := by
  by_contra hne
  exact hj (h.unique j i trivial trivial hpart (hown ▸ hne))

/-- The invariant, seen from a job about to go on with its part. -/
theorem Turns.working (h : Turns aim part w) (hpart : s.part = part i)
    (hheld : s.held = true ↔ w.lock = some i) (hknown : ∀ c, s.known = some c → w.manager.config = c)
    (hinformed : s.held = true → s.known ≠ none) (hbusy : s.part.Waiting → s.held = true) :
    Working aim w.manager i part s w where
  __ := h.others i
  since := .refl _ _
  other _ hj hpart' := h.alone hj hpart' hpart
  own := hpart ▸ h.bears i trivial
  held := hheld
  known := hknown
  informed := hinformed
  busy := hbusy

/-- A job at an await other than for the lock wakes up. -/
theorem Turns.awake {t : Task} (h : Turns aim part w) (ht : w.tasks i = some t)
    (hwaiting : ∀ s, Course (aim i) t.rest s → ¬ s.part.Waiting) :
    ∃ s, Course (aim i) t.rest s ∧ Working aim w.manager i part s.awoken w := by
  obtain ⟨s, hcourse, hpart, hheld, hknown⟩ := h.jobs i t trivial ht
  refine ⟨s, hcourse, h.working hpart hheld (fun c hc => ?_) (fun hs => ?_)
    fun hw => absurd hw (hwaiting s hcourse)⟩
  · cases hs : s.held with
    | true => exact Option.some.inj ((hknown hs).symm.trans (by simpa [Place.awoken, hs] using hc))
    | false => simp [Place.awoken, hs] at hc
  · have hs' : s.held = true := hs
    simp [Place.awoken, hs', hknown hs']

/-- What publishes nothing, and leaves the jobs where they are. -/
theorem Turns.of_same (h : Turns aim part w) (hconfig : w'.manager.config = w.manager.config)
    (hlock : w'.lock = w.lock)
    (htasks : ∀ i, (w'.tasks i).map Task.rest = (w.tasks i).map Task.rest) : Turns aim part w' := by
  have htask : ∀ {i t'}, w'.tasks i = some t' → ∃ t, w.tasks i = some t ∧ t.rest = t'.rest := by
    intro i t' ht'
    have hmap := htasks i
    rw [ht'] at hmap
    exact Option.map_eq_some_iff.mp hmap.symm
  have htask' : ∀ {i t}, w.tasks i = some t → ∃ t', w'.tasks i = some t' ∧ t'.rest = t.rest := by
    intro i t ht
    have hmap := htasks i
    rw [ht] at hmap
    exact Option.map_eq_some_iff.mp hmap
  refine ⟨?_, fun i _ hi => ?_, fun i t' _ ht' => ?_, fun i _ hi => ?_, h.unique, ?_,
    fun i target _ hi => ?_⟩
  · rw [hconfig]
    exact h.ring
  · obtain ⟨t, ht⟩ := h.holder i trivial (hlock ▸ hi)
    exact (htask' ht).imp fun _ ht' => ht'.1
  · obtain ⟨t, ht, hrest⟩ := htask ht'
    rw [Keeping, hlock, hconfig, ← hrest]
    exact h.jobs i t trivial ht
  · refine h.absent i trivial (Option.eq_none_iff_forall_ne_some.mpr fun t ht => ?_)
    obtain ⟨t', ht', -⟩ := htask' ht
    exact nomatch hi.symm.trans ht'
  · rw [hconfig]
    exact h.bears
  · obtain ⟨t, ht, hrest⟩ := h.waits i target trivial hi
    obtain ⟨t', ht', hrest'⟩ := htask' ht
    exact ⟨t', ht', hrest'.trans hrest⟩

/-- Marking a call leaves the jobs where they are. -/
theorem map_rest_mark (w : World) (i j : Nat) (status : Status) (k : Nat) :
    ((w.mark i j status).tasks k).map Task.rest = (w.tasks k).map Task.rest := by
  by_cases hk : k = i
  · subst hk
    cases ht : w.tasks k with
    | none => simp [mark, ht]
    | some t => rw [mark_tasks_self ht]; rfl
  · rw [mark_tasks_of_ne hk]

/-- A job gets the lock. -/
theorem Turns.acquire {next : Unit → Code Unit} {flights : List Flight} (h : Turns aim part w)
    (ht : w.tasks i = some ⟨.op .acquire next, flights⟩) (hlock : w.lock = none) :
    ({ w with lock := some i }.proceed i (next ())).Exclusive aim ∧
      Since (aim i) w.manager ({ w with lock := some i }.proceed i (next ())).manager := by
  obtain ⟨s, hcourse, hpart, -⟩ := h.jobs i _ trivial ht
  have hjobs : ∀ j t, j ≠ i → w.tasks j = some t →
      Keeping (aim j) { w with lock := some i } j (part j) t := by
    intro j t hj htj
    obtain ⟨s', hcourse', hpart', hheld', -⟩ := h.jobs j t trivial htj
    have hfree : s'.held = false := by
      rw [Bool.eq_false_iff, Ne, hheld', hlock]
      nofun
    exact ⟨s', hcourse', hpart', by simp [hfree, Ne.symm hj], by simp [hfree]⟩
  have hrun : Working aim w.manager i part ⟨true, some w.manager.config, s.part⟩
      { w with lock := some i } :=
    { h.others i with
      since := .refl _ _
      holder := fun j hj hj' => absurd (Option.some.inj hj').symm hj
      jobs := hjobs
      other := fun _ hj hpart' => h.alone hj hpart' hpart
      own := hpart ▸ h.bears i trivial
      held := by simp
      known := fun c hc => Option.some.inj hc
      informed := fun _ => nofun
      busy := fun _ => rfl }
  exact hrun.proceed (hcourse.2 _ h.ring)

/-- **Every step keeps the invariant**, if no two jobs wait before it, and what the job that goes on in it
publishes is what it intends. -/
theorem Turns.step {event : Event} (h : Turns aim part w) (hstep : w.step event = some w')
    (haim : ∀ i job, event = .spawn i job → ∀ ring target, job.Intends ring target → aim i ring target) :
    w'.Exclusive aim ∧ Since (fun ring target => ∃ i, event.job = some i ∧ aim i ring target)
      w.manager w'.manager := by
  have hjob : ∀ {i}, event.job = some i →
      (w'.Exclusive aim ∧ Since (aim i) w.manager w'.manager) →
      w'.Exclusive aim ∧ Since (fun ring target => ∃ i, event.job = some i ∧ aim i ring target)
        w.manager w'.manager :=
    fun hi hw' => ⟨hw'.1, hw'.2.mono fun _ _ ha => ⟨_, hi, ha⟩⟩
  have hidle : w'.manager.config = w.manager.config → w'.manager.adopted = w.manager.adopted →
      w'.lock = w.lock → (∀ i, (w'.tasks i).map Task.rest = (w.tasks i).map Task.rest) →
      w'.Exclusive aim ∧ Since (fun ring target => ∃ i, event.job = some i ∧ aim i ring target)
        w.manager w'.manager :=
    fun hconfig hadopted hlock htasks =>
      ⟨(h.of_same hconfig hlock htasks).exclusive, (Since.refl _ w.manager).of_same hconfig hadopted⟩
  cases step_cases hstep with
  | @spawn i job ht =>
    have hlock : w.lock ≠ some i := fun hi => by
      obtain ⟨t, ht'⟩ := h.holder i trivial hi
      exact absurd (ht.symm.trans ht') (Option.some_ne_none t).symm
    have hrun : Working aim w.manager i part ⟨false, none, .free⟩ w :=
      h.working (h.absent i trivial ht).symm (by simpa using hlock) (by simp) (by simp) False.elim
    exact hjob rfl (hrun.proceed (job.course.mono (haim i job rfl)))
  | acquire ht hlock => exact hjob rfl (h.acquire ht hlock)
  | choose ht | resume ht =>
    obtain ⟨s, hcourse, hrun⟩ := h.awake ht fun s hs => hs.1
    exact hjob rfl (hrun.proceed (hcourse.2 _))
  | wake ht =>
    obtain ⟨s, hcourse, hrun⟩ := h.awake ht fun s hs => hs.1
    exact hjob rfl (hrun.proceed hcourse.2)
  | deliver => exact hidle rfl rfl rfl (map_rest_mark _ _ _ _)
  | answer | timeoutSent | timeoutExecuted | lose => exact hidle rfl rfl rfl (map_rest_mark w _ _ _)
  | straggle | advance | progress | restart => exact hidle rfl rfl rfl fun _ => rfl

end Turns

/-! ## Runs -/

/-- **Runs in which no two requests** are past the test and wait for the lock at a time. -/
abbrev AloneRun (events : List Event) (w w' : World) : Prop :=
  Runs (fun event w w' => w.Alone ∧ w.step event = some w') events w w'

/-- A manager that has just started. -/
theorem Fresh.turns {w : World} (h : w.Fresh) (hring : w.manager.config.ringIds ≠ [])
    (aim : Nat → List Str → List Str → Prop) : Turns aim (fun _ => .free) w where
  ring := hring
  holder _ _ hi := nomatch h.lock.symm.trans hi
  jobs i _ _ ht := nomatch (h.tasks i).symm.trans ht
  absent _ _ _ := rfl
  unique _ _ _ _ hi := absurd rfl hi
  bears _ _ := trivial
  waits := nofun

/-- **The ring that the request behind job `i` intends**, `events` being what has happened. -/
def Requested (events : List Event) (i : Nat) (ring target : List Str) : Prop :=
  ∃ job, Event.spawn i job ∈ events ∧ job.Intends ring target

/-- What was published in a step follows what was published before it. -/
theorem Since.chain {aim : List Str → List Str → Prop} {m m' : Manager} (h : Since aim m m')
    (hchain : m.adopted.IsChain (ClusterConfig.Succeeds aim))
    (hlast : m.adopted.getLast? = some m.config) :
    m'.adopted.IsChain (ClusterConfig.Succeeds aim) ∧ m'.adopted.getLast? = some m'.config := by
  obtain ⟨more, hmore, hnew, hlast'⟩ := h
  rw [hmore]
  cases more with
  | nil =>
    have hconfig : m.config = m'.config := by simpa using hlast'
    simpa [← hconfig] using ⟨hchain, hlast⟩
  | cons c more =>
    obtain ⟨hhead, hrest⟩ := isChain_cons_cons.mp hnew
    refine ⟨isChain_append.mpr ⟨hchain, hrest, ?_⟩, ?_⟩
    · intro x hx y hy
      rw [hlast] at hx
      cases hx
      cases hy
      exact hhead
    · simpa using hlast'

/-- **The invariant holds along every run**, and configurations succeed each other. -/
theorem AloneRun.exclusive {events all : List Event} {w w' : World} (hfresh : w.Fresh)
    (hring : w.manager.config.ringIds ≠ []) (hrun : AloneRun events w w')
    (hall : ∀ event ∈ events, event ∈ all) :
    w'.Exclusive (Requested all) ∧
      w'.manager.adopted.IsChain
        (ClusterConfig.Succeeds fun ring target => ∃ i, Requested all i ring target) ∧
      w'.manager.adopted.getLast? = some w'.manager.config := by
  refine hrun.invariant (P := (· ∈ all)) (I := fun w => w.Exclusive (Requested all) ∧
    w.manager.adopted.IsChain
      (ClusterConfig.Succeeds fun ring target => ∃ i, Requested all i ring target) ∧
    w.manager.adopted.getLast? = some w.manager.config) (fun hevent h hstep => ?_) hall ?_
  · obtain ⟨hexclusive, hchain, hlast⟩ := h
    obtain ⟨part, hturns⟩ := hexclusive.turns hstep.1
    obtain ⟨hexclusive', hsince⟩ := hturns.step hstep.2
      fun i job heq ring target hintends => ⟨job, heq ▸ hevent, hintends⟩
    exact ⟨hexclusive', (hsince.mono fun _ _ ⟨i, _, ha⟩ => ⟨i, ha⟩).chain hchain hlast⟩
  · exact ⟨(hfresh.turns hring _).exclusive, by simp [hfresh.adopted], by simp [hfresh.adopted]⟩

/-- **One rebalance at a time.** In every run of the manager in which no step is made while two requests wait
for the lock to publish their targets, every configuration succeeds the one before it: a target that is
published is not replaced by another one, and the ring changes only by the published target becoming the ring.
While a target is published nobody waits to publish one. And what a job publishes is what its own request
intends: the target is the ring in force with its group added, or without it, and the ring published at the
end is that target, so that no group is lost that another request added. -/
theorem rebalance_exclusive {events : List Event} {w w' : World} (hfresh : w.Fresh)
    (hring : w.manager.config.ringIds ≠ []) (hrun : AloneRun events w w') :
    w'.manager.adopted.IsChain
        (ClusterConfig.Succeeds fun ring target => ∃ i, Requested events i ring target) ∧
      (∀ i target, w'.Waits i target →
        w'.manager.config.rebalance = none ∧ Requested events i w'.manager.config.ringIds target) ∧
      ∀ event w'', w'.Alone → w'.step event = some w'' →
        ∃ more, w''.manager.adopted = w'.manager.adopted ++ more ∧
          (w'.manager.config :: more).IsChain (ClusterConfig.Succeeds fun ring target =>
            ∃ i, event.job = some i ∧ Requested (events ++ [event]) i ring target) := by
  obtain ⟨hexclusive, hchain, -⟩ := hrun.exclusive hfresh hring fun _ h => h
  refine ⟨hchain, hexclusive.waits, fun event w'' halone hstep => ?_⟩
  -- the same invariant, the request that may arrive now being known already
  obtain ⟨hexclusive', -⟩ := hrun.exclusive hfresh hring fun _ h => mem_append_left [event] h
  obtain ⟨part, hturns⟩ := hexclusive'.turns halone
  obtain ⟨-, more, hmore, hnew, -⟩ := hturns.step hstep
    fun i job heq ring target hintends => ⟨job, by simp [heq], hintends⟩
  exact ⟨more, hmore, hnew⟩

/-- A group of one node. -/
def exampleGroup (n : Nat) : ShardGroup := ⟨[n.toUInt8], localNode n, []⟩

/-- The configuration of one group. -/
def soloConfig : ClusterConfig := .solo 0 [1] (localNode 1)

/-- A manager that has just started, over primaries. -/
def idle (config : ClusterConfig) : World where
  manager := ⟨⟨1000, 1000, true⟩, config, fun _ => none, [], [config]⟩
  clock := ⟨0, 0⟩
  lock := none
  tasks := fun _ => none
  nodes := fun _ => ⟨.primary, 0, 5, true⟩
  late := []
  promoted := []

theorem fresh_idle (config : ClusterConfig) : (idle config).Fresh := ⟨rfl, fun _ => rfl, rfl, rfl, rfl⟩

/-- The target and the ring of a configuration. -/
def rings (c : ClusterConfig) : Option (List Str) × List Str := (c.rebalance, c.ringIds)

/-- The node answers the call of job `i`. -/
def answered (i : Nat) (reply : Reply) : List Event :=
  [.deliver i 0 (.ok reply), .answer i 0, .resume i]

/-- One job does not wait together with another one. -/
theorem alone_of_single {w : World} {i : Nat} (h : ∀ j, j ≠ i → w.tasks j = none) : w.Alone := by
  have hself : ∀ {j target}, w.Waits j target → j = i := fun {j} _ ⟨t, ht, _⟩ => by
    by_contra hj
    exact nomatch (h j hj).symm.trans ht
  exact fun j k _ _ hj hk => (hself hj).trans (hself hk).symm

/-- As long as no other job is spawned there is one job. -/
theorem single_step {w w' : World} {i : Nat} {event : Event} (h : ∀ j, j ≠ i → w.tasks j = none)
    (hspawn : ∀ j job, event = .spawn j job → j = i) (hstep : w.step event = some w') :
    ∀ j, j ≠ i → w'.tasks j = none := by
  have hself : ∀ {k t}, w.tasks k = some t → k = i := fun {k} _ ht => by
    by_contra hk
    exact nomatch (h k hk).symm.trans ht
  have hflight : ∀ {k l f}, w.flight? k l = some f → k = i := fun hf => by
    obtain ⟨t, ht, -⟩ := Option.bind_eq_some_iff.mp hf
    exact hself ht
  intro j hj
  -- what a job does leaves the others, and so does the outcome of a call
  cases step_cases hstep with
  | @spawn k job ht => exact (Function.update_of_ne (hspawn k job rfl ▸ hj) _ _).trans (h j hj)
  | acquire ht | choose ht | wake ht | resume ht =>
    exact (Function.update_of_ne (hself ht ▸ hj) _ _).trans (h j hj)
  | deliver hf | answer hf | timeoutSent hf | timeoutExecuted hf | lose hf =>
    exact (Function.update_of_ne (hflight hf ▸ hj) _ _).trans (h j hj)
  | straggle | advance | progress | restart => exact h j hj

/-- A run with one job. -/
theorem aloneRun_of_single {events : List Event} {w w' : World} {i : Nat}
    (h : ∀ j, j ≠ i → w.tasks j = none) (hspawn : ∀ j job, .spawn j job ∈ events → j = i)
    (hrun : run events w = some w') : AloneRun events w w' ∧ w'.Alone := by
  induction events generalizing w with
  | nil =>
    cases hrun
    exact ⟨.nil _, alone_of_single h⟩
  | cons event rest ih =>
    obtain ⟨w₁, hstep, hrest⟩ := Option.bind_eq_some_iff.mp hrun
    obtain ⟨hruns, halone⟩ := ih (single_step h (fun j job heq => hspawn j job (by simp [heq])) hstep)
      (fun j job hmem => hspawn j job (mem_cons_of_mem _ hmem)) hrest
    exact ⟨.cons ⟨alone_of_single h, hstep⟩ hruns, halone⟩

/-- A second group is added, up to the last await of the request. -/
def addOneRun : List Event :=
  [.spawn 0 (.addGroup (exampleGroup 2))] ++ answered 0 .ok ++ [.acquire 0, .acquire 0, .choose 0 2] ++
  answered 0 (.status (text "idle") 0 []) ++ answered 0 .ok ++ [.wake 0] ++
  answered 0 (.status (text "done") 0 [])

/-- The request has published its target; in the next step it publishes the ring, which is what it
intended. -/
theorem rebalance_exclusive_addition : ∃ w' w'',
    AloneRun addOneRun (idle soloConfig) w' ∧ w'.step (.acquire 0) = some w'' ∧
    rings w'.manager.config = (some [[1], [2]], [[1]]) ∧ rings w''.manager.config = (none, [[1], [2]]) ∧
    w'.manager.adopted.IsChain
      (ClusterConfig.Succeeds fun ring target => ∃ i, Requested addOneRun i ring target) ∧
    ∃ more, w''.manager.adopted = w'.manager.adopted ++ more ∧
      (w'.manager.config :: more).IsChain (ClusterConfig.Succeeds fun ring target =>
        ∃ i, Event.job (.acquire 0) = some i ∧ Requested (addOneRun ++ [.acquire 0]) i ring target) := by
  have hrun : (run addOneRun (idle soloConfig)).any (fun w' =>
      rings w'.manager.config = (some [[1], [2]], [[1]]) ∧
        (w'.step (.acquire 0)).any fun w'' => rings w''.manager.config = (none, [[1], [2]])) = true := by
    decide +kernel
  obtain ⟨w', hw', hall⟩ := (Option.any_eq_true _ _).mp hrun
  obtain ⟨hrings, hlast⟩ := of_decide_eq_true hall
  obtain ⟨w'', hw'', hrings'⟩ := (Option.any_eq_true _ _).mp hlast
  have hspawn : ∀ j job, Event.spawn j job ∈ addOneRun → j = 0 := by
    intro j job hmem
    simp only [addOneRun, answered, mem_append, mem_cons, not_mem_nil, or_false,
      reduceCtorEq, or_self, Event.spawn.injEq] at hmem
    exact hmem.1
  obtain ⟨halone, hend⟩ := aloneRun_of_single (fun _ _ => rfl) hspawn hw'
  obtain ⟨hchain, -, hstep⟩ := rebalance_exclusive (fresh_idle soloConfig) (by decide) halone
  exact ⟨w', w'', halone, hw'', hrings, of_decide_eq_true hrings', hchain, hstep _ _ hend hw''⟩

/-- Two requests to add a group arrive while a round holds the lock. Each adds its group and finds no
rebalance in progress, and each publishes its target; then the first one comes to its end. -/
def addTwoRun : List Event :=
  [.spawn 0 .tick, .acquire 0, .spawn 1 (.addGroup (exampleGroup 2)),
    .spawn 2 (.addGroup (exampleGroup 3))] ++
  answered 1 .ok ++ answered 2 .ok ++ answered 0 .ok ++
  [.acquire 1, .acquire 2, .acquire 1, .acquire 2, .choose 1 2] ++
  answered 1 (.status (text "idle") 0 []) ++ answered 1 .ok ++ [.wake 1] ++
  answered 1 (.status (text "done") 0 []) ++ [.acquire 1]

/-- What `addTwoRun` publishes. -/
def addTwoRings : List (Option (List Str) × List Str) :=
  [(none, [[1]]), (none, [[1]]), (none, [[1]]), (some [[1], [2]], [[1]]), (some [[1], [3]], [[1]]),
    (none, [[1], [2]])]

/-- **Two targets.** The target with the second group is replaced by the one with the third; and the ring
published at the end is the one that the first request intended: the third group is dropped. -/
theorem two_targets : (idle soloConfig).Fresh ∧ soloConfig.ringIds ≠ [] ∧ ∃ w',
    Runs (fun event w w' => w.step event = some w') addTwoRun (idle soloConfig) w' ∧
    w'.manager.adopted.map rings = addTwoRings ∧
    ¬ w'.manager.adopted.IsChain (ClusterConfig.Succeeds fun _ _ => True) := by
  have hrun : (run addTwoRun (idle soloConfig)).any
      (fun w' => w'.manager.adopted.map rings = addTwoRings) = true := by
    decide +kernel
  obtain ⟨w', hw', hall⟩ := (Option.any_eq_true _ _).mp hrun
  have hadopted := of_decide_eq_true hall
  refine ⟨fresh_idle _, by decide, w', .of_foldlM hw', hadopted, fun hchain => ?_⟩
  have hnth : ∀ n, (w'.manager.adopted[n]?).map rings = addTwoRings[n]? :=
    fun n => by rw [← getElem?_map, hadopted]
  -- the fourth configuration is not succeeded by the fifth
  obtain ⟨c, hc, hrings⟩ := Option.map_eq_some_iff.mp (hnth 3)
  obtain ⟨c', hc', hrings'⟩ := Option.map_eq_some_iff.mp (hnth 4)
  obtain ⟨h3, rfl⟩ := List.getElem?_eq_some_iff.mp hc
  obtain ⟨h4, rfl⟩ := List.getElem?_eq_some_iff.mp hc'
  have hsucceeds := isChain_iff_getElem.mp hchain 3 h4
  simp only [ClusterConfig.Succeeds, (Prod.mk.inj hrings).1, (Prod.mk.inj hrings').1] at hsucceeds
  exact absurd hsucceeds.1 (by decide)

end World

end Cluster

end KvStore
