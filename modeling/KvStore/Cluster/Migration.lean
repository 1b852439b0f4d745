import KvStore.Cluster.HashRing
import KvStore.Cluster.Topology
import KvStore.Engine.Engine
import KvStore.Protocol.Errors

/-! # Moving keys

A source primary moves the keys that belong to other groups once a rebalance is done
(`cluster/migration.py`). While it does, commands are checked before they reach the engine.

* **`KeyMigration.destination`** — where a key belongs once the move is done.
* **`KeyMigration.check`** — whether a command may run here now. It looks keys up, which can expire them.
* **`KeyMigration.scan`** — the keys to move.

A key is looked for on the ring by the strict UTF-8 form of what is hashed of it. Every one of these works
exactly for the keys that have such a form (`routable_iff`). -/

namespace KvStore

open List

/-- **`MigrationPlan`**: the group of this node, and every group of the target ring with its primary. -/
structure MigrationPlan where
  shard : Str
  virtualNodes : Nat
  targets : List (Str × Address)

/-- **`KeyMigration`**, as far as it decides about commands. -/
structure KeyMigration where
  plan : MigrationPlan
  ring : ConsistentHashRing
  inFlight : List Str

/-- Why a command is not run. -/
inductive CheckError
  /-- The ring raises. -/
  | ring (err : RingError)
  /-- The client is told to try elsewhere or later. -/
  | refused (err : WireError)

/-- `host:port`. -/
def Address.show (a : Address) : Str := a.host ++ 58 :: showNat a.port

namespace KeyMigration

variable [Digest]

/-- `plan.ring()`. -/
def start (plan : MigrationPlan) : Except RingError KeyMigration := do
  let ring ← ConsistentHashRing.make (plan.targets.map Prod.fst) plan.virtualNodes
  .ok ⟨plan, ring, []⟩

/-- **`destination`**: the group and the address a key belongs to, if that is not here. -/
def destination (m : KeyMigration) (key : Str) : Except RingError (Option (Str × Address)) := do
  let shard ← m.ring.owner key
  if shard = m.plan.shard then .ok none
  else
    match m.plan.targets.lookup shard with
    | none => .error .unknownGroup
    | some address => .ok (some (shard, address))

/-- The keys whose destination is elsewhere. -/
def elsewhere (m : KeyMigration) : List Str → Except RingError (List Str)
  | [] => .ok []
  | key :: keys => do
      let destination ← m.destination key
      let rest ← elsewhere m keys
      .ok (if destination.isSome then key :: rest else rest)

variable {σ : Type} [EvictionPolicy σ]

/-- The keys among some that are not here and belong elsewhere. -/
def gone (m : KeyMigration) (now : Nat) : List Str → Engine σ →
    Except RingError (List Str) × Engine σ
  | [], e => (.ok [], e)
  | key :: keys, e =>
    match e.lookup now key with
    | (some _, e) => gone m now keys e
    | (none, e) =>
      match m.destination key with
      | .error err => (.error err, e)
      | .ok none => gone m now keys e
      | .ok (some _) =>
        let (rest, e) := gone m now keys e
        (rest.map (key :: ·), e)

/-- `AskRedirectError(" ".join(destination))`. -/
def askRedirect (destination : Str × Address) : WireError :=
  .make .askRedirect (destination.1 ++ 32 :: destination.2.show) none

/-- **`check`**: a command on a key that is on its way out, or on keys of which some are here and some
moved, is to be tried again; one on keys that moved is redirected. -/
def check (m : KeyMigration) (now : Nat) (c : Option Command) (args : List Str) (e : Engine σ) :
    Except CheckError Unit × Engine σ :=
  match c with
  | none => (.ok (), e)
  | some c =>
    let keys := c.keyArgs args
    if keys.any (· ∈ m.inFlight) then
      (.error (.refused (.make .tryAgain (text "key is being migrated") none)), e)
    else
      match m.gone now keys e with
      | (.error err, e) => (.error (.ring err), e)
      | (.ok [], e) => (.ok (), e)
      | (.ok (key :: rest), e) =>
        if (key :: rest).length < keys.length then
          (.error (.refused
            (.make .tryAgain (text "multiple keys request during a migration") none)), e)
        else
          match m.destination key with
          | .ok (some destination) => (.error (.refused (askRedirect destination)), e)
          -- the assertion that follows in the source: a key that is gone has a destination
          | .ok none => (.ok (), e)
          | .error err => (.error (.ring err), e)

/-- **The scan**: the live keys that belong elsewhere. -/
def scan (m : KeyMigration) (now : Nat) (e : Engine σ) : Except RingError (List Str) × Engine σ :=
  let (keys, e) := e.iterKeys now e.store.data.keys
  (m.elsewhere keys, e)

end KeyMigration

/-! ## Which keys have a place -/

/-- What is hashed of a key has a strict UTF-8 form. -/
def Routable (key : Str) : Prop := isUtf8 (hashSlotKey key) = true

namespace KeyMigration

variable [Digest] {m : KeyMigration}

/-- A key that has a place has a destination, unless the ring is empty or the plan incomplete. -/
theorem destination_ne_encoding {key : Str} (h : Routable key) :
    m.destination key ≠ .error .encoding := by
  intro herror
  unfold destination at herror
  cases howner : m.ring.owner key with
  | error err =>
    simp only [howner, bind, Except.bind, Except.error.injEq] at herror
    subst herror
    have hnot := (ConsistentHashRing.owner_eq_encoding.mp howner).2
    rw [show isUtf8 (hashSlotKey key) = true from h] at hnot
    cases hnot
  | ok shard =>
    simp only [howner, bind, Except.bind] at herror
    split at herror
    · cases herror
    · split at herror <;> cases herror

/-- Keys that have a place are sorted out. -/
theorem elsewhere_ne_encoding {keys : List Str} (h : ∀ key ∈ keys, Routable key) :
    m.elsewhere keys ≠ .error .encoding := by
  induction keys with
  | nil => simp [elsewhere]
  | cons key keys ih =>
    have hkey : m.destination key ≠ .error .encoding :=
      destination_ne_encoding (h key mem_cons_self)
    have hkeys := ih fun k hk => h k (mem_cons_of_mem _ hk)
    unfold elsewhere
    cases hd : m.destination key with
    | error err =>
      rw [hd] at hkey
      simpa [bind, Except.bind] using hkey
    | ok destination =>
      cases hrest : m.elsewhere keys with
      | error err =>
        rw [hrest] at hkeys
        simpa [bind, Except.bind] using hkeys
      | ok rest => simp [bind, Except.bind]

variable {σ : Type} [EvictionPolicy σ]

/-- Keys that are gone are among those asked for. -/
theorem mem_of_gone {now : Nat} {keys rest : List Str} {e e' : Engine σ}
    (h : m.gone now keys e = (.ok rest, e')) : ∀ key ∈ rest, key ∈ keys := by
  induction keys generalizing e rest with
  | nil =>
    cases h
    simp
  | cons key keys ih =>
    unfold gone at h
    split at h
    · exact fun k hk => mem_cons_of_mem _ (ih h k hk)
    · split at h
      · cases h
      · exact fun k hk => mem_cons_of_mem _ (ih h k hk)
      · rename_i e₁ _ _ _ _
        cases hrest : m.gone now keys e₁ with
        | mk result e₂ =>
          cases result with
          | error err => simp [hrest, Except.map] at h
          | ok rest' =>
            simp only [hrest, Except.map, Prod.mk.injEq, Except.ok.injEq] at h
            obtain ⟨rfl, rfl⟩ := h
            intro k hk
            rcases mem_cons.mp hk with rfl | hk
            · exact mem_cons_self
            · exact mem_cons_of_mem _ (ih hrest k hk)

theorem gone_ne_encoding {now : Nat} {keys : List Str} (h : ∀ key ∈ keys, Routable key)
    (e : Engine σ) : (m.gone now keys e).1 ≠ .error .encoding := by
  induction keys generalizing e with
  | nil => simp [gone]
  | cons key keys ih =>
    have hkey : m.destination key ≠ .error .encoding :=
      destination_ne_encoding (h key mem_cons_self)
    have hkeys := ih fun k hk => h k (mem_cons_of_mem _ hk)
    unfold gone
    split
    · exact hkeys _
    · split
      · rename_i herror
        intro heq
        cases heq
        exact hkey herror
      · exact hkeys _
      · rename_i e' _ _ _ _
        cases hrest : (m.gone now keys e').1 with
        | error err =>
          have hne := hkeys e'
          rw [hrest] at hne
          simpa [hrest, Except.map] using hne
        | ok rest => simp [hrest, Except.map]

/-- A command on keys that have a place is checked. -/
theorem check_ne_encoding {now : Nat} {c : Option Command} {args : List Str}
    (h : ∀ c' ∈ c, ∀ key ∈ c'.keyArgs args, Routable key) (e : Engine σ) :
    (m.check now c args e).1 ≠ .error (.ring .encoding) := by
  unfold check
  cases c with
  | none => simp
  | some c =>
    have hkeys : ∀ key ∈ c.keyArgs args, Routable key := h c rfl
    have hgone : (m.gone now (c.keyArgs args) e).1 ≠ .error .encoding := gone_ne_encoding hkeys e
    simp only
    split
    · simp
    · split
      · rename_i err _ hresult
        rw [hresult] at hgone
        intro heq
        cases heq
        exact hgone rfl
      · simp
      · rename_i key rest _ hresult
        split
        · simp
        · have hdestination : m.destination key ≠ .error .encoding :=
            destination_ne_encoding (hkeys key (mem_of_gone hresult key mem_cons_self))
          split
          · simp
          · simp
          · rename_i err herror
            rw [herror] at hdestination
            intro heq
            cases heq
            exact hdestination rfl

/-- **A key can be routed and migrated exactly if what is hashed of it is UTF-8**: the router finds its
owner on every ring, a migration finds its destination, checks the commands on it and scans the keyspaces
that hold it, the other keys there being UTF-8 too. -/
theorem routable_iff (σ : Type) [EvictionPolicy σ] (key : Str) :
    ((∀ ring : ConsistentHashRing, ring.owner key ≠ .error .encoding) ∧
      (∀ m : KeyMigration, m.destination key ≠ .error .encoding) ∧
      (∀ (m : KeyMigration) (now : Nat) (c : Command) (args : List Str) (e : Engine σ),
        (∀ k ∈ c.keyArgs args, k = key ∨ Routable k) →
        (m.check now (some c) args e).1 ≠ .error (.ring .encoding)) ∧
      (∀ (m : KeyMigration) (now : Nat) (e : Engine σ),
        (∀ k ∈ (e.iterKeys now e.store.data.keys).1, k = key ∨ Routable k) →
        (m.scan now e).1 ≠ .error .encoding)) ↔ Routable key := by
  constructor
  · rintro ⟨howner, -⟩
    let ring : ConsistentHashRing :=
      ⟨1, fun _ => some [], [0], [[]], pairwise_singleton _ _, fun _ _ => rfl⟩
    by_contra hnot
    exact howner ring (ConsistentHashRing.owner_eq_encoding.mpr
      ⟨cons_ne_nil _ _, Bool.eq_false_of_not_eq_true hnot⟩)
  · intro hkey
    have hall : ∀ {keys : List Str}, (∀ k ∈ keys, k = key ∨ Routable k) →
        ∀ k ∈ keys, Routable k := by
      intro keys h k hk
      rcases h k hk with rfl | hk
      · exact hkey
      · exact hk
    refine ⟨fun ring herror => ?_, fun m => destination_ne_encoding hkey,
      fun m now c args e h => check_ne_encoding (fun c' hc' => ?_) e,
      fun m now e h => elsewhere_ne_encoding (hall h)⟩
    · have hnot := (ConsistentHashRing.owner_eq_encoding.mp herror).2
      rw [show isUtf8 (hashSlotKey key) = true from hkey] at hnot
      cases hnot
    · cases hc'
      exact hall h

end KeyMigration

/-- A key of one byte that is not UTF-8 has no owner on a ring of one group, whatever the digest. -/
theorem unroutable_byte : ¬ Routable [0xFF] ∧ ∀ digest : Digest, ∃ ring,
    @ConsistentHashRing.make digest [text "shard-1"] 1 = .ok ring ∧
      @ConsistentHashRing.owner digest ring [0xFF] = .error .encoding := by
  refine ⟨?_, fun digest => ⟨_, rfl, ?_⟩⟩
  · show ¬ isUtf8 (hashSlotKey [0xFF]) = true
    decide
  · rfl

end KvStore
