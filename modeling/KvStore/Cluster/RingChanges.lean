import KvStore.Cluster.Manager
import KvStore.Cluster.Migration
import KvStore.Foundation.Circle

/-! # Changing the ring

Groups come to a ring and leave it (`cluster/hash_ring.py`), and a ring is built anew from a configuration by
the router, and from a plan by the source of a migration.

* **`ConsistentHashRing.edit`** — `add_node` and `remove_node` with their checks; **`edits`** — a history of
  them, and **`build`** — the constructor, which is one.
* **`owner_eq_ok_iff`** — the owner of a key is that of the next point on the circle. So it depends only on
  the set of the points and their owners (`owner_congr`).
* **`addNode_effect`** — the points a node gets: those of its virtual nodes that are free.
* **`Placed`** — what holds after every history; **`Exact`** — what holds if no points collide: the points of
  the ring are those of its nodes.
* **`ring_moves_little`** — a change moves only what it must, and without collisions the owners depend on the
  set of the nodes. -/

namespace KvStore

open List

namespace ConsistentHashRing

/-! ## The functions -/

/-- **`remove_node`** of a node that is on the ring. -/
def removeNode (ring : ConsistentHashRing) (node : Str) : ConsistentHashRing where
  virtualNodes := ring.virtualNodes
  owners p := if ring.owners p = some node then none else ring.owners p
  points := ring.points.filter fun p => ring.owners p ≠ some node
  nodes := ring.nodes.filter (· ≠ node)
  sorted := ring.sorted.filter _
  owned := by
    intro p hp
    rw [mem_filter, decide_eq_true_eq] at hp
    rw [if_neg hp.2]
    exact ring.owned p hp.1

/-- A change of the ring. -/
inductive RingEdit
  | add (node : Str)
  | remove (node : Str)

/-- Why a ring is not changed, or not built. -/
inductive EditError
  /-- "node is already on the ring" -/
  | present
  /-- `KeyError`: the node is not on the ring. -/
  | absent
  /-- "virtual_nodes must be positive" -/
  | noPoints
  /-- A name has no strict UTF-8 form. -/
  | ring (err : RingError)

variable [Digest]

/-- **A change**, with its check. -/
def edit (ring : ConsistentHashRing) : RingEdit → Except EditError ConsistentHashRing
  | .add node => if node ∈ ring.nodes then .error .present else (ring.addNode node).mapError .ring
  | .remove node => if node ∈ ring.nodes then .ok (ring.removeNode node) else .error .absent

/-- **A history of changes.** -/
def edits (ring : ConsistentHashRing) (history : List RingEdit) : Except EditError ConsistentHashRing :=
  history.foldlM edit ring

/-- **`ConsistentHashRing(nodes, virtual_nodes=…)`** with its checks. -/
def build (nodes : List Str) (virtualNodes : Nat) : Except EditError ConsistentHashRing :=
  if virtualNodes = 0 then .error .noPoints else (empty virtualNodes).edits (nodes.map .add)

/-- The points of a node, before any collision. -/
def virtualPoints (virtualNodes : Nat) (node : Str) : Set Nat :=
  {p | ∃ i < virtualNodes, hash (node ++ 35 :: showNat i) = .ok p}

/-- The nodes that a history adds. -/
def added : List RingEdit → List Str
  | [] => []
  | .add node :: history => node :: added history
  | .remove _ :: history => added history

/-- **No two points collide**, unless they are of the same node. -/
def Apart (virtualNodes : Nat) (nodes : List Str) : Prop :=
  ∀ a ∈ nodes, ∀ b ∈ nodes, ∀ p ∈ virtualPoints virtualNodes a, p ∈ virtualPoints virtualNodes b → a = b

variable {ring ring' : ConsistentHashRing} {key node : Str} {p : Nat}

/-! ## Owners -/

variable {group : Str}

/-- **The owner of a key** is that of the next point on the circle. -/
theorem owner_eq_ok_iff  :
    ring.owner key = .ok group ↔ isUtf8 (hashSlotKey key) = true ∧
      ∃ p, Circle.IsNext {p | p ∈ ring.points} (Digest.digest (hashSlotKey key)) p ∧
        ring.owners p = some group := by
  unfold owner getNode hash encodeStrict
  cases hpoints : ring.points with
  | nil =>
    refine iff_of_false nofun ?_
    rintro ⟨-, p, hp, -⟩
    cases hp.mem
  | cons first rest =>
    cases hutf8 : isUtf8 (hashSlotKey key) with
    | false => simp [Except.map, bind, Except.bind]
    | true =>
      have hnext := Circle.isNext_bisect (hpoints ▸ ring.sorted) (Digest.digest (hashSlotKey key))
      have hmem := hnext.mem
      rw [Set.mem_ofPred_eq, ← hpoints] at hmem
      obtain ⟨node, hnode⟩ := Option.isSome_iff_exists.mp (ring.owned _ hmem)
      rw [hpoints] at hnode
      change Except.ok ((ring.owners _).getD []) = Except.ok group ↔ _
      rw [bisect, hnode, Option.getD_some, Except.ok.injEq]
      constructor
      · rintro rfl
        exact ⟨rfl, _, hnext, hnode⟩
      · rintro ⟨-, p, hp, hgroup⟩
        rw [hp.unique hnext, hnode] at hgroup
        exact Option.some.inj hgroup

/-- A ring without points has no owners. -/
theorem owner_eq_noNodes : ring.owner key = .error .noNodes ↔ ring.points = [] := by
  unfold owner getNode hash encodeStrict
  cases hpoints : ring.points with
  | nil => simp
  | cons first rest =>
    cases hutf8 : isUtf8 (hashSlotKey key) <;> simp [Except.map, bind, Except.bind]

/-- **The owners depend on the set of the points and on whose they are.** -/
theorem owner_congr (hpoints : ∀ p, p ∈ ring'.points ↔ p ∈ ring.points)
    (howners : ∀ p ∈ ring.points, ring'.owners p = ring.owners p) : ring'.owner key = ring.owner key := by
  have hset : {p | p ∈ ring'.points} = {p | p ∈ ring.points} := Set.ext hpoints
  have hnil : ring'.points = [] ↔ ring.points = [] := by
    simp only [eq_nil_iff_forall_not_mem, hpoints]
  cases howner : ring.owner key with
  | ok group =>
    obtain ⟨hutf8, p, hnext, hgroup⟩ := owner_eq_ok_iff.mp howner
    refine owner_eq_ok_iff.mpr ⟨hutf8, p, hset ▸ hnext, ?_⟩
    rw [howners p hnext.mem, hgroup]
  | error err =>
    cases err with
    | noNodes => rw [owner_eq_noNodes, hnil, ← owner_eq_noNodes, howner]
    | encoding => rw [owner_eq_encoding, ne_eq, hnil, ← ne_eq, ← owner_eq_encoding, howner]
    | unknownGroup =>
      -- no ring raises this
      unfold owner getNode hash encodeStrict at howner
      split at howner
      · cases howner
      · split at howner <;> cases howner

/-! ## Adding a node -/

/-- What a ring became by some points of a node. -/
structure Extends (ring ring' : ConsistentHashRing) (node : Str) (new : Set Nat) : Prop where
  /-- Every point keeps its owner, and the free ones of the new points are the node's. -/
  owners : ∀ p n, ring'.owners p = some n ↔
    ring.owners p = some n ∨ (ring.owners p = none ∧ p ∈ new ∧ n = node)
  /-- The points are those of before and the new ones that were free. -/
  points : ∀ p, p ∈ ring'.points ↔ p ∈ ring.points ∨ (ring.owners p = none ∧ p ∈ new)
  nodes : ring'.nodes = ring.nodes
  /-- So does the number of virtual nodes. -/
  virtualNodes : ring'.virtualNodes = ring.virtualNodes

omit [Digest] in
theorem extends_addPoint (node : Str) (point : Nat) :
    Extends ring (ring.addPoint node point) node {point} := by
  unfold addPoint
  split
  case isTrue htaken =>
    obtain ⟨owner, howner⟩ := Option.isSome_iff_exists.mp htaken
    have hfree : ∀ p, ¬ (ring.owners p = none ∧ p ∈ ({point} : Set Nat)) := by
      rintro p ⟨hnone, rfl⟩
      rw [howner] at hnone
      cases hnone
    refine ⟨fun p n => ?_, fun p => ?_, rfl, rfl⟩
    · rw [← and_assoc, or_iff_left (fun h => hfree p h.1)]
    · rw [or_iff_left (hfree p)]
  case isFalse hfree =>
    have hnone : ring.owners point = none := by simpa using hfree
    refine ⟨fun p n => ?_, fun p => ?_, rfl, rfl⟩
    · by_cases hp : p = point
      · subst hp
        simp [hnone, eq_comm]
      · simp [hp]
    · show p ∈ ring.points.orderedInsert (· ≤ ·) point ↔ _
      rw [mem_orderedInsert]
      by_cases hp : p = point
      · simp [hp, hnone]
      · simp [hp]

omit [Digest] in
theorem Extends.trans {ring₁ ring₂ : ConsistentHashRing} {new new' : Set Nat}
    (h : Extends ring ring₁ node new) (h' : Extends ring₁ ring₂ node new') :
    Extends ring ring₂ node (new ∪ new') := by
  have hnone : ∀ p, ring₁.owners p = none ↔ ring.owners p = none ∧ p ∉ new := by
    intro p
    rw [Option.eq_none_iff_forall_not_mem, Option.eq_none_iff_forall_not_mem]
    simp only [Option.mem_def, h.owners]
    constructor
    · intro hall
      have hfree : ∀ n, ring.owners p ≠ some n := fun n hn => hall n (.inl hn)
      refine ⟨hfree, fun hp => hall node (.inr ⟨Option.eq_none_iff_forall_ne_some.mpr hfree, hp, rfl⟩)⟩
    · rintro ⟨hfree, hp⟩ n (hn | ⟨-, hmem, -⟩)
      · exact hfree n hn
      · exact hp hmem
  refine ⟨fun p n => ?_, fun p => ?_, h'.nodes.trans h.nodes, h'.virtualNodes.trans h.virtualNodes⟩
  · rw [h'.owners, h.owners, hnone, Set.mem_union]
    tauto
  · rw [h'.points, h.points, hnone, Set.mem_union]
    tauto

/-- The loop over the points of a node. -/
theorem extends_addPoints {n i : Nat} (h : addPoints node n i ring = .ok ring') :
    Extends ring ring' node {p | ∃ j, i ≤ j ∧ j < i + n ∧ hash (node ++ 35 :: showNat j) = .ok p} := by
  induction n generalizing i ring with
  | zero =>
    cases h
    have hnone : ∀ p, p ∉ {p | ∃ j, i ≤ j ∧ j < i + 0 ∧ hash (node ++ 35 :: showNat j) = .ok p} := by
      rintro p ⟨j, hle, hlt, -⟩
      omega
    refine ⟨fun p m => ?_, fun p => ?_, rfl, rfl⟩
    · rw [or_iff_left fun h => hnone p h.2.1]
    · rw [or_iff_left fun h => hnone p h.2]
  | succ n ih =>
    unfold addPoints at h
    cases hhash : hash (node ++ 35 :: showNat i) with
    | error err => simp [hhash, bind, Except.bind] at h
    | ok point =>
      simp only [hhash, bind, Except.bind] at h
      have hfirst : Extends ring (ring.addPoint node point) node {point} := extends_addPoint node point
      have htrans := hfirst.trans (ih h)
      convert htrans using 1
      ext p
      simp only [Set.mem_ofPred_eq, Set.mem_union, Set.mem_singleton_iff]
      constructor
      · rintro ⟨j, hle, hlt, hj⟩
        rcases hle.eq_or_lt with rfl | hlt'
        · rw [hhash] at hj
          exact .inl (Except.ok.inj hj).symm
        · exact .inr ⟨j, by omega, by omega, hj⟩
      · rintro (rfl | ⟨j, hle, hlt, hj⟩)
        · exact ⟨i, le_rfl, by omega, hhash⟩
        · exact ⟨j, by omega, by omega, hj⟩

/-- **The effect of adding a node**: its points are the free ones among its virtual nodes. -/
theorem addNode_effect (h : ring.addNode node = .ok ring') :
    Extends { ring with nodes := ring.nodes ++ [node] } ring' node
      (virtualPoints ring.virtualNodes node) := by
  have hext := extends_addPoints h
  convert hext using 1
  ext p
  simp [virtualPoints]

/-- **After a node is added, an owner is the one before or the node.** -/
theorem owner_addNode (h : ring.addNode node = .ok ring') (howner : ring'.owner key = .ok group) :
    ring.owner key = .ok group ∨ group = node := by
  have hext := addNode_effect h
  obtain ⟨hutf8, p, hnext, hgroup⟩ := owner_eq_ok_iff.mp howner
  rcases (hext.owners p group).mp hgroup with hold | ⟨-, -, rfl⟩
  · -- the next point was there before, so it was the next
    refine .inl (owner_eq_ok_iff.mpr ⟨hutf8, p, hnext.mono ?_ ?_, hold⟩)
    · exact fun q hq => (hext.points q).mpr (.inl hq)
    · refine ((hext.points p).mp hnext.mem).resolve_right fun hfree => ?_
      rw [hold] at hfree
      cases hfree.1
  · exact .inr rfl

/-- A key that has an owner keeps having one. -/
theorem owner_addNode_isOk (h : ring.addNode node = .ok ring') (howner : ring.owner key = .ok group) :
    ∃ group', ring'.owner key = .ok group' := by
  obtain ⟨hutf8, p, hnext, -⟩ := owner_eq_ok_iff.mp howner
  have hne : ring'.points ≠ [] :=
    ne_nil_of_mem (((addNode_effect h).points p).mpr (.inl hnext.mem))
  exact owner_isOk hne hutf8

/-! ## Removing a node -/

/-- **After a node is removed, a key that was not the node's keeps its owner.** -/
theorem owner_removeNode (howner : ring.owner key = .ok group) (hgroup : group ≠ node) :
    (ring.removeNode node).owner key = .ok group := by
  obtain ⟨hutf8, p, hnext, hp⟩ := owner_eq_ok_iff.mp howner
  have hkept : ring.owners p ≠ some node := by
    rw [hp]
    exact fun heq => hgroup (Option.some.inj heq)
  refine owner_eq_ok_iff.mpr ⟨hutf8, p, hnext.mono ?_ ?_, ?_⟩
  · exact fun q hq => mem_of_mem_filter hq
  · exact mem_filter.mpr ⟨hnext.mem, decide_eq_true hkept⟩
  · exact (if_neg hkept).trans hp

/-! ## Histories -/

/-- **What holds after every history.** -/
structure Placed (ring : ConsistentHashRing) : Prop where
  point : ∀ p n, ring.owners p = some n → p ∈ ring.points
  node : ∀ p n, ring.owners p = some n → n ∈ ring.nodes

/-- **The points are those of the nodes**: nothing was skipped. -/
def Exact (ring : ConsistentHashRing) : Prop :=
  ∀ p n, ring.owners p = some n ↔ n ∈ ring.nodes ∧ p ∈ virtualPoints ring.virtualNodes n

omit [Digest] in
theorem placed_empty (virtualNodes : Nat) : (empty virtualNodes).Placed := ⟨nofun, nofun⟩

theorem exact_empty (virtualNodes : Nat) : (empty virtualNodes).Exact :=
  fun _ _ => iff_of_false nofun fun h => nomatch h.1

omit [Digest] in
theorem owners_removeNode (p : Nat) (n : Str) :
    (ring.removeNode node).owners p = some n ↔ ring.owners p = some n ∧ n ≠ node := by
  show (if ring.owners p = some node then none else ring.owners p) = some n ↔ _
  split
  case isTrue h =>
    rw [h]
    refine iff_of_false nofun fun ⟨heq, hne⟩ => hne (Option.some.inj heq).symm
  case isFalse h =>
    refine ⟨fun hn => ⟨hn, fun heq => h (heq ▸ hn)⟩, And.left⟩

theorem edit_add_eq_ok : ring.edit (.add node) = .ok ring' ↔
    node ∉ ring.nodes ∧ ring.addNode node = .ok ring' := by
  show (if node ∈ ring.nodes then _ else _) = _ ↔ _
  split
  case isTrue hmem => exact iff_of_false nofun fun h => h.1 hmem
  case isFalse hmem =>
    cases hadd : ring.addNode node with
    | error err => exact iff_of_false nofun fun h => nomatch h.2
    | ok ring₁ =>
      show Except.ok ring₁ = Except.ok ring' ↔ _
      simp [hmem]

theorem edit_remove_eq_ok : ring.edit (.remove node) = .ok ring' ↔
    node ∈ ring.nodes ∧ ring' = ring.removeNode node := by
  show (if node ∈ ring.nodes then _ else _) = _ ↔ _
  split
  case isTrue hmem => simp [hmem, eq_comm]
  case isFalse hmem => exact iff_of_false nofun fun h => hmem h.1

variable {e : RingEdit}

/-- A change keeps the points owned by nodes. -/
theorem Placed.edit (h : ring.Placed) (he : ring.edit e = .ok ring') : ring'.Placed := by
  cases e with
  | add node =>
    have hext := addNode_effect (edit_add_eq_ok.mp he).2
    refine ⟨fun p n hp => ?_, fun p n hp => ?_⟩
    · rcases (hext.owners p n).mp hp with hold | ⟨hfree, hnew, -⟩
      · exact (hext.points p).mpr (.inl (h.point p n hold))
      · exact (hext.points p).mpr (.inr ⟨hfree, hnew⟩)
    · rw [hext.nodes]
      rcases (hext.owners p n).mp hp with hold | ⟨-, -, rfl⟩
      · exact mem_append_left _ (h.node p n hold)
      · exact mem_append_right _ mem_cons_self
  | remove node =>
    obtain ⟨-, rfl⟩ := edit_remove_eq_ok.mp he
    refine ⟨fun p n hp => ?_, fun p n hp => ?_⟩
    · obtain ⟨hold, hne⟩ := (owners_removeNode p n).mp hp
      refine mem_filter.mpr ⟨h.point p n hold, decide_eq_true ?_⟩
      rw [hold]
      exact fun heq => hne (Option.some.inj heq)
    · obtain ⟨hold, hne⟩ := (owners_removeNode p n).mp hp
      exact mem_filter.mpr ⟨h.node p n hold, decide_eq_true hne⟩

/-- The nodes after a change are those before and the one that is added. -/
theorem mem_nodes_edit (he : ring.edit e = .ok ring') {n : Str} (hn : n ∈ ring'.nodes) :
    n ∈ ring.nodes ∨ n ∈ added [e] := by
  cases e with
  | add node =>
    rw [(addNode_effect (edit_add_eq_ok.mp he).2).nodes] at hn
    exact mem_append.mp hn
  | remove node =>
    obtain ⟨-, rfl⟩ := edit_remove_eq_ok.mp he
    exact .inl (mem_of_mem_filter hn)

/-- A change keeps the number of virtual nodes. -/
theorem virtualNodes_edit (he : ring.edit e = .ok ring') :
    ring'.virtualNodes = ring.virtualNodes := by
  cases e with
  | add node => exact (addNode_effect (edit_add_eq_ok.mp he).2).virtualNodes
  | remove node =>
    obtain ⟨-, rfl⟩ := edit_remove_eq_ok.mp he
    rfl

/-- **Without collisions a change keeps the points exact.** -/
theorem Exact.edit {all : List Str} (h : ring.Exact) (hapart : Apart ring.virtualNodes all)
    (hold : ∀ n ∈ ring.nodes, n ∈ all) (hnew : ∀ n ∈ added [e], n ∈ all)
    (he : ring.edit e = .ok ring') : ring'.Exact := by
  intro p n
  rw [virtualNodes_edit he]
  cases e with
  | add node =>
    obtain ⟨hmem, hadd⟩ := edit_add_eq_ok.mp he
    have hext := addNode_effect hadd
    rw [hext.owners, hext.nodes, mem_append, mem_singleton]
    show ring.owners p = some n ∨ (ring.owners p = none ∧ _ ∧ _) ↔ _
    constructor
    · rintro (hp | ⟨-, hp, rfl⟩)
      · exact ⟨.inl ((h p n).mp hp).1, ((h p n).mp hp).2⟩
      · exact ⟨.inr rfl, hp⟩
    · rintro ⟨hn | rfl, hp⟩
      · exact .inl ((h p n).mpr ⟨hn, hp⟩)
      · -- the point is free: its owner would be another node
        refine .inr ⟨Option.eq_none_iff_forall_ne_some.mpr fun m hm => ?_, hp, rfl⟩
        obtain ⟨hmem', hpoint⟩ := (h p m).mp hm
        have heq := hapart m (hold m hmem') n (hnew n mem_cons_self) p hpoint hp
        exact hmem (heq ▸ hmem')
  | remove node =>
    obtain ⟨-, rfl⟩ := edit_remove_eq_ok.mp he
    rw [owners_removeNode, h]
    show _ ↔ n ∈ ring.nodes.filter (· ≠ node) ∧ _
    rw [mem_filter, decide_eq_true_eq]
    tauto

omit [Digest] in
/-- What a history added, in two parts. -/
theorem added_cons (e : RingEdit) (history : List RingEdit) : added (e :: history) = added [e] ++ added history := by
  cases e <;> rfl

variable {history : List RingEdit}

theorem edits_cons (h : ring.edits (e :: history) = .ok ring') :
    ∃ ring₁, ring.edit e = .ok ring₁ ∧ ring₁.edits history = .ok ring' := by
  cases he : ring.edit e with
  | error err => simp [edits, he, bind, Except.bind] at h
  | ok ring₁ =>
    refine ⟨ring₁, rfl, ?_⟩
    simpa only [edits, foldlM_cons, he, bind, Except.bind] using h

/-- **After every history** points are owned by nodes. -/
theorem Placed.edits (h : ring.Placed) (hrun : ring.edits history = .ok ring') : ring'.Placed := by
  induction history generalizing ring with
  | nil =>
    cases hrun
    exact h
  | cons e history ih =>
    obtain ⟨ring₁, he, hrest⟩ := edits_cons hrun
    exact ih (h.edit he) hrest

theorem virtualNodes_edits (hrun : ring.edits history = .ok ring') :
    ring'.virtualNodes = ring.virtualNodes := by
  induction history generalizing ring with
  | nil =>
    cases hrun
    rfl
  | cons e history ih =>
    obtain ⟨ring₁, he, hrest⟩ := edits_cons hrun
    exact (ih hrest).trans (virtualNodes_edit he)

/-- **After every history without collisions** the points are exact. -/
theorem Exact.edits {all : List Str} (h : ring.Exact) (hapart : Apart ring.virtualNodes all)
    (hold : ∀ n ∈ ring.nodes, n ∈ all) (hnew : ∀ n ∈ added history, n ∈ all)
    (hrun : ring.edits history = .ok ring') : ring'.Exact := by
  induction history generalizing ring with
  | nil =>
    cases hrun
    exact h
  | cons e history ih =>
    obtain ⟨ring₁, he, hrest⟩ := edits_cons hrun
    rw [added_cons] at hnew
    have hfirst : ∀ n ∈ added [e], n ∈ all := fun n hn => hnew n (mem_append_left _ hn)
    refine ih (h.edit hapart hold hfirst he) (by rwa [virtualNodes_edit he]) (fun n hn => ?_)
      (fun n hn => hnew n (mem_append_right _ hn)) hrest
    exact (mem_nodes_edit he hn).elim (hold n) (hfirst n)

/-- Exact rings of the same nodes have the same owners. -/
theorem Exact.owner_eq (h : ring.Exact) (hplaced : ring.Placed) (h' : ring'.Exact) (hplaced' : ring'.Placed)
    (hnumber : ring'.virtualNodes = ring.virtualNodes) (hnodes : ∀ n, n ∈ ring'.nodes ↔ n ∈ ring.nodes) :
    ring'.owner key = ring.owner key := by
  have howners : ∀ p, ring'.owners p = ring.owners p := by
    intro p
    refine Option.ext fun n => ?_
    rw [h', h, hnumber, hnodes]
  have hiff : ∀ (r : ConsistentHashRing), r.Placed → ∀ p, p ∈ r.points ↔ (r.owners p).isSome := by
    intro r hr p
    refine ⟨r.owned p, fun hsome => ?_⟩
    obtain ⟨n, hn⟩ := Option.isSome_iff_exists.mp hsome
    exact hr.point p n hn
  refine owner_congr (fun p => ?_) fun p _ => howners p
  rw [hiff _ hplaced', hiff _ hplaced, howners]

/-- **The owners depend on the set of the nodes**, if no points collide in either history. -/
theorem owner_eq_of_nodes {virtualNodes : Nat} {history' : List RingEdit}
    (hrun : (empty virtualNodes).edits history = .ok ring)
    (hrun' : (empty virtualNodes).edits history' = .ok ring')
    (hapart : Apart virtualNodes (added history)) (hapart' : Apart virtualNodes (added history'))
    (hnodes : ∀ n, n ∈ ring'.nodes ↔ n ∈ ring.nodes) : ring'.owner key = ring.owner key := by
  have hexact : ∀ {history : List RingEdit} {r : ConsistentHashRing},
      (empty virtualNodes).edits history = .ok r → Apart virtualNodes (added history) → r.Exact :=
    fun hrun hapart => (exact_empty virtualNodes).edits hapart nofun (fun _ hn => hn) hrun
  exact (hexact hrun hapart).owner_eq ((placed_empty virtualNodes).edits hrun) (hexact hrun' hapart')
    ((placed_empty virtualNodes).edits hrun')
    ((virtualNodes_edits hrun').trans (virtualNodes_edits hrun).symm) hnodes

/-- **Adding a node and removing it again restores every owner.** -/
theorem owner_add_remove (hplaced : ring.Placed) (hmem : node ∉ ring.nodes)
    (hadd : ring.addNode node = .ok ring') : (ring'.removeNode node).owner key = ring.owner key := by
  have hext := addNode_effect hadd
  -- no point was the node's before
  have hforeign : ∀ p, ring.owners p ≠ some node := fun p hp => hmem (hplaced.node p node hp)
  have howners : ∀ p n, (ring'.removeNode node).owners p = some n ↔ ring.owners p = some n := by
    intro p n
    rw [owners_removeNode, hext.owners]
    constructor
    · rintro ⟨hold | ⟨-, -, rfl⟩, hne⟩
      · exact hold
      · exact absurd rfl hne
    · intro hold
      exact ⟨.inl hold, fun heq => hforeign p (heq ▸ hold)⟩
  refine owner_congr (fun p => ?_) fun p _ => Option.ext (howners p)
  show p ∈ ring'.points.filter (fun p => ring'.owners p ≠ some node) ↔ _
  rw [mem_filter, decide_eq_true_eq, hext.points]
  constructor
  · rintro ⟨hold | ⟨hfree, hnew⟩, hkept⟩
    · exact hold
    · exact absurd ((hext.owners p node).mpr (.inr ⟨hfree, hnew, rfl⟩)) hkept
  · intro hold
    obtain ⟨n, hn⟩ := Option.isSome_iff_exists.mp (ring.owned p hold)
    refine ⟨.inl hold, ?_⟩
    rw [(hext.owners p n).mpr (.inl hn)]
    exact fun heq => hforeign p (Option.some.inj heq ▸ hn)

end ConsistentHashRing

/-! ## The rings of a migration -/

open ConsistentHashRing

/-- **`to_args`**, as it goes over the wire. -/
def MigrationPlan.toArgs (plan : MigrationPlan) : List Str :=
  plan.shard :: showNat plan.virtualNodes ::
    plan.targets.flatMap fun (id, address) => [id, address.show]

/-- **A plan as a node reads it**: addresses are left as texts. -/
structure ReceivedPlan where
  shard : Str
  virtualNodes : Int
  targets : Dict Str Str

namespace ReceivedPlan

/-- The dictionary of the pairs: a later one replaces an earlier one. -/
def readTargets : List Str → Dict Str Str → Dict Str Str
  | id :: address :: rest, targets => readTargets rest (targets.set id address)
  | _, targets => targets

def fromArgs (args : List Str) : Option ReceivedPlan :=
  if args.length < 4 ∨ args.length % 2 ≠ 0 then none
  else
    match args with
    | shard :: virtualNodes :: rest =>
      (int virtualNodes).map fun n => ⟨shard, n, readTargets rest .empty⟩
    | _ => none

def ring [Digest] (plan : ReceivedPlan) : Except EditError ConsistentHashRing :=
  if plan.virtualNodes ≤ 0 then .error .noPoints
  else build plan.targets.keys plan.virtualNodes.toNat

theorem mem_keys_readTargets (pairs : List (Str × Address)) (targets : Dict Str Str) (id : Str) :
    id ∈ (readTargets (pairs.flatMap fun (id, address) => [id, address.show]) targets).keys ↔
      id ∈ targets.keys ∨ id ∈ pairs.map Prod.fst := by
  induction pairs generalizing targets with
  | nil => simp [readTargets]
  | cons pair pairs ih =>
    obtain ⟨id', address⟩ := pair
    rw [flatMap_cons]
    show id ∈ (readTargets (pairs.flatMap _) (targets.set id' address.show)).keys ↔ _
    have hset : id ∈ (targets.set id' address.show).keys ↔ id ∈ targets.keys ∨ id = id' := by
      simp only [Dict.mem_keys_iff, Dict.get?_set]
      by_cases hid : id = id'
      · simp [hid]
      · simp [hid]
    rw [ih, hset, map_cons, mem_cons, or_assoc]

/-- What is read of the arguments of a plan. -/
theorem fromArgs_toArgs (plan : MigrationPlan) (htargets : plan.targets ≠ []) :
    fromArgs plan.toArgs = (int (showNat plan.virtualNodes)).map fun n =>
      ⟨plan.shard, n, readTargets (plan.targets.flatMap fun (id, address) => [id, address.show]) .empty⟩ := by
  have hlength : (plan.targets.flatMap fun (id, address) => [id, address.show]).length =
      2 * plan.targets.length := by
    rw [length_flatMap]
    induction plan.targets with
    | nil => rfl
    | cons pair pairs ih =>
      simp
      omega
  have hpos := length_pos_iff.mpr htargets
  unfold fromArgs
  rw [if_neg]
  · rfl
  · simp only [MigrationPlan.toArgs, length_cons, hlength]
    omega

/-- **A plan that was sent is read**: the same number, the same groups. -/
theorem eq_of_fromArgs {plan : MigrationPlan} {received : ReceivedPlan}
    (h : fromArgs plan.toArgs = some received) :
    received.virtualNodes = plan.virtualNodes ∧
      ∀ id, id ∈ received.targets.keys ↔ id ∈ plan.targets.map Prod.fst := by
  have htargets : plan.targets ≠ [] := by
    intro hnil
    simp [fromArgs, MigrationPlan.toArgs, hnil] at h
  rw [fromArgs_toArgs plan htargets] at h
  have hshow : showNat plan.virtualNodes = showInt plan.virtualNodes := by
    rw [showInt, if_neg (by omega), Int.natAbs_natCast]
  rcases int_showInt_or plan.virtualNodes with hint | ⟨hint, -⟩
  · rw [hshow, hint] at h
    cases h
    refine ⟨rfl, fun id => ?_⟩
    rw [mem_keys_readTargets]
    exact or_iff_right nofun
  · rw [hshow, hint] at h
    cases h

end ReceivedPlan

namespace ClusterConfig

variable [Digest]

/-- **`ring`**: what the router places keys by. -/
def ring (c : ClusterConfig) : Except EditError ConsistentHashRing := build c.ringIds c.virtualNodes

def targetRing (c : ClusterConfig) : Option (Except EditError ConsistentHashRing) :=
  c.rebalance.map fun target => build target c.virtualNodes

end ClusterConfig

namespace ConsistentHashRing

variable [Digest] {ring ring' : ConsistentHashRing} {key : Str}

omit [Digest] in
theorem added_map_add (nodes : List Str) : added (nodes.map .add) = nodes := by
  induction nodes with
  | nil => rfl
  | cons node nodes ih => exact congrArg (node :: ·) ih

theorem nodes_edits_add {nodes : List Str} (h : ring.edits (nodes.map .add) = .ok ring') :
    ring'.nodes = ring.nodes ++ nodes := by
  induction nodes generalizing ring with
  | nil =>
    cases h
    exact (append_nil _).symm
  | cons node nodes ih =>
    obtain ⟨ring₁, he, hrest⟩ := edits_cons h
    rw [ih hrest, (addNode_effect (edit_add_eq_ok.mp he).2).nodes, append_assoc]
    rfl

/-- **A constructor** is a history of additions, of just these nodes. -/
theorem edits_of_build {nodes : List Str} {virtualNodes : Nat} (h : build nodes virtualNodes = .ok ring) :
    (empty virtualNodes).edits (nodes.map .add) = .ok ring ∧ ring.nodes = nodes := by
  unfold build at h
  split at h
  · cases h
  · exact ⟨h, nodes_edits_add h⟩

/-- **Rings built of the same groups have the same owners**, in whatever order they were given. -/
theorem owner_build {nodes nodes' : List Str} {virtualNodes : Nat}
    (h : build nodes virtualNodes = .ok ring) (h' : build nodes' virtualNodes = .ok ring')
    (hsame : ∀ id, id ∈ nodes' ↔ id ∈ nodes) (hapart : Apart virtualNodes nodes) :
    ring'.owner key = ring.owner key := by
  obtain ⟨hrun, hnodes⟩ := edits_of_build h
  obtain ⟨hrun', hnodes'⟩ := edits_of_build h'
  refine owner_eq_of_nodes hrun hrun' ?_ ?_ (fun id => ?_)
  · rwa [added_map_add]
  · rw [added_map_add]
    exact fun a ha b hb => hapart a ((hsame a).mp ha) b ((hsame b).mp hb)
  · rw [hnodes, hnodes', hsame]

end ConsistentHashRing

/-! ## What a change moves -/

/-- **The groups of a plan** are those of the target it was made for. -/
theorem map_fst_targetsOf {c : ClusterConfig} {target : List Str} {targets : List (Str × Address)}
    (h : Cluster.Manager.targetsOf c target = some targets) : targets.map Prod.fst = target := by
  induction target generalizing targets with
  | nil =>
    cases h
    rfl
  | cons id target ih =>
    rw [Cluster.Manager.targetsOf, mapM_cons] at h
    obtain ⟨pair, hpair, h⟩ := Option.bind_eq_some_iff.mp h
    obtain ⟨rest, hrest, h⟩ := Option.bind_eq_some_iff.mp h
    obtain ⟨group, -, rfl⟩ := Option.map_eq_some_iff.mp hpair
    cases h
    exact congrArg (id :: ·) (ih hrest)

/-- **A change of the ring moves only what it must.** Take any ring that additions and removals lead to, and any
key. After a node is added, the owner is the old one or the node, and removing the node restores it. After a
node is removed, a key that was not the node's keeps its owner. If the virtual nodes of different nodes do not
collide, two rings of the same nodes have the same owners, whatever their histories; so the ring that a
source builds from the plan it was sent places keys like the ring of the target, and like the ring that the
router builds once the target is in force. -/
theorem ring_moves_little [Digest] (virtualNodes : Nat) (history : List RingEdit) (ring : ConsistentHashRing)
    (hring : (ConsistentHashRing.empty virtualNodes).edits history = .ok ring) (key : Str) :
    (∀ node ring', ring.edit (.add node) = .ok ring' →
      (∀ group, ring'.owner key = .ok group → ring.owner key = .ok group ∨ group = node) ∧
      (∀ group, ring.owner key = .ok group →
        ring'.owner key = .ok group ∨ ring'.owner key = .ok node) ∧
      ∃ ring'', ring'.edit (.remove node) = .ok ring'' ∧ ring''.owner key = ring.owner key) ∧
    (∀ node ring' group, ring.edit (.remove node) = .ok ring' →
      ring.owner key = .ok group → group ≠ node → ring'.owner key = .ok group) ∧
    (∀ history' ring', (ConsistentHashRing.empty virtualNodes).edits history' = .ok ring' →
      Apart virtualNodes (added history) → Apart virtualNodes (added history') →
      (∀ node, node ∈ ring'.nodes ↔ node ∈ ring.nodes) → ring'.owner key = ring.owner key) ∧
    (∀ (c c' : ClusterConfig) target targets shard received source router,
      c.rebalance = some target → Cluster.Manager.targetsOf c target = some targets →
      ReceivedPlan.fromArgs (MigrationPlan.toArgs ⟨shard, c.virtualNodes, targets⟩) = some received →
      received.ring = .ok source → Apart c.virtualNodes target →
      (c.targetRing = some (.ok router) ∨ (c'.virtualNodes = c.virtualNodes ∧
        (∀ id, id ∈ c'.ringIds ↔ id ∈ target) ∧ c'.ring = .ok router)) →
      source.owner key = router.owner key) := by
  refine ⟨fun node ring' hadd => ?_, fun node ring' group hremove howner hgroup => ?_,
    fun history' ring' hrun' hapart hapart' hnodes => ?_,
    fun c c' target targets shard received source router hrebalance htargets hread hsource hapart
      hrouter => ?_⟩
  · obtain ⟨hmem, hadd⟩ := edit_add_eq_ok.mp hadd
    refine ⟨fun group howner => owner_addNode hadd howner, fun group howner => ?_, ?_⟩
    · obtain ⟨group', hgroup'⟩ := owner_addNode_isOk hadd howner
      rcases owner_addNode hadd hgroup' with hold | rfl
      · exact .inl (hgroup'.trans (hold.symm.trans howner))
      · exact .inr hgroup'
    · refine ⟨_, edit_remove_eq_ok.mpr ⟨?_, rfl⟩, ?_⟩
      · rw [(addNode_effect hadd).nodes]
        exact mem_append_right _ mem_cons_self
      · exact owner_add_remove ((placed_empty virtualNodes).edits hring) hmem hadd
  · obtain ⟨-, rfl⟩ := edit_remove_eq_ok.mp hremove
    exact owner_removeNode howner hgroup
  · exact owner_eq_of_nodes hring hrun' hapart hapart' hnodes
  · obtain ⟨hnumber, hids⟩ := ReceivedPlan.eq_of_fromArgs hread
    rw [map_fst_targetsOf htargets] at hids
    have hbuild : build received.targets.keys c.virtualNodes = .ok source := by
      unfold ReceivedPlan.ring at hsource
      split at hsource
      · cases hsource
      · rwa [hnumber, Int.toNat_natCast] at hsource
    obtain ⟨ids, hrouter, hsame⟩ : ∃ ids, build ids c.virtualNodes = .ok router ∧
        ∀ id, id ∈ ids ↔ id ∈ target := by
      rcases hrouter with htarget | ⟨hnumber', hsame, hbuild'⟩
      · rw [ClusterConfig.targetRing, hrebalance] at htarget
        exact ⟨target, Option.some.inj htarget, fun _ => Iff.rfl⟩
      · exact ⟨c'.ringIds, hnumber' ▸ hbuild', hsame⟩
    refine owner_build hrouter hbuild (fun id => (hids id).trans (hsame id).symm) ?_
    exact fun a ha b hb => hapart a ((hsame a).mp ha) b ((hsame b).mp hb)

/-- The points of the groups in the example are apart. -/
theorem apart_sample : @Apart Digest.sample 1 [text "1", text "2", text "3"] := by
  let := Digest.sample
  rintro a ha b hb p ⟨i, hi, hp⟩ ⟨j, hj, hp'⟩
  obtain ⟨rfl, rfl⟩ : i = 0 ∧ j = 0 := by omega
  have hsame := hp.trans hp'.symm
  simp only [mem_cons, not_mem_nil, or_false] at ha hb
  rcases ha with rfl | rfl | rfl <;> rcases hb with rfl | rfl | rfl <;>
    first
    | rfl
    | exact absurd hsame (by decide)

/-- **A third group** takes a key over, and gives it back to its owner. The owner stays the same when the other
group is removed, is the same on a ring with another history, and the one by which the source of a migration
places the key is the one of the router. -/
theorem ring_moves_little_third :
    letI := Digest.sample
    let key := text "a"
    ∃ ring ring', (ConsistentHashRing.empty 1).edits [.add (text "1"), .add (text "2")] = .ok ring ∧
      ring.edit (.add (text "3")) = .ok ring' ∧ ring.owner key = .ok (text "2") ∧
      ring'.owner key = .ok (text "3") ∧
      (∃ back, ring'.edit (.remove (text "3")) = .ok back ∧ back.owner key = .ok (text "2")) ∧
      (∃ rest, ring.edit (.remove (text "1")) = .ok rest ∧ rest.owner key = .ok (text "2")) ∧
      (∃ other, (ConsistentHashRing.empty 1).edits
          [.add (text "3"), .add (text "2"), .add (text "1"), .remove (text "3")] = .ok other ∧
        other.owner key = .ok (text "2")) ∧
      ∃ received source, ReceivedPlan.fromArgs (MigrationPlan.toArgs
          ⟨text "1", 1, [(text "1", localNode 1), (text "2", localNode 2)]⟩) = some received ∧
        received.ring = .ok source ∧ ClusterConfig.growing.targetRing = some (.ok ring) ∧
        source.owner key = ring.owner key := by
  let := Digest.sample
  intro key
  have hresult := ring_moves_little 1 [.add (text "1"), .add (text "2")] _ rfl key
  obtain ⟨hadd, hremove, hhistory, hplan⟩ := hresult
  obtain ⟨-, -, back, hback, howner⟩ := hadd (text "3") _ rfl
  have hapart : ∀ nodes : List Str, (∀ id ∈ nodes, id ∈ [text "1", text "2", text "3"]) → Apart 1 nodes :=
    fun nodes hsub a ha b hb => apart_sample a (hsub a ha) b (hsub b hb)
  refine ⟨_, _, rfl, rfl, rfl, rfl, ⟨back, hback, howner.trans rfl⟩, ⟨_, rfl, ?_⟩, ⟨_, rfl, ?_⟩, _, _, rfl, rfl,
    rfl, ?_⟩
  · exact hremove (text "1") _ (text "2") rfl rfl (by decide)
  · refine (hhistory [.add (text "3"), .add (text "2"), .add (text "1"), .remove (text "3")] _ rfl
      (hapart _ (by decide)) (hapart _ (by decide)) fun node => ?_).trans rfl
    show node ∈ [text "2", text "1"] ↔ node ∈ [text "1", text "2"]
    rw [mem_cons, mem_singleton, mem_cons, mem_singleton, or_comm]
  · exact hplan .growing .growing [text "1", text "2"] _ (text "1") _ _ _ rfl rfl rfl rfl
      (hapart _ (by decide)) (.inl rfl)

end KvStore
