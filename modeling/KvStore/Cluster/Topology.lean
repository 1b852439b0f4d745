import KvStore.Foundation.Text
import Mathlib.Data.List.Basic

/-! # The cluster configuration

A *shard group* has one primary and any number of replicas; the configuration lists the groups, the
ring that places keys on them, and the *epoch* that versions it. `ClusterConfig` carries the checks
of `__post_init__` as fields, so that an ill-formed configuration cannot be built; the functions that
make one (`ClusterConfig.make`, `withGroup`, `nextEpoch`) fail where the source raises `ValueError`.

* **`ClusterConfig.withGroup_promotion`** — replacing a group by itself with another member as its
  primary never fails. -/

namespace KvStore

open List

/-- A node's address, `host:port`. -/
structure Address where
  host : Str
  port : Nat
  deriving DecidableEq

/-- A node on this host. -/
def localNode (port : Nat) : Address := ⟨text "localhost", port⟩

structure ShardGroup where
  /-- The stable name that the ring places. -/
  id : Str
  /-- The member that takes the writes. -/
  primary : Address
  replicas : List Address
  deriving DecidableEq

namespace ShardGroup

/-- Every node of the group, the primary first. -/
def members (g : ShardGroup) : List Address := g.primary :: g.replicas

/-- The group with `winner` as its primary and everyone else as a replica. -/
def promote (g : ShardGroup) (winner : Address) : ShardGroup :=
  ⟨g.id, winner, g.members.filter (· ≠ winner)⟩

end ShardGroup

/-- Why a configuration is refused: the `ValueError`s of `__post_init__`. -/
inductive ConfigError
  /-- "a cluster needs at least one shard group" -/
  | noGroups
  /-- "shard group ids must be unique" -/
  | duplicateIds
  /-- "a node can belong to only one shard group, once" -/
  | sharedNode
  /-- "ring references unknown shard groups" -/
  | unknownGroups (ids : List Str)
  deriving DecidableEq

/-- **The cluster configuration.** -/
structure ClusterConfig where
  /-- The version of this configuration. -/
  epoch : Nat
  shards : List ShardGroup
  /-- Points a group has on the ring. -/
  virtualNodes : Nat
  /-- The ring being moved to, while keys move. -/
  rebalance : Option (List Str)
  ringIds : List Str
  nonempty : shards ≠ []
  ids_nodup : (shards.map ShardGroup.id).Nodup
  /-- A node belongs to one group, once. -/
  members_nodup : (shards.flatMap ShardGroup.members).Nodup
  /-- The rings name groups that exist. -/
  rings_known : ∀ id ∈ ringIds ++ rebalance.getD [], id ∈ shards.map ShardGroup.id

namespace ClusterConfig

/-- The ring given, or all groups if it is empty. -/
def ringOr (shards : List ShardGroup) (ringIds : List Str) : List Str :=
  if ringIds = [] then shards.map ShardGroup.id else ringIds

/-- Build a configuration (`__post_init__`): an empty ring stands for all groups. -/
def make (epoch : Nat) (shards : List ShardGroup) (virtualNodes : Nat)
    (rebalance : Option (List Str)) (ringIds : List Str) : Except ConfigError ClusterConfig :=
  if hne : shards = [] then .error .noGroups
  else if hids : (shards.map ShardGroup.id).Nodup then
    if hmembers : (shards.flatMap ShardGroup.members).Nodup then
      if hring : ∀ id ∈ ringOr shards ringIds ++ rebalance.getD [],
          id ∈ shards.map ShardGroup.id then
        .ok ⟨epoch, shards, virtualNodes, rebalance, ringOr shards ringIds, hne, hids, hmembers,
          hring⟩
      else
        .error (.unknownGroups ((ringOr shards ringIds ++ rebalance.getD []).filter
          (· ∉ shards.map ShardGroup.id)))
    else .error .sharedNode
  else .error .duplicateIds

/-- A cluster of one group of one node. -/
def solo (epoch : Nat) (id : Str) (node : Address) : ClusterConfig where
  epoch
  shards := [⟨id, node, []⟩]
  virtualNodes := 1
  rebalance := none
  ringIds := [id]
  nonempty := by simp
  ids_nodup := by simp
  members_nodup := by simp [ShardGroup.members]
  rings_known := by simp

/-- Two groups of one node, the second of which is being added. -/
def growing : ClusterConfig where
  epoch := 0
  shards := [⟨text "1", localNode 1, []⟩, ⟨text "2", localNode 2, []⟩]
  virtualNodes := 1
  rebalance := some [text "1", text "2"]
  ringIds := [text "1"]
  nonempty := by decide
  ids_nodup := by decide
  members_nodup := by decide
  rings_known := by decide

/-- The group called `id`. -/
def group? (c : ClusterConfig) (id : Str) : Option ShardGroup := c.shards.find? (·.id = id)

/-- This configuration with the group of the same name replaced, one epoch later. -/
def withGroup (c : ClusterConfig) (g : ShardGroup) : Except ConfigError ClusterConfig :=
  make (c.epoch + 1) (c.shards.map fun g' => if g'.id = g.id then g else g') c.virtualNodes
    c.rebalance c.ringIds

/-- This configuration one epoch later, with other groups, ring and rebalance. -/
def nextEpoch (c : ClusterConfig) (shards : List ShardGroup) (rebalance : Option (List Str))
    (ringIds : List Str) : Except ConfigError ClusterConfig :=
  make (c.epoch + 1) shards c.virtualNodes rebalance ringIds

variable {c c' : ClusterConfig} {g : ShardGroup}

/-- What `make` builds is what it was given. -/
theorem make_ok {epoch vn : Nat} {shards : List ShardGroup} {rebalance : Option (List Str)}
    {ring : List Str} (h : make epoch shards vn rebalance ring = .ok c) :
    c.epoch = epoch ∧ c.shards = shards := by
  unfold make at h
  -- only the branch in which every check passed returns a configuration
  split_ifs at h
  cases h
  exact ⟨rfl, rfl⟩

/-- Well-formed parts make a configuration. -/
theorem exists_make {epoch vn : Nat} {shards : List ShardGroup} {rebalance : Option (List Str)}
    {ring : List Str} (hne : shards ≠ []) (hids : (shards.map ShardGroup.id).Nodup)
    (hmembers : (shards.flatMap ShardGroup.members).Nodup)
    (hring : ∀ id ∈ ringOr shards ring ++ rebalance.getD [], id ∈ shards.map ShardGroup.id) :
    ∃ c, make epoch shards vn rebalance ring = .ok c := by
  unfold make
  rw [dif_neg hne, dif_pos hids, dif_pos hmembers, dif_pos hring]
  exact ⟨_, rfl⟩

theorem epoch_withGroup (h : c.withGroup g = .ok c') : c'.epoch = c.epoch + 1 := (make_ok h).1

theorem epoch_nextEpoch {shards : List ShardGroup} {rebalance : Option (List Str)}
    {ring : List Str} (h : c.nextEpoch shards rebalance ring = .ok c') :
    c'.epoch = c.epoch + 1 := (make_ok h).1

theorem shards_withGroup (h : c.withGroup g = .ok c') :
    c'.shards = c.shards.map fun g' => if g'.id = g.id then g else g' := (make_ok h).2

/-- Two groups of one name are the same group. -/
theorem eq_of_id_eq {g' : ShardGroup} (hg : g ∈ c.shards) (hg' : g' ∈ c.shards)
    (h : g.id = g'.id) : g = g' :=
  inj_on_of_nodup_map c.ids_nodup hg hg' h

theorem eq_of_mem_members {g' : ShardGroup} {a : Address} (hg : g ∈ c.shards)
    (hg' : g' ∈ c.shards) (ha : a ∈ g.members) (ha' : a ∈ g'.members) : g = g' := by
  by_contra hne
  have hdisjoint : c.shards.Pairwise fun g g' => List.Disjoint g.members g'.members :=
    (nodup_flatMap.mp c.members_nodup).2
  have : Std.Symm fun g g' : ShardGroup => List.Disjoint g.members g'.members :=
    ⟨fun _ _ h => h.symm⟩
  exact hdisjoint.forall hg hg' hne ha ha'

theorem group?_eq_some (hg : g ∈ c.shards) : c.group? g.id = some g := by
  obtain ⟨g', hg'⟩ : ∃ g', c.group? g.id = some g' :=
    Option.isSome_iff_exists.mp (find?_isSome.mpr ⟨g, hg, by simp⟩)
  have hid : g'.id = g.id := by simpa using find?_some hg'
  rw [hg', eq_of_id_eq (mem_of_find?_eq_some hg') hg hid]

theorem mem_of_group? {id : Str} (h : c.group? id = some g) : g ∈ c.shards :=
  mem_of_find?_eq_some h

/-- The members of a group with another primary are its members. -/
theorem perm_members_promote {winner : Address} (hnodup : g.members.Nodup)
    (hw : winner ∈ g.members) : (g.promote winner).members.Perm g.members := by
  have herase : g.members.filter (· ≠ winner) = g.members.erase winner := by
    rw [hnodup.erase_eq_filter winner]
    exact filter_congr fun a _ => by by_cases h : a = winner <;> simp [h]
  unfold ShardGroup.promote
  show (winner :: g.members.filter (· ≠ winner)).Perm g.members
  rw [herase]
  exact (perm_cons_erase hw).symm

/-- Two nodes are in one group. -/
def Together (c : ClusterConfig) (a b : Address) : Prop :=
  ∃ g ∈ c.shards, a ∈ g.members ∧ b ∈ g.members

/-- **A promotion within a group keeps the members of the groups.** -/
theorem Together.promotion {winner a b : Address} (h : c.Together a b) (hg : g ∈ c.shards)
    (hw : winner ∈ g.members) (hc' : c.withGroup (g.promote winner) = .ok c') : c'.Together a b := by
  obtain ⟨g', hg', ha, hb⟩ := h
  refine ⟨if g'.id = (g.promote winner).id then g.promote winner else g', ?_, ?_⟩
  · rw [shards_withGroup hc']
    exact mem_map_of_mem hg'
  · split
    case isFalse => exact ⟨ha, hb⟩
    case isTrue hid =>
      obtain rfl : g' = g := eq_of_id_eq hg' hg hid
      have hperm := perm_members_promote ((nodup_flatMap.mp c.members_nodup).1 g' hg') hw
      exact ⟨hperm.mem_iff.mpr ha, hperm.mem_iff.mpr hb⟩

/-- A promotion within a group keeps the configuration well formed: it never raises. -/
theorem withGroup_promotion {winner : Address} (hg : g ∈ c.shards) (hw : winner ∈ g.members) :
    ∃ c', c.withGroup (g.promote winner) = .ok c' := by
  have hids : (c.shards.map fun g' => if g'.id = (g.promote winner).id then g.promote winner
      else g').map ShardGroup.id = c.shards.map ShardGroup.id := by
    rw [map_map]
    refine map_congr_left fun g' _ => ?_
    show (if g'.id = g.id then g.promote winner else g').id = g'.id
    split
    · rename_i h
      exact h.symm
    · rfl
  have hperm : ((c.shards.map fun g' => if g'.id = (g.promote winner).id then g.promote winner
      else g').flatMap ShardGroup.members).Perm (c.shards.flatMap ShardGroup.members) := by
    rw [flatMap_map]
    refine List.Perm.flatMap_left _ fun g' hg' => ?_
    show (if g'.id = g.id then g.promote winner else g').members.Perm g'.members
    split
    · rename_i h
      rw [← eq_of_id_eq hg' hg h]
      exact perm_members_promote ((nodup_flatMap.mp c.members_nodup).1 g' hg')
        (eq_of_id_eq hg' hg h ▸ hw)
    · exact List.Perm.refl _
  refine exists_make (by simpa using c.nonempty) (hids ▸ c.ids_nodup)
    (hperm.nodup_iff.mpr c.members_nodup) ?_
  intro id hid
  rw [hids]
  unfold ringOr at hid
  split at hid
  · rw [hids] at hid
    rcases mem_append.mp hid with hid | hid
    · exact hid
    · exact c.rings_known id (mem_append_right _ hid)
  · exact c.rings_known id hid

end ClusterConfig

end KvStore
