import KvStore.Cluster.Stages

/-! # The configurations adopted, and what nodes make of them

Each epoch has one configuration, which names one primary a group. What a node has been promoted under, and
the epoch it has seen, are compared with the configurations that the manager has adopted.

* **`History`** — the configurations adopted have increasing epochs.
* **`Legit`** — a request that repeats what some configuration said may reach its node at any time.
* **`Quiet`** — every promotion and every node's epoch agrees with the configurations adopted, but for one
  node that was promoted under the next epoch; **`World.quiet_serve`** — what a node does keeps this. -/

namespace KvStore

open List

namespace Cluster

open Manager Prog

/-! ## What holds between the awaits -/

/-- `a` is the primary of a group in the configuration adopted under epoch `e`. -/
def Designated (adopted : List ClusterConfig) (a : Address) (e : Nat) : Prop :=
  ∃ c ∈ adopted, c.epoch = e ∧ ∃ g ∈ c.shards, g.primary = a

/-- The configurations adopted have increasing epochs, and the last one is in force. -/
def History (adopted : List ClusterConfig) (config : ClusterConfig) : Prop :=
  (∃ past, adopted = past ++ [config]) ∧
    adopted.Pairwise fun c c' => c.epoch < c'.epoch

/-- A request that may reach its node at any time: it repeats what some configuration said. -/
def Legit (adopted : List ClusterConfig) (config : ClusterConfig) (node : Address) :
    Request → Prop
  | .replicaof none e => Designated adopted node e
  | .replicaof (some _) e => e ≤ config.epoch
  | _ => True

/-- Every promotion so far, and (if the nodes started out `bounded`) every node's epoch, agrees with
the configurations adopted, but for one node that was promoted under the next epoch. -/
def Quiet (bounded : Prop) (exception : Option Address) (promoted : List (Address × Nat))
    (nodes : Address → ShardNode) (adopted : List ClusterConfig) (config : ClusterConfig) : Prop :=
  (∀ a e, (a, e) ∈ promoted →
    Designated adopted a e ∨ (exception = some a ∧ e = config.epoch + 1)) ∧
  (bounded → ∀ a, (nodes a).epoch ≤ config.epoch ∨
    (exception = some a ∧ (nodes a).epoch = config.epoch + 1))

section Facts

variable {adopted : List ClusterConfig} {config c c' : ClusterConfig} {bounded : Prop}
  {exception : Option Address} {promoted : List (Address × Nat)} {nodes : Address → ShardNode}
  {a : Address} {e : Nat}

theorem History.epoch_le (h : History adopted config) (hc : c ∈ adopted) :
    c.epoch ≤ config.epoch := by
  obtain ⟨⟨past, rfl⟩, hincreasing⟩ := h
  rcases mem_append.mp hc with hpast | hlast
  · exact Nat.le_of_lt ((pairwise_append.mp hincreasing).2.2 c hpast config
      mem_cons_self)
  · rw [mem_singleton.mp hlast]

theorem History.config_mem (h : History adopted config) : config ∈ adopted := by
  obtain ⟨⟨past, rfl⟩, -⟩ := h
  exact mem_append_right _ mem_cons_self

theorem History.unique (h : History adopted config) (hc : c ∈ adopted) (hc' : c' ∈ adopted)
    (heq : c.epoch = c'.epoch) : c = c' := by
  by_contra hne
  have hdistinct : adopted.Pairwise fun c c' => c.epoch ≠ c'.epoch :=
    h.2.imp fun hlt => Nat.ne_of_lt hlt
  have : Std.Symm fun c c' : ClusterConfig => c.epoch ≠ c'.epoch := ⟨fun _ _ h => h.symm⟩
  exact hdistinct.forall hc hc' hne heq

theorem History.adopt (h : History adopted config) (hc : c.epoch = config.epoch + 1) :
    History (adopted ++ [c]) c := by
  refine ⟨⟨adopted, rfl⟩, pairwise_append.mpr ⟨h.2, pairwise_singleton _ _, ?_⟩⟩
  intro c' hc' c'' hc''
  rw [mem_singleton.mp hc'']
  have := h.epoch_le hc'
  omega

theorem Designated.adopt (h : Designated adopted a e) : Designated (adopted ++ [c]) a e := by
  obtain ⟨c', hc', hrest⟩ := h
  exact ⟨c', mem_append_left _ hc', hrest⟩

theorem Designated.epoch_le (h : Designated adopted a e) (hh : History adopted config) :
    e ≤ config.epoch := by
  obtain ⟨c, hc, rfl, -⟩ := h
  exact hh.epoch_le hc

theorem Legit.adopt {request : Request} (h : Legit adopted config a request)
    (hc : c.epoch = config.epoch + 1) : Legit (adopted ++ [c]) c a request := by
  cases request with
  | replicaof target e =>
    cases target with
    | none => exact Designated.adopt h
    | some p =>
      have : e ≤ config.epoch := h
      show e ≤ c.epoch
      omega
  | info | rebalanceStatus | rebalanceStop | rebalanceStart => trivial

/-- What repeats the configuration in force may reach its node at any time. -/
theorem Request.Repeats.legit {request : Request} (h : request.Repeats config a)
    (hh : History adopted config) : Legit adopted config a request := by
  cases request with
  | replicaof target e =>
    cases target with
    | none =>
      obtain ⟨rfl, hg⟩ := h
      exact ⟨config, hh.config_mem, rfl, hg⟩
    | some p =>
      have : e = config.epoch := h
      exact Nat.le_of_eq this
  | info | rebalanceStatus | rebalanceStop | rebalanceStart => trivial

theorem Request.Inert.legit {request : Request} (h : request.Inert) :
    Legit adopted config a request := by
  cases request with
  | replicaof target e => exact h.elim
  | info | rebalanceStatus | rebalanceStop | rebalanceStart => trivial

/-- A new configuration leaves everything in order; if it names the exceptional node as a primary,
that node is no exception any more. -/
theorem Quiet.adopt (h : Quiet bounded exception promoted nodes adopted config)
    (hc : c.epoch = config.epoch + 1)
    (hexception : ∀ a, exception = some a → ∃ g ∈ c.shards, g.primary = a) :
    Quiet bounded none promoted nodes (adopted ++ [c]) c := by
  refine ⟨fun a e hmem => .inl ?_, fun hb a => .inl ?_⟩
  · rcases h.1 a e hmem with hd | ⟨ha, rfl⟩
    · exact hd.adopt
    · exact ⟨c, mem_append_right _ mem_cons_self, hc, hexception a ha⟩
  · rcases h.2 hb a with hle | ⟨-, heq⟩
    · omega
    · omega

end Facts

/-! ## What a node does -/

namespace World

variable {w : World} {bounded : Prop} {exception : Option Address} {node : Address}
  {request : Request} {answer : Except Failure Reply}

/-- `Quiet` of a world. -/
abbrev IsQuiet (bounded : Prop) (exception : Option Address) (w : World) : Prop :=
  Quiet bounded exception w.promoted w.nodes w.manager.adopted w.manager.config

theorem serve_refused {target : Option Address} {e : Nat} (h : e < (w.nodes node).epoch) :
    w.serve node (.replicaof target e) answer =
      (.error (.staleEpoch e (w.nodes node).epoch), w) := by
  unfold serve
  rw [ShardNode.execute_replicaof_error h]
  simp only [Function.update_eq_self]

/-- A request that changes no role changes nothing. -/
theorem serve_inert (h : request.Inert) : (w.serve node request answer).2 = w := by
  unfold serve
  cases request with
  | replicaof target e => exact h.elim
  | info | rebalanceStatus | rebalanceStop | rebalanceStart => simp [ShardNode.execute]

theorem serve_accepted {target : Option Address} {e : Nat} (h : (w.nodes node).epoch ≤ e) :
    w.serve node (.replicaof target e) answer = (.ok .ok, { w with
      nodes := Function.update w.nodes node { (w.nodes node).become target with epoch := e }
      promoted := if target = none then w.promoted ++ [(node, e)] else w.promoted }) := by
  unfold serve
  rw [ShardNode.execute_replicaof_ok h]
  cases target <;> rfl

/-- The epochs after a node adopted one that is in order. -/
theorem quiet_epochs {n : ShardNode}
    (h : ∀ a, (w.nodes a).epoch ≤ w.manager.config.epoch ∨
      (exception = some a ∧ (w.nodes a).epoch = w.manager.config.epoch + 1))
    (hn : n.epoch ≤ w.manager.config.epoch ∨
      (exception = some node ∧ n.epoch = w.manager.config.epoch + 1)) (a : Address) :
    ((Function.update w.nodes node n) a).epoch ≤ w.manager.config.epoch ∨
      (exception = some a ∧ ((Function.update w.nodes node n) a).epoch =
        w.manager.config.epoch + 1) := by
  by_cases ha : a = node
  · subst ha
    rw [Function.update_self]
    exact hn
  · rw [Function.update_of_ne ha]
    exact h a

/-- A request that repeats some configuration leaves everything in order. -/
theorem quiet_serve (hh : History w.manager.adopted w.manager.config)
    (hrequest : Legit w.manager.adopted w.manager.config node request)
    (h : w.IsQuiet bounded exception) :
    (w.serve node request answer).2.IsQuiet bounded exception := by
  cases request with
  | replicaof target e =>
    rcases Nat.lt_or_ge e (w.nodes node).epoch with hstale | hok
    · rw [serve_refused hstale]
      exact h
    · have he : e ≤ w.manager.config.epoch := by
        cases target with
        | none => exact Designated.epoch_le hrequest hh
        | some p => exact hrequest
      rw [serve_accepted hok]
      refine ⟨fun a e' hmem => ?_, fun hb a => quiet_epochs (h.2 hb) (.inl he) a⟩
      cases target with
      | none =>
        -- the new entry of the ledger is the one the request was entitled to
        rcases mem_append.mp hmem with hold | hnew
        · exact h.1 a e' hold
        · cases mem_singleton.mp hnew
          exact .inl hrequest
      | some p => exact h.1 a e' hmem
  | info | rebalanceStatus | rebalanceStop | rebalanceStart => rw [serve_inert (by trivial)]; exact h

/-- A promotion under the next epoch makes its node the exception, if it is accepted. -/
theorem quiet_serve_promotion (node : Address) (answer : Except Failure Reply)
    (h : w.IsQuiet bounded none) :
    (w.serve node (.replicaof none (w.manager.config.epoch + 1)) answer).2.IsQuiet bounded
      (if (w.serve node (.replicaof none (w.manager.config.epoch + 1)) answer).1 = .ok .ok
        then some node else none) := by
  rcases Nat.lt_or_ge (w.manager.config.epoch + 1) (w.nodes node).epoch with hstale | hok
  · rw [serve_refused hstale]
    exact h
  · rw [serve_accepted hok]
    refine ⟨fun a e hmem => ?_, fun hb a => quiet_epochs (fun a => ?_) (.inr ⟨rfl, rfl⟩) a⟩
    · rcases mem_append.mp hmem with hold | hnew
      · rcases h.1 a e hold with hd | ⟨ha, -⟩
        · exact .inl hd
        · cases ha
      · cases mem_singleton.mp hnew
        exact .inr ⟨rfl, rfl⟩
    · rcases h.2 hb a with hle | ⟨ha, -⟩
      · exact .inl hle
      · cases ha

end World

end Cluster

end KvStore
