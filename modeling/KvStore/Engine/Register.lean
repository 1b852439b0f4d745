import KvStore.Engine.Engine
import KvStore.Engine.Keyspace

/-! # Handlers on the abstract keyspace

A handler is a program, so it can be run on an abstract machine instead of the engine.

* **`Reg`** — one key as a register: its item, and the effects logged. `Reg.exec` says what every
  operation does to the key it names.
* **`Space`** — a whole keyspace with a log; an operation acts on the register of its key.
* **`Mode`** — the switches that matter: whether the log is being replayed, whether expiry is on, and
  whether expired keys are deleted or only hidden.

`exec_sim` is the connection with the engine: on every operation a handler performs on single keys,
the engine and the abstract machine give the same answer and stay in correspondence, as long as no
score is NaN. By the simulation rule for programs this carries over to whole handlers
(`run_sim`). -/

namespace KvStore

/-! ## Registers -/

/-- The switches of the engine a handler's effect depends on. -/
structure Mode where
  /-- Replaying the log: nothing is propagated. -/
  loading : Bool
  /-- Expired keys are not found. -/
  expiry : Bool
  /-- They are deleted when they are looked up, which a replica leaves to its primary. -/
  deletes : Bool

/-- **A key as a register.** -/
structure Reg where
  /-- The item of the key. -/
  cur : Option Item
  /-- The effects logged, oldest first. -/
  out : List Effect

/-- What a handler sees of an item. -/
def Item.seen (item : Item) : Seen := ⟨item.value.map fun _ => (), item.expiresAt⟩

namespace Reg

/-- Log an effect, except while replaying. -/
def propagate (m : Mode) (effect : Effect) (r : Reg) : Reg :=
  if m.loading then r else { r with out := r.out ++ [effect] }

@[simp] theorem propagate_cur (m : Mode) (effect : Effect) (r : Reg) :
    (r.propagate m effect).cur = r.cur := by
  unfold propagate
  split <;> rfl

/-- Look the key up: an expired item is not found; it is removed and that is logged. -/
def lookup (m : Mode) (now : Nat) (key : Str) (r : Reg) : Option Item × Reg :=
  match r.cur with
  | none => (none, r)
  | some item =>
    if m.expiry && passed now item.expiresAt then
      (none, if m.deletes then ({ r with cur := none } : Reg).propagate m (.del key) else r)
    else (some item, r)

/-- The ranking the register holds, if it is a sorted set. -/
def ranking (r : Reg) : Option Ranking :=
  match r.cur with
  | some ⟨.zset z, _⟩ => some z
  | _ => none

/-- Change the value of the register in place. -/
def mutate (v : Value Ranking) (r : Reg) : Reg :=
  { r with cur := r.cur.map fun item => { item with value := v } }

/-- Calls on the collection in the register. -/
def edit (edits : List Edit) (r : Reg) : Reg :=
  { r with cur := r.cur.map fun item => { item with value := item.value.editAll edits } }

/-- A call on the sorted set in the register. -/
def zsetCall (r : Reg) : (call : ZCall) → call.Resp × Reg
  | .score member => (r.ranking.bind fun z => z.score member, r)
  | .add member score =>
    match r.ranking with
    | none => ((), r)
    | some z => ((), r.mutate (.zset (z.add member score)))
  | .remove member =>
    match r.ranking with
    | none => (false, r)
    | some z => ((z.score member).isSome, r.mutate (.zset (z.remove member)))
  | .first => (r.ranking.bind fun z => z.items.head?, r)
  | .last => (r.ranking.bind fun z => z.items.getLast?, r)
  | .length => ((r.ranking.map fun z => z.items.length).getD 0, r)
  | .items => ((r.ranking.map fun z => z.items).getD [], r)

/-- **What an operation does to the register of its key.** Operations on the whole keyspace or on the
files have no meaning here. -/
def exec (env : Env) (m : Mode) (key : Str) : (o : Op) → Reg → o.Resp × Reg
  | .now, r => (env.now, r)
  | .loading, r => (m.loading, r)
  | .peek _, r => let (item, r) := r.lookup m env.now key; (item.map Item.seen, r)
  | .get _, r => let (item, r) := r.lookup m env.now key; (item.map Item.seen, r)
  | .touch _, r => ((), r)
  | .insert _ value, r => ((), { r with cur := some ⟨value.ofSeen, none⟩ })
  | .mutate _ edits, r => ((), r.edit edits)
  | .zset _ call, r => r.zsetCall call
  | .set _ value keepTtl, r =>
    if keepTtl then
      let (old, r) := r.lookup m env.now key
      ((), { r with cur := some ⟨.str value, old.bind Item.expiresAt⟩ })
    else ((), { r with cur := some ⟨.str value, none⟩ })
  | .delete _, r =>
    match r.lookup m env.now key with
    | (none, r) => (false, r)
    | (some _, r) => (true, { r with cur := none })
  | .setExpiry _ atMs, r =>
    match r.lookup m env.now key with
    | (none, r) => (false, r)
    | (some item, r) => (true, { r with cur := some { item with expiresAt := some atMs } })
  | .persist _, r =>
    match r.lookup m env.now key with
    | (none, r) => (false, r)
    | (some item, r) =>
      if item.expiresAt = none then (false, r)
      else (true, { r with cur := some { item with expiresAt := none } })
  | .loadRecord _ payload expiresAt, r =>
    ((), { r with cur := some ⟨payload.value, expiresAt⟩ })
  | .record _, r =>
    let (item, r) := r.lookup m env.now key
    (item.map fun item => item.value.payload Ranking.items, r)
  | .flushAll, r => ((), { r with cur := none })
  | .iterKeys, r => ([], r)
  | .size, r => (0, r)
  | .sample population k, r => ((env.sampler 0).pick population (min k population.length), r)
  | .choices population k, r => (env.choices population k, r)
  | .propagate effect, r => ((), r.propagate m effect)
  | .startRewrite, r => (.ok (), r)
  | .save, r => (.ok (), r)
  | .lastSaveTime, r => (0, r)
  | .introspect c args, r => (env.introspect c args, r)

end Reg

/-! ## Spaces -/

/-- The key an operation is about. -/
@[simp] def Op.key? : Op → Option Str
  | peek key | get key | touch key | insert key _ | mutate key _ | zset key _ | set key _ _
  | delete key | setExpiry key _ | persist key | loadRecord key _ _ | record key => some key
  | _ => none

/-- **A keyspace with a log.** -/
structure Space where
  keys : Keyspace
  /-- The effects logged, oldest first. -/
  out : List Effect

/-- **What an operation does to a keyspace**: it acts on the register of its key. -/
def Space.exec (env : Env) (m : Mode) (o : Op) (sp : Space) : o.Resp × Space :=
  match o.key? with
  | some key =>
    let (a, r) := Reg.exec env m key o ⟨sp.keys key, sp.out⟩
    (a, ⟨Function.update sp.keys key r.cur, r.out⟩)
  | none =>
    let (a, r) := Reg.exec env m [] o ⟨none, sp.out⟩
    (a, ⟨if o = .flushAll then fun _ => none else sp.keys, r.out⟩)

/-- The operations the abstract machine has the engine's meaning for: not those on the files or on
the key table, and none that brings in a NaN. -/
@[simp] def Op.Plain : Op → Prop
  | zset _ (.add _ score) => score.isNan = false
  | loadRecord _ payload _ => payload.Real
  | iterKeys | size | startRewrite | save | lastSaveTime => False
  | _ => True

/-! ## The engine simulates -/

namespace Engine

variable [CPython] {σ : Type} [EvictionPolicy σ]

/-- **Correspondence** of an engine and an abstract keyspace, `base` being what was logged before. -/
structure Sim (m : Mode) (base : List Effect) (e : Engine σ) (sp : Space) : Prop where
  shows : e.store.Shows sp.keys
  /-- The engine is replaying if the mode says so. -/
  replaying : e.replaying = m.loading
  expiry : e.store.expiryEnabled = m.expiry
  /-- Expired keys are deleted if the mode says so. -/
  deletes : e.store.expiryDeletes = m.deletes
  log : e.propagated = base ++ sp.out

namespace Sim

variable {m : Mode} {base : List Effect} {e : Engine σ} {sp : Space}

omit [CPython] [EvictionPolicy σ] in
/-- A change of the store that keeps the switches. -/
theorem onStore (h : Sim m base e sp) {f : Store σ → Store σ} {K : Keyspace}
    (hf : (f e.store).Shows K) (hsettings : (f e.store).settings = e.store.settings) :
    Sim m base (e.onStore f) ⟨K, sp.out⟩ := by
  simp only [Store.settings, Prod.mk.injEq] at hsettings
  exact ⟨hf, h.replaying, hsettings.2.2.1.trans h.expiry, hsettings.2.2.2.1.trans h.deletes, h.log⟩

omit [CPython] [EvictionPolicy σ] in
theorem propagate (h : Sim m base e sp) (effect : Effect) (c : Option Item) :
    Sim m base (e.propagate effect) ⟨sp.keys, (Reg.propagate m effect ⟨c, sp.out⟩).out⟩ := by
  cases hload : m.loading with
  | true =>
    have hreplay : e.replaying = true := h.replaying.trans hload
    simp only [Engine.propagate, hreplay, if_true, Reg.propagate, hload]
    exact h
  | false =>
    have hreplay : e.replaying = false := h.replaying.trans hload
    simp only [Engine.propagate, hreplay, Reg.propagate, hload, Bool.false_eq_true, if_false]
    exact ⟨h.shows, hload.symm, h.expiry, h.deletes, by simp [h.log]⟩

omit [CPython] in
/-- Removing an expired key and reporting it. -/
theorem expire (h : Sim m base e sp) (key : Str) :
    Sim m base (e.expire key)
      ⟨Function.update sp.keys key none, (Reg.propagate m (.del key) ⟨none, sp.out⟩).out⟩ := by
  have hshows : Store.Shows
      { e.store.remove key with expiredKeys := e.store.expiredKeys + 1 } _ :=
    (h.shows.remove key).of_eq rfl rfl
  exact (h.onStore (f := fun s => { s.remove key with expiredKeys := s.expiredKeys + 1 })
    hshows (Store.settings_of_frame (e.store.frame_remove key))).propagate (.del key) none

omit [CPython] in
/-- **The outcomes of a lookup**: the key is not found, because there is none or because it is
expired and hidden; it was expired and has been deleted; or there is a live entry. -/
theorem lookup_cases (h : Sim m base e sp) (now : Nat) (key : Str) :
    (e.lookup now key = (none, e) ∧
      Reg.lookup m now key ⟨sp.keys key, sp.out⟩ = (none, ⟨sp.keys key, sp.out⟩)) ∨
    (e.lookup now key = (none, e.expire key) ∧
      Reg.lookup m now key ⟨sp.keys key, sp.out⟩ =
        (none, Reg.propagate m (.del key) ⟨none, sp.out⟩)) ∨
    ∃ item entry, sp.keys key = some item ∧ e.store.data.get? key = some entry ∧
      entry.Models item ∧ e.lookup now key = (some entry, e) ∧
      Reg.lookup m now key ⟨sp.keys key, sp.out⟩ = (some item, ⟨sp.keys key, sp.out⟩) := by
  cases hK : sp.keys key with
  | none =>
    have hget := h.shows.get?_eq_none hK
    exact Or.inl ⟨by simp [Engine.lookup, hget], rfl⟩
  | some item =>
    obtain ⟨entry, hget, hmodels⟩ := h.shows.exists_entry hK
    have hexpired : (e.store.expiryEnabled && entry.isExpired now) =
        (m.expiry && passed now item.expiresAt) := by
      rw [h.expiry, Entry.isExpired, hmodels.2]
    cases hcond : (m.expiry && passed now item.expiresAt) with
    | true =>
      cases hdel : m.deletes with
      | false => exact Or.inl ⟨by simp [Engine.lookup, hget, hexpired, hcond, h.deletes, hdel],
          by simp [Reg.lookup, hcond, hdel]⟩
      | true =>
        exact Or.inr (Or.inl ⟨by simp [Engine.lookup, hget, hexpired, hcond, h.deletes, hdel],
          by simp [Reg.lookup, hcond, hdel]⟩)
    | false =>
      refine Or.inr (Or.inr ⟨item, entry, rfl, hget, hmodels, ?_, ?_⟩)
      · simp [Engine.lookup, hget, hexpired, hcond]
      · simp [Reg.lookup, hcond]

omit [CPython] [EvictionPolicy σ] in
/-- What a handler sees of an entry is what it sees of the item. -/
theorem seen_eq {entry : Entry} {item : Item} (h : entry.Models item) : seen entry = item.seen := by
  rw [seen, Item.seen, h.1.map_unit, h.2]

omit [CPython] [EvictionPolicy σ] in
/-- The sorted set of an entry represents the ranking of the register. -/
theorem zsetAt_cases (h : Sim m base e sp) (key : Str) :
    (e.store.zsetAt key = none ∧ Reg.ranking ⟨sp.keys key, sp.out⟩ = none) ∨
    ∃ z r, e.store.zsetAt key = some z ∧ Reg.ranking ⟨sp.keys key, sp.out⟩ = some r ∧
      z.Models r := by
  cases hK : sp.keys key with
  | none =>
    have hget := h.shows.get?_eq_none hK
    exact Or.inl ⟨by simp [Store.zsetAt, hget], rfl⟩
  | some item =>
    obtain ⟨⟨v, d, size⟩, hget, hvalue, -⟩ := h.shows.exists_entry hK
    obtain ⟨w, d'⟩ := item
    cases v <;> cases w <;> simp_all [Value.Models, Store.zsetAt, Reg.ranking]

omit [CPython] in
/-- Operations that look the key up and change nothing but the accounting. -/
theorem lookup (h : Sim m base e sp) (now : Nat) (key : Str) :
    (e.lookup now key).1.map seen =
        (Reg.lookup m now key ⟨sp.keys key, sp.out⟩).1.map Item.seen ∧
      (e.lookup now key).1.map (fun entry => entry.value.payload SortedSet.items) =
        (Reg.lookup m now key ⟨sp.keys key, sp.out⟩).1.map
          (fun item => item.value.payload Ranking.items) ∧
      Sim m base (e.lookup now key).2
        ⟨Function.update sp.keys key (Reg.lookup m now key ⟨sp.keys key, sp.out⟩).2.cur,
          (Reg.lookup m now key ⟨sp.keys key, sp.out⟩).2.out⟩ := by
  rcases h.lookup_cases now key with ⟨he, hr⟩ | ⟨he, hr⟩ | ⟨item, entry, hK, hget, hm, he, hr⟩
  · rw [he, hr]
    exact ⟨rfl, rfl, by simpa using h⟩
  · rw [he, hr]
    refine ⟨rfl, rfl, ?_⟩
    rw [Reg.propagate_cur]
    exact h.expire key
  · rw [he, hr]
    exact ⟨by simp [seen_eq hm], by simp [hm.1.payload_eq], by simpa using h⟩

omit [CPython] [EvictionPolicy σ] in
/-- A change of the value of the key in place. -/
theorem mutate (h : Sim m base e sp) (key : Str) {value : Value SortedSet} {v : Value Ranking}
    (hv : value.Models v) (nbytes : Int) :
    Sim m base (e.onStore (Store.mutate key value nbytes))
      ⟨Function.update sp.keys key (Reg.mutate v ⟨sp.keys key, sp.out⟩).cur, sp.out⟩ :=
  h.onStore (f := Store.mutate key value nbytes) (h.shows.mutate hv nbytes)
    (Store.settings_of_frame (Store.frame_mutate ..))

omit [CPython] [EvictionPolicy σ] in
theorem zsetCall [CPython] (h : Sim m base e sp) (key : Str) (call : ZCall)
    (hplain : (Op.zset key call).Plain) :
    (e.zsetCall key call).1 = (Reg.zsetCall ⟨sp.keys key, sp.out⟩ call).1 ∧
      Sim m base (e.zsetCall key call).2
        ⟨Function.update sp.keys key (Reg.zsetCall ⟨sp.keys key, sp.out⟩ call).2.cur,
          (Reg.zsetCall ⟨sp.keys key, sp.out⟩ call).2.out⟩ := by
  have hsame : Sim m base e ⟨Function.update sp.keys key (sp.keys key), sp.out⟩ := by simpa using h
  rcases h.zsetAt_cases key with ⟨hz, hr⟩ | ⟨z, r, hz, hr, hzr⟩
  · cases call <;> simp only [Engine.zsetCall, Reg.zsetCall, hz, hr] <;>
      first | exact ⟨rfl, hsame⟩ | exact ⟨trivial, hsame⟩
  · cases call with
    | score member =>
      simp only [Engine.zsetCall, Reg.zsetCall, hz, hr, Option.bind_some]
      exact ⟨hzr.score_eq member, hsame⟩
    | add member score =>
      simp only [Engine.zsetCall, Reg.zsetCall, hz, hr]
      have hmodels : Value.Models (.zset (z.add member score (e.store.levels 0)))
          (.zset (r.add member score)) := hzr.add member hplain _
      have hadd := h.mutate key hmodels (Store.zaddBytes z member (e.nbytesAt key))
      exact ⟨trivial, hadd.onStore (f := fun s => { s with levels := e.store.levels.rest })
        (hadd.shows.of_eq rfl rfl) rfl⟩
    | remove member =>
      simp only [Engine.zsetCall, Reg.zsetCall, hz, hr]
      exact ⟨by rw [hzr.score_eq member],
        h.mutate key (show Value.Models (.zset (z.remove member)) (.zset (r.remove member)) from
          hzr.remove member) _⟩
    | first | last =>
      simp only [Engine.zsetCall, Reg.zsetCall, hz, hr, Option.bind_some]
      exact ⟨by rw [hzr.items_eq], hsame⟩
    | length =>
      simp only [Engine.zsetCall, Reg.zsetCall, hz, hr, Option.map_some, Option.getD_some]
      exact ⟨hzr.length_eq, hsame⟩
    | items =>
      simp only [Engine.zsetCall, Reg.zsetCall, hz, hr, Option.map_some, Option.getD_some]
      exact ⟨hzr.items_eq, hsame⟩

/-- Writing a text, or any other value, over what the key held. -/
theorem set (h : Sim m base e sp) (now : Nat) (key : Str) {value : Value SortedSet}
    {v : Value Ranking} (hv : value.Models v) (nbytes : Int) (keepTtl : Bool) :
    Sim m base (e.set now key value nbytes keepTtl)
      (if keepTtl then
        ⟨Function.update sp.keys key (some ⟨v,
          (Reg.lookup m now key ⟨sp.keys key, sp.out⟩).1.bind Item.expiresAt⟩),
          (Reg.lookup m now key ⟨sp.keys key, sp.out⟩).2.out⟩
      else ⟨Function.update sp.keys key (some ⟨v, none⟩), sp.out⟩) := by
  cases keepTtl with
  | false =>
    simp only [Engine.set, Bool.false_eq_true, if_false]
    exact h.onStore (f := Store.replace now key value nbytes false (e.store.data.get? key))
      (by simpa using h.shows.replace now key hv nbytes false) (Store.settings_of_frame (Store.frame_replace ..))
  | true =>
    simp only [Engine.set, if_true]
    rcases h.lookup_cases now key with ⟨he, hr⟩ | ⟨he, hr⟩ | ⟨item, entry, hK, hget, hm, he, hr⟩
    · rw [he, hr]
      exact h.onStore (f := Store.replace now key value nbytes true none)
        (h.shows.insert now key hv nbytes) rfl
    · have hexp := h.expire key
      rw [he, hr]
      have hins := hexp.onStore (f := Store.replace now key value nbytes true none)
        (hexp.shows.insert now key hv nbytes) rfl
      simpa using hins
    · rw [he, hr, ← hget]
      have hrep := h.shows.replace now key hv nbytes true
      rw [hK] at hrep
      exact h.onStore (f := Store.replace now key value nbytes true (e.store.data.get? key))
        (by simpa using hrep) (Store.settings_of_frame (Store.frame_replace ..))

omit [CPython] [EvictionPolicy σ] in
/-- A change of the deadline of a live entry. -/
theorem setDeadline (h : Sim m base e sp) (key : Str) {entry : Entry} {item : Item}
    (hm : entry.Models item) (deadline : Option Int) :
    Sim m base (e.onStore (Store.setDeadline key entry deadline))
      ⟨Function.update sp.keys key (some { item with expiresAt := deadline }), sp.out⟩ :=
  h.onStore (f := Store.setDeadline key entry deadline) (h.shows.setDeadline hm deadline) rfl

omit [CPython] [EvictionPolicy σ] in
/-- A completed snapshot is handed over. -/
theorem handOver (h : Sim m base e sp) : Sim m base e.handOver sp := by
  unfold Engine.handOver
  split
  · exact h
  · exact ⟨h.shows.of_eq rfl rfl, h.replaying, h.expiry, h.deletes, h.log⟩

/-- `store.load_record` of a copy without NaN. -/
theorem loadRecord (h : Sim m base e sp) (now : Nat) (key : Str) {payload : Payload}
    (hreal : payload.Real) (expiresAt : Option Int) :
    Sim m base (e.loadRecord now key payload expiresAt)
      ⟨Function.update sp.keys key (some ⟨payload.value, expiresAt⟩), sp.out⟩ := by
  have hvalue := Payload.models_buildValue hreal e.store.levels
  have hlevels := h.onStore
    (f := fun s => { s with levels := (Store.buildValue e.store.levels payload).2.2 })
    (h.shows.of_eq rfl rfl) rfl
  have hset := hlevels.set now key hvalue (Store.buildValue e.store.levels payload).2.1 false
  simp only [Bool.false_eq_true, if_false] at hset
  simp only [Engine.loadRecord]
  cases expiresAt with
  | none => exact hset
  | some atMs =>
    -- the entry has just been written without a deadline, so the lookup finds it
    rcases hset.lookup_cases now key with ⟨-, hr⟩ | ⟨-, hr⟩ | ⟨item, entry, hK, -, hm, he, -⟩
    · simp [Reg.lookup, passed] at hr
    · simp [Reg.lookup, passed] at hr
    · simp only [Engine.setExpiry, he]
      simp only [Function.update_self, Option.some.injEq] at hK
      subst hK
      have hdeadline := hset.setDeadline key hm (some atMs)
      simpa using hdeadline

end Sim

/-- **The engine does on every plain operation what the abstract machine does.** -/
theorem exec_sim {m : Mode} {base : List Effect} {e : Engine σ} {sp : Space} (env : Env) (o : Op)
    (hplain : o.Plain) (h : Sim m base e sp) :
    (exec env o e).1 = (Space.exec env m o sp).1 ∧
      Sim m base (exec env o e).2 (Space.exec env m o sp).2 := by
  have hsame : ∀ key, Sim m base e ⟨Function.update sp.keys key (sp.keys key), sp.out⟩ := by
    intro key
    simpa using h
  cases o with
  | now | sample | choices | introspect => exact ⟨rfl, h⟩
  | loading => exact ⟨h.replaying, h⟩
  | peek key =>
    obtain ⟨hseen, -, hsim⟩ := h.lookup env.now key
    exact ⟨hseen, hsim⟩
  | get key =>
    obtain ⟨hseen, -, hsim⟩ := h.lookup env.now key
    simp only [exec, Engine.get]
    split
    case h_1 e' he =>
      rw [he] at hseen hsim
      exact ⟨hseen, hsim.onStore
        (f := fun s => { s with keyspaceMisses := s.keyspaceMisses + 1 })
        (hsim.shows.of_eq rfl rfl) rfl⟩
    case h_2 entry e' he =>
      rw [he] at hseen hsim
      exact ⟨hseen, hsim.onStore
        (f := fun s => { s with keyspaceHits := s.keyspaceHits + 1
                                policy := EvictionPolicy.onAccess env.now key s.policy })
        (hsim.shows.of_eq rfl rfl) rfl⟩
  | touch key =>
    exact ⟨rfl, (hsame key).onStore
      (f := fun s => { s with policy := EvictionPolicy.onAccess env.now key s.policy })
      ((hsame key).shows.of_eq rfl rfl) rfl⟩
  | insert key value =>
    exact ⟨rfl, h.onStore (f := Store.insert env.now key (ofSeen value) emptyContainer)
      (h.shows.insert env.now key (Value.models_ofSeen value) _) rfl⟩
  | mutate key edits =>
    exact ⟨rfl, h.onStore (f := Store.edit key edits) (h.shows.edit key edits)
      (Store.settings_of_frame (Store.frame_edit ..))⟩
  | zset key call => exact h.zsetCall key call hplain
  | set key value keepTtl =>
    have hset := h.set env.now key (show Value.Models (.str value) (.str value) from rfl) 0 keepTtl
    cases keepTtl <;> exact ⟨rfl, hset⟩
  | delete key =>
    simp only [exec, Engine.delete, Space.exec, Op.key?, Reg.exec]
    rcases h.lookup_cases env.now key with ⟨he, hr⟩ | ⟨he, hr⟩ | ⟨item, entry, -, -, -, he, hr⟩
    · rw [he, hr]
      exact ⟨rfl, hsame key⟩
    · rw [he, hr]
      exact ⟨rfl, by simpa using h.expire key⟩
    · rw [he, hr]
      exact ⟨rfl, h.onStore (f := Store.remove key) (h.shows.remove key) (Store.settings_of_frame (e.store.frame_remove key))⟩
  | setExpiry key atMs =>
    simp only [exec, Engine.setExpiry, Space.exec, Op.key?, Reg.exec]
    rcases h.lookup_cases env.now key with ⟨he, hr⟩ | ⟨he, hr⟩ | ⟨item, entry, -, -, hm, he, hr⟩
    · rw [he, hr]
      exact ⟨rfl, hsame key⟩
    · rw [he, hr]
      exact ⟨rfl, by simpa using h.expire key⟩
    · rw [he, hr]
      exact ⟨rfl, h.setDeadline key hm (some atMs)⟩
  | persist key =>
    simp only [exec, Engine.persist, Space.exec, Op.key?, Reg.exec]
    rcases h.lookup_cases env.now key with ⟨he, hr⟩ | ⟨he, hr⟩ | ⟨item, entry, -, -, hm, he, hr⟩
    · rw [he, hr]
      exact ⟨rfl, hsame key⟩
    · rw [he, hr]
      exact ⟨rfl, by simpa using h.expire key⟩
    · rw [he, hr]
      simp only [hm.2]
      by_cases hd : item.expiresAt = none
      · rw [if_pos hd, if_pos hd]
        exact ⟨rfl, hsame key⟩
      · rw [if_neg hd, if_neg hd]
        exact ⟨rfl, h.setDeadline key hm none⟩
  | loadRecord key payload expiresAt => exact ⟨rfl, h.loadRecord env.now key hplain expiresAt⟩
  | record key =>
    obtain ⟨-, hpayload, hsim⟩ := h.lookup env.now key
    exact ⟨hpayload, hsim⟩
  | flushAll =>
    exact ⟨rfl, (h.onStore (f := Store.clear) (Store.Shows.clear e.store)
      (e.store.frame_stepSnapshot _).1).handOver⟩
  | propagate effect => exact ⟨rfl, h.propagate effect none⟩
  | iterKeys | size | startRewrite | save | lastSaveTime => exact hplain.elim

/-- **A handler does on the engine what it does on the abstract machine.** -/
theorem run_sim {m : Mode} {base : List Effect} {e : Engine σ} {sp : Space} {α : Type} (env : Env)
    {p : Cmd α} (hp : p.Uses Op.Plain) (h : Sim m base e sp) :
    (p.run (exec env) e).1 = (p.run (Space.exec env m) sp).1 ∧
      Sim m base (p.run (exec env) e).2 (p.run (Space.exec env m) sp).2 :=
  Prog.run_related (R := Sim m base) (fun o _ _ ho hsim => exec_sim env o ho hsim) hp h

end Engine

end KvStore
