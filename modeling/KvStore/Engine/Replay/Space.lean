import KvStore.Engine.Replay.Starts

/-! # Effects replayed on a keyspace

Replay on the register of one key carries over to the keyspace: an effect on one key changes that
key. The effects on several keys, DEL, MSET and FLUSHALL, are treated here.

* **`Space.Step x K K'`** — replaying the effect `x` takes the keyspace `K` to `K'`, at any clock,
  under the conditions of `Reg.Step`.
* **`Space.Follow now builds E K K'`** — a keyspace that is `Behind` `K`, that is, equal to it up to
  dead keys, follows `K` to `K'` when the effects `E` are replayed: every key comes to agree, or is
  touched on neither side. In particular `E` takes `K` itself to `K'` (`Follow.exact`).
* **`Space.follow_handler`** — the effects a write logs make the keyspace before it follow to the
  keyspace after it. -/

namespace KvStore

open Commands List Prog

/-- No empty collection is stored. -/
def Keyspace.NoEmpty (K : Keyspace) : Prop := ∀ key, Reg.finish (K key) = K key

def Keyspace.without (keys : List Str) (K : Keyspace) : Keyspace :=
  fun key => if key ∈ keys then none else K key

theorem Keyspace.without_cons (key : Str) (keys : List Str) (K : Keyspace) :
    K.without (key :: keys) = Keyspace.without keys (Function.update K key none) := by
  funext k
  by_cases hk : k = key <;> simp [Keyspace.without, hk]

@[simp] theorem Keyspace.without_nil (K : Keyspace) : K.without [] = K := by
  funext k
  simp [Keyspace.without]

/-- Removing keys leaves no empty collection. -/
theorem Keyspace.NoEmpty.without {K : Keyspace} (h : K.NoEmpty) (keys : List Str) :
    (K.without keys).NoEmpty := by
  intro key
  by_cases hkey : key ∈ keys
  · simp [Keyspace.without, hkey]
  · simpa [Keyspace.without, hkey] using h key

/-- Changing one key to something kept leaves no empty collection. -/
theorem Keyspace.NoEmpty.update {K : Keyspace} (h : K.NoEmpty) {key : Str} {c : Option Item}
    (hc : Reg.finish c = c) : Keyspace.NoEmpty (Function.update K key c) := by
  intro k
  by_cases hk : k = key
  · simpa [hk] using hc
  · simpa [hk] using h k

namespace Space

/-- The empty collections at these keys are not kept. -/
def finishAll (keys : List Str) (K : Keyspace) : Keyspace :=
  keys.foldl (fun K key => Function.update K key (Reg.finish (K key))) K

/-- Nothing changes where nothing is empty. -/
theorem finishAll_eq {K : Keyspace} (h : K.NoEmpty) (keys : List Str) : finishAll keys K = K := by
  induction keys with
  | nil => rfl
  | cons key rest ih => simpa [finishAll, h key] using ih

variable [CPython]

/-- Replay an effect. -/
def apply (env : Env) (m : Mode) (x : Effect) (K : Keyspace) : Except KvError Keyspace :=
  match x.program.run (exec env m) ⟨K, []⟩ with
  | (.ok _, sp) => .ok (finishAll (x.command.keyArgs x.args) sp.keys)
  | (.error err, _) => .error err

/-- **Replaying `x` takes `K` to `K'`.** -/
structure Step (x : Effect) (K K' : Keyspace) : Prop where
  write : x.command.spec.write = true
  /-- The abstract machine has the engine's meaning for it. -/
  plain : x.program.Uses Op.Plain
  apply_eq : ∀ env m, m.expiry = false → x.Fresh m env.now → x.Readable →
    apply env m x K = .ok K'

/-! ## Following -/

omit [CPython] in
/-- Equal up to dead keys: `L` may have, or lack, a key that is dead in `K`. A key that is absent in
`K` and about to be built on is absent in `L` too. -/
def Behind (now : Nat) (builds : Str → Prop) (L K : Keyspace) : Prop :=
  ∀ key, L key = K key ∨
    Reg.Dead now (K key) ∧ (K key = none → builds key → L key = none)

omit [CPython] in
/-- Going from `L` to `L'`, every key comes to agree with `K'`, or is left alone on both sides. -/
def Comes (L L' K K' : Keyspace) : Prop :=
  ∀ key, L' key = K' key ∨ L' key = L key ∧ K' key = K key

/-- Replaying `E`, every keyspace behind `K` comes to `K'`. -/
def Leads (now : Nat) (builds : Str → Prop) (E : List Effect) (K K' : Keyspace) : Prop :=
  ∀ L : Keyspace, L.NoEmpty → Behind now builds L K → ∃ L', Runs Step E L L' ∧ Comes L L' K K'

/-- **Replaying `E`, every keyspace behind `K` follows to `K'`**, and replaying the first few of them
it follows to some keyspace on the way. -/
structure Follow (now : Nat) (builds : Str → Prop) (E : List Effect) (K K' : Keyspace) : Prop where
  all : ∀ L : Keyspace, L.NoEmpty → Behind now builds L K →
    ∃ L', Runs Step E L L' ∧ L'.NoEmpty ∧ Comes L L' K K'
  some : ∀ E₁, E₁ <+: E → ∃ K₁, Leads now builds E₁ K K₁

section Follow

variable {now : Nat} {builds : Str → Prop} {E E' : List Effect} {K K' K'' : Keyspace}

section

omit [CPython]

theorem behind_refl (now : Nat) (builds : Str → Prop) (K : Keyspace) : Behind now builds K K :=
  fun _ => .inl rfl

theorem Behind.follow {L L' : Keyspace} (h : Behind now builds L K) (hL : Comes L L' K K') :
    Behind now builds L' K' := by
  intro key
  rcases hL key with hagree | ⟨hL', hK'⟩
  · exact .inl hagree
  · rw [hL', hK']
    exact h key

theorem Comes.trans {L L' L'' : Keyspace} (h : Comes L L' K K') (h' : Comes L' L'' K' K'') :
    Comes L L'' K K'' := by
  intro key
  rcases h' key with hsame | ⟨hL'', hK''⟩
  · exact .inl hsame
  · rw [hL'', hK'']
    exact h key

end

theorem Leads.refl (K : Keyspace) : Leads now builds [] K K :=
  fun L _ _ => ⟨L, .nil L, fun _ => .inr ⟨rfl, rfl⟩⟩

theorem Follow.leads (h : Follow now builds E K K') : Leads now builds E K K' := by
  intro L hL hbehind
  obtain ⟨L', hruns, -, hcomes⟩ := h.all L hL hbehind
  exact ⟨L', hruns, hcomes⟩

theorem follow_of_length_le_one (hE : E.length ≤ 1)
    (h : ∀ L : Keyspace, L.NoEmpty → Behind now builds L K →
      ∃ L', Runs Step E L L' ∧ L'.NoEmpty ∧ Comes L L' K K') : Follow now builds E K K' := by
  refine ⟨h, fun E₁ hE₁ => ?_⟩
  rcases eq_or_ne E₁ [] with rfl | hne
  · exact ⟨K, .refl K⟩
  · have hlength := length_pos_iff.mpr hne
    obtain rfl := hE₁.eq_of_length_le (by omega)
    refine ⟨K', fun L hL hbehind => ?_⟩
    obtain ⟨L', hruns, -, hcomes⟩ := h L hL hbehind
    exact ⟨L', hruns, hcomes⟩

theorem Follow.refl (K : Keyspace) : Follow now builds [] K K :=
  follow_of_length_le_one (Nat.zero_le 1) fun L hL _ =>
    ⟨L, .nil L, hL, fun _ => .inr ⟨rfl, rfl⟩⟩

/-- **One thing after the other.** -/
theorem Follow.trans (h : Follow now builds E K K') (h' : Follow now builds E' K' K'') :
    Follow now builds (E ++ E') K K'' := by
  refine ⟨fun L hL hbehind => ?_, fun E₁ hE₁ => ?_⟩
  · obtain ⟨L', hruns, hL', hcomes⟩ := h.all L hL hbehind
    obtain ⟨L'', hruns', hL'', hcomes'⟩ := h'.all L' hL' (hbehind.follow hcomes)
    exact ⟨L'', hruns.append hruns', hL'', hcomes.trans hcomes'⟩
  · rcases prefix_append_cases hE₁ with hE₁ | ⟨E₂, rfl, hE₂⟩
    · exact h.some E₁ hE₁
    · obtain ⟨K₁, hleads⟩ := h'.some E₂ hE₂
      refine ⟨K₁, fun L hL hbehind => ?_⟩
      obtain ⟨L', hruns, hL', hcomes⟩ := h.all L hL hbehind
      obtain ⟨L'', hruns', hcomes'⟩ := hleads L' hL' (hbehind.follow hcomes)
      exact ⟨L'', hruns.append hruns', hcomes.trans hcomes'⟩

/-- The effects take the keyspace before to the keyspace they lead to. -/
theorem Leads.exact (h : Leads now builds E K K') (hK : K.NoEmpty) : Runs Step E K K' := by
  obtain ⟨L', hruns, hcomes⟩ := h K hK (behind_refl now builds K)
  have hL' : L' = K' := by
    funext key
    rcases hcomes key with hsame | ⟨hL', hK'⟩
    · exact hsame
    · rw [hL', hK']
  exact hL' ▸ hruns

/-- **The effects take the keyspace before to the keyspace after.** -/
theorem Follow.exact (h : Follow now builds E K K') (hK : K.NoEmpty) : Runs Step E K K' :=
  h.leads.exact hK

omit [CPython] in
/-- Something that does the same to some keys of every keyspace, and nothing to the others. -/
theorem comes_of_touched (touched : Str → Prop) (f : Keyspace → Keyspace)
    (hin : ∀ L key, touched key → f L key = f K key)
    (hout : ∀ L key, ¬ touched key → f L key = L key) (L : Keyspace) : Comes L (f L) K (f K) := by
  intro key
  by_cases hkey : touched key
  · exact .inl (hin L key hkey)
  · exact .inr ⟨hout L key hkey, hout K key hkey⟩

end Follow

/-! ## Effects on one key -/

/-- An effect on one key changes that key. -/
theorem Step.of_reg {key : Str} {x : Effect} {K : Keyspace} {c : Option Item}
    (h : Reg.Step key x (K key) c) : Step x K (Function.update K key c) where
  write := h.1.write
  plain := h.1.uses.mono fun _ ho => ho.1
  apply_eq env m hm hfresh hread := by
    have hreg := h.2 env m hm hfresh hread
    simp only [apply, run_at env m h.1.uses, h.1.keys]
    simp only [Reg.apply] at hreg
    split at hreg
    case h_1 heq =>
      rw [Except.ok.injEq] at hreg
      rw [heq]
      simp [finishAll, hreg]
    case h_2 heq => cases hreg

/-- Effects on one key change that key. -/
theorem runs_of_reg {key : Str} {effects : List Effect} {K : Keyspace} {c : Option Item}
    (h : Runs (Reg.Step key) effects (K key) c) :
    Runs Step effects K (Function.update K key c) := by
  have hlift : ∃ K', Runs Step effects K K' ∧ K' = Function.update K key c := by
    refine h.lift (R := fun c K' => K' = Function.update K key c) ?_ (by simp)
    rintro x c c' _ rfl hstep
    refine ⟨Function.update K key c', ?_, rfl⟩
    have hkey : Reg.Step key x (Function.update K key c key) c' := by simpa using hstep
    simpa using Step.of_reg hkey
  obtain ⟨K', hruns, rfl⟩ := hlift
  exact hruns

/-! ## Deletions -/

omit [CPython] in
theorem run_deleteAll {m : Mode} (hm : m.expiry = false) (env : Env) (keys : List Str) (K : Keyspace)
    (out : List Effect) :
    ∃ deleted, (keepIf (fun key => call (.delete key)) keys).run (exec env m) ⟨K, out⟩ =
      (.ok deleted, ⟨K.without keys, out⟩) := by
  induction keys generalizing K with
  | nil => exact ⟨[], by simp [keepIf]⟩
  | cons key rest ih =>
    obtain ⟨deleted, hrun⟩ := ih (Function.update K key none)
    have hexec : (exec env m (.delete key) ⟨K, out⟩).2 = ⟨Function.update K key none, out⟩ := by
      cases hK : K key <;> simp [exec, Reg.exec, Reg.lookup_off hm, hK]
    rw [keepIf, bind_eq, perform_bind, run_op, hexec, K.without_cons]
    split
    · exact ⟨key :: deleted, by simp [run_bind, hrun]⟩
    · exact ⟨deleted, hrun⟩

/-- The operations of a write on several keys. -/
theorem plain_several {c : Command} (args : List Str) (hc : c.spec.keySpec ≠ some singleKey)
    (hw : c.spec.write = true) : (c.handler args).Uses Op.Plain :=
  (c.obeys_several (Q := fun _ => True) args hc hw (fun _ _ => trivial) (fun _ => trivial)
    (fun _ => trivial) fun _ _ _ _ => trivial).uses

theorem step_del {keys : List Str} (hkeys : keys ≠ []) (K : Keyspace) (hK : K.NoEmpty) :
    Step ⟨.del, keys⟩ K (K.without keys) where
  write := rfl
  plain := by
    simp only [Effect.program, bind_eq, uses_ofExcept_bind]
    exact fun _ _ => plain_several keys (by simp [Command.spec, singleKey, allKeys]) rfl
  apply_eq env m hm _ _ := by
    obtain ⟨deleted, hrun⟩ := run_deleteAll hm env keys K []
    have harity : Command.checkArity .del keys = .ok () := by
      cases keys with
      | nil => exact absurd rfl hkeys
      | cons key rest => simp [Command.checkArity, Command.spec]
    have hfinish := finishAll_eq (hK.without keys) (Command.keyArgs .del keys)
    have hlog : ∀ x : Effect, (exec env m (.propagate x) ⟨K.without keys, []⟩).2.keys =
        K.without keys := by
      intro x
      simp [exec]
    simp only [apply, Effect.program, harity, Command.handler, delete, bind_eq,
      ofExcept_ok, ret_bind, run_bind, hrun]
    by_cases hdeleted : deleted = []
    · simp [hdeleted, hfinish]
    · simp [hdeleted, KvStore.propagate, run_op, hlog, hfinish]

theorem runs_del (keys : List Str) (K : Keyspace) :
    Runs Step (keys.map Effect.del) K (K.without keys) := by
  induction keys generalizing K with
  | nil => simp
  | cons key rest ih =>
    rw [K.without_cons]
    exact .cons (Step.of_reg (Reg.step_del key (K key))) (ih _)

omit [CPython] in
/-- What deleting keys does on a primary: those that had expired are deleted and logged one by one,
the others are the keys deleted. -/
theorem run_deleteAll_normal (env : Env) (keys : List Str) (K : Keyspace) (out : List Effect) :
    ∃ gone deleted, (keepIf (fun key => call (.delete key)) keys).run (exec env .normal) ⟨K, out⟩ =
        (.ok deleted, ⟨K.without keys, out ++ gone.map Effect.del⟩) ∧
      Keyspace.without deleted (K.without gone) = K.without keys := by
  induction keys generalizing K out with
  | nil => exact ⟨[], [], by simp [keepIf], by simp⟩
  | cons key rest ih =>
    rw [keepIf, bind_eq, perform_bind, run_op, K.without_cons]
    have hcomm : ∀ ks, Function.update (K.without ks) key none =
        Keyspace.without ks (Function.update K key none) := by
      intro ks
      funext k
      by_cases hk : k = key <;> simp [Keyspace.without, hk]
    cases hK : K key with
    | none =>
      obtain ⟨gone, deleted, hrun, hwithout⟩ := ih (Function.update K key none) out
      have hexec : exec env .normal (.delete key) ⟨K, out⟩ =
          (false, ⟨Function.update K key none, out⟩) := by
        simp [exec, Reg.exec, Reg.lookup, hK]
      have hsame : Function.update K key none = K := by rw [← hK, Function.update_eq_self]
      rw [hexec]
      refine ⟨gone, deleted, hrun, ?_⟩
      rwa [hsame] at hwithout ⊢
    | some item =>
      cases hpassed : passed env.now item.expiresAt with
      | true =>
        obtain ⟨gone, deleted, hrun, hwithout⟩ :=
          ih (Function.update K key none) (out ++ [.del key])
        have hexec : exec env .normal (.delete key) ⟨K, out⟩ =
            (false, ⟨Function.update K key none, out ++ [.del key]⟩) := by
          simp [exec, Reg.exec, Reg.lookup, hK, hpassed, Mode.normal, Reg.propagate]
        rw [hexec]
        exact ⟨key :: gone, deleted, by simp [hrun], by rw [K.without_cons, hwithout]⟩
      | false =>
        obtain ⟨gone, deleted, hrun, hwithout⟩ := ih (Function.update K key none) out
        have hexec : exec env .normal (.delete key) ⟨K, out⟩ =
            (true, ⟨Function.update K key none, out⟩) := by
          simp [exec, Reg.exec, Reg.lookup, hK, hpassed]
        rw [hexec]
        exact ⟨gone, key :: deleted, by simp [run_bind, hrun],
          by rw [Keyspace.without_cons, hcomm, hwithout]⟩

omit [CPython] in
theorem comes_without (keys : List Str) (L K : Keyspace) :
    Comes L (L.without keys) K (K.without keys) :=
  comes_of_touched (· ∈ keys) (Keyspace.without keys)
    (fun _ _ hkey => by simp [Keyspace.without, hkey])
    (fun _ _ hkey => by simp [Keyspace.without, hkey]) L

/-- The deletion of keys one at a time. -/
theorem follow_del (now : Nat) (builds : Str → Prop) (keys : List Str) (K : Keyspace) :
    Follow now builds (keys.map Effect.del) K (K.without keys) := by
  refine ⟨fun L hL _ => ⟨_, runs_del keys L, hL.without keys, comes_without keys L K⟩,
    fun E₁ hE₁ => ?_⟩
  obtain ⟨keys₁, -, rfl⟩ := prefix_map_iff.mp hE₁
  exact ⟨K.without keys₁, fun L _ _ => ⟨_, runs_del keys₁ L, comes_without keys₁ L K⟩⟩

/-- **What a deletion logs.** -/
theorem follow_delete (env : Env) (builds : Str → Prop) (keys : List Str) (K : Keyspace) :
    ∃ reply E, (delete keys).run (exec env .normal) ⟨K, []⟩ = (.ok reply, ⟨K.without keys, E⟩) ∧
      Follow env.now builds E K (K.without keys) := by
  obtain ⟨gone, deleted, hrun, hwithout⟩ := run_deleteAll_normal env keys K []
  have hgone := follow_del env.now builds gone K
  simp only [delete, bind_eq, run_bind, hrun]
  by_cases hdeleted : deleted = []
  · rw [hdeleted, Keyspace.without_nil] at hwithout
    simp only [hdeleted, if_true]
    exact ⟨_, _, rfl, hwithout ▸ hgone⟩
  · simp only [hdeleted, if_false]
    refine ⟨_, gone.map Effect.del ++ [⟨.del, deleted⟩], rfl, ?_⟩
    rw [← hwithout]
    exact hgone.trans (follow_of_length_le_one le_rfl fun L hL _ =>
      ⟨_, .single (step_del hdeleted L hL), hL.without deleted, comes_without deleted L _⟩)

/-! ## Writing several keys -/

/-- The keyspace with texts written to some keys. -/
def setAll (entries : List (Str × Str)) (K : Keyspace) : Keyspace :=
  entries.foldl (fun K (key, value) => Function.update K key (some ⟨.str value, none⟩)) K

omit [CPython] in
theorem noEmpty_setAll (entries : List (Str × Str)) {K : Keyspace} (h : K.NoEmpty) :
    (setAll entries K).NoEmpty := by
  induction entries generalizing K with
  | nil => exact h
  | cons entry rest ih => exact ih (h.update (Reg.finish_str _ _))

omit [CPython] in
theorem run_msetLoop (env : Env) (m : Mode) (entries : List (Str × Str)) (K : Keyspace)
    (out : List Effect) :
    (msetLoop entries).run (exec env m) ⟨K, out⟩ = (.ok (), ⟨setAll entries K, out⟩) := by
  induction entries generalizing K with
  | nil => rfl
  | cons entry rest ih => exact ih _

theorem step_mset {args : List Str} (harity : Command.checkArity .mset args = .ok ())
    (heven : ¬ args.length % 2 = 1) {K : Keyspace} (hK : K.NoEmpty) :
    Step ⟨.mset, args⟩ K (setAll (pairs args) K) where
  write := rfl
  plain := by
    simp only [Effect.program, bind_eq, uses_ofExcept_bind]
    exact fun _ _ => plain_several args (by simp [Command.spec, singleKey, everyOtherKey]) rfl
  apply_eq env m hm _ _ := by
    have hfinish := finishAll_eq (noEmpty_setAll (pairs args) hK) (Command.keyArgs .mset args)
    simp [apply, Effect.program, harity, Command.handler, mset, heven, run_bind, run_msetLoop,
      KvStore.propagate, run_op, exec, hfinish]

theorem step_flushall (K : Keyspace) : Step ⟨.flushall, []⟩ K fun _ => none where
  write := rfl
  plain := by simp [Effect.program, Command.handler, flushall, KvStore.propagate]
  apply_eq env m hm _ _ := by
    simp [apply, Effect.program, Command.checkArity, Command.spec, Command.handler, flushall,
      KvStore.propagate, run_op, exec, Command.keyArgs, finishAll]

/-! ## Handlers -/

omit [CPython] in
/-- Where texts are written, the same is written everywhere. -/
theorem setAll_apply (entries : List (Str × Str)) (K L : Keyspace) (key : Str) :
    setAll entries L key = setAll entries K key ∨
      setAll entries L key = L key ∧ setAll entries K key = K key := by
  induction entries generalizing K L with
  | nil => exact .inr ⟨rfl, rfl⟩
  | cons entry rest ih =>
    rcases ih (Function.update K entry.1 (some ⟨.str entry.2, none⟩))
      (Function.update L entry.1 (some ⟨.str entry.2, none⟩)) with hsame | ⟨hL, hK⟩
    · exact .inl hsame
    · by_cases hkey : key = entry.1
      · refine .inl (hL.trans (Eq.trans ?_ hK.symm))
        simp [hkey]
      · refine .inr ⟨hL.trans ?_, hK.trans ?_⟩ <;> simp [hkey]

theorem follow_handler_many {c : Command} {args : List Str} (env : Env) (builds : Str → Prop)
    (hc : c.spec.keySpec ≠ some singleKey) (hw : c.spec.write = true)
    (harity : c.checkArity args = .ok ()) {K : Keyspace} (hK : K.NoEmpty) :
    ((c.handler args).run (exec env .normal) ⟨K, []⟩).2.keys.NoEmpty ∧
      Follow env.now builds ((c.handler args).run (exec env .normal) ⟨K, []⟩).2.out K
        ((c.handler args).run (exec env .normal) ⟨K, []⟩).2.keys := by
  have hdelete : ((delete args).run (exec env .normal) ⟨K, []⟩).2.keys.NoEmpty ∧
      Follow env.now builds ((delete args).run (exec env .normal) ⟨K, []⟩).2.out K
        ((delete args).run (exec env .normal) ⟨K, []⟩).2.keys := by
    obtain ⟨reply, E, hrun, hfollow⟩ := follow_delete env builds args K
    rw [hrun]
    exact ⟨hK.without args, hfollow⟩
  have hflush : ((flushall args).run (exec env .normal) ⟨K, []⟩).2.keys.NoEmpty ∧
      Follow env.now builds ((flushall args).run (exec env .normal) ⟨K, []⟩).2.out K
        ((flushall args).run (exec env .normal) ⟨K, []⟩).2.keys := by
    unfold flushall
    split
    · exact ⟨hK, .refl K⟩
    · refine ⟨fun _ => rfl, ?_⟩
      exact follow_of_length_le_one le_rfl fun L _ _ =>
        ⟨_, .single (step_flushall L), fun _ => rfl, fun _ => .inl rfl⟩
  cases c <;> simp only [Command.spec, Bool.false_eq_true] at hw <;>
    simp only [Command.spec, ne_eq, not_true_eq_false] at hc <;>
    simp only [Command.handler]
  case del | unlink => exact hdelete
  case flushall | flushdb => exact hflush
  case mset =>
    unfold mset
    split
    case isTrue hodd => exact ⟨hK, .refl K⟩
    case isFalse heven =>
      simp only [bind_eq, run_bind, run_msetLoop]
      refine ⟨noEmpty_setAll _ hK, follow_of_length_le_one le_rfl fun L hL _ => ?_⟩
      exact ⟨_, .single (step_mset harity heven hL), noEmpty_setAll _ hL, setAll_apply _ K L⟩

theorem follow_handler_one {c : Command} {key : Str} {rest : List Str} (env : Env)
    (hc : c.spec.keySpec = some singleKey) (hw : c.spec.write = true)
    (harity : c.checkArity (key :: rest) = .ok ()) (hreal : c.Real (key :: rest)) {K : Keyspace}
    (hK : K.NoEmpty) :
    Follow env.now (fun k => k = key ∧ c.builds (key :: rest) = true)
      ((c.handler (key :: rest)).run (Reg.exec env .normal key) ⟨K key, []⟩).2.out K
      (Function.update K key (Reg.finish
        ((c.handler (key :: rest)).run (Reg.exec env .normal key) ⟨K key, []⟩).2.cur)) := by
  have hfaithful : Runs (Reg.Step key) _ (K key) _ :=
    c.faithful_handler env hc hw harity hreal (hK key)
  -- the first effects, wherever they take the register
  have hfirst : ∀ {E₁ : List Effect} {after : Option Item},
      E₁ <+: ((c.handler (key :: rest)).run (Reg.exec env .normal key) ⟨K key, []⟩).2.out →
      Runs (Reg.Step key) E₁ (K key) after → ∀ L : Keyspace,
      Behind env.now (fun k => k = key ∧ c.builds (key :: rest) = true) L K →
      ∃ start, Runs Step E₁ L (Function.update L key start) ∧ (start = after ∨ start = L key) ∧
        Comes L (Function.update L key start) K (Function.update K key after) := by
    intro E₁ after hE₁ hruns L hbehind
    obtain ⟨start, hstart, hagree⟩ := c.runs_from env hc hw hreal
      ((hbehind key).imp_right fun ⟨hdead, hbuild⟩ => ⟨hdead, fun h hb => hbuild h ⟨rfl, hb⟩⟩)
      hE₁ hruns
    refine ⟨start, runs_of_reg hstart, hagree.imp_right And.left, fun k => ?_⟩
    by_cases hk : k = key
    · subst hk
      simpa using hagree
    · exact .inr (by simp [hk])
  refine ⟨fun L hL hbehind => ?_, fun E₁ hE₁ => ?_⟩
  · obtain ⟨start, hruns, hstart, hcomes⟩ := hfirst (prefix_refl _) hfaithful L hbehind
    refine ⟨_, hruns, hL.update ?_, hcomes⟩
    rcases hstart with rfl | rfl
    · exact Reg.finish_finish _
    · exact hL key
  · obtain ⟨E₂, hE₂⟩ := hE₁
    obtain ⟨after, hruns, -⟩ := Runs.append_iff.mp (hE₂ ▸ hfaithful)
    refine ⟨Function.update K key after, fun L _ hbehind => ?_⟩
    obtain ⟨start, hruns, -, hcomes⟩ := hfirst ⟨E₂, hE₂⟩ hruns L hbehind
    exact ⟨_, hruns, hcomes⟩

/-- **A write is followed by replaying what it logs.** -/
theorem follow_handler {c : Command} {args : List Str} (env : Env) (hw : c.spec.write = true)
    (harity : c.checkArity args = .ok ()) (hreal : c.Real args) {K : Keyspace} (hK : K.NoEmpty) :
    (c.handler args).Uses Op.Plain ∧
      (finishAll (c.keyArgs args) ((c.handler args).run (exec env .normal) ⟨K, []⟩).2.keys).NoEmpty ∧
      Follow env.now (fun key => key ∈ c.keyArgs args ∧ c.builds args = true)
        ((c.handler args).run (exec env .normal) ⟨K, []⟩).2.out K
        (finishAll (c.keyArgs args)
          ((c.handler args).run (exec env .normal) ⟨K, []⟩).2.keys) := by
  by_cases hc : c.spec.keySpec = some singleKey
  · obtain ⟨key, rest, rfl, hkeys⟩ := c.exists_key hc harity
    have huses := c.uses_handler rest hc hreal
    refine ⟨huses.mono fun _ ho => ho.1, ?_⟩
    simp only [run_at env .normal huses, hkeys, finishAll, foldl_cons, foldl_nil,
      Function.update_self, Function.update_idem, mem_singleton]
    exact ⟨hK.update (Reg.finish_finish _), follow_handler_one env hc hw harity hreal hK⟩
  · obtain ⟨hempty, hfollow⟩ := follow_handler_many env _ hc hw harity hK
    refine ⟨plain_several args hc hw, ?_⟩
    rw [finishAll_eq hempty]
    exact ⟨hempty, hfollow⟩

end Space

end KvStore
