import KvStore.Cluster.Migration
import KvStore.Engine.Frames
import KvStore.Engine.Lifecycle
import KvStore.Engine.Reference

/-! # Where a redirection sends a command

While keys move, a source answers ASK for a command whose keys are all gone. It names the group of the
*first* of them.

* **`Engine.present`** — whether a key is here. Looking keys up can expire them, which changes the answer
  for none of them (`present_lookup`).
* **`KeyMigration.gone_spec`** — the keys that are gone: those that are not here and belong elsewhere.
* **`KeyMigration.check_spec`** — the four ways a check ends.
* **`KeyMigration.ask_sends_home_iff`** — a redirection names the group of all the keys exactly if the target
  ring places the keys that are gone together. Where they belong to two groups it does not
  (`ask_scatters`). -/

namespace KvStore

open List

namespace Engine

variable {σ : Type} [EvictionPolicy σ]

/-- Whether a key is here: `store.peek(key) is not None`. -/
def present (now : Nat) (key : Str) (e : Engine σ) : Bool := (e.lookup now key).1.isSome

/-- A key is here if it has an entry that is not hidden. -/
theorem present_eq (now : Nat) (key : Str) (e : Engine σ) :
    e.present now key =
      (e.store.data.get? key).any fun entry => !(e.store.expiryEnabled && entry.isExpired now) := by
  unfold present lookup
  cases e.store.data.get? key with
  | none => rfl
  | some entry =>
    simp only [Option.any_some]
    cases e.store.expiryEnabled && entry.isExpired now <;> rfl

/-- Whether a key is here depends on its entry and the switch of expiry. -/
theorem present_congr {now : Nat} {key : Str} {e e' : Engine σ}
    (hcontent : e'.store.content key = e.store.content key)
    (hexpiry : e'.store.expiryEnabled = e.store.expiryEnabled) :
    e'.present now key = e.present now key := by
  rw [present_eq, present_eq]
  cases hget : e.store.data.get? key with
  | none =>
    have hnone : e'.store.data.get? key = none := by
      rwa [← Store.content_eq_none, hcontent, Store.content_eq_none]
    rw [hnone]
    rfl
  | some entry =>
    obtain ⟨entry', hget', hsame⟩ := Store.content_eq_some hget hcontent
    have hdeadline : entry'.expiresAt = entry.expiresAt := congrArg (·.2.1) hsame
    rw [hget', Option.any_some, Option.any_some, hexpiry, Entry.isExpired, Entry.isExpired,
      hdeadline]

/-- **Looking a key up** does not change which keys are here. -/
theorem present_lookup (now : Nat) (key k : Str) (e : Engine σ) :
    (e.lookup now key).2.present now k = e.present now k := by
  have hflags := (eq_of_flags (phase_expire key e).flags).2.1
  unfold lookup
  split
  · rfl
  case h_2 entry hget =>
    split
    case isFalse => rfl
    case isTrue hexpired =>
      split
      case isFalse => rfl
      case isTrue hdeletes =>
        -- the key is removed, which was hidden before
        have hdata : (e.expire key).store.data = (e.store.remove key).data := by
          rw [expire, store_propagate]
          rfl
        by_cases hk : k = key
        · subst hk
          have hgone : (e.store.remove k).data.get? k = none := Store.get?_remove_self k e.store
          rw [present_eq, present_eq, hdata, hgone, hget, Option.any_some, hexpired]
          rfl
        · refine present_congr ?_ hflags
          rw [Store.content, hdata]
          exact (Store.content_remove key k e.store).trans (if_neg hk)

end Engine

namespace KeyMigration

variable [Digest] {σ : Type} [EvictionPolicy σ] {m : KeyMigration} {now : Nat} {e : Engine σ}

/-- A key that is not here, and whose destination is elsewhere. -/
def Gone (m : KeyMigration) (now : Nat) (e : Engine σ) (key : Str) : Prop :=
  e.present now key = false ∧ ∃ destination, m.destination key = .ok (some destination)

omit [EvictionPolicy σ] in
/-- A destination is what the ring and the plan say. -/
theorem destination_eq_some {key : Str} {destination : Str × Address}
    (h : m.destination key = .ok (some destination)) :
    m.ring.owner key = .ok destination.1 ∧
      m.plan.targets.lookup destination.1 = some destination.2 := by
  unfold KeyMigration.destination at h
  cases howner : m.ring.owner key with
  | error err => simp [howner, bind, Except.bind] at h
  | ok shard =>
    simp only [howner, bind, Except.bind] at h
    split at h
    · cases h
    · split at h
      · cases h
      case h_2 address hlookup =>
        cases h
        exact ⟨rfl, hlookup⟩

/-- A key that stays is one that the ring places here. -/
theorem owner_of_destination_none {key : Str} (h : m.destination key = .ok none) :
    m.ring.owner key = .ok m.plan.shard := by
  unfold KeyMigration.destination at h
  cases howner : m.ring.owner key with
  | error err => simp [howner, bind, Except.bind] at h
  | ok shard =>
    simp only [howner, bind, Except.bind] at h
    split at h
    case isTrue heq => rw [heq]
    case isFalse => split at h <;> cases h

/-- **The keys that are gone** are a part of those asked for; the others are here, or stay. -/
theorem gone_spec {keys gone : List Str} {e' : Engine σ} (h : m.gone now keys e = (.ok gone, e')) :
    gone.Sublist keys ∧ (∀ key ∈ gone, m.Gone now e key) ∧
      (gone = [] → ∀ key ∈ keys, e.present now key = true ∨ m.destination key = .ok none) := by
  induction keys generalizing e gone with
  | nil =>
    cases h
    simp
  | cons key keys ih =>
    have hkeep := fun k => Engine.present_lookup now key k e
    unfold KeyMigration.gone at h
    split at h
    case h_1 entry e₁ hlookup =>
      -- the key is here
      rw [hlookup] at hkeep
      obtain ⟨hsub, hgone, hrest⟩ := ih h
      have hpresent : e.present now key = true := by rw [Engine.present, hlookup]; rfl
      refine ⟨hsub.cons _, fun k hk => ?_, fun hnil k hk => ?_⟩
      · exact ⟨(hkeep k) ▸ (hgone k hk).1, (hgone k hk).2⟩
      · rcases mem_cons.mp hk with rfl | hk
        · exact .inl hpresent
        · exact (hrest hnil k hk).imp_left fun hk' => (hkeep k) ▸ hk'
    case h_2 e₁ hlookup =>
      rw [hlookup] at hkeep
      have habsent : e.present now key = false := by rw [Engine.present, hlookup]; rfl
      split at h
      · cases h
      case h_2 hdestination =>
        -- it is not here, but it stays
        obtain ⟨hsub, hgone, hrest⟩ := ih h
        refine ⟨hsub.cons _, fun k hk => ?_, fun hnil k hk => ?_⟩
        · exact ⟨(hkeep k) ▸ (hgone k hk).1, (hgone k hk).2⟩
        · rcases mem_cons.mp hk with rfl | hk
          · exact .inr hdestination
          · exact (hrest hnil k hk).imp_left fun hk' => (hkeep k) ▸ hk'
      case h_3 destination hdestination =>
        -- it is gone
        cases hrest : m.gone now keys e₁ with
        | mk result e₂ =>
          cases result with
          | error err => simp [hrest, Except.map] at h
          | ok rest =>
            simp only [hrest, Except.map, Prod.mk.injEq, Except.ok.injEq] at h
            obtain ⟨rfl, rfl⟩ := h
            obtain ⟨hsub, hgone, -⟩ := ih hrest
            refine ⟨hsub.cons_cons _, fun k hk => ?_, by simp⟩
            rcases mem_cons.mp hk with rfl | hk
            · exact ⟨habsent, destination, hdestination⟩
            · exact ⟨(hkeep k) ▸ (hgone k hk).1, (hgone k hk).2⟩

/-- All the keys of a command that are gone. -/
theorem gone_eq_all {keys : List Str} (h : ∀ key ∈ keys, m.Gone now e key) :
    ∃ e', m.gone now keys e = (.ok keys, e') := by
  induction keys generalizing e with
  | nil => exact ⟨e, rfl⟩
  | cons key keys ih =>
    obtain ⟨habsent, destination, hdestination⟩ := h key mem_cons_self
    have hkeep := fun k => Engine.present_lookup now key k e
    rcases hlookup : e.lookup now key with ⟨found, e₁⟩
    rw [hlookup] at hkeep
    obtain rfl : found = none := by
      rw [Engine.present, hlookup] at habsent
      exact Option.isSome_eq_false_iff.mp habsent |> Option.isNone_iff_eq_none.mp
    obtain ⟨e₂, hrest⟩ := ih (e := e₁) fun k hk => by
      obtain ⟨hk', hd⟩ := h k (mem_cons_of_mem _ hk)
      exact ⟨(hkeep k).trans hk', hd⟩
    refine ⟨e₂, ?_⟩
    simp only [KeyMigration.gone, hlookup, hdestination, hrest]
    rfl

/-- The keys a command is checked by; a command that is not known has none. -/
def checkedKeys (c : Option Command) (args : List Str) : List Str :=
  (c.map fun c => c.keyArgs args).getD []

/-- **What a redirection promises**: the keys are not here and not on their way, and they belong to the group
that is named, at the address that is named. -/
structure SendsHome (m : KeyMigration) (now : Nat) (keys : List Str) (e : Engine σ)
    (destination : Str × Address) : Prop where
  absent : ∀ key ∈ keys, e.present now key = false
  settled : ∀ key ∈ keys, key ∉ m.inFlight
  placed : ∀ key ∈ keys, m.ring.owner key = .ok destination.1
  address : m.plan.targets.lookup destination.1 = some destination.2

/-- **How a check ends**: with TRYAGAIN or an error of the ring, with leave to run, or with a redirection to
the group of the first of the keys, which are all gone. -/
theorem check_spec (m : KeyMigration) (now : Nat) (e : Engine σ) (c : Option Command) (args : List Str) :
    (∃ err, (m.check now c args e).1 = .error err ∧ ∀ err', err = .refused err' → err'.cls = .tryAgain) ∨
    ((m.check now c args e).1 = .ok () ∧ ∀ key ∈ checkedKeys c args,
      (e.present now key = true ∧ key ∉ m.inFlight) ∨ m.ring.owner key = .ok m.plan.shard) ∨
    ∃ key rest destination, checkedKeys c args = key :: rest ∧
      (∀ k ∈ key :: rest, m.Gone now e k ∧ k ∉ m.inFlight) ∧
      m.destination key = .ok (some destination) ∧
      (m.check now c args e).1 = .error (.refused (askRedirect destination)) := by
  cases c with
  | none => exact .inr (.inl ⟨rfl, fun key hkey => absurd hkey (by simp [checkedKeys])⟩)
  | some c =>
    show _ ∨ _ ∨ ∃ key rest destination, c.keyArgs args = key :: rest ∧ _
    unfold check
    simp only
    split
    case isTrue => exact .inl ⟨_, rfl, by rintro err' ⟨⟩; rfl⟩
    case isFalse hflight =>
      have hsettled : ∀ key ∈ c.keyArgs args, key ∉ m.inFlight := by
        simpa using hflight
      split
      case h_1 err e' hgone => exact .inl ⟨_, rfl, nofun⟩
      case h_2 e' hgone =>
        refine .inr (.inl ⟨rfl, fun key hkey => ?_⟩)
        rcases (gone_spec hgone).2.2 rfl key hkey with hpresent | hstays
        · exact .inl ⟨hpresent, hsettled key hkey⟩
        · exact .inr (owner_of_destination_none hstays)
      case h_3 key rest e' hgone =>
        obtain ⟨hsub, hall, -⟩ := gone_spec hgone
        split
        case isTrue => exact .inl ⟨_, rfl, by rintro err' ⟨⟩; rfl⟩
        case isFalse hlength =>
          -- as many keys are gone as there are: they are the keys
          have hkeys : key :: rest = c.keyArgs args :=
            hsub.eq_of_length (le_antisymm hsub.length_le (not_lt.mp hlength))
          obtain ⟨-, destination, hdestination⟩ := hall key mem_cons_self
          refine .inr (.inr ⟨key, rest, destination, hkeys.symm, fun k hk => ?_, hdestination, ?_⟩)
          · exact ⟨hall k hk, hsettled k (hkeys ▸ hk)⟩
          · rw [hdestination]

/-- A command whose keys are all gone is sent to the group of the first. -/
theorem check_gone {c : Option Command} {args : List Str} {key : Str} {rest : List Str}
    (hkeys : checkedKeys c args = key :: rest)
    (hgone : ∀ k ∈ key :: rest, m.Gone now e k ∧ k ∉ m.inFlight) :
    ∃ destination, (m.check now c args e).1 = .error (.refused (askRedirect destination)) := by
  cases c with
  | none => cases hkeys
  | some c =>
    obtain ⟨-, destination, hdestination⟩ := (hgone key mem_cons_self).1
    obtain ⟨e', hall⟩ := gone_eq_all fun k hk => (hgone k hk).1
    have hsettled : ¬ (key :: rest).any (fun k => decide (k ∈ m.inFlight)) = true := by
      simpa using ⟨(hgone key mem_cons_self).2, fun k hk => (hgone k (mem_cons_of_mem _ hk)).2⟩
    refine ⟨destination, ?_⟩
    change c.keyArgs args = key :: rest at hkeys
    simp only [check, hkeys, if_neg hsettled, hall, lt_irrefl, if_false, hdestination]

/-- **ASK sends a command only where all its keys belong, exactly if the keys that are gone belong together.**
For a command that is let run, every key is here and not on its way, or stays with this group. -/
theorem ask_sends_home_iff (m : KeyMigration) (now : Nat) (c : Option Command) (args : List Str)
    (e : Engine σ) :
    ((∀ err, (m.check now c args e).1 = .error (.refused err) → err.cls = .askRedirect →
        ∃ destination, err = askRedirect destination ∧
          m.SendsHome now (checkedKeys c args) e destination) ∧
      ((m.check now c args e).1 = .ok () → ∀ key ∈ checkedKeys c args,
        (e.present now key = true ∧ key ∉ m.inFlight) ∨ m.ring.owner key = .ok m.plan.shard)) ↔
    ((∀ key ∈ checkedKeys c args, m.Gone now e key ∧ key ∉ m.inFlight) →
      ∃ group, ∀ key ∈ checkedKeys c args, m.ring.owner key = .ok group) := by
  rcases check_spec m now e c args with
    ⟨err, hcheck, hretry⟩ | ⟨hcheck, hrun⟩ | ⟨key, rest, destination, hkeys, hgone, hfirst, hcheck⟩
  · -- nothing is sent or run; keys that are all gone would have been sent
    refine iff_of_true ⟨fun err herr hask => ?_, fun hok => ?_⟩ fun hgone => ?_
    · rw [hcheck, Except.error.injEq] at herr
      rw [hretry err herr] at hask
      cases hask
    · rw [hcheck] at hok
      cases hok
    · cases hkeys : checkedKeys c args with
      | nil => exact ⟨[], nofun⟩
      | cons key rest =>
        rw [hkeys] at hgone
        obtain ⟨destination, hask⟩ := check_gone hkeys hgone
        rw [hcheck, Except.error.injEq] at hask
        cases hretry _ hask
  · refine iff_of_true ⟨fun err herr => ?_, fun _ => hrun⟩ fun hgone => ?_
    · rw [hcheck] at herr
      cases herr
    · refine ⟨m.plan.shard, fun key hkey => (hrun key hkey).resolve_left fun hpresent => ?_⟩
      rw [(hgone key hkey).1.1] at hpresent
      cases hpresent.1
  · -- the destination is that of the first key
    obtain ⟨howner, haddress⟩ := destination_eq_some hfirst
    rw [hcheck, hkeys]
    constructor
    · rintro ⟨hsends, -⟩ -
      obtain ⟨d, -, hhome⟩ := hsends _ rfl rfl
      exact ⟨d.1, hhome.placed⟩
    · intro htogether
      obtain ⟨group, hgroup⟩ := htogether hgone
      have hsame : group = destination.1 := by
        have := (hgroup key mem_cons_self).symm.trans howner
        exact Except.ok.inj this
      refine ⟨fun err herr _ => ⟨destination, ?_, ?_⟩, nofun⟩
      · cases herr
        rfl
      · exact ⟨fun k hk => (hgone k hk).1.1, fun k hk => (hgone k hk).2, hsame ▸ hgroup, haddress⟩

omit [Digest] in
/-- **The keys of one command that moved to two groups**: with both gone, the command is sent to the group of
the first, to which the second does not belong. -/
theorem ask_scatters :
    letI := Digest.sample
    ∃ m, KeyMigration.start ⟨text "1", 1, [(text "1", localNode 1), (text "2", localNode 2),
        (text "3", localNode 3)]⟩ = .ok m ∧
      (m.check 0 (some .mget) [text "h", text "a"]
          (Engine.new (Engine.plainConfig Engine.allLow) (Env.quiet 0) none)).1 =
        .error (.refused (askRedirect (text "2", localNode 2))) ∧
      m.ring.owner (text "a") = .ok (text "3") := by
  exact ⟨_, rfl, rfl, rfl⟩

end KeyMigration

end KvStore
