import GraphitBroker.RealtimeHub

/-!
# The owners of publication slots

Slots, publication identities and end reasons are three views of one fact.
-/

namespace GraphitBroker

namespace Hub

variable {S : Type} {d d' d'' : Hub S}

@[simp]
theorem signal_slots (d : Hub S) (project : Str) : (d.signal project).slots = d.slots := by
  unfold signal
  split <;> rfl

@[simp]
theorem signal_groups (d : Hub S) (project : Str) : (d.signal project).groups = d.groups := by
  unfold signal
  split <;> rfl

@[simp]
theorem signal_publications (d : Hub S) (project : Str) :
    (d.signal project).publications = d.publications := by
  unfold signal
  split <;> rfl

@[simp]
theorem signal_phase (d : Hub S) (project : Str) : (d.signal project).phase = d.phase := by
  unfold signal
  split <;> rfl

theorem getElem?_finish (d : Hub S) (identity i : Nat) (reason : RealtimeHubError) :
    (d.finish identity reason).publications[i]? =
      if identity = i then (d.publications[i]?).map fun p => { p with ended := some reason }
      else d.publications[i]? := by
  rw [finish, List.getElem?_modify]
  split_ifs <;> simp

theorem endReason_eq_some {i : Nat} {r : RealtimeHubError} :
    d.endReason i = some r ↔ ∃ p, d.publications[i]? = some p ∧ p.ended = some r :=
  Option.bind_eq_some_iff

structure Paired (d : Hub S) : Prop where
  slot : ∀ k s, d.slots.get? k = some s →
    s.channel.key = k ∧ d.publications[s.identity]? = some ⟨s.channel, none⟩
  owner : ∀ (i : Nat) c, d.publications[i]? = some ⟨c, none⟩ →
    ∃ s, d.slots.get? c.key = some s ∧ s.identity = i
  shut : d.phase = .closed → d.slots = .empty ∧ d.groups = .empty

/-- Different slots have different identities. -/
theorem Paired.key_eq (h : d.Paired) {k k' : ChannelKey} {s s' : Slot S}
    (hs : d.slots.get? k = some s) (hs' : d.slots.get? k' = some s')
    (hidentity : s.identity = s'.identity) : k = k' := by
  obtain ⟨rfl, hpublication⟩ := h.slot k s hs
  obtain ⟨rfl, hpublication'⟩ := h.slot k' s' hs'
  rw [hidentity, hpublication'] at hpublication
  have hchannel : s'.channel = s.channel := by simpa using hpublication
  rw [hchannel]

/-- What a section may do to publications and slots. -/
structure Moves (d d' : Hub S) : Prop where
  publication : ∀ (i : Nat) (p : Publication), d.publications[i]? = some p →
    ∃ p' : Publication, d'.publications[i]? = some p' ∧ p'.channel = p.channel ∧
      ∀ r, p.ended = some r → p'.ended = some r
  slot : ∀ k s, d.slots.get? k = some s →
    (∃ s', d'.slots.get? k = some s' ∧ s'.identity = s.identity ∧ s'.issuer = s.issuer ∧
      s'.subject = s.subject) ∨ ∃ r, d'.endReason s.identity = some r
  closed : d.phase = .closed → d'.phase = .closed

theorem Moves.refl (d : Hub S) : Moves d d :=
  ⟨fun _ p hp => ⟨p, hp, rfl, fun _ => id⟩, fun _ s hs => Or.inl ⟨s, hs, rfl, rfl, rfl⟩, id⟩

theorem Moves.endReason (h : Moves d d') {i : Nat} {r : RealtimeHubError}
    (hr : d.endReason i = some r) : d'.endReason i = some r := by
  obtain ⟨p, hp, hended⟩ := endReason_eq_some.mp hr
  obtain ⟨p', hp', -, hkept⟩ := h.publication i p hp
  exact endReason_eq_some.mpr ⟨p', hp', hkept r hended⟩

theorem Moves.trans (h : Moves d d') (h' : Moves d' d'') : Moves d d'' := by
  refine ⟨fun i p hp => ?_, fun k s hs => ?_, fun hclosed => h'.closed (h.closed hclosed)⟩
  · obtain ⟨p', hp', hchannel, hkept⟩ := h.publication i p hp
    obtain ⟨p'', hp'', hchannel', hkept'⟩ := h'.publication i p' hp'
    exact ⟨p'', hp'', hchannel'.trans hchannel, fun r hr => hkept' r (hkept r hr)⟩
  · rcases h.slot k s hs with ⟨s', hs', hidentity, hissuer, hsubject⟩ | ⟨r, hr⟩
    · rcases h'.slot k s' hs' with ⟨s'', hs'', hidentity', hissuer', hsubject'⟩ | ⟨r, hr⟩
      · exact Or.inl ⟨s'', hs'', hidentity'.trans hidentity, hissuer'.trans hissuer,
          hsubject'.trans hsubject⟩
      · exact Or.inr ⟨r, hidentity ▸ hr⟩
    · exact Or.inr ⟨r, h'.endReason hr⟩

theorem Moves.of_eq (hslots : d'.slots = d.slots) (hpublications : d'.publications = d.publications)
    (hphase : d.phase = .closed → d'.phase = .closed) : Moves d d' := by
  refine ⟨fun i p hp => ⟨p, ?_, rfl, fun _ => id⟩, fun k s hs => Or.inl ⟨s, ?_, rfl, rfl, rfl⟩,
    hphase⟩
  · rw [hpublications]
    exact hp
  · rw [hslots]
    exact hs

theorem Paired.of_eq (h : d.Paired) (hslots : d'.slots = d.slots)
    (hpublications : d'.publications = d.publications)
    (hshut : d'.phase = .closed → d'.slots = .empty ∧ d'.groups = .empty) : d'.Paired := by
  refine ⟨?_, ?_, hshut⟩
  · rw [hslots, hpublications]
    exact h.slot
  · rw [hslots, hpublications]
    exact h.owner

section Remove

variable {k : ChannelKey} {slot : Slot S} {reason : Slot S → RealtimeHubError}

theorem removeSlot_of_none (h : d.slots.get? k = none) : d.removeSlot k reason = d := by
  rw [removeSlot, h]

theorem slots_removeSlot : (d.removeSlot k reason).slots.get? = (d.slots.erase k).get? := by
  unfold removeSlot
  split
  · rename_i hnone
    funext k'
    rw [SortedMap.get?_erase]
    split_ifs with hk
    · rw [hk, hnone]
    · rfl
  · rw [signal_slots, finish]

theorem phase_removeSlot : (d.removeSlot k reason).phase = d.phase := by
  unfold removeSlot
  split
  · rfl
  · rw [signal_phase, finish]

theorem groups_removeSlot : (d.removeSlot k reason).groups = d.groups := by
  unfold removeSlot
  split
  · rfl
  · rw [signal_groups, finish]

theorem publications_removeSlot (h : d.slots.get? k = some slot) (i : Nat) :
    (d.removeSlot k reason).publications[i]? =
      if slot.identity = i then (d.publications[i]?).map fun p => { p with ended := some (reason slot) }
      else d.publications[i]? := by
  rw [removeSlot, h]
  simp only [signal_publications]
  exact getElem?_finish _ _ _ _

theorem endReason_removeSlot (hd : d.Paired) (h : d.slots.get? k = some slot) :
    (d.removeSlot k reason).endReason slot.identity = some (reason slot) := by
  refine endReason_eq_some.mpr ⟨⟨slot.channel, some (reason slot)⟩, ?_, rfl⟩
  rw [publications_removeSlot h, if_pos rfl, (hd.slot k slot h).2]
  rfl

theorem moves_removeSlot (hd : d.Paired) : Moves d (d.removeSlot k reason) := by
  cases h : d.slots.get? k with
  | none =>
    rw [removeSlot_of_none h]
    exact Moves.refl d
  | some slot =>
    refine ⟨fun i p hp => ?_, fun k' s hs => ?_, fun hclosed => phase_removeSlot.trans hclosed⟩
    · rw [publications_removeSlot h]
      split_ifs with hi
      · subst hi
        have hlive := (hd.slot k slot h).2
        rw [hp] at hlive
        obtain rfl := Option.some.inj hlive
        refine ⟨⟨slot.channel, some (reason slot)⟩, ?_, rfl, fun r hr => ?_⟩
        · rw [hp]
          rfl
        · cases hr
      · exact ⟨p, hp, rfl, fun _ => id⟩
    · by_cases hk : k' = k
      · subst hk
        obtain rfl := Option.some.inj (h.symm.trans hs)
        exact Or.inr ⟨_, endReason_removeSlot hd h⟩
      · refine Or.inl ⟨s, ?_, rfl, rfl, rfl⟩
        rw [slots_removeSlot, SortedMap.get?_erase, if_neg hk]
        exact hs

theorem paired_removeSlot (hd : d.Paired) : (d.removeSlot k reason).Paired := by
  cases h : d.slots.get? k with
  | none =>
    rw [removeSlot_of_none h]
    exact hd
  | some slot =>
    refine ⟨fun k' s hs => ?_, fun i c hi => ?_, fun hclosed => ?_⟩
    · rw [slots_removeSlot, SortedMap.get?_erase] at hs
      split_ifs at hs with hk
      have hne : slot.identity ≠ s.identity := fun heq => hk (hd.key_eq hs h heq.symm)
      rw [publications_removeSlot h, if_neg hne]
      exact hd.slot k' s hs
    · rw [publications_removeSlot h] at hi
      split_ifs at hi with heq
      · cases hp : d.publications[i]? <;> simp [hp] at hi
      · obtain ⟨s, hs, hidentity⟩ := hd.owner i c hi
        refine ⟨s, ?_, hidentity⟩
        have hk : c.key ≠ k := by
          rintro rfl
          obtain rfl := Option.some.inj (h.symm.trans hs)
          exact heq hidentity
        rw [slots_removeSlot, SortedMap.get?_erase, if_neg hk]
        exact hs
    · have hempty := (hd.shut (phase_removeSlot.symm.trans hclosed)).1
      rw [hempty] at h
      cases h

/-- The removal of some keys, one after the other. -/
theorem removeSlots_spec (hd : d.Paired) (keys : List ChannelKey) :
    let d' := keys.foldl (fun d k => d.removeSlot k reason) d
    d'.Paired ∧ Moves d d' ∧ d'.phase = d.phase ∧ d'.groups = d.groups ∧
      (∀ k, d'.slots.get? k = if k ∈ keys then none else d.slots.get? k) ∧
      ∀ k s, d.slots.get? k = some s → k ∈ keys → d'.endReason s.identity = some (reason s) := by
  induction keys generalizing d with
  | nil => exact ⟨hd, Moves.refl d, rfl, rfl, fun k => by simp, fun k s _ hk => by simp at hk⟩
  | cons key rest ih =>
    obtain ⟨hpaired, hmoves, hphase, hgroups, hslots, hended⟩ :=
      @ih (d.removeSlot key reason) (paired_removeSlot hd)
    refine ⟨hpaired, (moves_removeSlot hd).trans hmoves, hphase.trans phase_removeSlot,
      hgroups.trans groups_removeSlot, fun k => ?_, fun k s hs hk => ?_⟩
    · rw [List.foldl_cons, hslots, slots_removeSlot, SortedMap.get?_erase]
      by_cases hkey : k = key
      · simp [hkey]
      · simp [hkey]
    · by_cases hkey : k = key
      · subst hkey
        exact hmoves.endReason (endReason_removeSlot hd hs)
      · refine hended k s ?_ ((List.mem_cons.mp hk).resolve_left hkey)
        rw [slots_removeSlot, SortedMap.get?_erase, if_neg hkey]
        exact hs

end Remove

section Prune

variable {clock : HubClock}

theorem mem_expiredKeys {k : ChannelKey} :
    k ∈ d.expiredKeys clock ↔ ∃ s, d.slots.get? k = some s ∧ s.window.active clock = false := by
  simp only [expiredKeys, List.mem_map, List.mem_filter, Prod.exists, Bool.not_eq_true',
    SortedMap.mem_entries_iff]
  constructor
  · rintro ⟨k', s, ⟨hs, hactive⟩, rfl⟩
    exact ⟨s, hs, hactive⟩
  · rintro ⟨s, hs, hactive⟩
    exact ⟨k, s, ⟨hs, hactive⟩, rfl⟩

theorem slots_prune (hd : d.Paired) (k : ChannelKey) :
    (d.prune clock).slots.get? k = (d.slots.get? k).filter fun s => s.window.active clock := by
  have hspec := (@removeSlots_spec S d (fun slot => slot.window.expiry clock) hd
    (d.expiredKeys clock)).2.2.2.2.1 k
  show (List.foldl _ d (d.expiredKeys clock)).slots.get? k = _
  simp only [hspec, mem_expiredKeys]
  cases hs : d.slots.get? k with
  | none => simp
  | some s =>
    cases hactive : s.window.active clock with
    | true => simp [Option.filter, hactive]
    | false => simp [Option.filter, hactive]

theorem groups_pruneGroups_empty (h : d.groups = .empty) : d.pruneGroups.groups = .empty := by
  simp only [pruneGroups, h]
  rfl

theorem paired_pruneGroups (hd : d.Paired) : d.pruneGroups.Paired := by
  refine hd.of_eq rfl rfl fun hclosed => ?_
  obtain ⟨hslots, hgroups⟩ := hd.shut hclosed
  exact ⟨hslots, groups_pruneGroups_empty hgroups⟩

theorem moves_pruneGroups : Moves d d.pruneGroups := Moves.of_eq rfl rfl id

theorem paired_prune (hd : d.Paired) : (d.prune clock).Paired :=
  paired_pruneGroups (removeSlots_spec hd (d.expiredKeys clock)).1

theorem moves_prune (hd : d.Paired) : Moves d (d.prune clock) :=
  (removeSlots_spec hd (d.expiredKeys clock)).2.1.trans moves_pruneGroups

theorem phase_removeSlots {reason : Slot S → RealtimeHubError} (keys : List ChannelKey) (d : Hub S) :
    (keys.foldl (fun d k => d.removeSlot k reason) d).phase = d.phase := by
  induction keys generalizing d with
  | nil => rfl
  | cons key rest ih => exact (ih _).trans phase_removeSlot

theorem phase_prune : (d.prune clock).phase = d.phase :=
  phase_removeSlots (d.expiredKeys clock) d

theorem endReason_prune (hd : d.Paired) {k : ChannelKey} {s : Slot S}
    (hs : d.slots.get? k = some s) (hactive : s.window.active clock = false) :
    (d.prune clock).endReason s.identity = some (s.window.expiry clock) :=
  (@removeSlots_spec S d (fun slot => slot.window.expiry clock) hd
    (d.expiredKeys clock)).2.2.2.2.2 k s hs (mem_expiredKeys.mpr ⟨s, hs, hactive⟩)

end Prune

section Put

variable {slot old : Slot S}

theorem slots_putSlot (k : ChannelKey) :
    (d.putSlot slot).slots.get? k = if k = slot.channel.key then some slot else d.slots.get? k := by
  unfold putSlot
  rw [signal_slots]
  have hinsert : (d.slots.insert slot.channel.key slot).get? k =
      if k = slot.channel.key then some slot else d.slots.get? k := by
    rw [SortedMap.get?_insert]
    split_ifs <;> rfl
  split <;> exact hinsert

theorem phase_putSlot : (d.putSlot slot).phase = d.phase := by
  unfold putSlot
  rw [signal_phase]
  split <;> rfl

theorem publications_putSlot (i : Nat) :
    (d.putSlot slot).publications[i]? =
      match d.slots.get? slot.channel.key with
      | some old =>
        if old.identity = i then
          ((d.publications ++ [(⟨slot.channel, none⟩ : Publication)])[i]?).map fun p =>
            { p with ended := some .superseded }
        else (d.publications ++ [(⟨slot.channel, none⟩ : Publication)])[i]?
      | none => (d.publications ++ [(⟨slot.channel, none⟩ : Publication)])[i]? := by
  unfold putSlot
  rw [signal_publications]
  cases h : d.slots.get? slot.channel.key with
  | none => rfl
  | some old => exact getElem?_finish _ _ _ _

theorem getElem?_publications_append {p : Publication} {i : Nat} (c : PresenceChannel)
    (h : d.publications[i]? = some p) :
    (d.publications ++ [(⟨c, none⟩ : Publication)])[i]? = some p := by
  rw [List.getElem?_append_left (List.getElem?_eq_some_iff.mp h).1]
  exact h

theorem endReason_putSlot (hd : d.Paired) (h : d.slots.get? slot.channel.key = some old) :
    (d.putSlot slot).endReason old.identity = some .superseded := by
  refine endReason_eq_some.mpr ⟨⟨old.channel, some .superseded⟩, ?_, rfl⟩
  rw [publications_putSlot, h]
  simp only [if_true]
  rw [getElem?_publications_append _ (hd.slot _ old h).2]
  rfl

theorem moves_putSlot (hd : d.Paired) : Moves d (d.putSlot slot) := by
  refine ⟨fun i p hp => ?_, fun k s hs => ?_, fun hclosed => phase_putSlot.trans hclosed⟩
  · have happend := getElem?_publications_append slot.channel hp
    rw [publications_putSlot]
    cases h : d.slots.get? slot.channel.key with
    | none => exact ⟨p, happend, rfl, fun _ => id⟩
    | some old =>
      by_cases hi : old.identity = i
      · subst hi
        obtain rfl := Option.some.inj (hp.symm.trans (hd.slot _ old h).2)
        refine ⟨⟨old.channel, some .superseded⟩, ?_, rfl, fun r hr => ?_⟩
        · simp only [if_true, happend, Option.map_some]
        · cases hr
      · refine ⟨p, ?_, rfl, fun _ => id⟩
        simp only [if_neg hi, happend]
  · rw [slots_putSlot]
    by_cases hk : k = slot.channel.key
    · subst hk
      exact Or.inr ⟨_, endReason_putSlot hd hs⟩
    · exact Or.inl ⟨s, by rw [if_neg hk, hs], rfl, rfl, rfl⟩

theorem paired_putSlot (hd : d.Paired) (hidentity : slot.identity = d.publications.length)
    (hopen : d.phase ≠ .closed) : (d.putSlot slot).Paired := by
  refine ⟨fun k s hs => ?_, fun i c hi => ?_, fun hclosed => ?_⟩
  · rw [slots_putSlot] at hs
    split_ifs at hs with hk
    · obtain rfl := Option.some.inj hs
      refine ⟨hk.symm, ?_⟩
      have hnew : (d.publications ++ [(⟨slot.channel, none⟩ : Publication)])[slot.identity]? =
          some ⟨slot.channel, none⟩ := by
        rw [hidentity, List.getElem?_append_right (le_refl _), Nat.sub_self]
        rfl
      rw [publications_putSlot, hnew]
      cases h : d.slots.get? slot.channel.key with
      | none => rfl
      | some old =>
        have hlt := (List.getElem?_eq_some_iff.mp (hd.slot _ old h).2).1
        simp only [if_neg (show old.identity ≠ slot.identity by omega)]
    · obtain ⟨hkey, hpublication⟩ := hd.slot k s hs
      refine ⟨hkey, ?_⟩
      rw [publications_putSlot, getElem?_publications_append _ hpublication]
      cases h : d.slots.get? slot.channel.key with
      | none => rfl
      | some old =>
        have hne : old.identity ≠ s.identity := fun heq => hk (hd.key_eq hs h heq.symm)
        simp only [if_neg hne]
  · -- only the new identity and the untouched old ones are without an end
    have hcases : (d.publications[i]? = some ⟨c, none⟩ ∧
        ∀ old, d.slots.get? slot.channel.key = some old → old.identity ≠ i) ∨
        (i = slot.identity ∧ c = slot.channel) := by
      have hlist : (d.publications ++ [(⟨slot.channel, none⟩ : Publication)])[i]? = some ⟨c, none⟩ ∧
          ∀ old, d.slots.get? slot.channel.key = some old → old.identity ≠ i := by
        rw [publications_putSlot] at hi
        cases h : d.slots.get? slot.channel.key with
        | none => exact ⟨by simpa only [h] using hi, fun old hold => by cases hold⟩
        | some old =>
          simp only [h] at hi
          split_ifs at hi with heq
          · cases hp : (d.publications ++ [(⟨slot.channel, none⟩ : Publication)])[i]? <;>
              simp [hp] at hi
          · exact ⟨hi, fun old' hold' => by rwa [← Option.some.inj hold']⟩
      rcases lt_trichotomy i d.publications.length with hlt | rfl | hgt
      · rw [List.getElem?_append_left hlt] at hlist
        exact Or.inl hlist
      · rw [List.getElem?_append_right (le_refl _), Nat.sub_self] at hlist
        refine Or.inr ⟨hidentity.symm, ?_⟩
        have hchannel : slot.channel = c := by simpa using hlist.1
        exact hchannel.symm
      · rw [List.getElem?_eq_none (by rw [List.length_append, List.length_singleton]; omega)] at hlist
        cases hlist.1
    rcases hcases with ⟨hpublication, hne⟩ | ⟨rfl, rfl⟩
    · obtain ⟨s, hs, hsi⟩ := hd.owner i c hpublication
      have hk : c.key ≠ slot.channel.key := fun hk => hne s (hk ▸ hs) hsi
      refine ⟨s, ?_, hsi⟩
      rw [slots_putSlot, if_neg hk, hs]
    · exact ⟨slot, by rw [slots_putSlot, if_pos rfl], rfl⟩
  · exact absurd (phase_putSlot.symm.trans hclosed) hopen

end Put

section Update

variable {channel : PresenceChannel} {slot slot' : Slot S}

theorem moves_update (h : d.slots.get? channel.key = some slot)
    (hidentity : slot'.identity = slot.identity) (hissuer : slot'.issuer = slot.issuer)
    (hsubject : slot'.subject = slot.subject) (project : Str) :
    Moves d ({ d with slots := d.slots.insert channel.key slot' }.signal project) := by
  refine ⟨fun i p hp => ⟨p, by rw [signal_publications]; exact hp, rfl, fun _ => id⟩,
    fun k s hs => Or.inl ?_, fun hclosed => by rw [signal_phase]; exact hclosed⟩
  rw [signal_slots, SortedMap.get?_insert]
  split_ifs with hk
  · subst hk
    obtain rfl := Option.some.inj (h.symm.trans hs)
    exact ⟨slot', rfl, hidentity, hissuer, hsubject⟩
  · exact ⟨s, hs, rfl, rfl, rfl⟩

theorem paired_update (hd : d.Paired) (h : d.slots.get? channel.key = some slot)
    (hidentity : slot'.identity = slot.identity) (hchannel : slot'.channel = slot.channel)
    (project : Str) :
    ({ d with slots := d.slots.insert channel.key slot' }.signal project).Paired := by
  refine ⟨fun k s hs => ?_, fun i c hi => ?_, fun hclosed => ?_⟩
  · rw [signal_slots, SortedMap.get?_insert] at hs
    rw [signal_publications]
    split_ifs at hs with hk
    · obtain rfl := Option.some.inj hs
      rw [hk, hidentity, hchannel]
      exact hd.slot _ slot h
    · exact hd.slot k s hs
  · rw [signal_publications] at hi
    obtain ⟨s, hs, hsi⟩ := hd.owner i c hi
    rw [signal_slots, SortedMap.get?_insert]
    split_ifs with hk
    · obtain rfl := Option.some.inj (h.symm.trans (hk ▸ hs))
      exact ⟨slot', rfl, hidentity.trans hsi⟩
    · exact ⟨s, hs, hsi⟩
  · rw [signal_phase] at hclosed
    rw [(hd.shut hclosed).1] at h
    cases h

end Update

theorem publications_finishAll (entries : List (ChannelKey × Slot S)) (d : Hub S) (i : Nat) :
    (entries.foldl (fun d entry => d.finish entry.2.identity .closed) d).publications[i]? =
      (d.publications[i]?).map fun p =>
        if i ∈ entries.map (·.2.identity) then { p with ended := some .closed } else p := by
  induction entries generalizing d with
  | nil => simp
  | cons entry rest ih =>
    rw [List.foldl_cons, ih, getElem?_finish]
    by_cases hi : entry.2.identity = i
    · rw [if_pos hi, Option.map_map]
      congr 1
      funext p
      simp [hi]
    · have hmem : i ∈ (entry :: rest).map (·.2.identity) ↔ i ∈ rest.map (·.2.identity) := by
        rw [List.map_cons, List.mem_cons]
        exact or_iff_right (Ne.symm hi)
      simp only [if_neg hi, hmem]

theorem mem_identities {i : Nat} :
    i ∈ d.slots.entries.map (·.2.identity) ↔ ∃ k s, d.slots.get? k = some s ∧ s.identity = i := by
  simp only [List.mem_map, Prod.exists, SortedMap.mem_entries_iff]

theorem moves_close (hd : d.Paired) : Moves d d.close := by
  refine ⟨fun i p hp => ?_, fun k s hs => Or.inr ⟨.closed, ?_⟩, fun _ => rfl⟩
  · show ∃ p', (List.foldl _ d d.slots.entries).publications[i]? = some p' ∧ _
    rw [publications_finishAll, hp]
    by_cases hmem : i ∈ d.slots.entries.map (·.2.identity)
    · obtain ⟨k, s, hs, rfl⟩ := mem_identities.mp hmem
      obtain rfl := Option.some.inj (hp.symm.trans (hd.slot k s hs).2)
      refine ⟨⟨s.channel, some .closed⟩, ?_, rfl, fun r hr => by cases hr⟩
      simp only [Option.map_some, if_pos hmem]
    · refine ⟨p, ?_, rfl, fun _ => id⟩
      simp only [Option.map_some, if_neg hmem]
  · have hmem : s.identity ∈ d.slots.entries.map (·.2.identity) := mem_identities.mpr ⟨k, s, hs, rfl⟩
    refine endReason_eq_some.mpr ⟨⟨s.channel, some .closed⟩, ?_, rfl⟩
    show (List.foldl _ d d.slots.entries).publications[s.identity]? = _
    rw [publications_finishAll, (hd.slot k s hs).2, Option.map_some, if_pos hmem]

theorem paired_close (hd : d.Paired) : d.close.Paired := by
  refine ⟨fun k s hs => ?_, fun i c hi => ?_, fun _ => ⟨rfl, rfl⟩⟩
  · cases hs
  · have hi' : (List.foldl (fun d entry => d.finish entry.2.identity .closed) d
        d.slots.entries).publications[i]? = some ⟨c, none⟩ := hi
    rw [publications_finishAll] at hi'
    obtain ⟨p, hp, hended⟩ := Option.map_eq_some_iff.mp hi'
    split_ifs at hended with hmem
    · cases hended
    · subst hended
      obtain ⟨s, hs, hsi⟩ := hd.owner i c hp
      exact absurd (mem_identities.mpr ⟨_, s, hs, hsi⟩) hmem

end Hub

end GraphitBroker
