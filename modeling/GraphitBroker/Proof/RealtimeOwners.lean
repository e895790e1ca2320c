import GraphitBroker.Lib.ExceptList
import GraphitBroker.Proof.RealtimeSlots

/-!
# One live owner for every slot

Every operation of the hub prunes, if it does, and then makes at most one `Change`. The owners of slots
over whole runs are read off that.
-/

namespace GraphitBroker

namespace Hub

variable {S : Type} {config : HubConfig} {op : HubOp S} {d d' : Hub S}

theorem running_eq_ok : d.running = .ok () ↔ d.phase = .running := by
  unfold running
  cases d.phase <;> simp

inductive Prunes (op : HubOp S) (d : Hub S) : Hub S → Prop
  | skip : Prunes op d d
  | prune {clock : HubClock} (hclock : op.clock? = some clock) (hphase : d.phase = .running) :
      Prunes op d (d.prune clock)

inductive Change (config : HubConfig) : HubOp S → Hub S → Hub S → Prop
  | none {op : HubOp S} {d : Hub S} : Change config op d d
  | start {runtime : Bool} {d : Hub S} (hphase : d.phase = .dormant) :
      Change config (.runMaintenance runtime) d { d with phase := .running }
  | put {proof : AuthorizedNowPublisher S} {snapshot x : S} {clock : HubClock} {beat : Int} {d : Hub S}
      {slot : Slot S} (hphase : d.phase = .running) (hslot : openSlot config proof x beat d = .ok slot) :
      Change config (.openPublisher proof snapshot clock beat) d (d.putSlot slot)
  | update {identity : Nat} {channel : PresenceChannel} {proof : AuthorizedNowPublisher S}
      {snapshot x : S} {clock : HubClock} {beat : Int} {d : Hub S} {slot : Slot S}
      (hslot : publishSlot config identity channel proof x beat d = .ok slot) :
      Change config (.publish identity channel proof snapshot clock beat) d
        ({ d with slots := d.slots.insert channel.key slot }.signal channel.projectId)
  | remove {identity : Nat} {channel : PresenceChannel} {d : Hub S} :
      Change config (.dropHandle identity channel) d
        (d.removeSlot channel.key fun _ => .closed).pruneGroups
  | receiver {proof : AuthorizedNowProjectSubscriber} {clock : HubClock} {d : Hub S}
      (hphase : d.phase = .running) :
      Change config (.subscribe proof clock) d (d.addReceiver proof.projectId)
  | recv {j pending : Nat} {s : Subscription} {d : Hub S} (hs : d.subscriptions[j]? = some s) :
      Change config (.recv j) d
        { d with subscriptions := d.subscriptions.set j { s with pending := pending } }
  | drop {j : Nat} {d : Hub S} : Change config (.dropSubscription j) d (dropSubscription j d)
  | close {d : Hub S} : Change config .close d d.close

theorem apply_steps (op : HubOp S) (d : Hub S) :
    ∃ d₁, Prunes op d d₁ ∧ Change config op d₁ (HubOp.apply config d op) := by
  cases op with
  | runMaintenance runtime =>
    refine ⟨d, .skip, ?_⟩
    simp only [HubOp.apply, runMaintenance]
    split
    · split
      · next hphase => exact .start hphase
      · exact .none
      · exact .none
    · exact .none
  | openPublisher proof snapshot clock beat =>
    simp only [HubOp.apply, openPublisher]
    split
    · exact ⟨d, .skip, .none⟩
    · split
      · exact ⟨d, .skip, .none⟩
      · next hrunning =>
        have hphase := running_eq_ok.mp hrunning
        refine ⟨d.prune clock, .prune rfl hphase, ?_⟩
        split
        · exact .none
        · next hslot => exact .put (phase_prune.trans hphase) hslot
  | publish identity channel proof snapshot clock beat =>
    simp only [HubOp.apply, publish]
    split
    · exact ⟨d, .skip, .none⟩
    · split
      · exact ⟨d, .skip, .none⟩
      · split
        · exact ⟨d, .skip, .none⟩
        · next hrunning =>
          refine ⟨d.prune clock, .prune rfl (running_eq_ok.mp hrunning), ?_⟩
          split
          · exact .none
          · next hslot => exact .update hslot
  | dropHandle identity channel =>
    refine ⟨d, .skip, ?_⟩
    simp only [HubOp.apply, remove]
    split
    · exact .remove
    · exact .none
  | checkActive identity channel clock =>
    simp only [HubOp.apply, checkActive]
    split
    · exact ⟨d, .skip, .none⟩
    · split
      · exact ⟨d, .skip, .none⟩
      · next hrunning =>
        refine ⟨d.prune clock, .prune rfl (running_eq_ok.mp hrunning), ?_⟩
        split
        · exact .none
        · split <;> exact .none
  | subscribe proof clock =>
    simp only [HubOp.apply, subscribe]
    split
    · exact ⟨d, .skip, .none⟩
    · split
      · exact ⟨d, .skip, .none⟩
      · next hrunning =>
        have hphase := running_eq_ok.mp hrunning
        refine ⟨d.prune clock, .prune rfl hphase, ?_⟩
        split
        · exact .none
        · exact .receiver (phase_prune.trans hphase)
  | recv j =>
    refine ⟨d, .skip, ?_⟩
    simp only [HubOp.apply, recv]
    split
    · exact .none
    · next hs =>
      split_ifs
      · exact .recv hs
      · exact .recv hs
      · exact .none
      · exact .none
  | dropSubscription j => exact ⟨d, .skip, .drop⟩
  | candidates proof clock =>
    simp only [HubOp.apply, candidates]
    split
    · exact ⟨d, .skip, .none⟩
    · split
      · exact ⟨d, .skip, .none⟩
      · next hrunning =>
        refine ⟨d.prune clock, .prune rfl (running_eq_ok.mp hrunning), ?_⟩
        split <;> exact .none
  | replay project channels known clock =>
    simp only [HubOp.apply, replay]
    split
    · exact ⟨d, .skip, .none⟩
    · split
      · exact ⟨d, .skip, .none⟩
      · next hrunning => exact ⟨d.prune clock, .prune rfl (running_eq_ok.mp hrunning), .none⟩
  | maintain clock =>
    simp only [HubOp.apply, maintain]
    split
    · next hphase => exact ⟨d.prune clock, .prune rfl hphase, .none⟩
    · exact ⟨d, .skip, .none⟩
  | close => exact ⟨d, .skip, .close⟩

theorem openSlot_eq_ok {proof : AuthorizedNowPublisher S} {x : S} {beat : Int} {slot : Slot S}
    (h : openSlot config proof x beat d = .ok slot) :
    (∀ old, d.slots.get? proof.channel.key = some old →
      old.issuer = proof.issuer ∧ old.subject = proof.subject) ∧
    ∃ window, slot = ⟨proof.channel, proof.issuer, proof.subject, d.publications.length, x, window⟩ := by
  simp only [openSlot, bind, Except.bind, pure, Except.pure, throw, throwThe, MonadExceptOf.throw] at h
  split_ifs at h with hconflict
  refine ⟨fun old hold => ?_, ?_⟩
  · simpa [hold] using hconflict
  · split at h
    · cases h
    · split at h
      · cases h
      · split at h
        · cases h
        · exact ⟨_, (Except.ok.inj h).symm⟩

theorem publishSlot_eq_ok {identity : Nat} {channel : PresenceChannel}
    {proof : AuthorizedNowPublisher S} {x : S} {beat : Int} {slot : Slot S}
    (h : publishSlot config identity channel proof x beat d = .ok slot) :
    ∃ old window, d.slots.get? channel.key = some old ∧ old.identity = identity ∧
      old.issuer = proof.issuer ∧ old.subject = proof.subject ∧
      slot = { old with snapshot := x, window := window } := by
  simp only [publishSlot, bind, Except.bind, pure, Except.pure, throw, throwThe,
    MonadExceptOf.throw] at h
  split at h
  · cases h
  · split at h
    · cases h
    · next old hold =>
      split_ifs at h with hidentity howner
      split at h
      · cases h
      · split at h
        · cases h
        · rw [not_or, not_not, not_not] at howner
          exact ⟨old, _, hold, not_not.mp hidentity, howner.1, howner.2, (Except.ok.inj h).symm⟩

theorem addReceiver_slots (project : Str) : (d.addReceiver project).slots = d.slots := by
  unfold addReceiver
  split <;> rfl

theorem addReceiver_publications (project : Str) :
    (d.addReceiver project).publications = d.publications := by
  unfold addReceiver
  split <;> rfl

theorem addReceiver_phase (project : Str) : (d.addReceiver project).phase = d.phase := by
  unfold addReceiver
  split <;> rfl

theorem dropSubscription_cases (j : Nat) (d : Hub S) :
    dropSubscription j d = d ∨ ∃ s d₁, d.subscriptions[j]? = some s ∧
      d₁ = { d with subscriptions := d.subscriptions.set j { s with live := false } } ∧
      (dropSubscription j d = d₁ ∨
        (∀ sender, d₁.groups.get? s.project = some sender → d₁.receiverCount sender = 0) ∧
        dropSubscription j d = { d₁ with groups := d₁.groups.erase s.project }) := by
  unfold dropSubscription
  split
  · exact Or.inl rfl
  · next s hs =>
    refine Or.inr ⟨s, _, hs, rfl, ?_⟩
    dsimp only
    split
    · next hunused =>
      refine Or.inr ⟨fun sender hsender => ?_, rfl⟩
      rw [hsender] at hunused
      simp only [Option.any_some, Bool.and_eq_true, beq_iff_eq] at hunused
      exact hunused.1
    · exact Or.inl rfl

theorem dropSubscription_eq (j : Nat) (d : Hub S) :
    ∃ groups subscriptions, dropSubscription j d =
      { d with groups := groups, subscriptions := subscriptions } ∧
      (d.groups = .empty → groups = .empty) := by
  rcases dropSubscription_cases j d with h | ⟨s, d₁, -, rfl, h | ⟨-, h⟩⟩
  · exact ⟨_, _, h, id⟩
  · exact ⟨_, _, h, id⟩
  · exact ⟨_, _, h, fun hempty => by rw [hempty]; rfl⟩

theorem Prunes.paired (h : Prunes op d d') (hd : d.Paired) : d'.Paired := by
  cases h with
  | skip => exact hd
  | prune => exact paired_prune hd

theorem Prunes.moves (h : Prunes op d d') (hd : d.Paired) : Moves d d' := by
  cases h with
  | skip => exact Moves.refl d
  | prune => exact moves_prune hd

theorem Change.paired (h : Change config op d d') (hd : d.Paired) : d'.Paired := by
  cases h with
  | none => exact hd
  | start hphase => exact hd.of_eq rfl rfl fun hclosed => by cases hclosed
  | put hphase hslot =>
    obtain ⟨-, window, rfl⟩ := openSlot_eq_ok hslot
    exact paired_putSlot hd rfl (by rw [hphase]; decide)
  | update hslot =>
    obtain ⟨old, window, hold, -, -, -, rfl⟩ := publishSlot_eq_ok hslot
    refine paired_update hd hold ?_ ?_ _
    · rfl
    · rfl
  | remove => exact paired_pruneGroups (paired_removeSlot hd)
  | receiver hphase =>
    refine hd.of_eq (addReceiver_slots _) (addReceiver_publications _) fun hclosed => ?_
    rw [addReceiver_phase, hphase] at hclosed
    cases hclosed
  | recv hs => exact hd.of_eq rfl rfl hd.shut
  | @drop j =>
    obtain ⟨groups, subscriptions, h, hempty⟩ := dropSubscription_eq j d
    rw [h]
    exact hd.of_eq rfl rfl fun hclosed => (hd.shut hclosed).imp_right hempty
  | close => exact paired_close hd

theorem Change.moves (h : Change config op d d') (hd : d.Paired) : Moves d d' := by
  cases h with
  | none => exact Moves.refl d
  | start hphase => exact Moves.of_eq rfl rfl fun hclosed => by rw [hphase] at hclosed; cases hclosed
  | put hphase hslot => exact moves_putSlot hd
  | update hslot =>
    obtain ⟨old, window, hold, -, -, -, rfl⟩ := publishSlot_eq_ok hslot
    refine moves_update hold ?_ ?_ ?_ _
    · rfl
    · rfl
    · rfl
  | remove => exact (moves_removeSlot hd).trans moves_pruneGroups
  | receiver hphase =>
    exact Moves.of_eq (addReceiver_slots _) (addReceiver_publications _)
      (addReceiver_phase _).trans
  | recv hs => exact Moves.of_eq rfl rfl id
  | @drop j =>
    obtain ⟨groups, subscriptions, h, -⟩ := dropSubscription_eq j d
    rw [h]
    exact Moves.of_eq rfl rfl id
  | close => exact moves_close hd

theorem paired_new : (new : Hub S).Paired := by
  refine ⟨fun k s hs => ?_, fun i c hi => ?_, fun _ => ⟨rfl, rfl⟩⟩
  · cases hs
  · cases hi

theorem paired_apply (hd : d.Paired) (op : HubOp S) : (HubOp.apply config d op).Paired := by
  obtain ⟨d₁, hprunes, hchange⟩ := apply_steps op d
  exact hchange.paired (hprunes.paired hd)

theorem moves_apply (hd : d.Paired) (op : HubOp S) : Moves d (HubOp.apply config d op) := by
  obtain ⟨d₁, hprunes, hchange⟩ := apply_steps op d
  exact (hprunes.moves hd).trans (hchange.moves (hprunes.paired hd))

theorem paired_run (hd : d.Paired) (ops : List (HubOp S)) : (HubOp.run config ops d).Paired := by
  induction ops generalizing d with
  | nil => exact hd
  | cons op rest ih => exact ih (paired_apply hd op)

theorem moves_run (hd : d.Paired) (ops : List (HubOp S)) : Moves d (HubOp.run config ops d) := by
  induction ops generalizing d with
  | nil => exact Moves.refl d
  | cons op rest ih => exact (moves_apply hd op).trans (ih (paired_apply hd op))

section Owners

variable {k : ChannelKey} {s s' : Slot S} {i : Nat} {r : RealtimeHubError}

theorem Paired.identity_ne (hd : d.Paired) (hr : d.endReason i = some r)
    (hs : d.slots.get? k = some s) : s.identity ≠ i := by
  rintro rfl
  obtain ⟨p, hp, hended⟩ := endReason_eq_some.mp hr
  obtain rfl := Option.some.inj (hp.symm.trans (hd.slot k s hs).2)
  cases hended

/-- A slot that stands where `s` stood: it has the same owner, and if it is of another publication then
that of `s` has been superseded. -/
structure Follows (d' : Hub S) (s s' : Slot S) : Prop where
  issuer : s'.issuer = s.issuer
  subject : s'.subject = s.subject
  identity : s'.identity = s.identity ∨ d'.endReason s.identity = some .superseded

theorem Follows.of_get? (hs : d.slots.get? k = some s) (hs' : d.slots.get? k = some s') :
    Follows d' s s' := by
  obtain rfl := Option.some.inj (hs.symm.trans hs')
  exact ⟨rfl, rfl, Or.inl rfl⟩

theorem Change.follows (h : Change config op d d') (hd : d.Paired) (hs : d.slots.get? k = some s)
    (hs' : d'.slots.get? k = some s') : Follows d' s s' := by
  cases h with
  | none => exact .of_get? hs hs'
  | start hphase => exact .of_get? hs hs'
  | put hphase hslot =>
    obtain ⟨hsame, window, rfl⟩ := openSlot_eq_ok hslot
    rw [slots_putSlot] at hs'
    split_ifs at hs' with hk
    · subst hk
      obtain rfl := Option.some.inj hs'
      obtain ⟨hissuer, hsubject⟩ := hsame s hs
      exact ⟨hissuer.symm, hsubject.symm, Or.inr (endReason_putSlot hd hs)⟩
    · exact .of_get? hs hs'
  | update hslot =>
    obtain ⟨old, window, hold, -, -, -, rfl⟩ := publishSlot_eq_ok hslot
    rw [signal_slots, SortedMap.get?_insert] at hs'
    split_ifs at hs' with hk
    · subst hk
      obtain rfl := Option.some.inj hs'
      obtain rfl := Option.some.inj (hold.symm.trans hs)
      exact ⟨rfl, rfl, Or.inl rfl⟩
    · exact .of_get? hs hs'
  | @remove _ channel =>
    have herased : (d.slots.erase channel.key).get? k = some s' := by
      rw [← hs']
      exact congrFun slots_removeSlot.symm k
    rw [SortedMap.get?_erase] at herased
    split_ifs at herased
    exact .of_get? hs herased
  | receiver hphase =>
    rw [addReceiver_slots] at hs'
    exact .of_get? hs hs'
  | recv => exact .of_get? hs hs'
  | @drop j =>
    obtain ⟨groups, subscriptions, h, -⟩ := dropSubscription_eq j d
    rw [h] at hs'
    exact .of_get? hs hs'
  | close => cases hs'

theorem follows_apply (hd : d.Paired) (hs : d.slots.get? k = some s)
    (hs' : (HubOp.apply config d op).slots.get? k = some s') :
    Follows (HubOp.apply config d op) s s' ∨
      ∃ clock, op.clock? = some clock ∧ s.window.active clock = false ∧
        (HubOp.apply config d op).endReason s.identity = some (s.window.expiry clock) := by
  obtain ⟨d₁, hprunes, hchange⟩ := apply_steps op d
  cases hprunes with
  | skip => exact Or.inl (hchange.follows hd hs hs')
  | @prune clock hclock hphase =>
    cases hactive : s.window.active clock with
    | true =>
      refine Or.inl (hchange.follows (paired_prune hd) ?_ hs')
      rw [slots_prune hd, hs, Option.filter_some, if_pos hactive]
    | false =>
      have hended := endReason_prune hd hs hactive
      exact Or.inr ⟨clock, hclock, hactive, (hchange.moves (paired_prune hd)).endReason hended⟩

theorem publish_of_ended (hr : d.endReason i = some r) (channel : PresenceChannel)
    (proof : AuthorizedNowPublisher S) (snapshot : S) (clock : HubClock) (beat : Int) :
    ∃ e, publish config i channel proof snapshot clock beat d = (.error e, d) := by
  unfold publish
  cases publishInput channel proof snapshot with
  | error e => exact ⟨e, rfl⟩
  | ok x => exact ⟨r, by simp only [hr]⟩

theorem remove_of_ended (hd : d.Paired) (hr : d.endReason i = some r) (channel : PresenceChannel) :
    d.remove channel i = d := by
  unfold remove
  split
  · next hany =>
    cases hs : d.slots.get? channel.key with
    | none => simp [hs] at hany
    | some s => exact absurd (by simpa [hs] using hany) (hd.identity_ne hr hs)
  · rfl

theorem publishInput_eq_ok {channel : PresenceChannel} {proof : AuthorizedNowPublisher S}
    {snapshot x : S} (h : publishInput channel proof snapshot = .ok x) :
    proof.channel = channel ∧ proof.filterSnapshot snapshot = .ok x := by
  simp only [publishInput, bind, Except.bind, throw, throwThe, MonadExceptOf.throw] at h
  split at h
  · cases h
  · split_ifs at h with hchannel
    exact ⟨not_not.mp hchannel, ExceptList.mapError_eq_ok.mp h⟩

theorem publish_eq_ok (hd : d.Paired) {channel : PresenceChannel} {proof : AuthorizedNowPublisher S}
    {snapshot : S} {clock : HubClock} {beat : Int}
    (h : (publish config i channel proof snapshot clock beat d).1 = .ok ()) :
    proof.channel = channel ∧ ∃ s, d.slots.get? channel.key = some s ∧ s.identity = i ∧
      s.window.active clock = true ∧ s.issuer = proof.issuer ∧ s.subject = proof.subject := by
  unfold publish at h
  cases hinput : publishInput channel proof snapshot with
  | error e =>
    rw [hinput] at h
    cases h
  | ok x =>
    refine ⟨(publishInput_eq_ok hinput).1, ?_⟩
    simp only [hinput] at h
    split at h
    · cases h
    · split at h
      · cases h
      · split at h
        · cases h
        · next hslot =>
          obtain ⟨old, window, hold, hidentity, hissuer, hsubject, -⟩ := publishSlot_eq_ok hslot
          rw [slots_prune hd, Option.filter_eq_some_iff] at hold
          exact ⟨old, hold.1, hidentity, hold.2, hissuer, hsubject⟩

end Owners

theorem running_of_closed (h : d.phase = .closed) : d.running = .error .closed := by
  rw [running, h]

theorem openPublisher_of_closed (h : d.phase = .closed) (proof : AuthorizedNowPublisher S) (snapshot : S)
    (clock : HubClock) (beat : Int) :
    ∃ e, openPublisher config proof snapshot clock beat d = (.error e, d) := by
  unfold openPublisher
  split
  · next e _ => exact ⟨e, rfl⟩
  · exact ⟨.closed, by rw [running_of_closed h]⟩

theorem publish_of_closed (h : d.phase = .closed) (i : Nat) (channel : PresenceChannel)
    (proof : AuthorizedNowPublisher S) (snapshot : S) (clock : HubClock) (beat : Int) :
    ∃ e, publish config i channel proof snapshot clock beat d = (.error e, d) := by
  unfold publish
  split
  · next e _ => exact ⟨e, rfl⟩
  · split
    · next r _ => exact ⟨r, rfl⟩
    · exact ⟨.closed, by rw [running_of_closed h]⟩

theorem subscribe_of_closed (h : d.phase = .closed) (proof : AuthorizedNowProjectSubscriber)
    (clock : HubClock) : ∃ e, subscribe proof clock d = (.error e, d) := by
  unfold subscribe
  split
  · next e _ => exact ⟨e, rfl⟩
  · exact ⟨.closed, by rw [running_of_closed h]⟩

theorem candidates_of_closed (h : d.phase = .closed) (proof : AuthorizedNowProjectSubscriber)
    (clock : HubClock) : ∃ e, candidates proof clock d = (.error e, d) := by
  unfold candidates
  split
  · next e _ => exact ⟨e, rfl⟩
  · exact ⟨.closed, by rw [running_of_closed h]⟩

theorem replay_of_closed (h : d.phase = .closed) (project : AuthorizedNowProjectSubscriber)
    (channels : List AuthorizedNowSubscriber) (known : List ChannelKey) (clock : HubClock) :
    ∃ e, replay project channels known clock d = (.error e, d) := by
  unfold replay
  split
  · next e _ => exact ⟨e, rfl⟩
  · exact ⟨.closed, by rw [running_of_closed h]⟩

theorem existsUnique_identity (hd : d.Paired) (c : PresenceChannel) :
    (d.slots.get? c.key).isSome ↔ ∃! i : Nat, d.publications[i]? = some ⟨c, none⟩ := by
  constructor
  · intro hsome
    obtain ⟨s, hs⟩ := Option.isSome_iff_exists.mp hsome
    obtain ⟨hkey, hpublication⟩ := hd.slot c.key s hs
    have hchannel : s.channel = c := PresenceChannel.key_injective hkey
    refine ⟨s.identity, hchannel ▸ hpublication, fun i hi => ?_⟩
    obtain ⟨s', hs', rfl⟩ := hd.owner i c hi
    rw [Option.some.inj (hs.symm.trans hs')]
  · rintro ⟨i, hi, -⟩
    obtain ⟨s, hs, -⟩ := hd.owner i c hi
    rw [hs]
    rfl

end Hub

structure SlotOwnership {S : Type} (config : HubConfig) (d : Hub S) : Prop where
  /-- A channel has a slot if and only if exactly one of its publications has not ended. -/
  slot_iff : ∀ c : PresenceChannel,
    (d.slots.get? c.key).isSome ↔ ∃! i : Nat, d.publications[i]? = some ⟨c, none⟩
  /-- That publication is the slot's. -/
  slot_identity : ∀ (c : PresenceChannel) (s : Slot S), d.slots.get? c.key = some s →
    s.channel = c ∧ d.publications[s.identity]? = some ⟨c, none⟩
  /-- A slot that is found in the place of another after an operation has the same owner, and if it is of
  another publication then the first was superseded; or the window of the first had passed. -/
  replaced : ∀ (op : HubOp S) (k : ChannelKey) (s s' : Slot S), d.slots.get? k = some s →
    (HubOp.apply config d op).slots.get? k = some s' →
    Hub.Follows (HubOp.apply config d op) s s' ∨
      ∃ clock, op.clock? = some clock ∧ s.window.active clock = false ∧
        (HubOp.apply config d op).endReason s.identity = some (s.window.expiry clock)
  /-- A slot only goes together with its publication. -/
  removed : ∀ (op : HubOp S) (k : ChannelKey) (s : Slot S), d.slots.get? k = some s →
    (HubOp.apply config d op).slots.get? k = none →
    ∃ r, (HubOp.apply config d op).endReason s.identity = some r
  /-- A publication that has ended stays so, for the same reason, and no slot is its. -/
  ended : ∀ (i : Nat) (r : RealtimeHubError), d.endReason i = some r → ∀ ops : List (HubOp S),
    (HubOp.run config ops d).endReason i = some r ∧
      ∀ k s, (HubOp.run config ops d).slots.get? k = some s → s.identity ≠ i
  /-- Its handle cannot publish, and the drop of the handle changes nothing. -/
  ended_handle : ∀ (i : Nat) (r : RealtimeHubError), d.endReason i = some r →
    ∀ channel : PresenceChannel, d.remove channel i = d ∧
      ∀ (proof : AuthorizedNowPublisher S) (snapshot : S) (clock : HubClock) (beat : Int),
        ∃ e, Hub.publish config i channel proof snapshot clock beat d = (.error e, d)
  /-- Who can publish. -/
  publishes : ∀ (i : Nat) (channel : PresenceChannel) (proof : AuthorizedNowPublisher S) (snapshot : S)
    (clock : HubClock) (beat : Int),
    (Hub.publish config i channel proof snapshot clock beat d).1 = .ok () →
      proof.channel = channel ∧ ∃ s, d.slots.get? channel.key = some s ∧ s.identity = i ∧
        s.window.active clock = true ∧ s.issuer = proof.issuer ∧ s.subject = proof.subject
  /-- A closed hub stays closed and empty. -/
  closed : d.phase = .closed → ∀ ops : List (HubOp S), (HubOp.run config ops d).phase = .closed ∧
    (HubOp.run config ops d).slots = .empty ∧ (HubOp.run config ops d).groups = .empty
  /-- Nothing can be opened, published, subscribed to or replayed there. -/
  closed_fails : d.phase = .closed →
    (∀ proof snapshot clock beat, ∃ e,
      Hub.openPublisher config proof snapshot clock beat d = (.error e, d)) ∧
    (∀ i channel proof snapshot clock beat, ∃ e,
      Hub.publish config i channel proof snapshot clock beat d = (.error e, d)) ∧
    (∀ proof clock, ∃ e, Hub.subscribe proof clock d = (.error e, d)) ∧
    (∀ proof clock, ∃ e, Hub.candidates proof clock d = (.error e, d)) ∧
    ∀ project channels known clock, ∃ e,
      Hub.replay project channels known clock d = (.error e, d)

/-- **One live owner.** In every state that the operations of the hub can reach, with any readings of
the clocks. -/
theorem slots_one_owner {S : Type} (config : HubConfig) (ops : List (HubOp S)) :
    SlotOwnership config (HubOp.run config ops Hub.new) := by
  have hd : (HubOp.run config ops Hub.new).Paired := Hub.paired_run Hub.paired_new ops
  refine
    { slot_iff := Hub.existsUnique_identity hd
      slot_identity := fun c s hs => ?_
      replaced := fun op k s s' hs hs' => Hub.follows_apply hd hs hs'
      removed := fun op k s hs hnone => ?_
      ended := fun i r hr more => ?_
      ended_handle := fun i r hr channel =>
        ⟨Hub.remove_of_ended hd hr channel, Hub.publish_of_ended hr channel⟩
      publishes := fun i channel proof snapshot clock beat => Hub.publish_eq_ok hd
      closed := fun hclosed more => ?_
      closed_fails := fun hclosed => ⟨Hub.openPublisher_of_closed hclosed,
        Hub.publish_of_closed hclosed, Hub.subscribe_of_closed hclosed,
        Hub.candidates_of_closed hclosed, Hub.replay_of_closed hclosed⟩ }
  · obtain ⟨hkey, hpublication⟩ := hd.slot c.key s hs
    obtain rfl := PresenceChannel.key_injective hkey
    exact ⟨rfl, hpublication⟩
  · rcases (Hub.moves_apply hd op).slot k s hs with ⟨s', hs', -⟩ | hended
    · rw [hnone] at hs'
      cases hs'
    · exact hended
  · have hended : (HubOp.run config more (HubOp.run config ops Hub.new)).endReason i = some r :=
      (Hub.moves_run hd more).endReason hr
    exact ⟨hended, fun k s hs => (Hub.paired_run hd more).identity_ne hended hs⟩
  · have hphase : (HubOp.run config more (HubOp.run config ops Hub.new)).phase = .closed :=
      (Hub.moves_run hd more).closed hclosed
    exact ⟨hphase, (Hub.paired_run hd more).shut hphase⟩

end GraphitBroker
