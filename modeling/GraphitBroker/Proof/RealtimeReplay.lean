import GraphitBroker.Proof.RealtimeSignals

/-!
# What a replay returns

A slot holds the snapshot that was last accepted for its channel, over every run.
-/

namespace GraphitBroker

namespace Hub

variable {S : Type} {config : HubConfig} {op : HubOp S} {d d' : Hub S}

section Accepted

variable {proof : AuthorizedNowPublisher S} {snapshot : S} {clock : HubClock} {beat : Int}
  {channel : PresenceChannel} {identity : Nat}

theorem openPublisher_cases (config : HubConfig) (proof : AuthorizedNowPublisher S) (snapshot : S)
    (clock : HubClock) (beat : Int) (d : Hub S) :
    (∃ e d₁, openPublisher config proof snapshot clock beat d = (.error e, d₁) ∧
      Prunes (.openPublisher proof snapshot clock beat) d d₁) ∨
    ∃ x slot, proof.filterSnapshot snapshot = .ok x ∧ d.phase = .running ∧
      openSlot config proof x beat (d.prune clock) = .ok slot ∧
      openPublisher config proof snapshot clock beat d =
        (.ok slot.identity, (d.prune clock).putSlot slot) := by
  unfold openPublisher
  split
  · exact Or.inl ⟨_, _, rfl, .skip⟩
  · next x hx =>
    obtain ⟨-, -, hfilter⟩ := ExceptList.bind_eq_ok.mp hx
    split
    · exact Or.inl ⟨_, _, rfl, .skip⟩
    · next hrunning =>
      have hphase := running_eq_ok.mp hrunning
      dsimp only
      split
      · exact Or.inl ⟨_, _, rfl, .prune rfl hphase⟩
      · next slot hslot =>
        exact Or.inr ⟨x, slot, ExceptList.mapError_eq_ok.mp hfilter, hphase, hslot, rfl⟩

theorem publish_cases (config : HubConfig) (identity : Nat) (channel : PresenceChannel)
    (proof : AuthorizedNowPublisher S) (snapshot : S) (clock : HubClock) (beat : Int) (d : Hub S) :
    (∃ e d₁, publish config identity channel proof snapshot clock beat d = (.error e, d₁) ∧
      Prunes (.publish identity channel proof snapshot clock beat) d d₁) ∨
    ∃ x slot, proof.filterSnapshot snapshot = .ok x ∧ d.phase = .running ∧
      publishSlot config identity channel proof x beat (d.prune clock) = .ok slot ∧
      publish config identity channel proof snapshot clock beat d =
        (.ok (), { d.prune clock with slots := (d.prune clock).slots.insert channel.key slot }.signal
          channel.projectId) := by
  unfold publish
  split
  · exact Or.inl ⟨_, _, rfl, .skip⟩
  · next x hx =>
    split
    · exact Or.inl ⟨_, _, rfl, .skip⟩
    · split
      · exact Or.inl ⟨_, _, rfl, .skip⟩
      · next hrunning =>
        have hphase := running_eq_ok.mp hrunning
        dsimp only
        split
        · exact Or.inl ⟨_, _, rfl, .prune rfl hphase⟩
        · next slot hslot =>
          exact Or.inr ⟨x, slot, (publishInput_eq_ok hx).2, hphase, hslot, rfl⟩

theorem Prunes.get?_of_get? (h : Prunes op d d') (hd : d.Paired) {k : ChannelKey} {s : Slot S}
    (hs : d'.slots.get? k = some s) : d.slots.get? k = some s := by
  cases h with
  | skip => exact hs
  | prune =>
    rw [slots_prune hd, Option.filter_eq_some_iff] at hs
    exact hs.1

theorem get?_of_get?_apply (hd : d.Paired)
    (hopen : ∀ proof snapshot clock beat, op ≠ .openPublisher proof snapshot clock beat)
    (hpublish : ∀ i c proof snapshot clock beat, op ≠ .publish i c proof snapshot clock beat)
    {k : ChannelKey} {s : Slot S} (hs : (HubOp.apply config d op).slots.get? k = some s) :
    d.slots.get? k = some s := by
  obtain ⟨d₁, hprunes, hchange⟩ := @apply_steps S config op d
  refine hprunes.get?_of_get? hd ?_
  generalize HubOp.apply config d op = d' at hchange hs
  cases hchange with
  | none => exact hs
  | start => exact hs
  | put => exact absurd rfl (hopen _ _ _ _)
  | update => exact absurd rfl (hpublish _ _ _ _ _ _)
  | @remove _ channel =>
    have herased : (d₁.slots.erase channel.key).get? k = some s := by
      rw [← hs]
      exact congrFun slots_removeSlot.symm k
    rw [SortedMap.get?_erase] at herased
    split_ifs at herased
    exact herased
  | receiver =>
    rw [addReceiver_slots] at hs
    exact hs
  | recv => exact hs
  | @drop j =>
    obtain ⟨groups, subscriptions, h, -⟩ := dropSubscription_eq j d₁
    rw [h] at hs
    exact hs
  | close => cases hs

structure Accepts (config : HubConfig) (op : HubOp S) (d : Hub S) (c : PresenceChannel) (x : S)
    (d₁ : Hub S) : Prop where
  prunes : Prunes op d d₁
  marks : Marks c.projectId d₁ (HubOp.apply config d op)
  slots : ∀ k, (HubOp.apply config d op).slots.get? k = d₁.slots.get? k ∨ k = c.key
  slot : ∃ s, (HubOp.apply config d op).slots.get? c.key = some s ∧ s.snapshot = x

theorem accepts_cases (hd : d.Paired) (op : HubOp S) :
    (HubOp.accepts config d op = none ∧
      ∀ k s, (HubOp.apply config d op).slots.get? k = some s → d.slots.get? k = some s) ∨
    ∃ c x d₁, HubOp.accepts config d op = some (c.key, x) ∧ Accepts config op d c x d₁ := by
  cases op with
  | openPublisher proof snapshot clock beat =>
    rcases openPublisher_cases config proof snapshot clock beat d with
      ⟨e, d₁, h, hprunes⟩ | ⟨x, slot, hfilter, hphase, hslot, h⟩
    · refine Or.inl ⟨by simp [HubOp.accepts, h, Except.isOk, Except.toBool], fun k s hs => ?_⟩
      simp only [HubOp.apply, h] at hs
      exact hprunes.get?_of_get? hd hs
    · obtain ⟨-, window, rfl⟩ := openSlot_eq_ok hslot
      refine Or.inr ⟨proof.channel, x, d.prune clock, ?_, .prune rfl hphase, ?_, ?_, ?_⟩
      · simp [HubOp.accepts, h, hfilter, Except.isOk, Except.toBool, Except.toOption]
      · simp only [HubOp.apply, h]
        exact @marks_putSlot S (d.prune clock) ⟨proof.channel, proof.issuer, proof.subject, _, x, window⟩
      · intro k
        simp only [HubOp.apply, h, slots_putSlot]
        by_cases hk : k = proof.channel.key
        · exact Or.inr hk
        · exact Or.inl (if_neg hk)
      · simp only [HubOp.apply, h, slots_putSlot]
        exact ⟨_, if_pos trivial, rfl⟩
  | publish identity channel proof snapshot clock beat =>
    rcases publish_cases config identity channel proof snapshot clock beat d with
      ⟨e, d₁, h, hprunes⟩ | ⟨x, slot, hfilter, hphase, hslot, h⟩
    · refine Or.inl ⟨by simp [HubOp.accepts, h, Except.isOk, Except.toBool], fun k s hs => ?_⟩
      simp only [HubOp.apply, h] at hs
      exact hprunes.get?_of_get? hd hs
    · obtain ⟨old, window, -, -, -, -, rfl⟩ := publishSlot_eq_ok hslot
      refine Or.inr ⟨channel, x, d.prune clock, ?_, .prune rfl hphase, ?_, ?_, ?_⟩
      · simp [HubOp.accepts, h, hfilter, Except.isOk, Except.toBool, Except.toOption]
      · simp only [HubOp.apply, h]
        exact marks_insert
      · intro k
        simp only [HubOp.apply, h, signal_slots, SortedMap.get?_insert]
        by_cases hk : k = channel.key
        · exact Or.inr hk
        · exact Or.inl (if_neg hk)
      · simp only [HubOp.apply, h, signal_slots, SortedMap.get?_insert]
        exact ⟨_, if_pos trivial, rfl⟩
  | _ =>
    exact Or.inl ⟨rfl, fun k s hs => get?_of_get?_apply hd (fun _ _ _ _ heq => by cases heq)
      (fun _ _ _ _ _ _ heq => by cases heq) hs⟩

def Recorded (last : ChannelKey → Option S) (d : Hub S) : Prop :=
  ∀ k s, d.slots.get? k = some s → last k = some s.snapshot

theorem recorded_run {last : ChannelKey → Option S} (hd : d.Paired) (h : Recorded last d)
    (ops : List (HubOp S)) :
    Recorded (HubOp.lastAccepted config ops d last) (HubOp.run config ops d) := by
  induction ops generalizing d last with
  | nil => exact h
  | cons op rest ih =>
    refine ih (paired_apply hd op) fun k s hs => ?_
    rcases @accepts_cases S config d hd op with ⟨haccepts, hkept⟩ | ⟨c, x, d₁, haccepts, hstep⟩
    · rw [haccepts]
      exact h k s (hkept k s hs)
    · rw [haccepts]
      by_cases hk : k = c.key
      · subst hk
        obtain ⟨s', hs', hsnapshot⟩ := hstep.slot
        obtain rfl := Option.some.inj (hs.symm.trans hs')
        exact (Function.update_self _ _ _).trans (congrArg some hsnapshot.symm)
      · refine (Function.update_of_ne hk _ _).trans (h k s ?_)
        exact hstep.prunes.get?_of_get? hd (((hstep.slots k).resolve_right hk).symm.trans hs)

end Accepted

section Replay

variable {project : AuthorizedNowProjectSubscriber} {channels : List AuthorizedNowSubscriber}
  {known : List ChannelKey} {instances : List (RealtimeHubInstance S)}

theorem authorized_eq_ok {α : Type} {r : Except NowChannelAuthorizationError α} {x : α} :
    authorized r = .ok x ↔ r = .ok x := ExceptList.mapError_eq_ok

theorem checkProofs_cons {seen : List ChannelKey} {proof : AuthorizedNowSubscriber} :
    checkProofs project seen (proof :: channels) = .ok () ↔
      proof.check 0 = .ok () ∧ (proof.channel.projectId = project.projectId ∧
        proof.channel.key ∉ seen) ∧ checkProofs project (proof.channel.key :: seen) channels = .ok () := by
  rw [checkProofs]
  cases proof.check 0 with
  | error e => simp [authorized, Except.mapError, bind, Except.bind]
  | ok u =>
    simp only [authorized, Except.mapError, bind, Except.bind, throw, throwThe, MonadExceptOf.throw,
      true_and]
    split_ifs with hbad
    · refine iff_of_false (by simp) fun h => ?_
      exact hbad.elim (absurd h.1.1) h.1.2
    · rw [not_or, not_not] at hbad
      exact (and_iff_right hbad).symm

theorem checkProofs_eq_ok {seen : List ChannelKey} :
    checkProofs project seen channels = .ok () ↔
      (∀ proof ∈ channels, proof.check 0 = .ok () ∧ proof.channel.projectId = project.projectId ∧
        proof.channel.key ∉ seen) ∧ channels.Pairwise fun a b => a.channel.key ≠ b.channel.key := by
  induction channels generalizing seen with
  | nil => simp [checkProofs]
  | cons proof rest ih =>
    rw [checkProofs_cons, ih, List.forall_mem_cons, List.pairwise_cons]
    constructor
    · rintro ⟨hcheck, hproof, hrest, hdistinct⟩
      refine ⟨⟨⟨hcheck, hproof⟩, fun p hp => ?_⟩, fun p hp heq => ?_, hdistinct⟩
      · obtain ⟨hchecked, hproject, hnew⟩ := hrest p hp
        exact ⟨hchecked, hproject, fun hmem => hnew (List.mem_cons_of_mem _ hmem)⟩
      · exact (hrest p hp).2.2 (heq ▸ List.mem_cons_self)
    · rintro ⟨⟨⟨hcheck, hproof⟩, hrest⟩, hne, hdistinct⟩
      refine ⟨hcheck, hproof, fun p hp => ?_, hdistinct⟩
      obtain ⟨hchecked, hproject, hnew⟩ := hrest p hp
      refine ⟨hchecked, hproject, fun hmem => ?_⟩
      rcases List.mem_cons.mp hmem with heq | hmem
      · exact hne p hp heq.symm
      · exact hnew hmem

theorem checkAll_eq_ok {site : Nat} :
    checkAll site channels = .ok () ↔ ∀ proof ∈ channels, proof.check site = .ok () := by
  induction channels with
  | nil => simp [checkAll]
  | cons proof rest ih =>
    rw [checkAll, List.forall_mem_cons, ← ih]
    cases proof.check site with
    | error e => simp [authorized, Except.mapError, bind, Except.bind]
    | ok u => simp [authorized, Except.mapError, bind, Except.bind]

theorem visible_eq_some {proof : AuthorizedNowSubscriber} {slot : Slot S} :
    visible known d proof = some slot ↔
      d.slots.get? proof.channel.key = some slot ∧ proof.channel.key ∈ known := by
  rw [visible, Option.filter_eq_some_iff, decide_eq_true_iff]

def shown (known : List ChannelKey) (d : Hub S) (entry : AuthorizedNowSubscriber × Nat) :
    Option (RealtimeHubInstance S) :=
  (visible known d entry.1).map fun slot => ⟨slot.channel, slot.snapshot, entry.2⟩

theorem collect_eq_ok {index : Nat} :
    collect known d index channels = .ok instances ↔
      (∀ proof ∈ channels, ∀ slot, visible known d proof = some slot →
        slot.issuer = proof.issuer ∧ slot.subject = proof.subject) ∧
      instances = (channels.zipIdx index).filterMap (shown known d) := by
  induction channels generalizing index instances with
  | nil => simp [collect, eq_comm]
  | cons proof rest ih =>
    rw [collect, List.forall_mem_cons, List.zipIdx_cons, List.filterMap_cons]
    cases hvisible : visible known d proof with
    | none =>
      have hshown : shown known d (proof, index) = none := by rw [shown, hvisible]; rfl
      simp only [hshown, ih]
      simp
    | some slot =>
      have hshown : shown known d (proof, index) = some ⟨slot.channel, slot.snapshot, index⟩ := by
        rw [shown, hvisible]
        rfl
      simp only [hshown, Option.some.injEq, forall_eq']
      by_cases howner : slot.issuer ≠ proof.issuer ∨ slot.subject ≠ proof.subject
      · rw [if_pos howner]
        refine iff_of_false (fun h => by cases h) fun h => ?_
        exact howner.elim (absurd h.1.1.1) (absurd h.1.1.2)
      · rw [if_neg howner, ExceptList.bind_eq_ok]
        rw [not_or, not_not, not_not] at howner
        constructor
        · rintro ⟨found, hfound, hinstances⟩
          obtain ⟨howners, rfl⟩ := ih.mp hfound
          exact ⟨⟨howner, howners⟩, (Except.ok.inj hinstances).symm⟩
        · rintro ⟨⟨-, howners⟩, rfl⟩
          exact ⟨_, ih.mpr ⟨howners, rfl⟩, rfl⟩

theorem pairwise_shown (hd : d.Paired)
    (hdistinct : channels.Pairwise fun a b => a.channel.key ≠ b.channel.key) :
    ((channels.zipIdx).filterMap (shown known d)).Pairwise fun a b => a.channel.key ≠ b.channel.key := by
  have hindexed : channels.zipIdx.Pairwise fun a b => a.1.channel.key ≠ b.1.channel.key := by
    rw [← List.zipIdx_map_fst 0 channels, List.pairwise_map] at hdistinct
    exact hdistinct
  refine List.Pairwise.filterMap _ ?_ hindexed
  intro a b hne x hx y hy
  have hkey : ∀ entry z, z ∈ shown known d entry → z.channel.key = entry.1.channel.key := by
    intro entry z hz
    obtain ⟨slot, hslot, rfl⟩ := Option.map_eq_some_iff.mp hz
    exact (hd.slot _ slot (visible_eq_some.mp hslot).1).1
  rw [hkey a x hx, hkey b y hy]
  exact hne

def instanceKey (a : RealtimeHubInstance S) : Str ×ₗ Str :=
  toLex (a.channel.instanceId, a.channel.version)

theorem replay_eq_ok {clock : HubClock} :
    (replay project channels known clock d).1 = .ok instances ↔
      (checkProofs project [] channels = .ok () ∧ d.phase = .running ∧ project.check 2 = .ok () ∧
        project.check 3 = .ok () ∧ checkAll 1 channels = .ok () ∧ checkAll 2 channels = .ok () ∧
        ∀ proof ∈ channels, ∀ slot, visible known (d.prune clock) proof = some slot →
          slot.issuer = proof.issuer ∧ slot.subject = proof.subject) ∧
      instances = (channels.zipIdx.filterMap (shown known (d.prune clock))).mergeSort instanceOrder := by
  unfold replay
  cases hproofs : checkProofs project [] channels with
  | error e => exact iff_of_false (fun h => by cases h) fun h => by cases h.1.1
  | ok u =>
    cases hrunning : d.running with
    | error e =>
      refine iff_of_false (fun h => by cases h) fun h => ?_
      rw [running_eq_ok.mpr h.1.2.1] at hrunning
      cases hrunning
    | ok u =>
      simp only [ExceptList.bind_eq_ok, authorized_eq_ok, collect_eq_ok, running_eq_ok.mp hrunning,
        true_and]
      constructor
      · rintro ⟨found, ⟨howners, rfl⟩, _, h₂, _, hall₁, _, h₃, _, hall₂, hinstances⟩
        exact ⟨⟨h₂, h₃, hall₁, hall₂, howners⟩, (Except.ok.inj hinstances).symm⟩
      · rintro ⟨⟨h₂, h₃, hall₁, hall₂, howners⟩, rfl⟩
        exact ⟨_, ⟨howners, rfl⟩, _, h₂, _, hall₁, _, h₃, _, hall₂, rfl⟩

theorem replay_snd {clock : HubClock} (h : (replay project channels known clock d).1 = .ok instances) :
    (replay project channels known clock d).2 = d.prune clock := by
  unfold replay at h ⊢
  split
  · next hproofs =>
    simp only [hproofs] at h
    cases h
  · next hproofs =>
    simp only [hproofs] at h
    split
    · next hrunning =>
      simp only [hrunning] at h
      cases h
    · rfl

theorem pairwise_mergeSort_instanceOrder {l : List (RealtimeHubInstance S)} (p : Str)
    (hproject : ∀ a ∈ l, a.channel.projectId = p)
    (hdistinct : l.Pairwise fun a b => a.channel.key ≠ b.channel.key) :
    (l.mergeSort instanceOrder).Pairwise fun a b => instanceKey a < instanceKey b := by
  have hperm : (l.mergeSort instanceOrder).Perm l := List.mergeSort_perm l _
  have hsorted : (l.mergeSort instanceOrder).Pairwise fun a b => instanceOrder a b = true := by
    refine List.pairwise_mergeSort (fun a b c hab hbc => ?_) (fun a b => ?_) l
    · rw [instanceOrder, decide_eq_true_iff] at hab hbc ⊢
      exact hab.trans hbc
    · rw [Bool.or_eq_true, instanceOrder, instanceOrder, decide_eq_true_iff, decide_eq_true_iff]
      exact le_total _ _
  have hne : (l.mergeSort instanceOrder).Pairwise fun a b => a.channel.key ≠ b.channel.key :=
    (hperm.pairwise_iff fun h => Ne.symm h).mpr hdistinct
  refine (hsorted.and hne).imp_of_mem fun {a b} ha hb ⟨hle, hkey⟩ => ?_
  refine lt_of_le_of_ne (of_decide_eq_true hle) fun heq => hkey ?_
  have hprojects : a.channel.projectId = b.channel.projectId :=
    (hproject a (hperm.mem_iff.mp ha)).trans (hproject b (hperm.mem_iff.mp hb)).symm
  exact congrArg toLex (Prod.ext hprojects heq)

end Replay

theorem Marks.signalled {project : Str} {j : Nat} {s s' : Subscription} (h : Marks project d d')
    (hd : d.Joined) (hs : d.subscriptions[j]? = some s) (hs' : d'.subscriptions[j]? = some s')
    (hlive : s'.live = true) (hproject : s.project = project) (hopen : d'.phase ≠ .closed) :
    s.pending < s'.pending := by
  have hsignal := h.subscriptions j
  rw [hs', getElem?_signal, hs, Option.map_some] at hsignal
  obtain rfl := Option.some.inj hsignal
  by_cases hsignalled : s.live = true ∧ d.groups.get? project = some s.sender
  · rw [if_pos hsignalled]
    exact Nat.lt_succ_self _
  · rw [if_neg hsignalled] at hlive
    exact absurd ⟨hlive, hproject ▸ hd j s hs hlive (h.phase ▸ hopen)⟩ hsignalled

theorem slots_apply_recv {j : Nat} : (HubOp.apply config d (.recv j)).slots = d.slots := by
  simp only [HubOp.apply, recv]
  split
  · rfl
  · split_ifs <;> rfl

theorem pending_lt_apply (hpaired : d.Paired) (hd : d.Joined) {j : Nat} {s s' : Subscription}
    (hs : d.subscriptions[j]? = some s) (hs' : (HubOp.apply config d op).subscriptions[j]? = some s')
    (hlive : s'.live = true) (hopen : (HubOp.apply config d op).phase ≠ .closed)
    (htouch : Touches s.project d (HubOp.apply config d op) ∨
      ∃ c x, c.projectId = s.project ∧ HubOp.accepts config d op = some (PresenceChannel.key c, x)) :
    s.pending < s'.pending := by
  rcases htouch with htouches | ⟨c, x, hproject, hsome⟩
  · have hop : op ≠ .recv j := by
      rintro rfl
      obtain ⟨c, -, hne⟩ := htouches
      exact hne (by rw [slots_apply_recv])
    obtain ⟨t, ht, -, -, -, -, hlt⟩ := (watches_apply hpaired hd hop).receiver s hs
    obtain rfl := Option.some.inj (hs'.symm.trans ht)
    exact hlt hlive hopen htouches
  · rcases @accepts_cases S config d hpaired op with ⟨hnone, -⟩ | ⟨c', x', d₁, haccepts, hstep⟩
    · rw [hnone] at hsome
      cases hsome
    · rw [haccepts] at hsome
      obtain rfl : c' = c := PresenceChannel.key_injective (Prod.mk.inj (Option.some.inj hsome)).1
      obtain ⟨t, ht, hsame, -, -, hle, -⟩ := (hstep.prunes.watches hpaired hd).receiver s hs
      exact hle.trans_lt (hstep.marks.signalled (hstep.prunes.joined hpaired hd) ht hs' hlive
        (hsame.trans hproject.symm) hopen)

end Hub

/-- What a subscriber can rely on in a state that `ops` have led to, and after every run from it. -/
structure InvalidationsDelivered {S : Type} (config : HubConfig) (ops : List (HubOp S)) (d : Hub S) :
    Prop where
  /-- What is stored for the project of a live receiver is what it was when the receiver was made or last
  took a signal, or else a receive does not wait. -/
  current : ∀ (j : Nat) (s s' : Subscription) (more : List (HubOp S)), d.subscriptions[j]? = some s →
    (HubOp.run config more d).subscriptions[j]? = some s' → s'.live = true →
    (HubOp.run config more d).stored s.project =
        Hub.lastSeen config j s.project more d (d.stored s.project) ∨
      ∃ result, (Hub.recv config j (HubOp.run config more d)).1 = some result
  /-- Whatever changes a slot of a project, or stores a snapshot for it, signals the live receivers of the
  project in the same section, or closes the hub. -/
  signalled : ∀ (op : HubOp S) (j : Nat) (s s' : Subscription), d.subscriptions[j]? = some s →
    (HubOp.apply config d op).subscriptions[j]? = some s' → s'.live = true →
    (Hub.Touches s.project d (HubOp.apply config d op) ∨ ∃ c x, c.projectId = s.project ∧
      HubOp.accepts config d op = some (PresenceChannel.key c, x)) →
    s.pending < s'.pending ∨ (HubOp.apply config d op).phase = .closed
  /-- No operation but a close takes its channel from a live receiver, or puts it on another. -/
  kept : ∀ (op : HubOp S) (j : Nat) (s : Subscription), d.subscriptions[j]? = some s →
    ∃ s', (HubOp.apply config d op).subscriptions[j]? = some s' ∧ s'.project = s.project ∧
      s'.sender = s.sender ∧ (s'.live = true →
        (HubOp.apply config d op).groups.get? s.project = some s.sender ∨
          (HubOp.apply config d op).phase = .closed)
  /-- The instances of a replay are the snapshots last accepted for the channels with a slot among those
  that the proofs and the candidates have. -/
  replayed : ∀ (project : AuthorizedNowProjectSubscriber) (channels : List AuthorizedNowSubscriber)
    (known : List ChannelKey) (clock : HubClock) (instances : List (RealtimeHubInstance S)),
    (Hub.replay project channels known clock d).1 = .ok instances →
    (∀ a, a ∈ instances ↔ ∃ proof, channels[a.proofIndex]? = some proof ∧
      proof.channel.key ∈ known ∧
      ((Hub.replay project channels known clock d).2.slots.get? proof.channel.key).isSome ∧
      a.channel = proof.channel ∧
      HubOp.lastAccepted config ops Hub.new (fun _ => none) proof.channel.key = some a.snapshot) ∧
    instances.Pairwise fun a b => Hub.instanceKey a < Hub.instanceKey b
  /-- A replay of a running hub fails only if one of its checks does. -/
  replays : ∀ (project : AuthorizedNowProjectSubscriber) (channels : List AuthorizedNowSubscriber)
    (known : List ChannelKey) (clock : HubClock), d.phase = .running →
    (∀ site, project.check site = .ok ()) →
    (∀ proof ∈ channels, (∀ site, proof.check site = .ok ()) ∧
      proof.channel.projectId = project.projectId ∧
      ∀ slot, d.slots.get? proof.channel.key = some slot →
        slot.issuer = proof.issuer ∧ slot.subject = proof.subject) →
    (channels.Pairwise fun a b => a.channel.key ≠ b.channel.key) →
    ∃ instances, (Hub.replay project channels known clock d).1 = .ok instances

namespace Hub

section Replayed

variable {S : Type} {config : HubConfig} {d : Hub S} {project : AuthorizedNowProjectSubscriber}
  {channels : List AuthorizedNowSubscriber} {known : List ChannelKey}
  {instances : List (RealtimeHubInstance S)} {clock : HubClock}

theorem mem_zipIdx_filterMap_shown (hd : d.Paired) {last : ChannelKey → Option S}
    (hlast : Recorded last d) {a : RealtimeHubInstance S} :
    a ∈ channels.zipIdx.filterMap (shown known d) ↔ ∃ proof, channels[a.proofIndex]? = some proof ∧
      proof.channel.key ∈ known ∧ (d.slots.get? proof.channel.key).isSome ∧
      a.channel = proof.channel ∧ last proof.channel.key = some a.snapshot := by
  rw [List.mem_filterMap]
  constructor
  · rintro ⟨⟨proof, i⟩, hmem, ha⟩
    obtain ⟨slot, hslot, rfl⟩ := Option.map_eq_some_iff.mp ha
    obtain ⟨hget, hknown⟩ := visible_eq_some.mp hslot
    refine ⟨proof, List.mem_zipIdx_iff_getElem?.mp hmem, hknown, by rw [hget]; rfl, ?_, hlast _ _ hget⟩
    exact PresenceChannel.key_injective (hd.slot _ slot hget).1
  · rintro ⟨proof, hproof, hknown, hsome, hchannel, hsnapshot⟩
    obtain ⟨slot, hget⟩ := Option.isSome_iff_exists.mp hsome
    refine ⟨(proof, a.proofIndex), List.mem_zipIdx_iff_getElem?.mpr hproof, ?_⟩
    rw [shown, visible_eq_some.mpr ⟨hget, hknown⟩, Option.map_some]
    have hslot : slot.channel = a.channel :=
      (PresenceChannel.key_injective (hd.slot _ slot hget).1).trans hchannel.symm
    have hstored : slot.snapshot = a.snapshot :=
      Option.some.inj ((hlast _ _ hget).symm.trans hsnapshot)
    rw [hslot, hstored]

theorem replay_instances (hd : d.Paired) {last : ChannelKey → Option S} (hlast : Recorded last d)
    (h : (replay project channels known clock d).1 = .ok instances) :
    (∀ a, a ∈ instances ↔ ∃ proof, channels[a.proofIndex]? = some proof ∧
      proof.channel.key ∈ known ∧
      ((replay project channels known clock d).2.slots.get? proof.channel.key).isSome ∧
      a.channel = proof.channel ∧ last proof.channel.key = some a.snapshot) ∧
    instances.Pairwise fun a b => instanceKey a < instanceKey b := by
  rw [replay_snd h]
  have hpruned : Recorded last (d.prune clock) := by
    intro k s hs
    rw [slots_prune hd, Option.filter_eq_some_iff] at hs
    exact hlast k s hs.1
  have hpaired : (d.prune clock).Paired := paired_prune hd
  obtain ⟨⟨hproofs, -⟩, rfl⟩ := replay_eq_ok.mp h
  obtain ⟨hchecked, hdistinct⟩ := checkProofs_eq_ok.mp hproofs
  constructor
  · intro a
    rw [(List.mergeSort_perm _ _).mem_iff]
    exact mem_zipIdx_filterMap_shown hpaired hpruned
  · refine pairwise_mergeSort_instanceOrder project.projectId (fun a ha => ?_)
      (pairwise_shown hpaired hdistinct)
    obtain ⟨proof, hproof, -, -, hchannel, -⟩ := (mem_zipIdx_filterMap_shown hpaired hpruned).mp ha
    rw [hchannel]
    exact (hchecked proof (List.mem_of_getElem? hproof)).2.1

end Replayed

end Hub

/-- **No lost invalidation.** In every state that the operations of the hub can reach. -/
theorem invalidations_delivered {S : Type} (config : HubConfig) (ops : List (HubOp S)) :
    InvalidationsDelivered config ops (HubOp.run config ops Hub.new) := by
  have hpaired : (HubOp.run config ops Hub.new).Paired := Hub.paired_run Hub.paired_new ops
  have hd : (HubOp.run config ops Hub.new).Joined :=
    Hub.joined_run Hub.paired_new Hub.joined_new ops
  refine
    { current := fun j s s' more hs hs' hlive => ?_
      signalled := fun op j s s' hs hs' hlive htouch => ?_
      kept := fun op j s hs => ?_
      replayed := fun project channels known clock instances h => ?_
      replays := fun project channels known clock hphase hproject hproofs hdistinct => ?_ }
  · have hfinal : (HubOp.run config more (HubOp.run config ops Hub.new)).Paired :=
      Hub.paired_run hpaired more
    by_cases hclosed : (HubOp.run config more (HubOp.run config ops Hub.new)).phase = .closed
    · exact Or.inr (Hub.recv_isSome hfinal hs' (Or.inr hclosed))
    · have hstart : Hub.UpToDate j s.project (HubOp.run config ops Hub.new)
          ((HubOp.run config ops Hub.new).stored s.project) := fun _ _ _ _ _ => Or.inl rfl
      have hproject : s'.project = s.project := by
        obtain ⟨t, ht, hproject⟩ := Hub.receiver_run hpaired hd hs more
        rw [Option.some.inj (hs'.symm.trans ht), hproject]
      exact (Hub.upToDate_run hpaired hd hstart hs more s' hs' hlive hproject hclosed).imp_right
        fun hpending => Hub.recv_isSome hfinal hs' (Or.inl hpending)
  · by_cases hclosed : (HubOp.apply config (HubOp.run config ops Hub.new) op).phase = .closed
    · exact Or.inr hclosed
    · exact Or.inl (Hub.pending_lt_apply hpaired hd hs hs' hlive hclosed htouch)
  · obtain ⟨s', hs', hproject, hsender⟩ := Hub.receiver_apply hpaired hd hs op
    refine ⟨s', hs', hproject, hsender, fun hlive => ?_⟩
    by_cases hclosed : (HubOp.apply config (HubOp.run config ops Hub.new) op).phase = .closed
    · exact Or.inr hclosed
    · refine Or.inl ?_
      rw [← hproject, ← hsender]
      exact Hub.joined_apply hpaired hd op j s' hs' hlive hclosed
  · refine Hub.replay_instances hpaired ?_ h
    exact Hub.recorded_run Hub.paired_new (fun k s hs => by cases hs) ops
  · refine ⟨_, Hub.replay_eq_ok.mpr ⟨⟨Hub.checkProofs_eq_ok.mpr ⟨fun proof hproof => ?_, hdistinct⟩,
      hphase, hproject 2, hproject 3, Hub.checkAll_eq_ok.mpr fun proof hproof => ?_,
      Hub.checkAll_eq_ok.mpr fun proof hproof => ?_, fun proof hproof slot hslot => ?_⟩, rfl⟩⟩
    · exact ⟨(hproofs proof hproof).1 0, (hproofs proof hproof).2.1, List.not_mem_nil⟩
    · exact (hproofs proof hproof).1 1
    · exact (hproofs proof hproof).1 2
    · have hget := (Hub.visible_eq_some.mp hslot).1
      rw [Hub.slots_prune hpaired, Option.filter_eq_some_iff] at hget
      exact (hproofs proof hproof).2.2 slot hget.1

end GraphitBroker
