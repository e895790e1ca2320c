import GraphitBroker.Proof.RealtimeOwners

/-!
# No invalidation is lost

A live receiver stays on the channel of its project (`Joined`), so whatever changes the slots of the
project also signals it (`Watches`).
-/

namespace GraphitBroker

namespace Hub

variable {S : Type} {config : HubConfig} {op : HubOp S} {d d' d'' : Hub S} {j : Nat}

theorem getElem?_signal (d : Hub S) (project : Str) (j : Nat) :
    (d.signal project).subscriptions[j]? = (d.subscriptions[j]?).map fun s =>
      if s.live = true ∧ d.groups.get? project = some s.sender then { s with pending := s.pending + 1 }
      else s := by
  unfold signal
  cases hgroup : d.groups.get? project with
  | none => simp
  | some sender =>
    simp only [List.getElem?_map]
    congr 1
    funext s
    by_cases hsender : s.sender = sender
    · simp [hsender]
    · simp [hsender, Ne.symm hsender]

def Joined (d : Hub S) : Prop :=
  ∀ (j : Nat) (s : Subscription), d.subscriptions[j]? = some s → s.live = true → d.phase ≠ .closed →
    d.groups.get? s.project = some s.sender

theorem joined_signal (hd : d.Joined) (project : Str) : (d.signal project).Joined := by
  intro j s hs hlive hphase
  rw [getElem?_signal] at hs
  obtain ⟨s₀, hs₀, rfl⟩ := Option.map_eq_some_iff.mp hs
  rw [signal_phase] at hphase
  rw [signal_groups]
  split_ifs at hlive ⊢
  · exact hd j s₀ hs₀ hlive hphase
  · exact hd j s₀ hs₀ hlive hphase

variable {s : Subscription} {project : Str}

theorem receiverCount_ne_zero (hs : d.subscriptions[j]? = some s)
    (hlive : s.live = true) : d.receiverCount s.sender ≠ 0 := by
  have hmem : s ∈ d.subscriptions.filter fun t => t.live && t.sender == s.sender :=
    List.mem_filter.mpr ⟨List.mem_of_getElem? hs, by simp [hlive]⟩
  exact (List.length_pos_of_mem hmem).ne'

theorem joined_pruneGroups (hd : d.Joined) : d.pruneGroups.Joined := by
  intro j s hs hlive hphase
  have hcount : d.receiverCount s.sender ≠ 0 := receiverCount_ne_zero hs hlive
  have hgroup : d.groups.get? s.project = some s.sender := hd j s hs hlive hphase
  show (d.groups.filter _).get? s.project = some s.sender
  rw [SortedMap.get?_filter, hgroup]
  simp [Option.filter, hcount]

structure Marks (project : Str) (d d' : Hub S) : Prop where
  subscriptions : ∀ j : Nat, d'.subscriptions[j]? = (d.signal project).subscriptions[j]?
  groups : d'.groups = d.groups
  phase : d'.phase = d.phase
  slots : ∀ c : PresenceChannel, c.projectId ≠ project → d'.slots.get? c.key = d.slots.get? c.key

theorem Marks.signal (hsubscriptions : d'.subscriptions = d.subscriptions)
    (hgroups : d'.groups = d.groups) (hphase : d'.phase = d.phase)
    (hslots : ∀ c : PresenceChannel, c.projectId ≠ project →
      d'.slots.get? c.key = d.slots.get? c.key) : Marks project d (d'.signal project) := by
  refine ⟨fun j => ?_, (signal_groups _ _).trans hgroups, (signal_phase _ _).trans hphase,
    fun c hc => ?_⟩
  · rw [getElem?_signal, getElem?_signal, hsubscriptions, hgroups]
  · rw [signal_slots]
    exact hslots c hc

theorem key_ne_of_projectId_ne {c c' : PresenceChannel} (h : c.projectId ≠ c'.projectId) :
    c.key ≠ c'.key := fun heq => h (congrArg _ (PresenceChannel.key_injective heq))

theorem marks_removeSlot (hd : d.Paired) {k : ChannelKey} {slot : Slot S}
    (h : d.slots.get? k = some slot) (reason : Slot S → RealtimeHubError) :
    Marks slot.channel.projectId d (d.removeSlot k reason) := by
  rw [removeSlot, h]
  refine Marks.signal rfl rfl rfl fun c hc => ?_
  have hne : c.key ≠ k := (hd.slot k slot h).1 ▸ key_ne_of_projectId_ne hc
  show (d.slots.erase k).get? c.key = _
  rw [SortedMap.get?_erase, if_neg hne]

theorem marks_insert {channel : PresenceChannel} {slot : Slot S} :
    Marks channel.projectId d
      ({ d with slots := d.slots.insert channel.key slot }.signal channel.projectId) := by
  refine Marks.signal rfl rfl rfl fun c hc => ?_
  show (d.slots.insert channel.key slot).get? c.key = _
  rw [SortedMap.get?_insert, if_neg (key_ne_of_projectId_ne hc)]

theorem marks_putSlot {slot : Slot S} : Marks slot.channel.projectId d (d.putSlot slot) := by
  have hslots : ∀ c : PresenceChannel, c.projectId ≠ slot.channel.projectId →
      (d.slots.insert slot.channel.key slot).get? c.key = d.slots.get? c.key := fun c hc => by
    rw [SortedMap.get?_insert, if_neg (key_ne_of_projectId_ne hc)]
  unfold putSlot
  split
  · exact Marks.signal rfl rfl rfl hslots
  · exact Marks.signal rfl rfl rfl hslots

theorem Marks.joined (h : Marks project d d') (hd : d.Joined) : d'.Joined := by
  intro j s hs hlive hphase
  have hsignal := joined_signal hd project j s ((h.subscriptions j).symm.trans hs) hlive
  rw [signal_phase, signal_groups] at hsignal
  rw [h.groups]
  exact hsignal (h.phase ▸ hphase)

theorem joined_removeSlot (hpaired : d.Paired) (hd : d.Joined) (k : ChannelKey)
    (reason : Slot S → RealtimeHubError) : (d.removeSlot k reason).Joined := by
  cases h : d.slots.get? k with
  | none =>
    rw [removeSlot_of_none h]
    exact hd
  | some slot => exact (marks_removeSlot hpaired h reason).joined hd

theorem joined_removeSlots (hpaired : d.Paired) (hd : d.Joined) (keys : List ChannelKey)
    (reason : Slot S → RealtimeHubError) :
    (keys.foldl (fun d k => d.removeSlot k reason) d).Joined := by
  induction keys generalizing d with
  | nil => exact hd
  | cons key rest ih => exact ih (paired_removeSlot hpaired) (joined_removeSlot hpaired hd key reason)

theorem joined_prune (hpaired : d.Paired) (hd : d.Joined) (clock : HubClock) : (d.prune clock).Joined :=
  joined_pruneGroups (joined_removeSlots hpaired hd (d.expiredKeys clock) _)

theorem getElem?_append_singleton_cases {α : Type} {xs : List α} {x y : α} {i : Nat}
    (h : (xs ++ [x])[i]? = some y) : xs[i]? = some y ∨ y = x := by
  by_cases hi : i < xs.length
  · rw [List.getElem?_append_left hi] at h
    exact Or.inl h
  · rw [List.getElem?_append_right (Nat.le_of_not_lt hi)] at h
    exact Or.inr (List.mem_singleton.mp (List.mem_of_getElem? h))

theorem joined_addReceiver (hd : d.Joined) (hphase : d.phase = .running) (project : Str) :
    (d.addReceiver project).Joined := by
  have hold : ∀ (i : Nat) t, d.subscriptions[i]? = some t → t.live = true →
      d.groups.get? t.project = some t.sender := fun i t ht hlive =>
    hd i t ht hlive (by rw [hphase]; decide)
  unfold addReceiver
  cases hgroup : d.groups.get? project with
  | some sender =>
    intro i s hs hlive _
    rcases getElem?_append_singleton_cases hs with hs | rfl
    · exact hold i s hs hlive
    · exact hgroup
  | none =>
    intro i s hs hlive _
    show (d.groups.insert project d.senders).get? s.project = _
    rw [SortedMap.get?_insert]
    rcases getElem?_append_singleton_cases hs with hmem | rfl
    · have hne : s.project ≠ project := by
        rintro rfl
        rw [hold i s hmem hlive] at hgroup
        cases hgroup
      rw [if_neg hne]
      exact hold i s hmem hlive
    · rw [if_pos rfl]

theorem getElem?_set_cases {α : Type} {xs : List α} {x y : α} {i j : Nat}
    (h : (xs.set j x)[i]? = some y) : (i ≠ j ∧ xs[i]? = some y) ∨ (i = j ∧ y = x) := by
  rw [List.getElem?_set] at h
  split_ifs at h with hj hlt
  · exact Or.inr ⟨hj.symm, (Option.some.inj h).symm⟩
  · exact Or.inl ⟨Ne.symm hj, h⟩

theorem joined_recv (hd : d.Joined) {pending : Nat} (hs : d.subscriptions[j]? = some s) :
    Joined { d with subscriptions := d.subscriptions.set j { s with pending := pending } } := by
  intro i t ht hlive hphase
  rcases getElem?_set_cases ht with ⟨-, ht⟩ | ⟨rfl, rfl⟩
  · exact hd i t ht hlive hphase
  · exact hd i s hs hlive hphase

theorem joined_dropSubscription (hd : d.Joined) : (dropSubscription j d).Joined := by
  rcases dropSubscription_cases j d with h | ⟨s, d₁, hs, hd₁, h⟩
  · rw [h]
    exact hd
  · have hset : d₁.Joined := by
      subst hd₁
      intro i t ht hlive hphase
      rcases getElem?_set_cases ht with ⟨-, ht⟩ | ⟨rfl, rfl⟩
      · exact hd i t ht hlive hphase
      · cases hlive
    rcases h with h | ⟨hunused, h⟩
    · rw [h]
      exact hset
    · rw [h]
      intro i t ht hlive hphase
      have hgroup : d₁.groups.get? t.project = some t.sender := hset i t ht hlive hphase
      have hne : t.project ≠ s.project := fun heq =>
        receiverCount_ne_zero ht hlive (hunused t.sender (heq ▸ hgroup))
      show (d₁.groups.erase s.project).get? t.project = _
      rw [SortedMap.get?_erase, if_neg hne, hgroup]

theorem Prunes.joined (h : Prunes op d d') (hpaired : d.Paired) (hd : d.Joined) : d'.Joined := by
  cases h with
  | skip => exact hd
  | prune => exact joined_prune hpaired hd _

theorem Change.joined (h : Change config op d d') (hpaired : d.Paired) (hd : d.Joined) :
    d'.Joined := by
  cases h with
  | none => exact hd
  | start hphase => exact fun i s hs hlive _ => hd i s hs hlive (by rw [hphase]; decide)
  | put hphase hslot => exact marks_putSlot.joined hd
  | update hslot => exact marks_insert.joined hd
  | remove => exact joined_pruneGroups (joined_removeSlot hpaired hd _ _)
  | receiver hphase => exact joined_addReceiver hd hphase _
  | recv hs => exact joined_recv hd hs
  | drop => exact joined_dropSubscription hd
  | close => exact fun i s hs hlive hphase => absurd rfl hphase

theorem joined_apply (hpaired : d.Paired) (hd : d.Joined) (op : HubOp S) :
    (HubOp.apply config d op).Joined := by
  obtain ⟨d₁, hprunes, hchange⟩ := apply_steps op d
  exact hchange.joined (hprunes.paired hpaired) (hprunes.joined hpaired hd)

theorem joined_new : (new : Hub S).Joined := by
  intro j s hs
  cases hs

theorem joined_run (hpaired : d.Paired) (hd : d.Joined) (ops : List (HubOp S)) :
    (HubOp.run config ops d).Joined := by
  induction ops generalizing d with
  | nil => exact hd
  | cons op rest ih => exact ih (paired_apply hpaired op) (joined_apply hpaired hd op)

def Touches (project : Str) (d d' : Hub S) : Prop :=
  ∃ c : PresenceChannel, c.projectId = project ∧ d'.slots.get? c.key ≠ d.slots.get? c.key

structure Watches (j : Nat) (d d' : Hub S) : Prop where
  closed : d.phase = .closed → d'.phase = .closed
  receiver : ∀ s, d.subscriptions[j]? = some s → ∃ s', d'.subscriptions[j]? = some s' ∧
    s'.project = s.project ∧ s'.sender = s.sender ∧ (s'.live = true → s.live = true) ∧
    s.pending ≤ s'.pending ∧
    (s'.live = true → d'.phase ≠ .closed → Touches s.project d d' → s.pending < s'.pending)

theorem Watches.trans (h : Watches j d d') (h' : Watches j d' d'') : Watches j d d'' := by
  refine ⟨fun hclosed => h'.closed (h.closed hclosed), fun s hs => ?_⟩
  obtain ⟨s', hs', hproject, hsender, hlive, hle, htouch⟩ := h.receiver s hs
  obtain ⟨s'', hs'', hproject', hsender', hlive', hle', htouch'⟩ := h'.receiver s' hs'
  refine ⟨s'', hs'', hproject'.trans hproject, hsender'.trans hsender, fun hl => hlive (hlive' hl),
    hle.trans hle', fun hl hopen => ?_⟩
  rintro ⟨c, hc, hne⟩
  by_cases hsame : d'.slots.get? c.key = d.slots.get? c.key
  · exact hle.trans_lt (htouch' hl hopen ⟨c, hc.trans hproject.symm, fun heq => hne (heq.trans hsame)⟩)
  · have hopen' : d'.phase ≠ .closed := fun hclosed => hopen (h'.closed hclosed)
    exact (htouch (hlive' hl) hopen' ⟨c, hc, hsame⟩).trans_le hle'

theorem Watches.of_slots (hslots : d'.slots = d.slots) (hclosed : d.phase = .closed → d'.phase = .closed)
    (hkept : ∀ s, d.subscriptions[j]? = some s → ∃ live, d'.subscriptions[j]? =
      some { s with live := live } ∧ (live = true → s.live = true)) : Watches j d d' := by
  refine ⟨hclosed, fun s hs => ?_⟩
  obtain ⟨live, hs', hlive⟩ := hkept s hs
  refine ⟨_, hs', rfl, rfl, hlive, le_refl _, fun _ _ htouch => ?_⟩
  obtain ⟨c, -, hne⟩ := htouch
  exact absurd (by rw [hslots]) hne

theorem Watches.of_eq (hslots : d'.slots = d.slots) (hclosed : d.phase = .closed → d'.phase = .closed)
    (hsubscriptions : d'.subscriptions = d.subscriptions) : Watches j d d' :=
  .of_slots hslots hclosed fun s hs => ⟨s.live, by rw [hsubscriptions, hs], id⟩

theorem Marks.watches (h : Marks project d d') (hd : d.Joined) : Watches j d d' := by
  refine ⟨h.phase.trans, fun s hs => ?_⟩
  have hs' := h.subscriptions j
  rw [getElem?_signal, hs, Option.map_some] at hs'
  refine ⟨_, hs', ?_⟩
  by_cases hsignalled : s.live = true ∧ d.groups.get? project = some s.sender
  · rw [if_pos hsignalled]
    exact ⟨rfl, rfl, id, Nat.le_succ _, fun _ _ _ => Nat.lt_succ_self _⟩
  · rw [if_neg hsignalled]
    refine ⟨rfl, rfl, id, le_refl _, fun hlive hopen htouch => ?_⟩
    -- an unsignalled live receiver is of another project, where nothing has changed
    obtain ⟨c, hc, hne⟩ := htouch
    have hgroup := hd j s hs hlive (h.phase ▸ hopen)
    have hother : c.projectId ≠ project := by
      rintro rfl
      exact hsignalled ⟨hlive, hc ▸ hgroup⟩
    exact absurd (h.slots c hother) hne

theorem watches_removeSlot (hpaired : d.Paired) (hd : d.Joined) (k : ChannelKey)
    (reason : Slot S → RealtimeHubError) : Watches j d (d.removeSlot k reason) := by
  cases h : d.slots.get? k with
  | none =>
    rw [removeSlot_of_none h]
    exact .of_eq rfl id rfl
  | some slot => exact (marks_removeSlot hpaired h reason).watches hd

theorem watches_removeSlots (hpaired : d.Paired) (hd : d.Joined) (keys : List ChannelKey)
    (reason : Slot S → RealtimeHubError) :
    Watches j d (keys.foldl (fun d k => d.removeSlot k reason) d) := by
  induction keys generalizing d with
  | nil => exact .of_eq rfl id rfl
  | cons key rest ih =>
    exact (watches_removeSlot hpaired hd key reason).trans
      (ih (paired_removeSlot hpaired) (joined_removeSlot hpaired hd key reason))

theorem watches_pruneGroups : Watches j d d.pruneGroups := .of_eq rfl id rfl

theorem Prunes.watches (h : Prunes op d d') (hpaired : d.Paired) (hd : d.Joined) : Watches j d d' := by
  cases h with
  | skip => exact .of_eq rfl id rfl
  | prune => exact (watches_removeSlots hpaired hd _ _).trans watches_pruneGroups

theorem watches_addReceiver (project : Str) : Watches j d (d.addReceiver project) := by
  refine .of_slots (addReceiver_slots project) (addReceiver_phase project).trans fun s hs =>
    ⟨s.live, ?_, id⟩
  have hlt := (List.getElem?_eq_some_iff.mp hs).1
  unfold addReceiver
  split
  · exact (List.getElem?_append_left hlt).trans hs
  · exact (List.getElem?_append_left hlt).trans hs

theorem getElem?_set_live {i : Nat} {t : Subscription} (h : d.subscriptions[i]? = some t)
    (hs : d.subscriptions[j]? = some s) :
    ∃ live, (d.subscriptions.set i { t with live := false })[j]? = some { s with live := live } ∧
      (live = true → s.live = true) := by
  by_cases hi : i = j
  · subst hi
    obtain rfl := Option.some.inj (h.symm.trans hs)
    refine ⟨false, ?_, fun hlive => by cases hlive⟩
    rw [List.getElem?_set_self (List.getElem?_eq_some_iff.mp hs).1]
  · refine ⟨s.live, ?_, id⟩
    rw [List.getElem?_set_ne hi, hs]

theorem watches_dropSubscription (i : Nat) : Watches j d (dropSubscription i d) := by
  rcases dropSubscription_cases i d with h | ⟨t, d₁, ht, rfl, h | ⟨-, h⟩⟩
  · rw [h]
    exact .of_eq rfl id rfl
  · rw [h]
    exact .of_slots rfl id fun s hs => getElem?_set_live ht hs
  · rw [h]
    exact .of_slots rfl id fun s hs => getElem?_set_live ht hs

theorem close_subscriptions (entries : List (ChannelKey × Slot S)) (d : Hub S) :
    (entries.foldl (fun d entry => d.finish entry.2.identity .closed) d).subscriptions =
      d.subscriptions := by
  induction entries generalizing d with
  | nil => rfl
  | cons entry rest ih => exact ih _

theorem watches_close : Watches j d d.close := by
  refine ⟨fun _ => rfl, fun s hs => ⟨s, ?_, rfl, rfl, id, le_refl _, fun _ hopen => absurd rfl hopen⟩⟩
  exact (congrArg (·[j]?) (close_subscriptions d.slots.entries d)).trans hs

theorem Change.watches (h : Change config op d d') (hpaired : d.Paired) (hd : d.Joined)
    (hop : op ≠ .recv j) : Watches j d d' := by
  cases h with
  | none => exact .of_eq rfl id rfl
  | start hphase =>
    exact .of_eq rfl (fun hclosed => by rw [hphase] at hclosed; cases hclosed) rfl
  | put hphase hslot => exact marks_putSlot.watches hd
  | update hslot => exact marks_insert.watches hd
  | remove => exact (watches_removeSlot hpaired hd _ _).trans watches_pruneGroups
  | receiver hphase => exact watches_addReceiver _
  | @recv i pending t _ ht =>
    have hne : i ≠ j := fun heq => hop (by rw [heq])
    refine .of_slots rfl id fun s hs => ⟨s.live, ?_, id⟩
    exact (List.getElem?_set_ne hne).trans hs
  | drop => exact watches_dropSubscription _
  | close => exact watches_close

theorem watches_apply (hpaired : d.Paired) (hd : d.Joined) (hop : op ≠ .recv j) :
    Watches j d (HubOp.apply config d op) := by
  obtain ⟨d₁, hprunes, hchange⟩ := apply_steps op d
  exact (hprunes.watches hpaired hd).trans
    (hchange.watches (hprunes.paired hpaired) (hprunes.joined hpaired hd) hop)

def stored (d : Hub S) (project : Str) : Set (PresenceChannel × S) :=
  { x | x.1.projectId = project ∧ (d.slots.get? x.1.key).map (·.snapshot) = some x.2 }

theorem stored_eq_of_not_touches (h : ¬Touches project d d') :
    d'.stored project = d.stored project := by
  ext x
  refine and_congr_right fun hproject => ?_
  have hsame : d'.slots.get? x.1.key = d.slots.get? x.1.key := by
    by_contra hne
    exact h ⟨x.1, hproject, hne⟩
  rw [hsame]

def consumes (config : HubConfig) (j : Nat) (d : Hub S) : HubOp S → Bool
  | .recv i => i == j && ((recv config j d).1 == some (.ok ()) ||
      (recv config j d).1 == some (.error .lagged))
  | _ => false

/-- What was stored for a project when subscription `j` last took a signal, in a run that begins when
`seen` was stored. -/
def lastSeen (config : HubConfig) (j : Nat) (project : Str) :
    List (HubOp S) → Hub S → Set (PresenceChannel × S) → Set (PresenceChannel × S)
  | [], _, seen => seen
  | op :: rest, d, seen =>
    lastSeen config j project rest (HubOp.apply config d op)
      (if consumes config j d op then (HubOp.apply config d op).stored project else seen)

theorem apply_recv_of_not_consumes (h : consumes config j d (.recv j) = false) :
    HubOp.apply config d (.recv j) = d := by
  simp only [consumes, beq_self_eq_true, Bool.true_and, Bool.or_eq_false_iff] at h
  simp only [HubOp.apply]
  unfold recv at h ⊢
  split
  · rfl
  · next s hs =>
    simp only [hs] at h
    split_ifs at h ⊢
    · simp at h
    · simp at h
    · rfl
    · rfl

def UpToDate (j : Nat) (project : Str) (d : Hub S) (seen : Set (PresenceChannel × S)) : Prop :=
  ∀ s, d.subscriptions[j]? = some s → s.live = true → s.project = project → d.phase ≠ .closed →
    d.stored project = seen ∨ 0 < s.pending

theorem upToDate_apply {seen : Set (PresenceChannel × S)} (hpaired : d.Paired)
    (hd : d.Joined) (h : UpToDate j project d seen) (hs : d.subscriptions[j]? = some s)
    (hop : op ≠ .recv j) : UpToDate j project (HubOp.apply config d op) seen := by
  intro s' hs' hlive hproject hopen
  have hwatches : Watches j d (HubOp.apply config d op) := watches_apply hpaired hd hop
  obtain ⟨t, ht, hsame, -, hlived, hle, htouch⟩ := hwatches.receiver s hs
  obtain rfl := Option.some.inj (hs'.symm.trans ht)
  obtain rfl : s.project = project := hsame.symm.trans hproject
  by_cases htouches : Touches s.project d (HubOp.apply config d op)
  · exact Or.inr ((Nat.zero_le _).trans_lt (htouch hlive hopen htouches))
  · rw [stored_eq_of_not_touches htouches]
    have hopen' : d.phase ≠ .closed := fun hclosed => hopen (hwatches.closed hclosed)
    exact (h s hs (hlived hlive) rfl hopen').imp_right hle.trans_lt'

theorem receiver_apply_recv (hs : d.subscriptions[j]? = some s) :
    ∃ pending, (HubOp.apply config d (.recv j)).subscriptions[j]? =
      some { s with pending := pending } := by
  obtain ⟨d₁, hprunes, hchange⟩ := @apply_steps S config (.recv j) d
  cases hprunes with
  | prune hclock => cases hclock
  | skip =>
    generalize HubOp.apply config d (.recv j) = d' at hchange ⊢
    cases hchange with
    | none => exact ⟨s.pending, hs⟩
    | @recv _ pending t _ ht =>
      obtain rfl := Option.some.inj (ht.symm.trans hs)
      exact ⟨pending, List.getElem?_set_self (List.getElem?_eq_some_iff.mp hs).1⟩

theorem receiver_apply (hpaired : d.Paired) (hd : d.Joined)
    (hs : d.subscriptions[j]? = some s) (op : HubOp S) :
    ∃ s', (HubOp.apply config d op).subscriptions[j]? = some s' ∧ s'.project = s.project ∧
      s'.sender = s.sender := by
  by_cases hop : op = .recv j
  · subst hop
    obtain ⟨pending, hs'⟩ := receiver_apply_recv hs
    exact ⟨_, hs', rfl, rfl⟩
  · obtain ⟨s', hs', hproject, hsender, -⟩ := (watches_apply hpaired hd hop).receiver s hs
    exact ⟨s', hs', hproject, hsender⟩

theorem receiver_run (hpaired : d.Paired) (hd : d.Joined)
    (hs : d.subscriptions[j]? = some s) (ops : List (HubOp S)) :
    ∃ s', (HubOp.run config ops d).subscriptions[j]? = some s' ∧ s'.project = s.project := by
  induction ops generalizing d s with
  | nil => exact ⟨s, hs, rfl⟩
  | cons op rest ih =>
    obtain ⟨s', hs', hproject, -⟩ := receiver_apply hpaired hd hs op
    obtain ⟨s'', hs'', hproject'⟩ := ih (paired_apply hpaired op) (joined_apply hpaired hd op) hs'
    exact ⟨s'', hs'', hproject'.trans hproject⟩

theorem upToDate_run {seen : Set (PresenceChannel × S)} (hpaired : d.Paired)
    (hd : d.Joined) (h : UpToDate j project d seen)
    (hs : d.subscriptions[j]? = some s) (ops : List (HubOp S)) :
    UpToDate j project (HubOp.run config ops d) (lastSeen config j project ops d seen) := by
  induction ops generalizing d seen s with
  | nil => exact h
  | cons op rest ih =>
    obtain ⟨s', hs', -⟩ := receiver_apply hpaired hd hs op
    refine ih (paired_apply hpaired op) (joined_apply hpaired hd op) ?_ hs'
    split_ifs with hconsumes
    · exact fun _ _ _ _ _ => Or.inl rfl
    · by_cases hop : op = .recv j
      · subst hop
        rw [apply_recv_of_not_consumes (Bool.not_eq_true _ ▸ hconsumes)]
        exact h
      · exact upToDate_apply hpaired hd h hs hop

theorem recv_isSome (hpaired : d.Paired) (hs : d.subscriptions[j]? = some s)
    (h : 0 < s.pending ∨ d.phase = .closed) : ∃ result, (recv config j d).1 = some result := by
  simp only [recv, hs]
  split_ifs with hlagged hpending hgroup
  · exact ⟨_, rfl⟩
  · exact ⟨_, rfl⟩
  · have hclosed := h.resolve_left hpending
    rw [(hpaired.shut hclosed).2] at hgroup
    cases hgroup
  · exact ⟨_, rfl⟩

end Hub

end GraphitBroker
