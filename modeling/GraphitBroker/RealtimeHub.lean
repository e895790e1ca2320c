import GraphitBroker.Lib.Sorted
import GraphitBroker.Text

/-!
# The realtime hub

Authorized publications, invalidation signals and replay (`realtime_hub.rs`). Every operation is one
critical section over the state, with its own readings of the two clocks; a replay is two, since it
collects its candidates first. Publication identities and subscriptions are numbered in the order in
which they were made. A mutex is only poisoned by a panic, which no section has, so that path is left
out.
-/

namespace GraphitBroker

inductive NowChannelAuthorizationError where
  | native
  | local
  | inventory
  | invalidChannel
  | invalidProject
  | notRegistered
  | ownerConflict
  | snapshotProjectMismatch
  deriving DecidableEq

inductive RealtimeHubError where
  | authorization (error : NowChannelAuthorizationError)
  | invalidConfiguration
  | invalidContext
  | ownerConflict
  | authenticationExpired
  | superseded
  | closed
  | unavailable
  deriving DecidableEq

inductive RealtimeHubSignalError where
  | lagged
  | closed
  deriving DecidableEq

structure PresenceChannel where
  instanceId : Str
  projectId : Str
  version : Str
  deriving DecidableEq

abbrev ChannelKey := Str ×ₗ Str ×ₗ Str

def PresenceChannel.key (c : PresenceChannel) : ChannelKey :=
  toLex (c.projectId, toLex (c.instanceId, c.version))

theorem PresenceChannel.key_injective : Function.Injective PresenceChannel.key := by
  intro a b h
  have hpair := toLex.injective h
  obtain ⟨hproject, hrest⟩ := Prod.mk.inj hpair
  obtain ⟨hinstance, hversion⟩ := Prod.mk.inj (toLex.injective hrest)
  cases a
  cases b
  simp_all

inductive HubPhase where
  | dormant
  | running
  | closed
  deriving DecidableEq

structure HubClock where
  utc : Int
  mono : Int

structure Window where
  utc : Int
  mono : Int
  heartbeat : Int
  deriving DecidableEq

def Window.active (w : Window) (clock : HubClock) : Bool :=
  decide (clock.utc < w.utc ∧ clock.mono < w.mono ∧ clock.mono < w.heartbeat)

def Window.expiry (w : Window) (clock : HubClock) : RealtimeHubError :=
  if w.utc ≤ clock.utc ∨ w.mono ≤ clock.mono then .authenticationExpired else .closed

structure Slot (S : Type) where
  channel : PresenceChannel
  issuer : Str
  subject : Str
  identity : Nat
  snapshot : S
  window : Window
  deriving DecidableEq

/-- A publication identity: the channel it was made for, and why it has ended if it has. -/
structure Publication where
  channel : PresenceChannel
  ended : Option RealtimeHubError
  deriving DecidableEq

/-- A receiver of a broadcast channel: the channel's sender, and the signals sent since its position.
Of those the channel keeps as many as its capacity; a receiver that has more has lagged. -/
structure Subscription where
  project : Str
  sender : Nat
  pending : Nat
  live : Bool
  deriving DecidableEq

structure Hub (S : Type) where
  phase : HubPhase
  slots : SortedMap ChannelKey (Slot S)
  groups : SortedMap Str Nat
  publications : List Publication
  subscriptions : List Subscription
  /-- The number of senders made so far. -/
  senders : Nat

structure HubConfig where
  heartbeat : Int
  capacity : Nat
  /-- The last instant that the clock can represent. -/
  horizon : Int

/-- A proof that a caller may publish on a channel: its registered owner, its expiry, and the results of
checking it again. -/
structure AuthorizedNowPublisher (S : Type) where
  channel : PresenceChannel
  issuer : Str
  subject : Str
  expiry : HubClock
  filterSnapshot : S → Except NowChannelAuthorizationError S
  check : Nat → Except NowChannelAuthorizationError Unit

structure AuthorizedNowProjectSubscriber where
  projectId : Str
  check : Nat → Except NowChannelAuthorizationError Unit

structure AuthorizedNowSubscriber where
  channel : PresenceChannel
  issuer : Str
  subject : Str
  check : Nat → Except NowChannelAuthorizationError Unit

structure RealtimeHubInstance (S : Type) where
  channel : PresenceChannel
  snapshot : S
  proofIndex : Nat
  deriving DecidableEq

def authorized {α : Type} (r : Except NowChannelAuthorizationError α) : Except RealtimeHubError α :=
  r.mapError .authorization

namespace Hub

variable {S : Type}

def new : Hub S := ⟨.dormant, .empty, .empty, [], [], 0⟩

def running (d : Hub S) : Except RealtimeHubError Unit :=
  match d.phase with
  | .running => .ok ()
  | .closed => .error .closed
  | .dormant => .error .unavailable

/-- `PublicationIdentity::end`. -/
def finish (d : Hub S) (identity : Nat) (reason : RealtimeHubError) : Hub S :=
  { d with publications := d.publications.modify identity fun p => { p with ended := some reason } }

def endReason (d : Hub S) (identity : Nat) : Option RealtimeHubError :=
  (d.publications[identity]?).bind (·.ended)

def receiverCount (d : Hub S) (sender : Nat) : Nat :=
  (d.subscriptions.filter fun s => s.live && s.sender == sender).length

def signal (d : Hub S) (project : Str) : Hub S :=
  match d.groups.get? project with
  | none => d
  | some sender =>
    { d with subscriptions := d.subscriptions.map fun s =>
        if s.live && s.sender == sender then { s with pending := s.pending + 1 } else s }

def hasSlot (d : Hub S) (project : Str) : Bool :=
  d.slots.entries.any fun entry => (ofLex entry.1).1 == project

def pruneGroups (d : Hub S) : Hub S :=
  { d with groups := d.groups.filter fun project sender =>
      d.receiverCount sender != 0 || d.hasSlot project }

def removeSlot (d : Hub S) (k : ChannelKey) (reason : Slot S → RealtimeHubError) : Hub S :=
  match d.slots.get? k with
  | none => d
  | some slot =>
    ({ d with slots := d.slots.erase k }.finish slot.identity (reason slot)).signal
      slot.channel.projectId

def expiredKeys (d : Hub S) (clock : HubClock) : List ChannelKey :=
  (d.slots.entries.filter fun entry => !entry.2.window.active clock).map (·.1)

def prune (d : Hub S) (clock : HubClock) : Hub S :=
  ((d.expiredKeys clock).foldl (fun d k => d.removeSlot k fun slot => slot.window.expiry clock) d)
    |>.pruneGroups

def close (d : Hub S) : Hub S :=
  { (d.slots.entries.foldl (fun d entry => d.finish entry.2.identity .closed) d) with
    phase := .closed
    slots := .empty
    groups := .empty }

/-- `State::remove`, when a handle is dropped. -/
def remove (d : Hub S) (channel : PresenceChannel) (identity : Nat) : Hub S :=
  if (d.slots.get? channel.key).any fun slot => slot.identity == identity then
    (d.removeSlot channel.key fun _ => .closed).pruneGroups
  else d

variable (config : HubConfig)

def heartbeatEnd (mono : Int) : Except RealtimeHubError Int :=
  if mono + config.heartbeat ≤ config.horizon then .ok (mono + config.heartbeat)
  else .error .invalidConfiguration

def runMaintenance (runtime : Bool) (d : Hub S) : Except RealtimeHubError Unit × Hub S :=
  if runtime then
    match d.phase with
    | .dormant => (.ok (), { d with phase := .running })
    | .running => (.error .invalidConfiguration, d)
    | .closed => (.error .closed, d)
  else (.error .invalidConfiguration, d)

def putSlot (d : Hub S) (slot : Slot S) : Hub S :=
  let inserted := { d with
    slots := d.slots.insert slot.channel.key slot
    publications := d.publications ++ [(⟨slot.channel, none⟩ : Publication)] }
  (match d.slots.get? slot.channel.key with
    | some old => inserted.finish old.identity .superseded
    | none => inserted).signal slot.channel.projectId

/-- What `open_publisher` decides under the lock, after pruning. -/
def openSlot (proof : AuthorizedNowPublisher S) (snapshot : S) (beat : Int) (d : Hub S) :
    Except RealtimeHubError (Slot S) := do
  if (d.slots.get? proof.channel.key).any fun old =>
      old.issuer != proof.issuer || old.subject != proof.subject then
    throw .ownerConflict
  let heartbeat ← heartbeatEnd config beat
  authorized (proof.check 1)
  authorized (proof.check 2)
  return ⟨proof.channel, proof.issuer, proof.subject, d.publications.length, snapshot,
    ⟨proof.expiry.utc, proof.expiry.mono, heartbeat⟩⟩

/-- `open_publisher`; gives the identity of the handle. -/
def openPublisher (proof : AuthorizedNowPublisher S) (snapshot : S) (clock : HubClock) (beat : Int)
    (d : Hub S) : Except RealtimeHubError Nat × Hub S :=
  match (do authorized (proof.check 0); authorized (proof.filterSnapshot snapshot)) with
  | .error e => (.error e, d)
  | .ok snapshot =>
    match d.running with
    | .error e => (.error e, d)
    | .ok () =>
      let d := d.prune clock
      match openSlot config proof snapshot beat d with
      | .error e => (.error e, d)
      | .ok slot => (.ok slot.identity, d.putSlot slot)

/-- What `publish` decides under the lock, after pruning. -/
def publishSlot (identity : Nat) (channel : PresenceChannel) (proof : AuthorizedNowPublisher S)
    (snapshot : S) (beat : Int) (d : Hub S) : Except RealtimeHubError (Slot S) := do
  if let some reason := d.endReason identity then throw reason
  match d.slots.get? channel.key with
  | none => throw .superseded
  | some slot =>
    if slot.identity ≠ identity then throw .superseded
    if slot.issuer ≠ proof.issuer ∨ slot.subject ≠ proof.subject then throw .ownerConflict
    let heartbeat ← heartbeatEnd config beat
    authorized (proof.check 1)
    return { slot with
      snapshot := snapshot
      window := ⟨proof.expiry.utc, proof.expiry.mono, heartbeat⟩ }

/-- The checks of `publish` before the lock. -/
def publishInput (channel : PresenceChannel) (proof : AuthorizedNowPublisher S) (snapshot : S) :
    Except RealtimeHubError S := do
  authorized (proof.check 0)
  if proof.channel ≠ channel then throw .invalidContext
  authorized (proof.filterSnapshot snapshot)

/-- `publish` on the handle of a publication. -/
def publish (identity : Nat) (channel : PresenceChannel) (proof : AuthorizedNowPublisher S)
    (snapshot : S) (clock : HubClock) (beat : Int) (d : Hub S) : Except RealtimeHubError Unit × Hub S :=
  match publishInput channel proof snapshot with
  | .error e => (.error e, d)
  | .ok snapshot =>
    match d.endReason identity with
    | some reason => (.error reason, d)
    | none =>
      match d.running with
      | .error e => (.error e, d)
      | .ok () =>
        let d := d.prune clock
        match publishSlot config identity channel proof snapshot beat d with
        | .error e => (.error e, d)
        | .ok slot =>
          (.ok (), { d with slots := d.slots.insert channel.key slot }.signal channel.projectId)

def checkActive (identity : Nat) (channel : PresenceChannel) (clock : HubClock) (d : Hub S) :
    Except RealtimeHubError Unit × Hub S :=
  match d.endReason identity with
  | some reason => (.error reason, d)
  | none =>
    match d.running with
    | .error e => (.error e, d)
    | .ok () =>
      let d := d.prune clock
      match d.endReason identity with
      | some reason => (.error reason, d)
      | none =>
        if (d.slots.get? channel.key).any fun slot => slot.identity == identity then (.ok (), d)
        else (.error .superseded, d)

def addReceiver (d : Hub S) (project : Str) : Hub S :=
  match d.groups.get? project with
  | some sender => { d with subscriptions := d.subscriptions ++ [⟨project, sender, 0, true⟩] }
  | none =>
    { d with
      groups := d.groups.insert project d.senders
      subscriptions := d.subscriptions ++ [⟨project, d.senders, 0, true⟩]
      senders := d.senders + 1 }

/-- `subscribe`; gives the number of the subscription. -/
def subscribe (proof : AuthorizedNowProjectSubscriber) (clock : HubClock) (d : Hub S) :
    Except RealtimeHubError Nat × Hub S :=
  match authorized (proof.check 0) with
  | .error e => (.error e, d)
  | .ok () =>
    match d.running with
    | .error e => (.error e, d)
    | .ok () =>
      let d := d.prune clock
      match authorized (proof.check 1) with
      | .error e => (.error e, d)
      | .ok () => (.ok d.subscriptions.length, d.addReceiver proof.projectId)

/-- `recv`; none while the receiver waits. -/
def recv (subscription : Nat) (d : Hub S) : Option (Except RealtimeHubSignalError Unit) × Hub S :=
  match d.subscriptions[subscription]? with
  | none => (none, d)
  | some s =>
    let moved (pending : Nat) : Hub S :=
      { d with subscriptions := d.subscriptions.set subscription { s with pending := pending } }
    if config.capacity < s.pending then (some (.error .lagged), moved config.capacity)
    else if 0 < s.pending then (some (.ok ()), moved (s.pending - 1))
    else if d.groups.get? s.project = some s.sender then (none, d)
    else (some (.error .closed), d)

def dropSubscription (subscription : Nat) (d : Hub S) : Hub S :=
  match d.subscriptions[subscription]? with
  | none => d
  | some s =>
    let d := { d with subscriptions := d.subscriptions.set subscription { s with live := false } }
    if (d.groups.get? s.project).any (fun sender => d.receiverCount sender == 0) &&
        !d.hasSlot s.project then
      { d with groups := d.groups.erase s.project }
    else d

def candidates (proof : AuthorizedNowProjectSubscriber) (clock : HubClock) (d : Hub S) :
    Except RealtimeHubError (List PresenceChannel) × Hub S :=
  match authorized (proof.check 0) with
  | .error e => (.error e, d)
  | .ok () =>
    match d.running with
    | .error e => (.error e, d)
    | .ok () =>
      let d := d.prune clock
      let channels := (d.slots.entries.filter fun entry =>
        entry.2.channel.projectId == proof.projectId).map (·.2.channel)
      match authorized (proof.check 1) with
      | .error e => (.error e, d)
      | .ok () => (.ok channels, d)

def checkProofs (project : AuthorizedNowProjectSubscriber) :
    List ChannelKey → List AuthorizedNowSubscriber → Except RealtimeHubError Unit
  | _, [] => .ok ()
  | seen, proof :: rest => do
    authorized (proof.check 0)
    if proof.channel.projectId ≠ project.projectId ∨ proof.channel.key ∈ seen then
      throw .invalidContext
    checkProofs project (proof.channel.key :: seen) rest

def visible (candidates : List ChannelKey) (d : Hub S) (proof : AuthorizedNowSubscriber) :
    Option (Slot S) :=
  (d.slots.get? proof.channel.key).filter fun _ => decide (proof.channel.key ∈ candidates)

def collect (candidates : List ChannelKey) (d : Hub S) :
    Nat → List AuthorizedNowSubscriber → Except RealtimeHubError (List (RealtimeHubInstance S))
  | _, [] => .ok []
  | index, proof :: rest =>
    match visible candidates d proof with
    | none => collect candidates d (index + 1) rest
    | some slot => do
      if slot.issuer ≠ proof.issuer ∨ slot.subject ≠ proof.subject then throw .ownerConflict
      let instances ← collect candidates d (index + 1) rest
      return ⟨slot.channel, slot.snapshot, index⟩ :: instances

def checkAll (site : Nat) : List AuthorizedNowSubscriber → Except RealtimeHubError Unit
  | [] => .ok ()
  | proof :: rest => do
    authorized (proof.check site)
    checkAll site rest

def instanceOrder (a b : RealtimeHubInstance S) : Bool :=
  decide (toLex (a.channel.instanceId, a.channel.version) ≤
    toLex (b.channel.instanceId, b.channel.version))

/-- The second section of `replay`, with the candidates that the first has found. -/
def replay (project : AuthorizedNowProjectSubscriber) (channels : List AuthorizedNowSubscriber)
    (candidates : List ChannelKey) (clock : HubClock) (d : Hub S) :
    Except RealtimeHubError (List (RealtimeHubInstance S)) × Hub S :=
  match checkProofs project [] channels with
  | .error e => (.error e, d)
  | .ok () =>
    match d.running with
    | .error e => (.error e, d)
    | .ok () =>
      let d := d.prune clock
      let result := do
        let instances ← collect candidates d 0 channels
        authorized (project.check 2)
        checkAll 1 channels
        authorized (project.check 3)
        checkAll 2 channels
        return instances.mergeSort instanceOrder
      (result, d)

def maintain (clock : HubClock) (d : Hub S) : Hub S :=
  if d.phase = .running then d.prune clock else d

end Hub

/-! ### Runs -/

/-- The operations of the hub, with what the environment gives each of them. A handle is the identity
and the channel of its publication. -/
inductive HubOp (S : Type) where
  | runMaintenance (runtime : Bool)
  | openPublisher (proof : AuthorizedNowPublisher S) (snapshot : S) (clock : HubClock) (beat : Int)
  | publish (identity : Nat) (channel : PresenceChannel) (proof : AuthorizedNowPublisher S)
      (snapshot : S) (clock : HubClock) (beat : Int)
  | dropHandle (identity : Nat) (channel : PresenceChannel)
  | checkActive (identity : Nat) (channel : PresenceChannel) (clock : HubClock)
  | subscribe (proof : AuthorizedNowProjectSubscriber) (clock : HubClock)
  | recv (subscription : Nat)
  | dropSubscription (subscription : Nat)
  | candidates (proof : AuthorizedNowProjectSubscriber) (clock : HubClock)
  | replay (project : AuthorizedNowProjectSubscriber) (channels : List AuthorizedNowSubscriber)
      (known : List ChannelKey) (clock : HubClock)
  | maintain (clock : HubClock)
  | close

namespace HubOp

variable {S : Type} (config : HubConfig)

def apply (d : Hub S) : HubOp S → Hub S
  | .runMaintenance runtime => (Hub.runMaintenance runtime d).2
  | .openPublisher proof snapshot clock beat => (Hub.openPublisher config proof snapshot clock beat d).2
  | .publish identity channel proof snapshot clock beat =>
    (Hub.publish config identity channel proof snapshot clock beat d).2
  | .dropHandle identity channel => d.remove channel identity
  | .checkActive identity channel clock => (Hub.checkActive identity channel clock d).2
  | .subscribe proof clock => (Hub.subscribe proof clock d).2
  | .recv subscription => (Hub.recv config subscription d).2
  | .dropSubscription subscription => Hub.dropSubscription subscription d
  | .candidates proof clock => (Hub.candidates proof clock d).2
  | .replay project channels known clock => (Hub.replay project channels known clock d).2
  | .maintain clock => Hub.maintain clock d
  | .close => d.close

def clock? : HubOp S → Option HubClock
  | .openPublisher _ _ clock _ | .publish _ _ _ _ clock _ | .checkActive _ _ clock
  | .subscribe _ clock | .candidates _ clock | .replay _ _ _ clock | .maintain clock => some clock
  | _ => none

def run (ops : List (HubOp S)) (d : Hub S) : Hub S := ops.foldl (apply config) d

def accepts (d : Hub S) : HubOp S → Option (ChannelKey × S)
  | .openPublisher proof snapshot clock beat =>
    if (Hub.openPublisher config proof snapshot clock beat d).1.isOk then
      (proof.filterSnapshot snapshot).toOption.map fun x => (proof.channel.key, x)
    else none
  | .publish identity channel proof snapshot clock beat =>
    if (Hub.publish config identity channel proof snapshot clock beat d).1.isOk then
      (proof.filterSnapshot snapshot).toOption.map fun x => (channel.key, x)
    else none
  | _ => none

def lastAccepted : List (HubOp S) → Hub S → (ChannelKey → Option S) → ChannelKey → Option S
  | [], _, last => last
  | op :: rest, d, last =>
    lastAccepted rest (HubOp.apply config d op)
      (match HubOp.accepts config d op with
        | some (k, x) => Function.update last k (some x)
        | none => last)

end HubOp

end GraphitBroker
