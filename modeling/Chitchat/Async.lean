import Chitchat.Network

/-!
# Rounds split into messages

The network of `Network` runs a gossip round as one event. On the wire a round is two
messages: the receiver's digest travels to the sender, and the sender's delta travels
back. Delivery is asynchronous, so either message may wait, overtake another, or arrive
twice, and the receiver's state may move on between its digest and the delta
(`apply_delta`: "it is not an error to receive updates that are already obsolete").

Kept out of resets of its own node, a node's own state moves only forward, and the safety
of the synchronous network survives any delay, reordering or repetition of messages
(`guarded_versions_agree`): every delta in flight carries writes only. The guard is
needed (`versions_disagree_without_guard`). A delta answering a stale digest can reset the
receiver's own node state, when the sender has meanwhile learnt more of the receiver than
the digest says, by more than the grace period. The receiver then drops the writes the
sender has not seen and lowers its own `max_version`, and its next write reuses a version
another member already holds with another value. Convergence under asynchrony is the
subject of `Chitchat.AsyncCatchUp`.
-/

namespace Chitchat

/-- A cluster with its messages in flight: digests from a receiver to a sender, and deltas
to a receiver. A message stays in flight once delivered, so it may arrive again. -/
structure Async (NodeId : Type) [LinearOrder NodeId] where
  net : Network NodeId
  digests : List (NodeId × NodeId × Digest NodeId)
  deltas : List (NodeId × Delta NodeId)

/-- What can happen in a cluster whose rounds are split into messages. -/
inductive AsyncEvent (NodeId : Type) where
  /-- An event of the synchronous network, a whole round included. -/
  | event (event : Event NodeId)
  /-- `receiver` sends its digest to `sender`. -/
  | sendDigest (receiver sender : NodeId) (receiverDead : List NodeId)
  /-- The sender of the digest in flight at `index` answers it with a delta. -/
  | answer (index : Nat) (senderDead : List NodeId) (mtu : Mtu NodeId) (gracePeriod : Nat)
      (choices : Choices NodeId)
  /-- The delta in flight at `index` reaches its receiver. -/
  | deliver (index : Nat)

namespace Async

variable {NodeId : Type} [LinearOrder NodeId] [DecidableEq NodeId]

/-- Nothing held, nothing in flight. -/
def init : Async NodeId := ⟨.init, [], []⟩

/-- One event; `none` when the code panics or the message is not in flight. -/
def step (a : Async NodeId) : AsyncEvent NodeId → Option (Async NodeId)
  | .event event => (a.net.step event).map fun net => { a with net }
  | .sendDigest receiver sender receiverDead =>
      some { a with digests := a.digests ++
        [(receiver, sender, (a.net.members receiver).computeDigest receiverDead)] }
  | .answer index senderDead mtu gracePeriod choices =>
      (a.digests.get? index).bind fun (receiver, sender, digest) =>
        ((a.net.members sender).computeDelta digest mtu senderDead gracePeriod choices).map
          fun delta => { a with deltas := a.deltas ++ [(receiver, delta)] }
  | .deliver index =>
      (a.deltas.get? index).map fun (receiver, delta) =>
        { a with net := a.net.update receiver ((a.net.members receiver).applyDelta delta) [] }

/-- A run of events from `a`; `none` when one of them fails. -/
def run (a : Async NodeId) : List (AsyncEvent NodeId) → Option (Async NodeId)
  | [] => some a
  | event :: events => (a.step event).bind fun a' => a'.run events

/-! ## Runs in which no delta resets its receiver's own node -/

/-- The event is admissible, and a delivered delta does not reset its receiver's own
node. -/
def Allows (a : Async NodeId) : AsyncEvent NodeId → Prop
  | .event event => event.Admissible
  | .deliver index => ∀ receiver delta, a.deltas.get? index = some (receiver, delta) →
      receiver ∉ delta.nodesToReset
  | .sendDigest .. | .answer .. => True

/-- The clusters that allowed events reach from `init`. -/
inductive Reachable : Async NodeId → Prop where
  | init : Reachable init
  | step {a a' : Async NodeId} (event : AsyncEvent NodeId) :
      Reachable a → a.Allows event → a.step event = some a' → Reachable a'

/-- Every delta in flight carries, of each node, writes of the node at most its
`max_version`. -/
def InFlight (a : Async NodeId) : Prop :=
  ∀ receiver delta, (receiver, delta) ∈ a.deltas → ∀ nodeId,
    ∀ kv ∈ (delta.nodeDeltas.get nodeId).getD [], kv ∈ a.net.written nodeId ∧
      kv.2.version ≤ (a.net.own nodeId).maxVersion

variable {a a' : Async NodeId}

theorem InFlight.mono (inFlight : a.InFlight) {net' : Network NodeId}
    (ext : a.net.Extends net') : InFlight { a with net := net' } :=
  fun receiver delta mem nodeId kv sent =>
    have ⟨written, le⟩ := inFlight receiver delta mem nodeId kv sent
    ⟨ext.written_sub nodeId written, le.trans (ext.own_le nodeId)⟩

/-- Each allowed event keeps the cluster safe and every delta in flight made of writes:
an answer carries the sender's records, which are writes, and a delivery is a round of
the synchronous network that does not reset the receiver's own node. -/
theorem step_safe (safe : a.net.Safe) (inFlight : a.InFlight) {event : AsyncEvent NodeId}
    (allows : a.Allows event) (h : a.step event = some a') : a'.net.Safe ∧ a'.InFlight := by
  cases event with
  | event event =>
      obtain ⟨net', stepped, rfl⟩ := Option.map_eq_some'.1 h
      obtain ⟨ext, safe'⟩ := safe.step allows stepped
      exact ⟨safe', inFlight.mono ext⟩
  | sendDigest receiver sender receiverDead =>
      cases h
      exact ⟨safe, inFlight⟩
  | answer index senderDead mtu gracePeriod choices =>
      obtain ⟨⟨receiver, sender, digest⟩, -, answered⟩ := Option.bind_eq_some.1 h
      obtain ⟨delta, computed, rfl⟩ := Option.map_eq_some'.1 answered
      refine ⟨safe, fun receiver' delta' mem => ?_⟩
      rcases List.mem_append.1 mem with old | new
      · exact inFlight receiver' delta' old
      · obtain ⟨-, rfl⟩ := Prod.mk.inj (List.mem_singleton.1 new)
        exact safe.sent computed
  | deliver index =>
      obtain ⟨⟨receiver, delta⟩, got, rfl⟩ := Option.map_eq_some'.1 h
      obtain ⟨ext, safe'⟩ := safe.applyDelta (inFlight receiver delta (List.get?_mem got))
        (allows receiver delta got)
      exact ⟨safe', inFlight.mono ext⟩

theorem Reachable.safe (reachable : a.Reachable) : a.net.Safe ∧ a.InFlight := by
  induction reachable with
  | init => exact ⟨Network.safe_init, fun _ _ mem => nomatch mem⟩
  | step event _ allows h ih => exact step_safe ih.1 ih.2 allows h

/-- However digests and deltas are delayed, reordered or repeated, as long as no delivered
delta resets its receiver's own node, one version of a node names one update at every
member: two records of the node at the same version, at any two members, have the same
key and the same value. -/
theorem guarded_versions_agree (reachable : a.Reachable)
    {member member' nodeId : NodeId} {ns ns' : NodeState} {key key' : String}
    {w w' : VersionedValue} (held : (a.net.members member).nodeState nodeId = some ns)
    (held' : (a.net.members member').nodeState nodeId = some ns')
    (stored : ns.getVersioned key = some w) (stored' : ns'.getVersioned key' = some w')
    (same : w.version = w'.version) :
    key = key' ∧ w = w' := by
  have safe := reachable.safe.1
  exact Prod.mk.inj (safe.written_unique nodeId _ _
    (((safe.consistent member).fits nodeId ns held).written key w stored)
    (((safe.consistent member').fits nodeId ns' held').written key' w' stored') same)

/-- Node 1 sends its digest to node 0, node 0 sets a key and answers, and node 1 applies
the delta. -/
theorem versions_agree_after_messages :
    ∃ a : Async Nat, a.Reachable ∧
      (a.net.members 0).nodeState 0 = some ((default : NodeState).set "key" "1") ∧
      (a.net.members 1).nodeState 0 = some ((default : NodeState).set "key" "1") ∧
      ((default : NodeState).set "key" "1").getVersioned "key" = some ⟨"1", 1, false⟩ ∧
      "key" = "key" ∧ (⟨"1", 1, false⟩ : VersionedValue) = ⟨"1", 1, false⟩ := by
  have start : (init : Async Nat).Reachable := .init
  have digest := Reachable.step (.sendDigest 1 0 []) start trivial rfl
  have written := Reachable.step (.event (.nodeStateMut 0 (.set "key" "1"))) digest trivial rfl
  have answered :=
    Reachable.step (.answer 0 [] Mtu.unbounded 0 Choices.deterministic) written trivial rfl
  have delivered := Reachable.step (.deliver 0) answered (fun _ _ got => by
    cases got
    decide) rfl
  refine ⟨_, delivered, ?own, ?copy, ?stored,
    guarded_versions_agree delivered ?own ?copy ?stored ?stored rfl⟩ <;> rfl

/-- The guard is needed: over runs that may deliver a delta resetting its receiver's own
node, one version of a node can name two updates. Node 0 sends its digest to node 1 at
version 1, then writes versions 2 and 3 and gossips them, version 2 to node 1 and version 3
to node 2. Node 1 answers the digest late, with no grace period: the digest's value 1 for
node 0 is behind node 1's version 2, so the delta resets node 0, and node 0 applies the
reset to its own state. Node 0 falls back to version 2 and writes version 3 again, with
another value than node 2 holds. -/
theorem versions_disagree_without_guard :
    ¬ ∀ (events : List (AsyncEvent Nat)) (a : Async Nat), init.run events = some a →
      ∀ (member member' nodeId : Nat) (ns ns' : NodeState) (key key' : String)
        (w w' : VersionedValue), (a.net.members member).nodeState nodeId = some ns →
        (a.net.members member').nodeState nodeId = some ns' →
        ns.getVersioned key = some w → ns'.getVersioned key' = some w' →
        w.version = w'.version → key = key' ∧ w = w' := fun agree =>
  absurd (agree [.event (.nodeStateMut 0 (.set "key" "a")), .sendDigest 0 1 [],
      .event (.nodeStateMut 0 (.set "key" "b")),
      .event (.gossip 0 1 [] [] Mtu.unbounded 0 Choices.deterministic),
      .event (.nodeStateMut 0 (.set "key" "c")),
      .event (.gossip 0 2 [] [] Mtu.unbounded 0 Choices.deterministic),
      .answer 0 [] Mtu.unbounded 0 Choices.deterministic, .deliver 0,
      .event (.nodeStateMut 0 (.set "key" "d"))] _ rfl 0 2 0 _ _ "key" "key"
    ⟨"d", 3, false⟩ ⟨"c", 3, false⟩ rfl rfl rfl rfl rfl).2 (by decide)

end Async

end Chitchat
