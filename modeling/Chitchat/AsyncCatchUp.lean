import Chitchat.Async
import Chitchat.Delivery

/-!
# Catching up under asynchronous delivery

With rounds split into messages, the digest comparison of `compute_delta` stays sound as
long as no node is removed, nothing is collected and no delivered delta resets a node
(`Async.Calm`): however digests and deltas are delayed, reordered or repeated, a member
whose state of a node has reached the node's `max_version` holds exactly the node's
records (`calm_caught_up_copy_exact`).

The invariant is `Async.Covering`. A digest in flight gives each node at most its
receiver's `max_version` of it, since no member's state of a node goes back
(`Network.Advances`). A delta in flight reaches each node's own state above a floor at
most that `max_version` (`NodeState.Reaches`): the answer sent a prefix, sorted by
version, of records above the digest's value, and the node's own state only moves on
past them. A delivery then keeps the receiver covering the node, as a round of the
synchronous network does.

Both conditions are needed. A removal (`caught_up_copy_inexact_after_removal`) or one
delivered reset (`caught_up_copy_inexact_after_reset`) takes a member's state of a node
back while a digest sent before is still in flight, and the answer to that digest then
leaves a gap below the node's `max_version`, which no later round fills.
-/

namespace Chitchat

namespace NodeState

theorem Follows.refl (ns : NodeState) : ns.Follows ns := ⟨le_rfl, fun _ _ held _ => held⟩

/-- A node delta of records at most `o`'s `max_version` that reaches `o` reaches every later
state of `o`: the later state keeps `o`'s records up to that version. -/
theorem Reaches.follows {sent : NodeDelta} {floorVersion : Nat} {o o' : NodeState}
    (reaches : Reaches sent floorVersion o) (follows : o.Follows o')
    (low : ∀ kv ∈ sent, kv.2.version ≤ o.maxVersion) : Reaches sent floorVersion o' :=
  fun key w stored above kv mem reach =>
    reaches key w (follows.old key w stored (reach.trans (low kv mem))) above kv mem reach

end NodeState

variable {NodeId : Type} [LinearOrder NodeId] [DecidableEq NodeId]

/-- `apply_delta` on one node, for a delta that resets no node. -/
theorem ClusterState.getD_nodeState_applyDelta_of_nil (cs : ClusterState NodeId)
    {delta : Delta NodeId} (noReset : delta.nodesToReset = []) (nodeId : NodeId) :
    ((cs.applyDelta delta).nodeState nodeId).getD default =
      ((cs.nodeState nodeId).getD default).applyNodeDelta
        ((delta.nodeDeltas.get nodeId).getD []) := by
  rw [getD_nodeState_applyDelta, noReset, if_neg (List.not_mem_nil nodeId)]

namespace Network

variable {net : Network NodeId}

/-- No member's state of a node goes back from `net` to `net'`, and each node's own state
follows on. -/
structure Advances (net net' : Network NodeId) : Prop where
  copy_le : ∀ member nodeId,
    (((net.members member).nodeState nodeId).getD default).maxVersion ≤
      (((net'.members member).nodeState nodeId).getD default).maxVersion
  follows : ∀ nodeId, (net.own nodeId).Follows (net'.own nodeId)

/-- A local operation moves the member's own state on and leaves every other state. -/
theorem advances_nodeStateMut {member : NodeId} {op : NodeState.Operation}
    {cs : ClusterState NodeId} {writes : List (String × VersionedValue)}
    (h : (net.members member).perform (.nodeStateMut member op) = some cs) :
    net.Advances (net.update member cs writes) := by
  obtain ⟨ns', performed, rfl⟩ := Option.map_eq_some'.1 h
  have follows := NodeState.perform_follows performed
  refine ⟨fun other nodeId => ?_, fun nodeId => ?_⟩
  · rw [members_update]
    split
    · subst other
      rw [ClusterState.nodeState_nodeStateMut]
      split
      · subst nodeId
        exact follows.maxVersion_le
      · exact le_rfl
    · exact le_rfl
  · rw [own_update]
    split
    · subst nodeId
      rw [ClusterState.nodeState_nodeStateMut, if_pos rfl]
      exact follows
    · exact .refl _

/-- A delivery that resets no node and leaves every node's own state alone moves each of
the receiver's states on. -/
theorem advances_applyDelta {receiver : NodeId} {delta : Delta NodeId}
    (noReset : delta.nodesToReset = [])
    (ownSame : ∀ nodeId,
      (net.update receiver ((net.members receiver).applyDelta delta) []).own nodeId =
        net.own nodeId) :
    net.Advances (net.update receiver ((net.members receiver).applyDelta delta) []) := by
  refine ⟨fun member nodeId => ?_, fun nodeId => by rw [ownSame]; exact .refl _⟩
  rw [members_update]
  split
  · subst member
    rw [ClusterState.getD_nodeState_applyDelta_of_nil _ noReset]
    exact ((NodeState.applyNodeDelta_maxVersion_le_iff _ _ _).1 le_rfl).1
  · exact le_rfl

/-- A delivery that resets no node, leaves every node's own state alone, and reaches each
node's own state above a floor at most the receiver's state of the node, keeps the network
complete. -/
theorem Complete.applyDelta_of_reaches (complete : net.Complete) (safe : net.Safe)
    {receiver : NodeId} {delta : Delta NodeId} (noReset : delta.nodesToReset = [])
    (ownSame : ∀ nodeId,
      (net.update receiver ((net.members receiver).applyDelta delta) []).own nodeId =
        net.own nodeId)
    (reaches : ∀ nodeId, ∃ floorVersion,
      floorVersion ≤ (((net.members receiver).nodeState nodeId).getD default).maxVersion ∧
        NodeState.Reaches ((delta.nodeDeltas.get nodeId).getD []) floorVersion (net.own nodeId)) :
    (net.update receiver ((net.members receiver).applyDelta delta) []).Complete := by
  refine complete.update_nil ownSame fun nodeId ns held => ?_
  obtain ⟨floorVersion, below, reach⟩ := reaches nodeId
  have covers := (complete.covers_getD safe receiver nodeId).applyNodeDelta_of_reaches below reach
  rwa [← ClusterState.getD_nodeState_applyDelta_of_nil _ noReset, held,
    Option.getD_some] at covers

end Network

namespace Async

variable {a a' : Async NodeId}

/-- The event removes no node, collects nothing and delivers no reset: a local write, a
digest, an answer, or the delivery of a delta that resets no node. A round of the
synchronous network is a digest, an answer and a delivery here. -/
def Calm (a : Async NodeId) : AsyncEvent NodeId → Prop
  | .event (.nodeStateMut _ op) => ∀ gracePeriod, op ≠ .gcKeysMarkedForDeletion gracePeriod
  | .event _ => False
  | .deliver index => ∀ receiver delta, a.deltas.get? index = some (receiver, delta) →
      delta.nodesToReset = []
  | .sendDigest .. | .answer .. => True

/-- The clusters that calm events reach from `a`. -/
inductive CalmRun (a : Async NodeId) : Async NodeId → Prop where
  | refl : CalmRun a a
  | step {a' a'' : Async NodeId} (event : AsyncEvent NodeId) :
      CalmRun a a' → a'.Calm event → a'.step event = some a'' → CalmRun a a''

omit [DecidableEq NodeId] in
theorem Calm.allows {event : AsyncEvent NodeId} (calm : a.Calm event) : a.Allows event := by
  cases event with
  | event event =>
      cases event with
      | nodeStateMut => trivial
      | gcKeysMarkedForDeletion | removeNode | gossip => exact False.elim calm
  | sendDigest | answer => trivial
  | deliver index => exact fun receiver delta got => by simp [calm receiver delta got]

theorem CalmRun.reachable (run : CalmRun a a') (reachable : a.Reachable) : a'.Reachable := by
  induction run with
  | refl => exact reachable
  | step event _ calm h ih => exact .step event ih calm.allows h

/-- What calm runs keep beside safety: the network is complete, every digest in flight is
at most its receiver's states, and every delta in flight reaches each node's own state
above a floor at most its receiver's state of the node. -/
structure Covering (a : Async NodeId) : Prop where
  complete : a.net.Complete
  digests : ∀ receiver sender digest, (receiver, sender, digest) ∈ a.digests → ∀ nodeId,
    (digest.nodeMaxVersion.get nodeId).getD 0 ≤
      (((a.net.members receiver).nodeState nodeId).getD default).maxVersion
  deltas : ∀ receiver delta, (receiver, delta) ∈ a.deltas → ∀ nodeId, ∃ floorVersion,
    floorVersion ≤ (((a.net.members receiver).nodeState nodeId).getD default).maxVersion ∧
      NodeState.Reaches ((delta.nodeDeltas.get nodeId).getD []) floorVersion (a.net.own nodeId)

theorem covering_init : (init : Async NodeId).Covering :=
  ⟨Network.complete_init, fun _ _ _ mem => (nomatch mem), fun _ _ mem => nomatch mem⟩

/-- An event that moves the network on and keeps it complete, with the same messages in
flight, keeps the cluster covering. -/
theorem Covering.advance (covering : a.Covering) (inFlight : a.InFlight)
    {net' : Network NodeId} (advances : a.net.Advances net') (complete : net'.Complete) :
    Covering { a with net := net' } :=
  ⟨complete, fun receiver sender digest mem nodeId =>
    (covering.digests receiver sender digest mem nodeId).trans (advances.copy_le receiver nodeId),
  fun receiver delta mem nodeId => by
    obtain ⟨floorVersion, below, reaches⟩ := covering.deltas receiver delta mem nodeId
    exact ⟨floorVersion, below.trans (advances.copy_le receiver nodeId),
      reaches.follows (advances.follows nodeId) fun kv sent =>
        (inFlight receiver delta mem nodeId kv sent).2⟩⟩

/-- Each calm event keeps a safe cluster covering. A digest gives its receiver's states. An
answer to a digest at most its receiver's states reaches each node's own state above the
digest's value. A delivery of such a delta keeps the receiver covering. -/
theorem Covering.step (covering : a.Covering) (safe : a.net.Safe) (inFlight : a.InFlight)
    {event : AsyncEvent NodeId} (calm : a.Calm event) (h : a.step event = some a') :
    a'.Covering := by
  cases event with
  | event event =>
      cases event with
      | nodeStateMut member op =>
          obtain ⟨net', stepped, rfl⟩ := Option.map_eq_some'.1 h
          obtain ⟨cs, performed, rfl⟩ := Option.map_eq_some'.1 stepped
          exact covering.advance inFlight (Network.advances_nodeStateMut performed)
            (covering.complete.nodeStateMut safe calm performed)
      | gcKeysMarkedForDeletion | removeNode | gossip => exact False.elim calm
  | sendDigest receiver sender receiverDead =>
      cases h
      refine ⟨covering.complete, fun receiver' sender' digest mem nodeId => ?_, covering.deltas⟩
      rcases List.mem_append.1 mem with old | new
      · exact covering.digests receiver' sender' digest old nodeId
      · cases List.mem_singleton.1 new
        exact ClusterState.getD_computeDigest_le _ receiverDead nodeId
  | answer index senderDead mtu gracePeriod choices =>
      obtain ⟨⟨receiver, sender, digest⟩, got, answered⟩ := Option.bind_eq_some.1 h
      obtain ⟨delta, computed, rfl⟩ := Option.map_eq_some'.1 answered
      refine ⟨covering.complete, covering.digests, fun receiver' delta' mem nodeId => ?_⟩
      rcases List.mem_append.1 mem with old | new
      · exact covering.deltas receiver' delta' old nodeId
      · cases List.mem_singleton.1 new
        obtain ⟨floorVersion, below, -, reaches⟩ := ClusterState.reaches_computeDelta computed
          (covering.complete.relays safe sender nodeId)
        have digestBelow := covering.digests receiver sender digest (List.get?_mem got) nodeId
        exact ⟨floorVersion, below.trans digestBelow, reaches⟩
  | deliver index =>
      obtain ⟨⟨receiver, delta⟩, got, rfl⟩ := Option.map_eq_some'.1 h
      have mem := List.get?_mem got
      have noReset := calm receiver delta got
      have ownSame := covering.complete.own_applyDelta (inFlight receiver delta mem receiver)
        (by simp [noReset])
      exact covering.advance inFlight (Network.advances_applyDelta noReset ownSame)
        (covering.complete.applyDelta_of_reaches safe noReset ownSame
          (covering.deltas receiver delta mem))

theorem CalmRun.covering (run : CalmRun a a') (reachable : a.Reachable)
    (covering : a.Covering) : a'.Covering := by
  induction run with
  | refl => exact covering
  | step event run calm h ih =>
      obtain ⟨safe, inFlight⟩ := (run.reachable reachable).safe
      exact ih.step safe inFlight calm h

/-- However digests and deltas are delayed, reordered or repeated, in a run that removes no
node, collects nothing and delivers no reset, a member whose state of a node has reached the
node's own `max_version` holds exactly the node's records: the digest comparison of
`compute_delta` stays sound under asynchronous delivery. -/
theorem calm_caught_up_copy_exact (run : CalmRun init a) {member nodeId : NodeId}
    {ns : NodeState} (held : (a.net.members member).nodeState nodeId = some ns)
    (caughtUp : (a.net.own nodeId).maxVersion ≤ ns.maxVersion) : a.net.Exact member nodeId :=
  (run.covering .init covering_init).complete.exact_of_caught_up
    (run.reachable .init).safe.1 held caughtUp

/-- Node 1 sends its digest to node 0, node 0 sets a key and answers, and node 1 applies
the delta, reaching node 0's `max_version`. -/
theorem caught_up_after_messages :
    ∃ a : Async Nat, CalmRun init a ∧
      (a.net.members 1).nodeState 0 = some ((default : NodeState).set "key" "1") ∧
      (a.net.own 0).maxVersion ≤ ((default : NodeState).set "key" "1").maxVersion ∧
      a.net.Exact 1 0 := by
  have start : CalmRun (init : Async Nat) init := .refl
  have digest := CalmRun.step (.sendDigest 1 0 []) start trivial rfl
  have written := CalmRun.step (.event (.nodeStateMut 0 (.set "key" "1"))) digest
    (fun _ same => nomatch same) rfl
  have answered :=
    CalmRun.step (.answer 0 [] Mtu.unbounded 0 Choices.deterministic) written trivial rfl
  have delivered := CalmRun.step (.deliver 0) answered (fun _ _ got => by cases got; rfl) rfl
  refine ⟨_, delivered, ?held, ?caughtUp,
    calm_caught_up_copy_exact delivered ?held ?caughtUp⟩
  · rfl
  · exact le_rfl

/-- Removing no node is needed: over guarded runs, in which no delta resets its receiver's
own node but members may remove nodes, a member can sit at a node's `max_version` without
its records. Node 1 holds node 0's key "a" and sends its digest to node 0, whose
`max_version` is then 1. Node 0 writes key "b". Node 1 removes node 0, as its failure
detector may. Node 0's answer to the old digest carries only "b", above the digest's value
1, and node 1 rebuilds node 0 from it. Node 1's state of node 0 is at node 0's
`max_version` but lacks "a", also after a later round from node 0, which finds nothing to
send. -/
theorem caught_up_copy_inexact_after_removal :
    ¬ ∀ a : Async Nat, a.Reachable → ∀ (member nodeId : Nat) (ns : NodeState),
      (a.net.members member).nodeState nodeId = some ns →
      (a.net.own nodeId).maxVersion ≤ ns.maxVersion → a.net.Exact member nodeId := by
  intro exact
  have start : (init : Async Nat).Reachable := .init
  have setA := Reachable.step (.event (.nodeStateMut 0 (.set "a" "1"))) start trivial rfl
  have copied := Reachable.step (.event (.gossip 0 1 [] [] Mtu.unbounded 1
    Choices.deterministic)) setA trivial rfl
  have setB := Reachable.step (.event (.nodeStateMut 0 (.set "b" "2"))) copied trivial
    (by with_unfolding_all rfl)
  have digest := Reachable.step (.sendDigest 1 0 []) setB trivial rfl
  have removed := Reachable.step (.event (.removeNode 1 0)) digest
    (show (0 : Nat) ≠ 1 by decide) rfl
  have answered := Reachable.step (.answer 0 [] Mtu.unbounded 1 Choices.deterministic) removed
    trivial (by with_unfolding_all rfl)
  have delivered := Reachable.step (.deliver 0) answered (fun _ _ got => by
    cases got
    with_unfolding_all decide) (by with_unfolding_all rfl)
  have repaired := Reachable.step (.event (.gossip 0 1 [] [] Mtu.unbounded 1
    Choices.deterministic)) delivered trivial (by with_unfolding_all rfl)
  exact absurd (exact _ repaired 1 0 _ (by with_unfolding_all rfl) (by with_unfolding_all rfl)
    "a") (by with_unfolding_all decide)

/-- Delivering no reset is needed as well: one delivered reset leaves a member at a node's
`max_version` without its records, in a run otherwise calm, whose deliveries never reset
their receiver's own node. With a grace period of 2, node 1 holds node 0 at version 1 and
sends a digest that waits. Node 0 writes up to version 4 and answers it with a reset that
carries version 4 only, and that waits in turn. Node 1 meanwhile catches up to version 5,
key "y" included, through deltas that reset nothing, and sends its digest at 5. The reset
then arrives and takes node 1 back to version 4, without "y". Node 0 writes version 6 and
answers the digest at 5 with version 6 only: node 1 sits at node 0's `max_version` without
"y", and no later round sends it. -/
theorem caught_up_copy_inexact_after_reset :
    ¬ ∀ (a b c : Async Nat) (index : Nat), CalmRun init a → a.Allows (.deliver index) →
      a.step (.deliver index) = some b → CalmRun b c →
      ∀ (member nodeId : Nat) (ns : NodeState),
        (c.net.members member).nodeState nodeId = some ns →
        (c.net.own nodeId).maxVersion ≤ ns.maxVersion → c.net.Exact member nodeId := by
  intro exact
  have start : CalmRun (init : Async Nat) init := .refl
  have set1 := CalmRun.step (.event (.nodeStateMut 0 (.set "x" "1"))) start
    (fun _ same => nomatch same) rfl
  have digest0 := CalmRun.step (.sendDigest 1 0 []) set1 trivial rfl
  have answer0 := CalmRun.step (.answer 0 [] Mtu.unbounded 2 Choices.deterministic) digest0
    trivial rfl
  have deliver0 := CalmRun.step (.deliver 0) answer0 (fun _ _ got => by cases got; rfl) rfl
  have digest1 := CalmRun.step (.sendDigest 1 0 []) deliver0 trivial rfl
  have set2 := CalmRun.step (.event (.nodeStateMut 0 (.set "x" "2"))) digest1
    (fun _ same => nomatch same) rfl
  have set3 := CalmRun.step (.event (.nodeStateMut 0 (.set "x" "3"))) set2
    (fun _ same => nomatch same) rfl
  have digest2 := CalmRun.step (.sendDigest 1 0 []) set3 trivial rfl
  have answer2 := CalmRun.step (.answer 2 [] Mtu.unbounded 2 Choices.deterministic) digest2
    trivial rfl
  have deliver1 := CalmRun.step (.deliver 1) answer2 (fun _ _ got => by cases got; rfl) rfl
  have set4 := CalmRun.step (.event (.nodeStateMut 0 (.set "x" "4"))) deliver1
    (fun _ same => nomatch same) rfl
  have answer1 := CalmRun.step (.answer 1 [] Mtu.unbounded 2 Choices.deterministic) set4
    trivial rfl
  have digest3 := CalmRun.step (.sendDigest 1 0 []) answer1 trivial rfl
  have set5 := CalmRun.step (.event (.nodeStateMut 0 (.set "y" "5"))) digest3
    (fun _ same => nomatch same) (by with_unfolding_all rfl)
  have answer3 := CalmRun.step (.answer 3 [] Mtu.unbounded 2 Choices.deterministic) set5
    trivial (by with_unfolding_all rfl)
  have deliver3 := CalmRun.step (.deliver 3) answer3
    (fun _ _ got => by cases got; with_unfolding_all rfl) (by with_unfolding_all rfl)
  have digest4 := CalmRun.step (.sendDigest 1 0 []) deliver3 trivial rfl
  exact absurd (exact _ _ _ 2 digest4 (fun _ _ got => by cases got; with_unfolding_all decide)
    (by with_unfolding_all rfl)
    (CalmRun.step (.deliver 4)
      (CalmRun.step (.answer 4 [] Mtu.unbounded 2 Choices.deterministic)
        (CalmRun.step (.event (.nodeStateMut 0 (.set "x" "6"))) .refl
          (fun _ same => nomatch same) (by with_unfolding_all rfl))
        trivial (by with_unfolding_all rfl))
      (fun _ _ got => by cases got; with_unfolding_all rfl) (by with_unfolding_all rfl))
    1 0 _ (by with_unfolding_all rfl) (by with_unfolding_all rfl) "y")
    (by with_unfolding_all decide)

end Async

end Chitchat
