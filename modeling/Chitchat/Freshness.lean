import Chitchat.Network

/-!
# No member is ahead of a node on a key

A node's own record of a key, when it holds one, is at least every write of the key
(`Network.Fresh`), collection included: a local operation adds only records above the old
`max_version` and otherwise keeps or drops the old ones, `gc_keys_marked_for_deletion` and
`remove_node` only drop records, and a round leaves the receiver's own state alone while
the receiver counts itself live in its digest (`Event.SelfLive`). Every record a member
holds of a node being one of the node's writes, a member's record of a key is the node's
own record of it or an older one (`copy_never_newer_than_owner`).
-/

namespace Chitchat

variable {NodeId : Type} [LinearOrder NodeId] [DecidableEq NodeId]

/-- The receiver of a round counts itself live in the digest it sends. -/
def Event.SelfLive : Event NodeId → Prop
  | .gossip _ receiver _ receiverDead .. => receiver ∉ receiverDead
  | _ => True

instance (event : Event NodeId) : Decidable event.SelfLive :=
  match event with
  | .gossip _ receiver _ receiverDead .. => inferInstanceAs (Decidable (receiver ∉ receiverDead))
  | .nodeStateMut .. | .gcKeysMarkedForDeletion .. | .removeNode .. => isTrue trivial

namespace Network

/-- Each node's own record of a key, when it holds one, is at least every write of the
key. -/
def Fresh (net : Network NodeId) : Prop :=
  ∀ nodeId kv w, kv ∈ net.written nodeId → (net.own nodeId).getVersioned kv.1 = some w →
    kv.2.version ≤ w.version

theorem fresh_init : (init : Network NodeId).Fresh := fun _ _ _ mem => by simp [init] at mem

variable {net net' : Network NodeId}

/-- A member whose own state only loses records, and that writes nothing, keeps the
network fresh. -/
theorem Fresh.update_of_sub (fresh : net.Fresh) {member : NodeId} {cs : ClusterState NodeId}
    (sub : ∀ key w, ((cs.nodeState member).getD default).getVersioned key = some w →
      (net.own member).getVersioned key = some w) :
    (net.update member cs []).Fresh := fun nodeId kv w mem stored => by
  rw [written_update_nil] at mem
  rw [own_update] at stored
  split at stored
  · subst nodeId
    exact fresh member kv w mem (sub _ _ stored)
  · exact fresh nodeId kv w mem stored

/-- A local operation, collection included: its new records are above the old
`max_version`, and its records at most the old `max_version` are old ones. -/
theorem Fresh.nodeStateMut (fresh : net.Fresh) (safe : net.Safe) {member : NodeId}
    {op : NodeState.Operation} {cs : ClusterState NodeId}
    (h : (net.members member).perform (.nodeStateMut member op) = some cs) :
    (net.update member cs (((cs.nodeState member).getD default).iterStaleKeyValues
      (net.own member).maxVersion)).Fresh := fun nodeId kv w mem stored => by
  obtain ⟨ns', performed, rfl⟩ := Option.map_eq_some'.1 h
  have own' : ((((net.members member).nodeStateMut member fun _ => ns').nodeState member).getD
      default) = ns' := by simp
  rw [written_update] at mem
  rw [own_update] at stored
  split at stored
  · subst nodeId
    rw [own'] at stored mem
    rw [if_pos rfl] at mem
    rcases List.mem_append.1 mem with old | new
    · by_cases low : w.version ≤ (net.own member).maxVersion
      · exact fresh member kv w old ((NodeState.perform_follows performed).old _ w stored low)
      · exact (safe.written_le member kv old).trans (Nat.le_of_not_le low)
    · exact (congrArg VersionedValue.version
        (Option.some.inj ((NodeState.mem_iterStaleKeyValues.1 new).1.symm.trans stored))).le
  · rw [if_neg ‹_›] at mem
    exact fresh nodeId kv w mem stored

/-- One admissible event in which no receiver counts itself dead keeps the network
fresh. -/
theorem Fresh.step (fresh : net.Fresh) (safe : net.Safe) {event : Event NodeId}
    (selfLive : event.SelfLive) (h : net.step event = some net') : net'.Fresh := by
  cases event with
  | nodeStateMut member op =>
      obtain ⟨cs, performed, rfl⟩ := Option.map_eq_some'.1 h
      exact fresh.nodeStateMut safe performed
  | gcKeysMarkedForDeletion member gracePeriod deadNodes =>
      cases h
      refine fresh.update_of_sub fun key w stored => ?_
      rw [ClusterState.nodeState_gcKeysMarkedForDeletion] at stored
      cases known : (net.members member).nodeState member with
      | none => simp [known] at stored
      | some ns =>
          rw [known, Option.map_some', Option.getD_some] at stored
          rw [own, known, Option.getD_some]
          split at stored
          · exact stored
          · rw [NodeState.getVersioned_gcKeysMarkedForDeletion, Option.filter_eq_some] at stored
            exact stored.1
  | removeNode member nodeId =>
      cases h
      refine fresh.update_of_sub fun key w stored => ?_
      rw [ClusterState.nodeState_removeNode] at stored
      split at stored
      · simp at stored
      · exact stored
  | gossip sender receiver senderDead receiverDead mtu gracePeriod choices =>
      obtain ⟨delta, computed, rfl⟩ := Option.map_eq_some'.1 h
      refine fresh.update_of_sub fun key w stored => ?_
      rwa [safe.nodeState_applyDelta_self computed selfLive] at stored

theorem Fresh.run (fresh : net.Fresh) (reachable : net.Reachable)
    {events : List (Event NodeId)}
    (admitted : ∀ event ∈ events, event.Admissible ∧ event.SelfLive)
    (h : net.run events = some net') : net'.Fresh :=
  (run_preserves (fun net => net.Reachable ∧ net.Fresh) ⟨reachable, fresh⟩ admitted
    (fun ⟨reachable, fresh⟩ ⟨admissible, selfLive⟩ stepped =>
      ⟨.step _ reachable admissible stepped, fresh.step reachable.safe selfLive stepped⟩) h).2

/-- In every run in which no node removes itself and no receiver counts itself dead in its
digest, collection included, a member's record of a node's key is the node's own record
of the key or an older one. -/
theorem copy_never_newer_than_owner {events : List (Event NodeId)}
    (admitted : ∀ event ∈ events, event.Admissible ∧ event.SelfLive)
    (reached : init.run events = some net) {member nodeId : NodeId} {ns : NodeState}
    {key : String} {x w : VersionedValue}
    (held : (net.members member).nodeState nodeId = some ns)
    (stored : ns.getVersioned key = some x) (own : (net.own nodeId).getVersioned key = some w) :
    x.version < w.version ∨ x = w := by
  have safe := (Reachable.init.run (fun e mem => (admitted e mem).1) reached).safe
  have written := ((safe.consistent member).fits nodeId ns held).written key x stored
  have fresh := fresh_init.run .init admitted reached
  exact safe.lt_or_eq_of_written written own (fresh nodeId _ w written own)

/-- Node 0 sets a key, gossips it to node 1, sets it again and collects. -/
theorem copy_behind_owner_after_second_set :
    (∀ event ∈ [Event.nodeStateMut (0 : Nat) (.set "key" "1"),
      .gossip 0 1 [] [] Mtu.unbounded 0 Choices.deterministic,
      .nodeStateMut 0 (.set "key" "2"), .gcKeysMarkedForDeletion 0 0 []],
      event.Admissible ∧ event.SelfLive) ∧
    ∃ net : Network Nat, init.run [.nodeStateMut 0 (.set "key" "1"),
        .gossip 0 1 [] [] Mtu.unbounded 0 Choices.deterministic,
        .nodeStateMut 0 (.set "key" "2"), .gcKeysMarkedForDeletion 0 0 []] = some net ∧
      (net.members 1).nodeState 0 = some ((default : NodeState).set "key" "1") ∧
      ((default : NodeState).set "key" "1").getVersioned "key" = some ⟨"1", 1, false⟩ ∧
      (net.own 0).getVersioned "key" = some ⟨"2", 2, false⟩ ∧
      ((⟨"1", 1, false⟩ : VersionedValue).version <
          (⟨"2", 2, false⟩ : VersionedValue).version ∨
        (⟨"1", 1, false⟩ : VersionedValue) = ⟨"2", 2, false⟩) := by
  have admitted : ∀ event ∈ [Event.nodeStateMut (0 : Nat) (.set "key" "1"),
      .gossip 0 1 [] [] Mtu.unbounded 0 Choices.deterministic,
      .nodeStateMut 0 (.set "key" "2"), .gcKeysMarkedForDeletion 0 0 []],
      event.Admissible ∧ event.SelfLive := by
    simp [Event.Admissible, Event.SelfLive]
  refine ⟨admitted, _, rfl, ?held, ?stored, ?own,
    @copy_never_newer_than_owner Nat _ _ _ _ admitted rfl 1 0 _ "key" _ _ ?held ?stored ?own⟩
    <;> rfl

end Network

end Chitchat
