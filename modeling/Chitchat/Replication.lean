import Chitchat.GossipRound

/-!
# Replicas of one node and the keys it deletes

The replicas of one node: its owner's `NodeState`, which only the owner's
`set`, `mark_for_deletion` and `gc_keys_marked_for_deletion` change, and the
peers' cluster states, which change by their own garbage collection and by
applying the deltas that other replicas compute against their digests. The
deletions the owner made of present keys are recorded with their versions.

The specification asks that no delta bring back a key once deleted. That
fails: a peer that counts the node dead leaves it out of its digest, the
owner's `compute_delta` then takes floor `0` and marks no reset (the code's
"new node" case), and the peer applies the node's whole live state on top of
the stale key it still holds. Its `max_version` passes the deletion, whose
tombstone the owner has already collected, so the deletion never reaches it.
-/

namespace Chitchat

/-- The replicas of one node: the owner's node state, the peers' cluster states,
and the deletions of present keys the owner made, with their versions. -/
structure Replicas (NodeId : Type) [LinearOrder NodeId] where
  owner : NodeState
  peers : List (ClusterState NodeId)
  deletions : List (String × Nat)

namespace Replicas

variable {NodeId : Type} [LinearOrder NodeId] [DecidableEq NodeId] (node : NodeId)
  (gracePeriod : Nat)

/-- The owner as a sender of gossip: its cluster state, as far as `node` goes. -/
def ownerCluster (r : Replicas NodeId) : ClusterState NodeId :=
  (∅ : ClusterState NodeId).nodeStateMut node fun _ => r.owner

/-- One step of the replicas, with one grace period for all of them. A peer
applies the delta the owner or a peer computes against its digest, for any dead
sets, MTU and choices of `compute_delta`. -/
inductive Step : Replicas NodeId → Replicas NodeId → Prop where
  | set (r : Replicas NodeId) (key value : String) :
      Step r { r with owner := r.owner.set key value }
  | markForDeletion (r : Replicas NodeId) (key : String) :
      Step r { r with
        owner := r.owner.markForDeletion key
        deletions := if (r.owner.getVersioned key).isSome then
          (key, r.owner.maxVersion + 1) :: r.deletions else r.deletions }
  | gcOwner (r : Replicas NodeId) :
      Step r { r with owner := r.owner.gcKeysMarkedForDeletion gracePeriod }
  | gcPeer (r : Replicas NodeId) {peer : ClusterState NodeId} (index : Nat)
      (deadNodes : List NodeId) (found : r.peers[index]? = some peer) :
      Step r { r with
        peers := r.peers.set index (peer.gcKeysMarkedForDeletion gracePeriod deadNodes) }
  | gossip (r : Replicas NodeId) {receiver sender : ClusterState NodeId} (index : Nat)
      (found : r.peers[index]? = some receiver)
      (replica : sender = r.ownerCluster node ∨ sender ∈ r.peers)
      (digestDead deltaDead : List NodeId) (mtu : Mtu NodeId) (choices : Choices NodeId)
      {delta : Delta NodeId}
      (computed : sender.computeDelta (receiver.computeDigest digestDead) mtu deltaDead
        gracePeriod choices = some delta) :
      Step r { r with peers := r.peers.set index (receiver.applyDelta delta) }

/-- The states reachable from a fresh owner and peers that hold nothing. -/
inductive Reachable : Replicas NodeId → Prop where
  | init (peerCount : Nat) : Reachable ⟨default, List.replicate peerCount ∅, []⟩
  | step {r r' : Replicas NodeId} : Reachable r → Step node gracePeriod r r' → Reachable r'

/-- No peer holds a key live at a version `v` while the owner deleted that key at
a version `d` with `v < d ≤` the peer's `max_version` for `node`. -/
def NoResurrection (r : Replicas NodeId) : Prop :=
  ∀ peer ∈ r.peers, ∀ ns, peer.nodeState node = some ns →
    ∀ key versionedValue, ns.getVersioned key = some versionedValue →
      versionedValue.markedForDeletion = false →
      ∀ deletedAt, (key, deletedAt) ∈ r.deletions →
        ¬ (versionedValue.version < deletedAt ∧ deletedAt ≤ ns.maxVersion)

end Replicas

/-- The owner's state after `set("key")`, `mark_for_deletion("key")`,
`set("other")` and a collection with grace period `0`: the tombstone is gone. -/
theorem owner_after_collection :
    ((((default : NodeState).set "key" "1").markForDeletion "key").set "other"
        "x").gcKeysMarkedForDeletion 0 =
      ⟨⟨[("other", ⟨"x", 3, false⟩)], List.pairwise_singleton _ _⟩, 3⟩ := by
  refine NodeState.ext (fun key => ?_) rfl
  show _ = if "other" = key then some (⟨"x", 3, false⟩ : VersionedValue) else none
  by_cases other : "other" = key
  · subst other
    simp
  · by_cases deleted : "key" = key
    · subst deleted
      simp
    · simp [other, deleted]

/-- A peer that counts the node dead leaves it out of its digest. The owner then
sends the node's live state without a reset, and the peer's `max_version`
passes the deletion of a key it still holds live, the tombstone being
collected. -/
theorem deleted_key_comes_back :
    ¬ ∀ (gracePeriod : Nat) (r : Replicas String), r.Reachable "node" gracePeriod →
      r.NoResurrection "node" := by
  intro safe
  have start : Replicas.Reachable "node" 0 ⟨default, [∅], []⟩ := .init 1
  -- the owner sets `key`, and the peer learns it
  have learned := (start.step (.set _ "key" "1")).step
    (.gossip _ 0 (by rfl) (by exact .inl rfl) [] []
    Mtu.unbounded Choices.deterministic (by exact (rfl : _ = some
      (⟨SortedMap.ofList [("node", [("key", ⟨"1", 1, false⟩)])], []⟩ : Delta String))))
  -- the owner deletes `key`, sets `other`, and collects the tombstone
  have collected := ((learned.step (.markForDeletion _ "key")).step (.set _ "other" "x")).step
    (.gcOwner _)
  -- the peer, counting the node dead, leaves it out of its digest
  have resent := collected.step (.gossip _ 0 (by rfl)
    (by exact .inl (congrArg (fun ns => (∅ : ClusterState String).nodeStateMut "node" fun _ => ns)
      owner_after_collection).symm) ["node"] [] Mtu.unbounded Choices.deterministic
    (by exact (rfl : _ = some
      (⟨SortedMap.ofList [("node", [("other", ⟨"x", 3, false⟩)])], []⟩ : Delta String))))
  refine safe 0 _ resent _ (List.mem_singleton_self _) _
    (ClusterState.nodeState_applyDelta_of_some _ rfl) "key" ⟨"1", 1, false⟩ ?_ rfl 2
    (by decide) ⟨by decide, by decide⟩
  rw [NodeState.applyNodeDelta_cons, NodeState.applyNodeDelta_nil,
    NodeState.getVersioned_applyKeyValue, if_neg (by decide)]
  rfl

end Chitchat
