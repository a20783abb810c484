import Chitchat.Delta

/-!
# Cluster states

`ClusterState` of `state.rs`, without `seed_addrs` (a watched address set no
modelled function reads): the node states by node id, the digest a node
sends, the garbage collection of tombstones, and `apply_delta`. Node ids and
the digest's declaration live outside `state.rs`; the node id type is a
parameter, with the total order the spec asks of it, and dead-node sets are
lists read by membership.
-/

namespace Chitchat

/-- Modelled from the spec: `Digest`, the highest version known of each node. -/
structure Digest (NodeId : Type) [LinearOrder NodeId] where
  nodeMaxVersion : SortedMap NodeId Nat

/-- `ClusterState`, without `seed_addrs`. -/
structure ClusterState (NodeId : Type) [LinearOrder NodeId] where
  nodeStates : SortedMap NodeId NodeState

instance {NodeId : Type} [LinearOrder NodeId] [DecidableEq NodeId] :
    DecidableEq (ClusterState NodeId) := fun cs₁ cs₂ =>
  decidable_of_iff (cs₁.nodeStates = cs₂.nodeStates)
    ⟨fun h => by cases cs₁; cases cs₂; cases h; rfl, fun h => h ▸ rfl⟩

namespace NodeState

/-- One pass of the inner loop of `apply_delta`: raise `max_version`, then keep
the stored record unless the incoming one is strictly newer. -/
def applyKeyValue (ns : NodeState) (kv : String × VersionedValue) : NodeState :=
  let maxVersion := max ns.maxVersion kv.2.version
  match ns.keyValues.get kv.1 with
  | some record =>
      if kv.2.version ≤ record.version then ⟨ns.keyValues, maxVersion⟩
      else ⟨ns.keyValues.insert kv.1 kv.2, maxVersion⟩
  | none => ⟨ns.keyValues.insert kv.1 kv.2, maxVersion⟩

/-- The inner loop of `apply_delta` over one node delta. -/
def applyNodeDelta (ns : NodeState) (nodeDelta : NodeDelta) : NodeState :=
  nodeDelta.foldl applyKeyValue ns

end NodeState

namespace ClusterState

variable {NodeId : Type} [LinearOrder NodeId] [DecidableEq NodeId]

instance : EmptyCollection (ClusterState NodeId) := ⟨⟨∅⟩⟩

/-- `node_state`. -/
def nodeState (cs : ClusterState NodeId) (nodeId : NodeId) : Option NodeState :=
  cs.nodeStates.get nodeId

/-- `node_state_mut(node_id)` and a mutation `f` of the state it returns, which
`entry(..).or_default()` creates when absent. -/
def nodeStateMut (cs : ClusterState NodeId) (nodeId : NodeId) (f : NodeState → NodeState) :
    ClusterState NodeId :=
  ⟨cs.nodeStates.insert nodeId (f ((cs.nodeState nodeId).getD default))⟩

/-- `remove_node`. -/
def removeNode (cs : ClusterState NodeId) (nodeId : NodeId) : ClusterState NodeId :=
  ⟨cs.nodeStates.remove nodeId⟩

/-- `compute_digest`: the `max_version` of every node not in `deadNodes`. -/
def computeDigest (cs : ClusterState NodeId) (deadNodes : List NodeId) : Digest NodeId :=
  ⟨cs.nodeStates.filterMapValues fun nodeId ns =>
    if nodeId ∈ deadNodes then none else some ns.maxVersion⟩

/-- `gc_keys_marked_for_deletion` of a cluster state: every node not in
`deadNodes` collects its own tombstones. -/
def gcKeysMarkedForDeletion (cs : ClusterState NodeId) (markedForDeletionGracePeriod : Nat)
    (deadNodes : List NodeId) : ClusterState NodeId :=
  ⟨cs.nodeStates.mapValues fun nodeId ns =>
    if nodeId ∈ deadNodes then ns else ns.gcKeysMarkedForDeletion markedForDeletionGracePeriod⟩

/-- One pass of the outer loop of `apply_delta`. -/
def applyNodeEntry (states : SortedMap NodeId NodeState) (entry : NodeId × NodeDelta) :
    SortedMap NodeId NodeState :=
  states.insert entry.1 (((states.get entry.1).getD default).applyNodeDelta entry.2)

/-- `apply_delta`: drop the nodes to reset, then apply every node delta. -/
def applyDelta (cs : ClusterState NodeId) (delta : Delta NodeId) : ClusterState NodeId :=
  ⟨delta.nodeDeltas.entries.foldl applyNodeEntry
    (cs.nodeStates.retain fun nodeId _ => nodeId ∉ delta.nodesToReset)⟩

theorem ext {cs₁ cs₂ : ClusterState NodeId}
    (same : ∀ nodeId, cs₁.nodeState nodeId = cs₂.nodeState nodeId) : cs₁ = cs₂ := by
  cases cs₁; cases cs₂
  cases SortedMap.ext same
  rfl

/-! ## Node lookups after each operation -/

@[simp] theorem nodeState_empty (nodeId : NodeId) :
    (∅ : ClusterState NodeId).nodeState nodeId = none := rfl

@[simp] theorem nodeState_nodeStateMut (cs : ClusterState NodeId) (nodeId nodeId' : NodeId)
    (f : NodeState → NodeState) :
    (cs.nodeStateMut nodeId f).nodeState nodeId' =
      if nodeId = nodeId' then some (f ((cs.nodeState nodeId).getD default))
      else cs.nodeState nodeId' :=
  SortedMap.get_insert _ _ _ _

@[simp] theorem nodeState_removeNode (cs : ClusterState NodeId) (nodeId nodeId' : NodeId) :
    (cs.removeNode nodeId).nodeState nodeId' =
      if nodeId' = nodeId then none else cs.nodeState nodeId' :=
  SortedMap.get_remove _ _ _

@[simp] theorem nodeState_gcKeysMarkedForDeletion (cs : ClusterState NodeId)
    (gracePeriod : Nat) (deadNodes : List NodeId) (nodeId : NodeId) :
    (cs.gcKeysMarkedForDeletion gracePeriod deadNodes).nodeState nodeId =
      (cs.nodeState nodeId).map fun ns =>
        if nodeId ∈ deadNodes then ns else ns.gcKeysMarkedForDeletion gracePeriod :=
  SortedMap.get_mapValues _ _ _

@[simp] theorem get_computeDigest (cs : ClusterState NodeId) (deadNodes : List NodeId)
    (nodeId : NodeId) :
    (cs.computeDigest deadNodes).nodeMaxVersion.get nodeId =
      if nodeId ∈ deadNodes then none else (cs.nodeState nodeId).map (·.maxVersion) := by
  simp only [computeDigest, SortedMap.get_filterMapValues, nodeState]
  cases cs.nodeStates.get nodeId <;> simp

/-- The fold of `apply_delta` touches each node through its own delta only. -/
theorem get_foldl_applyNodeEntry {entries : List (NodeId × NodeDelta)}
    (sorted : entries.Pairwise (fun a b => a.1 < b.1)) (states : SortedMap NodeId NodeState)
    (nodeId : NodeId) :
    (entries.foldl applyNodeEntry states).get nodeId =
      match SortedMap.lookup nodeId entries with
      | none => states.get nodeId
      | some nodeDelta => some (((states.get nodeId).getD default).applyNodeDelta nodeDelta) := by
  induction entries generalizing states with
  | nil => rfl
  | cons entry rest ih =>
      rw [List.pairwise_cons] at sorted
      rw [List.foldl_cons, ih sorted.2, SortedMap.lookup_cons]
      by_cases hk : entry.1 = nodeId
      · subst hk
        rw [SortedMap.lookup_eq_none_of_lt sorted.1]
        simp [applyNodeEntry]
      · simp [applyNodeEntry, hk]

/-- `apply_delta`, node by node: a reset node starts again from nothing, and a
node with a delta is created if needed and updated by it. -/
theorem nodeState_applyDelta (cs : ClusterState NodeId) (delta : Delta NodeId)
    (nodeId : NodeId) :
    (cs.applyDelta delta).nodeState nodeId =
      let base := if nodeId ∈ delta.nodesToReset then none else cs.nodeState nodeId
      match delta.nodeDeltas.get nodeId with
      | none => base
      | some nodeDelta => some ((base.getD default).applyNodeDelta nodeDelta) := by
  simp only [applyDelta, nodeState]
  rw [get_foldl_applyNodeEntry delta.nodeDeltas.sorted, SortedMap.get_retain]
  have base : (cs.nodeStates.get nodeId).filter (fun _ => decide (nodeId ∉ delta.nodesToReset)) =
      if nodeId ∈ delta.nodesToReset then none else cs.nodeStates.get nodeId := by
    by_cases h : nodeId ∈ delta.nodesToReset <;> cases cs.nodeStates.get nodeId <;>
      simp [h, Option.filter]
  rw [base]
  rfl

/-- `apply_delta` on one node, with an absent node read as `NodeState::default()`:
the node's section applied to its old state, or to nothing if it is reset. -/
theorem getD_nodeState_applyDelta (cs : ClusterState NodeId) (delta : Delta NodeId)
    (nodeId : NodeId) :
    ((cs.applyDelta delta).nodeState nodeId).getD default =
      ((if nodeId ∈ delta.nodesToReset then none else cs.nodeState nodeId).getD
        default).applyNodeDelta ((delta.nodeDeltas.get nodeId).getD []) := by
  rw [nodeState_applyDelta]
  cases delta.nodeDeltas.get nodeId <;> rfl

theorem nodeState_applyDelta_of_none (cs : ClusterState NodeId) {delta : Delta NodeId}
    {nodeId : NodeId} (h : delta.nodeDeltas.get nodeId = none) :
    (cs.applyDelta delta).nodeState nodeId =
      if nodeId ∈ delta.nodesToReset then none else cs.nodeState nodeId := by
  simp [nodeState_applyDelta, h]

theorem nodeState_applyDelta_of_some (cs : ClusterState NodeId) {delta : Delta NodeId}
    {nodeId : NodeId} {nodeDelta : NodeDelta} (h : delta.nodeDeltas.get nodeId = some nodeDelta) :
    (cs.applyDelta delta).nodeState nodeId =
      some (((if nodeId ∈ delta.nodesToReset then none else cs.nodeState nodeId).getD
        default).applyNodeDelta nodeDelta) := by
  simp [nodeState_applyDelta, h]

end ClusterState

end Chitchat
