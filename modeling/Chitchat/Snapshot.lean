import Chitchat.ClusterState

/-!
# The snapshot of a cluster state

`ClusterStateSnapshot::from` lists every node state under the string `id` of its node
and collects the pairs into a `BTreeMap`. The node states are visited in ascending node
id order and a later pair of a key replaces an earlier one, so under each id the snapshot
holds exactly the state of the greatest node id with that id
(`get_ofClusterState_eq_some_iff`): a node that shares its id with a greater node id is
missing from the snapshot (`snapshot_keeps_greatest_node`), and when the nodes the state
holds have distinct ids the snapshot loses nothing (`snapshot_lossless_of_distinct_ids`).
The snapshot's `seed_addrs`, a read of the seed address channel, is left out.
-/

namespace Chitchat

/-- `ClusterStateSnapshot`, without `seed_addrs`. -/
structure ClusterStateSnapshot where
  nodeStates : SortedMap String NodeState

namespace ClusterStateSnapshot

variable {NodeId : Type} [LinearOrder NodeId]

/-- `From<&ClusterState> for ClusterStateSnapshot`; `idOf` reads `node_id.id`. -/
def ofClusterState (idOf : NodeId → String) (cs : ClusterState NodeId) :
    ClusterStateSnapshot :=
  ⟨SortedMap.fromIter (cs.nodeStates.entries.map fun e => (idOf e.1, e.2))⟩

/-- Under each id, the snapshot holds the state of the last node with that id. -/
theorem get_ofClusterState (idOf : NodeId → String) (cs : ClusterState NodeId)
    (key : String) :
    (ofClusterState idOf cs).nodeStates.get key =
      ((cs.nodeStates.entries.filter fun e => idOf e.1 = key).getLast?).map (·.2) := by
  rw [ofClusterState, SortedMap.get_fromIter, List.filter_map, List.getLast?_map,
    Option.map_map]
  rfl

variable [DecidableEq NodeId]

/-- Under an id, the snapshot holds a state exactly when it is the state of the greatest node
id that the cluster state holds with that id. -/
theorem get_ofClusterState_eq_some_iff (idOf : NodeId → String) (cs : ClusterState NodeId)
    {id : String} {ns : NodeState} :
    (ofClusterState idOf cs).nodeStates.get id = some ns ↔
      ∃ nodeId, idOf nodeId = id ∧ cs.nodeState nodeId = some ns ∧
        ∀ other, cs.nodeState other ≠ none → idOf other = id → other ≤ nodeId := by
  rw [get_ofClusterState]
  have sorted : (cs.nodeStates.entries.filter fun e => idOf e.1 = id).Pairwise
      fun a b => a.1 < b.1 := cs.nodeStates.sorted.sublist (List.filter_sublist _)
  constructor
  · intro got
    obtain ⟨e, last, rfl⟩ := Option.map_eq_some'.1 got
    obtain ⟨entry, named⟩ := List.mem_filter.1 (List.mem_of_getLast?_eq_some last)
    refine ⟨e.1, of_decide_eq_true named, SortedMap.mem_entries_iff.1 entry,
      fun other held same => ?_⟩
    obtain ⟨ns', known⟩ := Option.ne_none_iff_exists'.1 held
    have mem : (other, ns') ∈ cs.nodeStates.entries.filter fun e => idOf e.1 = id :=
      List.mem_filter.2 ⟨SortedMap.mem_entries_iff.2 known, by simp [same]⟩
    rw [← List.dropLast_append_getLast? e last] at mem sorted
    rcases List.mem_append.1 mem with earlier | final
    · exact ((List.pairwise_append.1 sorted).2.2 _ earlier e (List.mem_singleton_self _)).le
    · exact (congrArg Prod.fst (List.mem_singleton.1 final)).le
  · rintro ⟨nodeId, rfl, known, greatest⟩
    have below : ∀ e ∈ cs.nodeStates.entries.filter (fun e => idOf e.1 = idOf nodeId),
        e.1 ≤ nodeId := fun e mem => by
      rw [List.mem_filter, decide_eq_true_eq] at mem
      exact greatest e.1 (by simp [ClusterState.nodeState, SortedMap.mem_entries_iff.1 mem.1])
        mem.2
    have mem : (nodeId, ns) ∈ cs.nodeStates.entries.filter fun e => idOf e.1 = idOf nodeId :=
      List.mem_filter.2 ⟨SortedMap.mem_entries_iff.2 known, by simp⟩
    obtain ⟨before, after, split⟩ := List.append_of_mem mem
    rw [split] at sorted
    have empty : after = [] := List.eq_nil_iff_forall_not_mem.2 fun e later =>
      absurd (below e (split ▸ List.mem_append_right _ (List.mem_cons_of_mem _ later)))
        (not_le.2 ((List.pairwise_cons.1 (List.pairwise_append.1 sorted).2.1).1 e later))
    rw [split, empty]
    simp

/-- The snapshot holds, under a node's id, the node's state when no greater node id shares
that id. A node that shares its id with a greater node id is missing from it. -/
theorem snapshot_keeps_greatest_node (idOf : NodeId → String) (cs : ClusterState NodeId)
    {nodeId : NodeId} {ns : NodeState} (known : cs.nodeState nodeId = some ns)
    (greatest : ∀ other, cs.nodeState other ≠ none → idOf other = idOf nodeId →
      other ≤ nodeId) :
    (ofClusterState idOf cs).nodeStates.get (idOf nodeId) = some ns :=
  (get_ofClusterState_eq_some_iff idOf cs).2 ⟨nodeId, rfl, known, greatest⟩

/-- Nodes 0 and 1 share the id "node": the snapshot holds node 1's state only. -/
theorem snapshot_keeps_node_one :
    (((∅ : ClusterState Nat).nodeStateMut 0 fun _ => (default : NodeState).set "key" "0")
        |>.nodeStateMut 1 fun _ => default).nodeState 1 = some default ∧
      (∀ other, (((∅ : ClusterState Nat).nodeStateMut 0 fun _ =>
          (default : NodeState).set "key" "0") |>.nodeStateMut 1 fun _ => default).nodeState
            other ≠ none → (fun _ => "node") other = (fun _ => "node") 1 → other ≤ 1) ∧
      (ofClusterState (fun _ => "node") (((∅ : ClusterState Nat).nodeStateMut 0 fun _ =>
          (default : NodeState).set "key" "0") |>.nodeStateMut 1 fun _ =>
            default)).nodeStates.get "node" = some default := by
  have greatest : ∀ other, (((∅ : ClusterState Nat).nodeStateMut 0 fun _ =>
      (default : NodeState).set "key" "0") |>.nodeStateMut 1 fun _ => default).nodeState
        other ≠ none → (fun _ => "node") other = (fun _ => "node") 1 → other ≤ 1 :=
    fun other present _ => by
      by_contra far
      exact present (by simp [show (0 : Nat) ≠ other by omega, show (1 : Nat) ≠ other by omega])
  exact ⟨rfl, greatest,
    @snapshot_keeps_greatest_node Nat _ _ (fun _ => "node") _ 1 default rfl greatest⟩

/-- When the nodes the cluster state holds have distinct ids, the snapshot is the cluster
state under the ids: it holds a state under an id exactly when the node with that id has
that state. Node ids the state does not hold may share an id with a held one, as node ids
that differ only in their gossip address do. -/
theorem snapshot_lossless_of_distinct_ids (idOf : NodeId → String) (cs : ClusterState NodeId)
    (distinct : Set.InjOn idOf {nodeId | cs.nodeState nodeId ≠ none}) (id : String)
    (ns : NodeState) :
    (ofClusterState idOf cs).nodeStates.get id = some ns ↔
      ∃ nodeId, idOf nodeId = id ∧ cs.nodeState nodeId = some ns :=
  (get_ofClusterState_eq_some_iff idOf cs).trans
    ⟨fun ⟨nodeId, named, known, _⟩ => ⟨nodeId, named, known⟩,
      fun ⟨nodeId, named, known⟩ => ⟨nodeId, named, known, fun other held same =>
        (distinct held (show cs.nodeState nodeId ≠ none by simp [known])
          (same.trans named.symm)).le⟩⟩

/-- Nodes 0 and 1 under ids "zero" and "other": node ids 1 and 2 share an id, but the
state holds node 1 only, and the snapshot holds its state under "other". -/
theorem snapshot_lossless_two_nodes :
    ¬ Function.Injective (fun nodeId : Nat => if nodeId = 0 then "zero" else "other") ∧
      Set.InjOn (fun nodeId : Nat => if nodeId = 0 then "zero" else "other")
        {nodeId | (((∅ : ClusterState Nat).nodeStateMut 0 fun _ =>
          (default : NodeState).set "key" "0") |>.nodeStateMut 1 fun _ =>
            (default : NodeState).set "key" "1").nodeState nodeId ≠ none} ∧
      ((ofClusterState (fun nodeId : Nat => if nodeId = 0 then "zero" else "other")
          (((∅ : ClusterState Nat).nodeStateMut 0 fun _ => (default : NodeState).set "key" "0")
            |>.nodeStateMut 1 fun _ => (default : NodeState).set "key" "1")).nodeStates.get
              "other" = some ((default : NodeState).set "key" "1") ↔
        ∃ nodeId, (if nodeId = 0 then "zero" else "other") = "other" ∧
          (((∅ : ClusterState Nat).nodeStateMut 0 fun _ => (default : NodeState).set "key" "0")
            |>.nodeStateMut 1 fun _ => (default : NodeState).set "key" "1").nodeState nodeId =
              some ((default : NodeState).set "key" "1")) := by
  have held : ∀ nodeId, (((∅ : ClusterState Nat).nodeStateMut 0 fun _ =>
      (default : NodeState).set "key" "0") |>.nodeStateMut 1 fun _ =>
        (default : NodeState).set "key" "1").nodeState nodeId ≠ none →
      nodeId = 0 ∨ nodeId = 1 := fun nodeId present => by
    by_contra far
    push_neg at far
    exact present (by simp [Ne.symm far.1, Ne.symm far.2])
  have distinct : Set.InjOn (fun nodeId : Nat => if nodeId = 0 then "zero" else "other")
      {nodeId | (((∅ : ClusterState Nat).nodeStateMut 0 fun _ =>
        (default : NodeState).set "key" "0") |>.nodeStateMut 1 fun _ =>
          (default : NodeState).set "key" "1").nodeState nodeId ≠ none} :=
    fun a heldA b heldB same => by
      rcases held a heldA with rfl | rfl <;> rcases held b heldB with rfl | rfl <;>
        simp_all
  exact ⟨fun injective => absurd (@injective 1 2 rfl) (by decide), distinct,
    snapshot_lossless_of_distinct_ids _ _ distinct _ _⟩

end ClusterStateSnapshot

end Chitchat
