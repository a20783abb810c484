import Chitchat.ClusterState
import Chitchat.StaleQueue

/-!
# Delta computation

`compute_delta` of `state.rs`, the scuttlebutt reconciliation with scuttle-depth
ordering. The first loop decides the floor of every live node, marks the nodes
to reset and queues the nodes with stale updates by their count; the second
loop writes node sections in queue order, each with its stale updates sorted by
version, until the writer refuses.

Three things the code does not fix are parameters: the shuffles of `into_iter`
and the order `sort_unstable_by_key` leaves to updates of equal version
(`Choices`, which records what each is known to do), and how the build adds
two `u64` (`addU64`). `computeDelta` is the model with unbounded sums.
The `unwrap` and the `assert!` of the second loop, and the `unwrap` of
`into_iter`, are failures of the model (`none`).
-/

namespace Chitchat

/-- What `compute_delta` leaves open: the shuffle `into_iter` applies to each
bucket, a permutation, and `sort_unstable_by_key` on versions, a permutation
into ascending version order. -/
structure Choices (NodeId : Type) where
  shuffle : List NodeId → List NodeId
  shuffle_perm : ∀ nodes, (shuffle nodes).Perm nodes
  sortByVersion : List (String × VersionedValue) → List (String × VersionedValue)
  sortByVersion_perm : ∀ kvs, (sortByVersion kvs).Perm kvs
  sortByVersion_sorted : ∀ kvs,
    (sortByVersion kvs).Sorted fun a b => a.2.version ≤ b.2.version

/-- The choices of a deterministic run: buckets in insertion order, and updates
sorted by insertion sort. -/
def Choices.deterministic {NodeId : Type} : Choices NodeId where
  shuffle := id
  shuffle_perm _ := List.Perm.refl _
  sortByVersion := List.insertionSort fun a b => a.2.version ≤ b.2.version
  sortByVersion_perm := List.perm_insertionSort _
  sortByVersion_sorted :=
    @List.sorted_insertionSort _ _ _ ⟨fun _ _ => le_total _ _⟩ ⟨fun _ _ _ => le_trans⟩

/-- `u64` addition in a release build, which wraps at `2^64`; a debug build
panics instead. -/
def wrappingAdd (a b : Nat) : Nat := (a + b) % 2 ^ 64

namespace ClusterState

variable {NodeId : Type} [LinearOrder NodeId] [DecidableEq NodeId]
variable (addU64 : Nat → Nat → Nat)

/-- The reset test of the first loop:
`floor_version > 0 && floor_version + grace < max_version`. -/
def needsReset (floorVersion gracePeriod maxVersion : Nat) : Bool :=
  decide (0 < floorVersion ∧ addU64 floorVersion gracePeriod < maxVersion)

/-- The floor the first loop gives a node: its digest value, `0` when absent,
and `0` when it needs a reset. -/
def firstFloor (digest : Digest NodeId) (gracePeriod : Nat) (nodeId : NodeId)
    (ns : NodeState) : Nat :=
  let floorVersion := (digest.nodeMaxVersion.get nodeId).getD 0
  if needsReset addU64 floorVersion gracePeriod ns.maxVersion then 0 else floorVersion

/-- The floor the second loop recomputes for a node:
`max_version > floor_version + grace` sets it to `0`. -/
def secondFloor (digest : Digest NodeId) (gracePeriod : Nat) (nodeId : NodeId)
    (ns : NodeState) : Nat :=
  let floorVersion := (digest.nodeMaxVersion.get nodeId).getD 0
  if addU64 floorVersion gracePeriod < ns.maxVersion then 0 else floorVersion

/-- One pass of the first loop of `compute_delta`. -/
def scanNode (digest : Digest NodeId) (deadNodes : List NodeId) (gracePeriod : Nat)
    (acc : DeltaWriter NodeId × NodeSortedByStaleLength NodeId) (entry : NodeId × NodeState) :
    DeltaWriter NodeId × NodeSortedByStaleLength NodeId :=
  if entry.1 ∈ deadNodes then acc
  else
    let floorVersion := (digest.nodeMaxVersion.get entry.1).getD 0
    let writer := if needsReset addU64 floorVersion gracePeriod entry.2.maxVersion then
      acc.1.addNodeToReset entry.1 else acc.1
    let staleKvCount :=
      (entry.2.iterStaleKeyValues (firstFloor addU64 digest gracePeriod entry.1 entry.2)).length
    if 0 < staleKvCount then (writer, acc.2.insert entry.1 staleKvCount) else (writer, acc.2)

/-- The inner loop of the second loop: `false` at the first refused update. -/
def addKvs : List (String × VersionedValue) → DeltaWriter NodeId → Bool × DeltaWriter NodeId
  | [], writer => (true, writer)
  | kv :: rest, writer =>
      let added := writer.addKv kv.1 kv.2
      if added.1 then addKvs rest added.2 else (false, added.2)

/-- The second loop of `compute_delta`, over the nodes in queue order; `none` is a
panic of its `unwrap` or of its `assert!(!stale_kvs.is_empty())`. -/
def writeNodes (cs : ClusterState NodeId) (digest : Digest NodeId) (gracePeriod : Nat)
    (choices : Choices NodeId) : List NodeId → DeltaWriter NodeId → Option (DeltaWriter NodeId)
  | [], writer => some writer
  | nodeId :: rest, writer =>
      let added := writer.addNode nodeId
      if !added.1 then some added.2
      else
        match cs.nodeState nodeId with
        | none => none
        | some ns =>
            let staleKvs := ns.iterStaleKeyValues (secondFloor addU64 digest gracePeriod nodeId ns)
            if staleKvs.isEmpty then none
            else
              let written := addKvs (choices.sortByVersion staleKvs) added.2
              if written.1 then writeNodes cs digest gracePeriod choices rest written.2
              else some written.2

/-- The writer `compute_delta` finalizes, before `into()`. -/
def computeDeltaWriter (cs : ClusterState NodeId) (digest : Digest NodeId) (mtu : Mtu NodeId)
    (deadNodes : List NodeId) (markedForDeletionGracePeriod : Nat) (choices : Choices NodeId) :
    Option (DeltaWriter NodeId) :=
  let scanned := cs.nodeStates.entries.foldl
    (scanNode addU64 digest deadNodes markedForDeletionGracePeriod) (DeltaWriter.withMtu mtu, ∅)
  match scanned.2.intoIter choices.shuffle with
  | none => none
  | some order => writeNodes addU64 cs digest markedForDeletionGracePeriod choices order scanned.1

/-- `compute_delta`, with `u64` sums computed by `addU64`. -/
def computeDeltaWith (cs : ClusterState NodeId) (digest : Digest NodeId) (mtu : Mtu NodeId)
    (deadNodes : List NodeId) (markedForDeletionGracePeriod : Nat) (choices : Choices NodeId) :
    Option (Delta NodeId) :=
  (computeDeltaWriter addU64 cs digest mtu deadNodes markedForDeletionGracePeriod choices).map
    DeltaWriter.into

end ClusterState

variable {NodeId : Type} [LinearOrder NodeId] [DecidableEq NodeId]

/-- `compute_delta` with unbounded sums. -/
def ClusterState.computeDelta (cs : ClusterState NodeId) (digest : Digest NodeId)
    (mtu : Mtu NodeId) (deadNodes : List NodeId) (markedForDeletionGracePeriod : Nat)
    (choices : Choices NodeId) : Option (Delta NodeId) :=
  cs.computeDeltaWith (· + ·) digest mtu deadNodes markedForDeletionGracePeriod choices

end Chitchat
