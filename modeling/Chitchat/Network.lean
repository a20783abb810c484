import Chitchat.Convergence

/-!
# A cluster of nodes gossiping

Every node of a chitchat cluster keeps a `ClusterState`, and writes only to the node
state under its own id. A network is the cluster state of every node. An event is one
node's local operation on its own node state, its `gc_keys_marked_for_deletion`, its
`remove_node` of another node, or a gossip round: the receiver sends its digest, the
sender answers with `compute_delta`, and the receiver applies the delta. A round is one
event, so the digest is the receiver's state when the round runs, and it uses
`computeDelta`, whose sums are unbounded as in a build where they do not overflow
(`computeDeltaWith` takes the u64 sum). The network also
records the updates each node has written to its own state (`written`), a history
variable that no event reads.

Across every interleaving of events in which no node removes itself
(`Event.Admissible`), the network stays `Safe` (`Reachable.safe`). From that invariant:
no member's state of a node is ahead of the node's own (`copies_never_ahead`); every
record a member holds of a node is one the node wrote (`records_written_by_owner`), so
one version of a node names one update at every member (`versions_agree`); a node's
`max_version` never goes down (`own_maxVersion_monotone`); and a round leaves the
receiver's state of itself alone when the receiver counts itself live
(`gossip_keeps_own_state`).
-/

namespace Chitchat

namespace ClusterState

variable {NodeId : Type} [LinearOrder NodeId] [DecidableEq NodeId]

section Own

variable {sender receiver : ClusterState NodeId} {senderDead receiverDead : List NodeId}
  {mtu : Mtu NodeId} {gracePeriod : Nat} {choices : Choices NodeId} {delta : Delta NodeId}
  {nodeId : NodeId}

/-- A round does not reset a node whose state at the sender is no further than at the
receiver. -/
theorem not_mem_nodesToReset_of_le
    (computed : sender.computeDelta (receiver.computeDigest receiverDead) mtu senderDead
      gracePeriod choices = some delta)
    (le : ∀ ns, sender.nodeState nodeId = some ns →
      ns.maxVersion ≤ ((receiver.nodeState nodeId).getD default).maxVersion) :
    nodeId ∉ delta.nodesToReset := fun reset => by
  obtain ⟨ns, known, -, far⟩ := exists_of_mem_nodesToReset computed reset
  rw [needsReset_add, getD_computeDigest_eq] at far
  have := le ns known
  split at far <;> omega

/-- Nor does it send anything of such a node when the receiver counts it live, and the
sender's versions of it are at most its `max_version`. -/
theorem nodeDeltas_get_eq_none_of_le
    (computed : sender.computeDelta (receiver.computeDigest receiverDead) mtu senderDead
      gracePeriod choices = some delta)
    (live : nodeId ∉ receiverDead)
    (le : ∀ ns, sender.nodeState nodeId = some ns → ns.VersionsBounded ∧
      ns.maxVersion ≤ ((receiver.nodeState nodeId).getD default).maxVersion) :
    delta.nodeDeltas.get nodeId = none := by
  cases found : delta.nodeDeltas.get nodeId with
  | none => rfl
  | some updates =>
      obtain ⟨ns, known, -, stale⟩ := exists_of_nodeDeltas_get_eq_some computed found
      obtain ⟨bounded, le⟩ := le ns known
      have digestValue := getD_computeDigest_eq receiver receiverDead nodeId
      rw [if_neg live] at digestValue
      rw [staleCount, firstFloor_add_of_le _ _ (by omega), digestValue,
        bounded.iterStaleKeyValues_eq_nil le] at stale
      exact absurd stale (lt_irrefl 0)

end Own

end ClusterState

/-! ## The network -/

/-- The cluster state each node keeps, and the updates each node has written to its own
node state, in order. -/
structure Network (NodeId : Type) [LinearOrder NodeId] where
  members : NodeId → ClusterState NodeId
  written : NodeId → List (String × VersionedValue)

/-- What can happen in the cluster, each at one node. -/
inductive Event (NodeId : Type) where
  /-- A node's local operation on its own node state. -/
  | nodeStateMut (member : NodeId) (op : NodeState.Operation)
  /-- `gc_keys_marked_for_deletion` at a node. -/
  | gcKeysMarkedForDeletion (member : NodeId) (gracePeriod : Nat) (deadNodes : List NodeId)
  /-- `remove_node` at a node. -/
  | removeNode (member nodeId : NodeId)
  /-- A gossip round from `sender` to `receiver`. -/
  | gossip (sender receiver : NodeId) (senderDead receiverDead : List NodeId) (mtu : Mtu NodeId)
      (gracePeriod : Nat) (choices : Choices NodeId)

variable {NodeId : Type} [LinearOrder NodeId] [DecidableEq NodeId]

/-- A node removes other nodes, the ones it counts dead, and never itself. -/
def Event.Admissible : Event NodeId → Prop
  | .removeNode member nodeId => nodeId ≠ member
  | _ => True

instance (event : Event NodeId) : Decidable event.Admissible :=
  match event with
  | .removeNode member nodeId => inferInstanceAs (Decidable (nodeId ≠ member))
  | .nodeStateMut .. | .gcKeysMarkedForDeletion .. | .gossip .. => isTrue trivial

namespace Network

/-- No node holds anything yet. -/
def init : Network NodeId := ⟨fun _ => ∅, fun _ => []⟩

/-- The state a node keeps of itself. -/
def own (net : Network NodeId) (nodeId : NodeId) : NodeState :=
  ((net.members nodeId).nodeState nodeId).getD default

/-- Member `member` moves to `cs`, having written `writes`. -/
def update (net : Network NodeId) (member : NodeId) (cs : ClusterState NodeId)
    (writes : List (String × VersionedValue)) : Network NodeId :=
  ⟨Function.update net.members member cs,
    Function.update net.written member (net.written member ++ writes)⟩

/-- One event; `none` when the code panics. A local operation writes the records it
leaves above the old `max_version`. -/
def step (net : Network NodeId) : Event NodeId → Option (Network NodeId)
  | .nodeStateMut member op =>
      ((net.members member).perform (.nodeStateMut member op)).map fun cs =>
        net.update member cs
          (((cs.nodeState member).getD default).iterStaleKeyValues (net.own member).maxVersion)
  | .gcKeysMarkedForDeletion member gracePeriod deadNodes =>
      some (net.update member
        ((net.members member).gcKeysMarkedForDeletion gracePeriod deadNodes) [])
  | .removeNode member nodeId =>
      some (net.update member ((net.members member).removeNode nodeId) [])
  | .gossip sender receiver senderDead receiverDead mtu gracePeriod choices =>
      ((net.members sender).computeDelta ((net.members receiver).computeDigest receiverDead)
        mtu senderDead gracePeriod choices).map fun delta =>
          net.update receiver ((net.members receiver).applyDelta delta) []

/-- A run of events from `net`; `none` when one of them panics. -/
def run (net : Network NodeId) : List (Event NodeId) → Option (Network NodeId)
  | [] => some net
  | event :: events => (net.step event).bind fun net' => net'.run events

theorem run_cons {net net'' : Network NodeId} {event : Event NodeId}
    {events : List (Event NodeId)} :
    net.run (event :: events) = some net'' ↔
      ∃ net', net.step event = some net' ∧ net'.run events = some net'' :=
  Option.bind_eq_some

/-- What every allowed event keeps holds at the end of every run of allowed events. -/
theorem run_preserves (P : Network NodeId → Prop) {allowed : Event NodeId → Prop}
    {net net' : Network NodeId} (start : P net) {events : List (Event NodeId)}
    (all : ∀ event ∈ events, allowed event)
    (step : ∀ {net net' : Network NodeId} {event : Event NodeId}, P net → allowed event →
      net.step event = some net' → P net')
    (h : net.run events = some net') : P net' := by
  induction events generalizing net with
  | nil => cases h; exact start
  | cons event events ih =>
      obtain ⟨net₁, stepped, rest⟩ := run_cons.1 h
      exact ih (step start (all event (List.mem_cons_self _ _)) stepped)
        (fun e mem => all e (List.mem_cons_of_mem _ mem)) rest

/-- The networks that admissible events reach from `init`. -/
inductive Reachable : Network NodeId → Prop where
  | init : Reachable init
  | step {net net' : Network NodeId} (event : Event NodeId) :
      Reachable net → event.Admissible → net.step event = some net' → Reachable net'

variable {net : Network NodeId} {member : NodeId} {cs : ClusterState NodeId}
  {writes : List (String × VersionedValue)}

@[simp] theorem members_update (nodeId : NodeId) :
    (net.update member cs writes).members nodeId =
      if nodeId = member then cs else net.members nodeId :=
  Function.update_apply _ _ _ _

@[simp] theorem written_update (nodeId : NodeId) :
    (net.update member cs writes).written nodeId =
      if nodeId = member then net.written member ++ writes else net.written nodeId :=
  Function.update_apply _ _ _ _

/-- An event that writes nothing leaves the log of writes as it is. -/
theorem written_update_nil : (net.update member cs []).written = net.written := by
  simp [update]

theorem own_update (nodeId : NodeId) :
    (net.update member cs writes).own nodeId =
      if nodeId = member then (cs.nodeState member).getD default else net.own nodeId := by
  unfold own
  rw [members_update]
  split
  · subst nodeId; rfl
  · rfl

/-! ## The invariant -/

/-- A state of `nodeId` is no further than the node's own, and holds only records the
node wrote. -/
structure Fits (net : Network NodeId) (nodeId : NodeId) (ns : NodeState) : Prop where
  le_own : ns.maxVersion ≤ (net.own nodeId).maxVersion
  written : ∀ key w, ns.getVersioned key = some w → (key, w) ∈ net.written nodeId

/-- A member's cluster state: bounded versions, and every node state fits its node. -/
structure Consistent (net : Network NodeId) (cs : ClusterState NodeId) : Prop where
  bounded : cs.VersionsBounded
  fits : ∀ nodeId ns, cs.nodeState nodeId = some ns → net.Fits nodeId ns

/-- Every member is consistent, and a node's writes are at most its `max_version`, one
per version. -/
structure Safe (net : Network NodeId) : Prop where
  consistent : ∀ member, net.Consistent (net.members member)
  written_le : ∀ nodeId kv, kv ∈ net.written nodeId →
    kv.2.version ≤ (net.own nodeId).maxVersion
  written_unique : ∀ nodeId kv kv', kv ∈ net.written nodeId → kv' ∈ net.written nodeId →
    kv.2.version = kv'.2.version → kv = kv'

/-- `net'` has every node at least as far as `net` has, and every write of `net`. -/
structure Extends (net net' : Network NodeId) : Prop where
  own_le : ∀ nodeId, (net.own nodeId).maxVersion ≤ (net'.own nodeId).maxVersion
  written_sub : ∀ nodeId, net.written nodeId ⊆ net'.written nodeId

theorem fits_default (nodeId : NodeId) : net.Fits nodeId default :=
  ⟨Nat.zero_le _, fun _ _ held => by simp at held⟩

variable {net' : Network NodeId} {nodeId : NodeId} {ns : NodeState}

theorem Fits.mono (fits : net.Fits nodeId ns) (ext : net.Extends net') : net'.Fits nodeId ns :=
  ⟨fits.le_own.trans (ext.own_le nodeId), fun key w held => ext.written_sub nodeId
    (fits.written key w held)⟩

/-- A node delta of records the node wrote, at most its `max_version`, keeps a state
fitting. -/
theorem Fits.applyNodeDelta (fits : net.Fits nodeId ns) {nodeDelta : NodeDelta}
    (sent : ∀ kv ∈ nodeDelta, kv ∈ net.written nodeId ∧
      kv.2.version ≤ (net.own nodeId).maxVersion) :
    net.Fits nodeId (ns.applyNodeDelta nodeDelta) :=
  ⟨(NodeState.applyNodeDelta_maxVersion_le_iff _ _ _).2
      ⟨fits.le_own, fun kv mem => (sent kv mem).2⟩,
    fun key w held => (NodeState.getVersioned_applyNodeDelta_of_some held).elim
      (fits.written key w) fun mem => (sent _ mem).1⟩

theorem Consistent.mono (consistent : net.Consistent cs) (ext : net.Extends net') :
    net'.Consistent cs :=
  ⟨consistent.bounded, fun nodeId ns held => (consistent.fits nodeId ns held).mono ext⟩

theorem Consistent.getD (consistent : net.Consistent cs) (nodeId : NodeId) :
    net.Fits nodeId ((cs.nodeState nodeId).getD default) := by
  cases held : cs.nodeState nodeId with
  | none => exact fits_default nodeId
  | some ns => exact consistent.fits nodeId ns held

theorem Safe.fits_own (safe : net.Safe) (nodeId : NodeId) : net.Fits nodeId (net.own nodeId) :=
  (safe.consistent nodeId).getD nodeId

theorem Safe.own_bounded (safe : net.Safe) (nodeId : NodeId) : (net.own nodeId).VersionsBounded :=
  (safe.consistent nodeId).bounded.getD nodeId

/-- Two keys of a state of a node never share a version: both records are writes. -/
theorem Safe.distinct_of_fits (safe : net.Safe) (fits : net.Fits nodeId ns) :
    ns.DistinctVersions := fun _ _ _ _ held₁ held₂ apart same =>
  apart (Prod.mk.inj (safe.written_unique nodeId _ _ (fits.written _ _ held₁)
    (fits.written _ _ held₂) same)).1

theorem Safe.own_distinct (safe : net.Safe) (nodeId : NodeId) :
    (net.own nodeId).DistinctVersions :=
  safe.distinct_of_fits (safe.fits_own nodeId)

/-- A write of a key at most the version of the node's own record of the key is that
record or an older one. -/
theorem Safe.lt_or_eq_of_written (safe : net.Safe) {kv : String × VersionedValue}
    (written : kv ∈ net.written nodeId) {w : VersionedValue}
    (own : (net.own nodeId).getVersioned kv.1 = some w) (le : kv.2.version ≤ w.version) :
    kv.2.version < w.version ∨ kv.2 = w :=
  (Nat.lt_or_ge _ _).imp_right fun same => (Prod.mk.inj (safe.written_unique nodeId _ _ written
    ((safe.fits_own nodeId).written _ w own) (le_antisymm le same))).2

theorem safe_init : (init : Network NodeId).Safe :=
  ⟨fun _ => ⟨fun _ _ held => by simp [init] at held, fun _ _ held => by simp [init] at held⟩,
    fun _ _ mem => by simp [init] at mem, fun _ _ _ mem => by simp [init] at mem⟩

theorem extends_update
    (own_le : (net.own member).maxVersion ≤ ((cs.nodeState member).getD default).maxVersion) :
    net.Extends (net.update member cs writes) := by
  refine ⟨fun nodeId => ?_, fun nodeId => ?_⟩
  · rw [own_update]
    split
    · subst nodeId; exact own_le
    · exact le_rfl
  · rw [written_update]
    split
    · subst nodeId; exact List.subset_append_left _ _
    · exact List.Subset.refl _

/-- An event changes one member. The network stays safe when the member's new state is
consistent, no node goes back, and the member's new writes are at most its new
`max_version` and have a version each. -/
theorem Safe.update (safe : net.Safe) (ext : net.Extends (net.update member cs writes))
    (consistent : (net.update member cs writes).Consistent cs)
    (writes_le : ∀ kv ∈ writes,
      kv.2.version ≤ ((cs.nodeState member).getD default).maxVersion)
    (writes_unique : ∀ kv ∈ net.written member ++ writes,
      ∀ kv' ∈ net.written member ++ writes, kv.2.version = kv'.2.version → kv = kv') :
    net.Extends (net.update member cs writes) ∧ (net.update member cs writes).Safe := by
  refine ⟨ext, fun other => ?_, fun nodeId kv mem => ?_, fun nodeId kv kv' mem mem' => ?_⟩
  · rw [members_update]
    split
    · exact consistent
    · exact (safe.consistent other).mono ext
  · rw [written_update] at mem
    split at mem
    · subst nodeId
      rcases List.mem_append.1 mem with old | new
      · exact (safe.written_le _ _ old).trans (ext.own_le _)
      · rw [own_update, if_pos rfl]
        exact writes_le kv new
    · exact (safe.written_le _ _ mem).trans (ext.own_le _)
  · rw [written_update] at mem mem'
    by_cases here : nodeId = member
    · rw [if_pos here] at mem mem'
      subst nodeId
      exact writes_unique kv mem kv' mem'
    · rw [if_neg here] at mem mem'
      exact safe.written_unique nodeId kv kv' mem mem'

/-! ## Each event keeps the network safe -/

/-- A local operation of a node on its own state. -/
theorem Safe.nodeStateMut (safe : net.Safe) {op : NodeState.Operation}
    (h : (net.members member).perform (.nodeStateMut member op) = some cs) :
    net.Extends (net.update member cs
        (((cs.nodeState member).getD default).iterStaleKeyValues (net.own member).maxVersion)) ∧
      (net.update member cs
        (((cs.nodeState member).getD default).iterStaleKeyValues
          (net.own member).maxVersion)).Safe := by
  obtain ⟨ns', performed, rfl⟩ := Option.map_eq_some'.1 h
  have own' : ((((net.members member).nodeStateMut member fun _ => ns').nodeState member).getD
      default) = ns' := by simp
  have follows := NodeState.perform_follows performed
  have bounded' := (safe.own_bounded member).perform performed
  have distinct' := (safe.own_distinct member).perform (safe.own_bounded member) performed
  rw [own']
  have ext : net.Extends (net.update member ((net.members member).nodeStateMut member fun _ => ns')
      (ns'.iterStaleKeyValues (net.own member).maxVersion)) :=
    extends_update (by rw [own']; exact follows.maxVersion_le)
  refine safe.update ext ⟨(safe.consistent member).bounded.perform h, fun nodeId ns held => ?_⟩
    (fun kv mem => by rw [own']; exact bounded' _ _ (NodeState.mem_iterStaleKeyValues.1 mem).1)
    (fun kv mem kv' mem' same => ?_)
  · rw [ClusterState.nodeState_nodeStateMut] at held
    split at held
    · subst nodeId
      cases held
      refine ⟨by rw [own_update, if_pos rfl, own'], fun key w stored => ?_⟩
      rw [written_update, if_pos rfl]
      by_cases old : w.version ≤ (net.own member).maxVersion
      · exact List.mem_append_left _
          ((safe.fits_own member).written key w (follows.old key w stored old))
      · exact List.mem_append_right _
          (NodeState.mem_iterStaleKeyValues.2 ⟨stored, Nat.lt_of_not_le old⟩)
    · exact ((safe.consistent member).fits nodeId ns held).mono ext
  · rcases List.mem_append.1 mem with old | new <;> rcases List.mem_append.1 mem' with old' | new'
    · exact safe.written_unique member kv kv' old old' same
    · have := safe.written_le member kv old
      have := (NodeState.mem_iterStaleKeyValues.1 new').2
      omega
    · have := safe.written_le member kv' old'
      have := (NodeState.mem_iterStaleKeyValues.1 new).2
      omega
    · have stored := (NodeState.mem_iterStaleKeyValues.1 new).1
      have stored' := (NodeState.mem_iterStaleKeyValues.1 new').1
      by_cases key : kv.1 = kv'.1
      · rw [key, stored'] at stored
        exact Prod.ext key (Option.some.inj stored).symm
      · exact absurd same (distinct' _ _ _ _ stored stored' key)

/-- A member that drops nodes or records, keeping its own node and every
`max_version`. -/
theorem Safe.shrink (safe : net.Safe)
    (shrinks : ∀ nodeId ns', cs.nodeState nodeId = some ns' → ∃ ns,
      (net.members member).nodeState nodeId = some ns ∧ ns'.maxVersion = ns.maxVersion ∧
        ∀ key w, ns'.getVersioned key = some w → ns.getVersioned key = some w)
    (keepsOwn : (net.members member).nodeState member ≠ none → cs.nodeState member ≠ none) :
    net.Extends (net.update member cs []) ∧ (net.update member cs []).Safe := by
  have ext : net.Extends (net.update member cs []) := by
    refine extends_update ?_
    cases known : (net.members member).nodeState member with
    | none => simp [own, known]
    | some ns =>
        obtain ⟨ns', kept⟩ := Option.ne_none_iff_exists'.1 (keepsOwn (by simp [known]))
        obtain ⟨ns₀, known₀, same, -⟩ := shrinks member ns' kept
        rw [known₀] at known
        cases known
        simp [own, known₀, kept, same]
  refine safe.update ext ⟨fun nodeId ns' held key w stored => ?_, fun nodeId ns' held => ?_⟩
    (by simp) (fun kv mem kv' mem' => by
      rw [List.append_nil] at mem mem'; exact safe.written_unique member kv kv' mem mem')
  · obtain ⟨ns, known, same, sub⟩ := shrinks nodeId ns' held
    exact same ▸ (safe.consistent member).bounded nodeId ns known key w (sub key w stored)
  · obtain ⟨ns, known, same, sub⟩ := shrinks nodeId ns' held
    have fits := ((safe.consistent member).fits nodeId ns known).mono ext
    exact ⟨same ▸ fits.le_own, fun key w stored => fits.written key w (sub key w stored)⟩

theorem Safe.gcKeysMarkedForDeletion (safe : net.Safe) (gracePeriod : Nat)
    (deadNodes : List NodeId) :
    net.Extends (net.update member
        ((net.members member).gcKeysMarkedForDeletion gracePeriod deadNodes) []) ∧
      (net.update member
        ((net.members member).gcKeysMarkedForDeletion gracePeriod deadNodes) []).Safe := by
  refine safe.shrink (fun nodeId ns' held => ?_) fun present => by simpa using present
  rw [ClusterState.nodeState_gcKeysMarkedForDeletion] at held
  obtain ⟨ns, known, rfl⟩ := Option.map_eq_some'.1 held
  refine ⟨ns, known, by split <;> rfl, fun key w stored => ?_⟩
  split at stored
  · exact stored
  · rw [NodeState.getVersioned_gcKeysMarkedForDeletion, Option.filter_eq_some] at stored
    exact stored.1

theorem Safe.removeNode (safe : net.Safe) {nodeId : NodeId} (other : nodeId ≠ member) :
    net.Extends (net.update member ((net.members member).removeNode nodeId) []) ∧
      (net.update member ((net.members member).removeNode nodeId) []).Safe := by
  refine safe.shrink (fun nodeId' ns' held => ?_) fun present => by simpa [other.symm] using present
  rw [ClusterState.nodeState_removeNode] at held
  split at held
  · cases held
  · exact ⟨ns', held, rfl, fun _ _ => id⟩

/-- The records a member's delta carries of a node are writes of the node, at most its
`max_version`, whatever the digest. -/
theorem Safe.sent (safe : net.Safe) {sender : NodeId} {digest : Digest NodeId}
    {mtu : Mtu NodeId} {deadNodes : List NodeId} {gracePeriod : Nat} {choices : Choices NodeId}
    {delta : Delta NodeId}
    (computed : (net.members sender).computeDelta digest mtu deadNodes gracePeriod choices =
      some delta) (nodeId : NodeId) :
    ∀ kv ∈ (delta.nodeDeltas.get nodeId).getD [], kv ∈ net.written nodeId ∧
      kv.2.version ≤ (net.own nodeId).maxVersion := fun kv mem => by
  obtain ⟨ns, known, stored⟩ := ClusterState.exists_getVersioned_of_mem_nodeDeltas computed mem
  have fits := (safe.consistent sender).fits nodeId ns known
  exact ⟨fits.written _ _ stored,
    ((safe.consistent sender).bounded nodeId ns known _ _ stored).trans fits.le_own⟩

/-- A member's state of a node is no further than the node's own. -/
theorem Safe.le_own (safe : net.Safe) (member nodeId : NodeId) :
    ∀ ns, (net.members member).nodeState nodeId = some ns →
      ns.maxVersion ≤ ((net.members nodeId).nodeState nodeId |>.getD default).maxVersion :=
  fun ns known => ((safe.consistent member).fits nodeId ns known).le_own

/-- A member applies a delta whose records are writes of their nodes, at most the nodes'
`max_version`, and that does not reset the member's own node. -/
theorem Safe.applyDelta (safe : net.Safe) {receiver : NodeId} {delta : Delta NodeId}
    (sent : ∀ nodeId, ∀ kv ∈ (delta.nodeDeltas.get nodeId).getD [],
      kv ∈ net.written nodeId ∧ kv.2.version ≤ (net.own nodeId).maxVersion)
    (notReset : receiver ∉ delta.nodesToReset) :
    net.Extends (net.update receiver ((net.members receiver).applyDelta delta) []) ∧
      (net.update receiver ((net.members receiver).applyDelta delta) []).Safe := by
  have ext : net.Extends (net.update receiver ((net.members receiver).applyDelta delta) []) :=
    extends_update (by
      rw [ClusterState.getD_nodeState_applyDelta, if_neg notReset]
      exact ((NodeState.applyNodeDelta_maxVersion_le_iff _ _ _).1 le_rfl).1)
  refine safe.update ext ⟨(safe.consistent receiver).bounded.perform
      (show (net.members receiver).perform (.applyDelta delta) = some _ from rfl),
      fun nodeId ns' held => ?_⟩ (by simp) (fun kv mem kv' mem' => by
      rw [List.append_nil] at mem mem'; exact safe.written_unique receiver kv kv' mem mem')
  have applied := ClusterState.getD_nodeState_applyDelta (net.members receiver) delta nodeId
  rw [held, Option.getD_some] at applied
  rw [applied]
  refine (Fits.applyNodeDelta ?_ (sent nodeId)).mono ext
  split
  · exact fits_default nodeId
  · exact (safe.consistent receiver).getD nodeId

/-- A gossip round: the sender's state of the receiver is never ahead of the receiver's
own, so the round does not reset it. -/
theorem Safe.gossip (safe : net.Safe) {sender receiver : NodeId}
    {senderDead receiverDead : List NodeId} {mtu : Mtu NodeId} {gracePeriod : Nat}
    {choices : Choices NodeId} {delta : Delta NodeId}
    (computed : (net.members sender).computeDelta
      ((net.members receiver).computeDigest receiverDead) mtu senderDead gracePeriod choices =
        some delta) :
    net.Extends (net.update receiver ((net.members receiver).applyDelta delta) []) ∧
      (net.update receiver ((net.members receiver).applyDelta delta) []).Safe :=
  safe.applyDelta (safe.sent computed)
    (ClusterState.not_mem_nodesToReset_of_le computed (safe.le_own sender receiver))

/-- A round leaves the receiver's state of itself alone when the receiver counts itself
live: the sender's state of it is never ahead, so the round neither resets it nor sends
anything of it. -/
theorem Safe.nodeState_applyDelta_self (safe : net.Safe) {sender receiver : NodeId}
    {senderDead receiverDead : List NodeId} {mtu : Mtu NodeId} {gracePeriod : Nat}
    {choices : Choices NodeId} {delta : Delta NodeId}
    (computed : (net.members sender).computeDelta
      ((net.members receiver).computeDigest receiverDead) mtu senderDead gracePeriod choices =
        some delta)
    (live : receiver ∉ receiverDead) :
    ((net.members receiver).applyDelta delta).nodeState receiver =
      (net.members receiver).nodeState receiver := by
  rw [ClusterState.nodeState_applyDelta_of_none _
    (ClusterState.nodeDeltas_get_eq_none_of_le computed live fun ns known =>
      ⟨(safe.consistent sender).bounded receiver ns known,
        safe.le_own sender receiver ns known⟩),
    if_neg (ClusterState.not_mem_nodesToReset_of_le computed (safe.le_own sender receiver))]

/-- One admissible event extends the network and keeps it safe. -/
theorem Safe.step (safe : net.Safe) {event : Event NodeId} (admissible : event.Admissible)
    (h : net.step event = some net') : net.Extends net' ∧ net'.Safe := by
  cases event with
  | nodeStateMut member op =>
      obtain ⟨cs, performed, rfl⟩ := Option.map_eq_some'.1 h
      exact safe.nodeStateMut performed
  | gcKeysMarkedForDeletion member gracePeriod deadNodes =>
      cases h
      exact safe.gcKeysMarkedForDeletion gracePeriod deadNodes
  | removeNode member nodeId =>
      cases h
      exact safe.removeNode admissible
  | gossip sender receiver senderDead receiverDead mtu gracePeriod choices =>
      obtain ⟨delta, computed, rfl⟩ := Option.map_eq_some'.1 h
      exact safe.gossip computed

theorem Reachable.safe {net : Network NodeId} (reachable : net.Reachable) : net.Safe := by
  induction reachable with
  | init => exact safe_init
  | step event _ admissible h ih => exact (ih.step admissible h).2

/-- A run of admissible events from a reachable network ends in a reachable one. -/
theorem Reachable.run {net net' : Network NodeId} (reachable : net.Reachable)
    {events : List (Event NodeId)} (admissible : ∀ event ∈ events, event.Admissible)
    (h : net.run events = some net') : net'.Reachable :=
  run_preserves Reachable reachable admissible
    (fun reachable admissible stepped => .step _ reachable admissible stepped) h

/-! ## Safety over every run -/

/-- No member's state of a node is ahead of the node's own. -/
theorem copies_never_ahead {net : Network NodeId} (reachable : net.Reachable)
    (member nodeId : NodeId) (ns : NodeState)
    (held : (net.members member).nodeState nodeId = some ns) :
    ns.maxVersion ≤ (net.own nodeId).maxVersion :=
  ((reachable.safe.consistent member).fits nodeId ns held).le_own

/-- Node 0 writes a key and gossips it to node 1; the network below is that run. -/
theorem copy_behind_after_round :
    ∃ net : Network Nat, net.Reachable ∧
      (net.members 1).nodeState 0 = some ((default : NodeState).set "key" "1") ∧
      ((default : NodeState).set "key" "1").maxVersion ≤ (net.own 0).maxVersion := by
  have start : (init : Network Nat).Reachable := .init
  have written := Reachable.step (.nodeStateMut 0 (.set "key" "1")) start trivial rfl
  have gossiped :=
    Reachable.step (.gossip 0 1 [] [] Mtu.unbounded 0 Choices.deterministic) written trivial rfl
  exact ⟨_, gossiped, rfl, copies_never_ahead gossiped 1 0 _ rfl⟩

/-- Every record a member holds of a node is one the node wrote. -/
theorem records_written_by_owner {net : Network NodeId} (reachable : net.Reachable)
    (member nodeId : NodeId) (ns : NodeState) (key : String) (w : VersionedValue)
    (held : (net.members member).nodeState nodeId = some ns)
    (stored : ns.getVersioned key = some w) :
    (key, w) ∈ net.written nodeId :=
  ((reachable.safe.consistent member).fits nodeId ns held).written key w stored

/-- The record node 1 received is the write of node 0. -/
theorem received_record_written :
    ∃ net : Network Nat, net.Reachable ∧
      (net.members 1).nodeState 0 = some ((default : NodeState).set "key" "1") ∧
      ((default : NodeState).set "key" "1").getVersioned "key" = some ⟨"1", 1, false⟩ ∧
      ("key", ⟨"1", 1, false⟩) ∈ net.written 0 := by
  have start : (init : Network Nat).Reachable := .init
  have written := Reachable.step (.nodeStateMut 0 (.set "key" "1")) start trivial rfl
  have gossiped :=
    Reachable.step (.gossip 0 1 [] [] Mtu.unbounded 0 Choices.deterministic) written trivial rfl
  exact ⟨_, gossiped, rfl, rfl, records_written_by_owner gossiped 1 0 _ _ _ rfl rfl⟩

/-- One version of a node names one update at every member: two records of the node at
the same version, at any two members, have the same key and the same value. -/
theorem versions_agree {net : Network NodeId} (reachable : net.Reachable)
    {member member' nodeId : NodeId} {ns ns' : NodeState} {key key' : String}
    {w w' : VersionedValue} (held : (net.members member).nodeState nodeId = some ns)
    (held' : (net.members member').nodeState nodeId = some ns')
    (stored : ns.getVersioned key = some w) (stored' : ns'.getVersioned key' = some w')
    (same : w.version = w'.version) :
    key = key' ∧ w = w' := by
  have safe := reachable.safe
  exact Prod.mk.inj (safe.written_unique nodeId _ _
    (((safe.consistent member).fits nodeId ns held).written key w stored)
    (((safe.consistent member').fits nodeId ns' held').written key' w' stored') same)

/-- Node 0's own record and node 1's copy of it, at version 1. -/
theorem versions_agree_after_round :
    ∃ net : Network Nat, net.Reachable ∧
      (net.members 0).nodeState 0 = some ((default : NodeState).set "key" "1") ∧
      (net.members 1).nodeState 0 = some ((default : NodeState).set "key" "1") ∧
      ((default : NodeState).set "key" "1").getVersioned "key" = some ⟨"1", 1, false⟩ ∧
      "key" = "key" ∧ (⟨"1", 1, false⟩ : VersionedValue) = ⟨"1", 1, false⟩ := by
  have start : (init : Network Nat).Reachable := .init
  have written := Reachable.step (.nodeStateMut 0 (.set "key" "1")) start trivial rfl
  have gossiped :=
    Reachable.step (.gossip 0 1 [] [] Mtu.unbounded 0 Choices.deterministic) written trivial rfl
  refine ⟨_, gossiped, ?own, ?copy, ?stored,
    versions_agree gossiped ?own ?copy ?stored ?stored rfl⟩ <;> rfl

/-- A node's `max_version` never goes down, whatever the event. -/
theorem own_maxVersion_monotone {net net' : Network NodeId} (reachable : net.Reachable)
    {event : Event NodeId} (admissible : event.Admissible) (h : net.step event = some net')
    (nodeId : NodeId) :
    (net.own nodeId).maxVersion ≤ (net'.own nodeId).maxVersion :=
  (reachable.safe.step admissible h).1.own_le nodeId

/-- Node 1 gossips back to node 0, which counts itself dead in its digest. -/
theorem own_maxVersion_after_round_back :
    ∃ net net' : Network Nat, net.Reachable ∧
      net.step (.gossip 1 0 [] [0] Mtu.unbounded 0 Choices.deterministic) = some net' ∧
      (net.own 0).maxVersion ≤ (net'.own 0).maxVersion := by
  have start : (init : Network Nat).Reachable := .init
  have written := Reachable.step (.nodeStateMut 0 (.set "key" "1")) start trivial rfl
  have gossiped :=
    Reachable.step (.gossip 0 1 [] [] Mtu.unbounded 0 Choices.deterministic) written trivial rfl
  exact ⟨_, _, gossiped, rfl, @own_maxVersion_monotone Nat _ _ _ _ gossiped
    (.gossip 1 0 [] [0] Mtu.unbounded 0 Choices.deterministic) trivial rfl 0⟩

/-- A round leaves the receiver's state of itself alone when the receiver counts itself
live: the sender's state of it is never ahead, so the round neither resets it nor sends
anything of it. -/
theorem gossip_keeps_own_state {net net' : Network NodeId} (reachable : net.Reachable)
    {sender receiver : NodeId} {senderDead receiverDead : List NodeId} {mtu : Mtu NodeId}
    {gracePeriod : Nat} {choices : Choices NodeId} (live : receiver ∉ receiverDead)
    (h : net.step (.gossip sender receiver senderDead receiverDead mtu gracePeriod choices) =
      some net') :
    (net'.members receiver).nodeState receiver = (net.members receiver).nodeState receiver := by
  obtain ⟨delta, computed, rfl⟩ := Option.map_eq_some'.1 h
  rw [members_update, if_pos rfl]
  exact reachable.safe.nodeState_applyDelta_self computed live

/-- Node 1 gossips back to node 0, which counts itself live. -/
theorem own_state_kept_after_round_back :
    ∃ net net' : Network Nat, net.Reachable ∧ (0 : Nat) ∉ ([] : List Nat) ∧
      net.step (.gossip 1 0 [] [] Mtu.unbounded 0 Choices.deterministic) = some net' ∧
      (net'.members 0).nodeState 0 = (net.members 0).nodeState 0 := by
  have start : (init : Network Nat).Reachable := .init
  have written := Reachable.step (.nodeStateMut 0 (.set "key" "1")) start trivial rfl
  have gossiped :=
    Reachable.step (.gossip 0 1 [] [] Mtu.unbounded 0 Choices.deterministic) written trivial rfl
  exact ⟨_, _, gossiped, List.not_mem_nil _, rfl, @gossip_keeps_own_state Nat _ _ _ _ gossiped
    1 0 [] [] Mtu.unbounded 0 Choices.deterministic (List.not_mem_nil _) rfl⟩

end Network

end Chitchat
