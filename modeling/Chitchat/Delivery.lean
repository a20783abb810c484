import Chitchat.Network

/-!
# Exact copies in runs without collection

In a run of the cluster that collects no tombstones (`Event.Collects`), every member's
state of a node covers the node's own state up to its `max_version` (`Complete.covers`):
a round keeps that, whoever sends, however the MTU cuts the delta, and whether or not it
resets the node, because a sender's records of the node are never newer than the
node's own (`Behind`) and go out as a prefix sorted by version. Each node's own state
keeps the last write of every key it wrote (`Complete.latest`), so a record a member
holds at a version the node also holds is the node's record.

Two consequences. A member whose state of a node has reached the node's `max_version`
holds exactly the node's records (`caught_up_copy_exact`), the fact the digest comparison
rests on. And a round with an unbounded MTU from a member holding exactly the node's
records, the node itself included, leaves the receiver holding exactly them
(`round_relays_exact_copy`), whatever happened before: truncated rounds, rounds relayed by
other members, resets, removals, and any dead sets.
-/

namespace Chitchat

namespace NodeState

/-- Every record of `ns` is `o`'s record of its key, or an older one. -/
def Behind (ns o : NodeState) : Prop :=
  ∀ key x, ns.getVersioned key = some x →
    ∃ w, o.getVersioned key = some w ∧ (x.version < w.version ∨ x = w)

theorem Behind.eq_of_le {ns o : NodeState} (behind : ns.Behind o) {key : String}
    {x w : VersionedValue} (held : ns.getVersioned key = some x)
    (stored : o.getVersioned key = some w) (le : w.version ≤ x.version) : x = w := by
  obtain ⟨w', own, order⟩ := behind key x held
  obtain rfl := Option.some.inj (own.symm.trans stored)
  exact order.resolve_left (Nat.not_lt.2 le)

/-- A state behind `o` that holds every record of `o`, at its version or a newer one,
holds exactly the records of `o`. -/
theorem Behind.getVersioned_eq {ns o : NodeState} (behind : ns.Behind o)
    (absorbs : ∀ key w, o.getVersioned key = some w → ns.Absorbs (key, w)) (key : String) :
    ns.getVersioned key = o.getVersioned key := by
  cases stored : o.getVersioned key with
  | some w =>
      obtain ⟨-, x, held, newer⟩ := absorbs key w stored
      rw [held, behind.eq_of_le held stored newer]
  | none =>
      cases held : ns.getVersioned key with
      | none => rfl
      | some x =>
          obtain ⟨w, own, -⟩ := behind key x held
          cases own.symm.trans stored

/-- A local operation other than a collection keeps every key, at its version or a newer
one. -/
theorem perform_keeps_newer {ns ns' : NodeState} {op : Operation}
    (bounded : ns.VersionsBounded) (performed : ns.perform op = some ns')
    (keeps : ∀ gracePeriod, op ≠ .gcKeysMarkedForDeletion gracePeriod) {key : String}
    {w : VersionedValue} (stored : ns.getVersioned key = some w) :
    ∃ w', ns'.getVersioned key = some w' ∧ w.version ≤ w'.version := by
  obtain ⟨w', kept⟩ := perform_keeps_key performed keeps stored
  refine ⟨w', kept, ?_⟩
  by_cases same : w' = w
  · rw [same]
  · exact (perform_recordsGrow bounded performed key w w' stored kept same).le

/-- A node delta reaches `o` above a floor: it holds every record of `o` above the floor
up to the version of one of its own records. -/
def Reaches (sent : NodeDelta) (floorVersion : Nat) (o : NodeState) : Prop :=
  ∀ key w, o.getVersioned key = some w → floorVersion < w.version →
    ∀ kv ∈ sent, w.version ≤ kv.2.version → (key, w) ∈ sent

/-- A receiver covering `o` keeps covering it when it applies a node delta that reaches `o`
above a floor at most its `max_version`. -/
theorem Covers.applyNodeDelta_of_reaches {ns o : NodeState} (covers : ns.Covers o)
    {floorVersion : Nat} (below : floorVersion ≤ ns.maxVersion) {sent : NodeDelta}
    (reaches : Reaches sent floorVersion o) : (ns.applyNodeDelta sent).Covers o :=
    fun key w stored reached => by
  by_cases old : w.version ≤ ns.maxVersion
  · exact (covers key w stored old).applyNodeDelta sent
  obtain ⟨kv, mem, reach⟩ := exists_delivered_of_reached (Nat.lt_of_not_le old) reached
  exact applyNodeDelta_absorbs ns sent (key, w) (reaches key w stored (by omega) kv mem reach)

/-- A prefix of a sender's records above a floor, sorted by version, reaches every state `o`
the sender covers and is behind: a record of `o` up to a sent version is the sender's. -/
theorem reaches_of_relayed {sender o : NodeState} (senderCovers : sender.Covers o)
    (bounded : sender.VersionsBounded) (distinct : sender.DistinctVersions)
    (behind : sender.Behind o) {floorVersion : Nat} {kvs delivered : NodeDelta}
    (perm : kvs.Perm (sender.iterStaleKeyValues floorVersion))
    (sorted : kvs.Sorted fun a b => a.2.version ≤ b.2.version) (cut : delivered <+: kvs) :
    Reaches delivered floorVersion o := fun key w stored above sent delivers reach => by
  have sentStored := (mem_iterStaleKeyValues.1 (perm.mem_iff.1 (cut.sublist.subset delivers))).1
  obtain ⟨-, x, held, newer⟩ := senderCovers key w stored (reach.trans (bounded _ _ sentStored))
  obtain rfl := behind.eq_of_le held stored newer
  exact mem_cut_of_version_le sorted cut (eq_of_version_eq_of_perm_stale distinct perm)
    (perm.mem_iff.2 (mem_iterStaleKeyValues.2 ⟨held, above⟩)) delivers reach

/-- A receiver covering the sender holds, once it applies all the sender's records above a
floor at most its `max_version`, every record of the sender at that version or a newer. -/
theorem Covers.absorbs_applyNodeDelta_stale {ns sender : NodeState} (covers : ns.Covers sender)
    {floorVersion : Nat} (below : floorVersion ≤ ns.maxVersion) {sent : NodeDelta}
    (perm : sent.Perm (sender.iterStaleKeyValues floorVersion)) {key : String}
    {w : VersionedValue} (held : sender.getVersioned key = some w) :
    (ns.applyNodeDelta sent).Absorbs (key, w) := by
  by_cases above : floorVersion < w.version
  · exact applyNodeDelta_absorbs ns sent (key, w)
      (perm.mem_iff.2 (mem_iterStaleKeyValues.2 ⟨held, above⟩))
  · exact (covers key w held (by omega)).applyNodeDelta sent

end NodeState

namespace ClusterState

variable {NodeId : Type} [LinearOrder NodeId] [DecidableEq NodeId]
  {sender receiver : ClusterState NodeId} {senderDead receiverDead : List NodeId}
  {gracePeriod : Nat} {choices : Choices NodeId} {delta : Delta NodeId} {nodeId : NodeId}

/-- Whatever the digest, a delta reaches, of each node, every state `o` that the sender's
state of the node covers and is behind, above a floor at most the digest's value, and `0`
when the delta resets the node. -/
theorem reaches_computeDelta {digest : Digest NodeId} {mtu : Mtu NodeId}
    (computed : sender.computeDelta digest mtu senderDead gracePeriod choices = some delta)
    {o : NodeState} (relays : ∀ ns, sender.nodeState nodeId = some ns →
      ns.Covers o ∧ ns.VersionsBounded ∧ ns.DistinctVersions ∧ ns.Behind o) :
    ∃ floorVersion, floorVersion ≤ (digest.nodeMaxVersion.get nodeId).getD 0 ∧
      (nodeId ∈ delta.nodesToReset → floorVersion = 0) ∧
      NodeState.Reaches ((delta.nodeDeltas.get nodeId).getD []) floorVersion o := by
  have cut := getD_nodeDeltas_prefix_staleKvsOf _ _ _ _ _ _ computed nodeId
  cases known : sender.nodeState nodeId with
  | none =>
      rw [staleKvsOf, known, List.prefix_nil] at cut
      exact ⟨0, Nat.zero_le _, fun _ => rfl, fun _ _ _ _ kv mem => by simp [cut] at mem⟩
  | some ns =>
      obtain ⟨senderCovers, bounded, distinct, behind⟩ := relays ns known
      exact ⟨_, firstFloor_le _ _ _ _, firstFloor_eq_zero_of_mem_nodesToReset computed known,
        NodeState.reaches_of_relayed senderCovers bounded distinct behind
          (staleKvsOf_perm _ _ _ _ choices known) (staleKvsOf_sorted _ _ _ _ choices nodeId) cut⟩

/-- A round keeps the receiver's state of a node covering a state `o` of the node, when
the sender's state of it covers `o` and is behind it, whatever the MTU and dead sets. -/
theorem covers_applyDelta_relayed {mtu : Mtu NodeId}
    (computed : sender.computeDelta (receiver.computeDigest receiverDead) mtu senderDead
      gracePeriod choices = some delta)
    {o : NodeState} (positive : o.VersionsPositive)
    (covers : ((receiver.nodeState nodeId).getD default).Covers o)
    (relays : ∀ ns, sender.nodeState nodeId = some ns →
      ns.Covers o ∧ ns.VersionsBounded ∧ ns.DistinctVersions ∧ ns.Behind o) :
    (((receiver.applyDelta delta).nodeState nodeId).getD default).Covers o := by
  obtain ⟨floorVersion, below, reset, reaches⟩ := reaches_computeDelta computed relays
  rw [getD_nodeState_applyDelta]
  split
  · exact (NodeState.covers_default positive).applyNodeDelta_of_reaches (reset ‹_›).le reaches
  · exact covers.applyNodeDelta_of_reaches
      (below.trans (getD_computeDigest_le receiver receiverDead nodeId)) reaches

/-- A round with an unbounded MTU, on a node the sender holds and counts live, leaves a
receiver whose state of the node covered the sender's with every record of the sender's,
at its version or a newer one. -/
theorem absorbs_applyDelta_of_unbounded
    (computed : sender.computeDelta (receiver.computeDigest receiverDead) Mtu.unbounded
      senderDead gracePeriod choices = some delta)
    {ns : NodeState} (known : sender.nodeState nodeId = some ns) (live : nodeId ∉ senderDead)
    (positive : ns.VersionsPositive) (covers : ((receiver.nodeState nodeId).getD default).Covers ns)
    {key : String} {w : VersionedValue} (held : ns.getVersioned key = some w) :
    (((receiver.applyDelta delta).nodeState nodeId).getD default).Absorbs (key, w) := by
  have perm := getD_nodeDeltas_perm_of_unbounded computed known live
  rw [getD_nodeState_applyDelta]
  split
  · exact (NodeState.covers_default positive).absorbs_applyNodeDelta_stale
      (firstFloor_eq_zero_of_mem_nodesToReset computed known ‹_›).le perm held
  · exact covers.absorbs_applyNodeDelta_stale
      ((firstFloor_le _ _ _ _).trans (getD_computeDigest_le _ _ _)) perm held

end ClusterState

variable {NodeId : Type} [LinearOrder NodeId] [DecidableEq NodeId]

/-- The event collects tombstones: a cluster state's `gc_keys_marked_for_deletion`, or a
node's collection of its own. -/
def Event.Collects : Event NodeId → Prop
  | .gcKeysMarkedForDeletion .. => True
  | .nodeStateMut _ (.gcKeysMarkedForDeletion _) => True
  | _ => False

instance (event : Event NodeId) : Decidable event.Collects :=
  match event with
  | .gcKeysMarkedForDeletion .. => isTrue trivial
  | .nodeStateMut _ (.gcKeysMarkedForDeletion _) => isTrue trivial
  | .nodeStateMut _ (.set ..) | .nodeStateMut _ (.setWithVersion ..)
  | .nodeStateMut _ (.markForDeletion _) | .removeNode .. | .gossip .. => isFalse id

namespace Network

/-- What runs without collection keep, beside `Safe`: each node's own state holds every
key it wrote, at its last write; its writes have positive versions; and every member's
state of a node covers the node's own. -/
structure Complete (net : Network NodeId) : Prop where
  latest : ∀ nodeId kv, kv ∈ net.written nodeId →
    ∃ w, (net.own nodeId).getVersioned kv.1 = some w ∧ kv.2.version ≤ w.version
  positive : ∀ nodeId kv, kv ∈ net.written nodeId → 0 < kv.2.version
  covers : ∀ member nodeId ns, (net.members member).nodeState nodeId = some ns →
    ns.Covers (net.own nodeId)

theorem complete_init : (init : Network NodeId).Complete :=
  ⟨fun _ _ mem => by simp [init] at mem, fun _ _ mem => by simp [init] at mem,
    fun _ _ _ held => by simp [init] at held⟩

variable {net net' : Network NodeId}

theorem Complete.own_positive (complete : net.Complete) (safe : net.Safe) (nodeId : NodeId) :
    (net.own nodeId).VersionsPositive := fun key w stored =>
  complete.positive nodeId (key, w) ((safe.fits_own nodeId).written key w stored)

theorem Complete.covers_getD (complete : net.Complete) (safe : net.Safe)
    (member nodeId : NodeId) :
    (((net.members member).nodeState nodeId).getD default).Covers (net.own nodeId) := by
  cases held : (net.members member).nodeState nodeId with
  | none => exact NodeState.covers_default (complete.own_positive safe nodeId)
  | some ns => exact complete.covers member nodeId ns held

/-- A record a member holds of a node is the node's own record of the key, or older. -/
theorem Complete.behind (complete : net.Complete) (safe : net.Safe) {nodeId : NodeId}
    {ns : NodeState} (fits : net.Fits nodeId ns) : ns.Behind (net.own nodeId) :=
    fun key x stored => by
  have written := fits.written key x stored
  obtain ⟨w, own, newer⟩ := complete.latest nodeId _ written
  exact ⟨w, own, safe.lt_or_eq_of_written written own newer⟩

/-- A member's state of a node covers the node's own, is bounded, has distinct versions and
is behind the node's own: what a sender's state needs to keep a receiver covering. -/
theorem Complete.relays (complete : net.Complete) (safe : net.Safe) (member nodeId : NodeId) :
    ∀ ns, (net.members member).nodeState nodeId = some ns →
      ns.Covers (net.own nodeId) ∧ ns.VersionsBounded ∧ ns.DistinctVersions ∧
        ns.Behind (net.own nodeId) := fun ns known =>
  have fits := (safe.consistent member).fits nodeId ns known
  ⟨complete.covers member nodeId ns known, (safe.consistent member).bounded nodeId ns known,
    safe.distinct_of_fits fits, complete.behind safe fits⟩

/-! ## Each event without collection keeps the network complete -/

/-- A local operation other than a collection. -/
theorem Complete.nodeStateMut (complete : net.Complete) (safe : net.Safe) {member : NodeId}
    {op : NodeState.Operation} {cs : ClusterState NodeId}
    (keeps : ∀ gracePeriod, op ≠ .gcKeysMarkedForDeletion gracePeriod)
    (h : (net.members member).perform (.nodeStateMut member op) = some cs) :
    (net.update member cs (((cs.nodeState member).getD default).iterStaleKeyValues
      (net.own member).maxVersion)).Complete := by
  obtain ⟨ns', performed, rfl⟩ := Option.map_eq_some'.1 h
  have own' : ((((net.members member).nodeStateMut member fun _ => ns').nodeState member).getD
      default) = ns' := by simp
  have follows := NodeState.perform_follows performed
  have bounded := safe.own_bounded member
  rw [own']
  refine ⟨fun nodeId kv mem => ?_, fun nodeId kv mem => ?_, fun other nodeId ns held => ?_⟩
  · rw [written_update] at mem
    rw [own_update]
    split at mem
    · subst nodeId
      rw [if_pos rfl, own']
      rcases List.mem_append.1 mem with old | new
      · obtain ⟨w, stored, newer⟩ := complete.latest member kv old
        obtain ⟨w', kept, grown⟩ := NodeState.perform_keeps_newer bounded performed keeps stored
        exact ⟨w', kept, newer.trans grown⟩
      · exact ⟨kv.2, (NodeState.mem_iterStaleKeyValues.1 new).1, le_rfl⟩
    · rw [if_neg ‹_›]
      exact complete.latest nodeId kv mem
  · rw [written_update] at mem
    split at mem
    · subst nodeId
      rcases List.mem_append.1 mem with old | new
      · exact complete.positive member kv old
      · exact Nat.zero_lt_of_lt (NodeState.mem_iterStaleKeyValues.1 new).2
    · exact complete.positive nodeId kv mem
  · rw [own_update]
    rw [members_update] at held
    split at held
    · subst other
      rw [ClusterState.nodeState_nodeStateMut] at held
      split at held
      · subst nodeId
        cases held
        rw [if_pos rfl, own']
        exact NodeState.covers_self (bounded.perform performed)
      · rw [if_neg (Ne.symm ‹_›)]
        exact complete.covers member nodeId ns held
    · split
      · subst nodeId
        rw [own']
        exact (complete.covers other member ns held).follows follows
          (safe.le_own other member ns held)
      · exact complete.covers other nodeId ns held

/-- An event that writes nothing and leaves every node's own state alone keeps the
network complete when the member's new states cover their nodes. -/
theorem Complete.update_nil (complete : net.Complete) {member : NodeId}
    {cs : ClusterState NodeId}
    (ownSame : ∀ nodeId, (net.update member cs []).own nodeId = net.own nodeId)
    (covers : ∀ nodeId ns, cs.nodeState nodeId = some ns → ns.Covers (net.own nodeId)) :
    (net.update member cs []).Complete := by
  refine ⟨fun nodeId kv mem => ?_, fun nodeId kv mem => ?_, fun other nodeId ns held => ?_⟩
  · rw [written_update_nil] at mem
    rw [ownSame]
    exact complete.latest nodeId kv mem
  · rw [written_update_nil] at mem
    exact complete.positive nodeId kv mem
  · rw [members_update] at held
    rw [ownSame]
    split at held
    · exact covers nodeId ns held
    · exact complete.covers other nodeId ns held

/-- A removal of another node. -/
theorem Complete.removeNode (complete : net.Complete) {member nodeId : NodeId}
    (other : nodeId ≠ member) :
    (net.update member ((net.members member).removeNode nodeId) []).Complete := by
  refine complete.update_nil (fun node => ?_) fun node ns held => ?_
  · rw [own_update]
    split
    · subst node
      simp [own, Ne.symm other]
    · rfl
  · rw [ClusterState.nodeState_removeNode] at held
    split at held
    · cases held
    · exact complete.covers member node ns held

/-- A delta of writes at most the receiver's `max_version`, that does not reset the
receiver's own node, leaves every node's own state as it is: the receiver holds each of
those writes already, at its version or a newer one. -/
theorem Complete.own_applyDelta (complete : net.Complete) {receiver : NodeId}
    {delta : Delta NodeId}
    (sent : ∀ kv ∈ (delta.nodeDeltas.get receiver).getD [], kv ∈ net.written receiver ∧
      kv.2.version ≤ (net.own receiver).maxVersion)
    (notReset : receiver ∉ delta.nodesToReset) (nodeId : NodeId) :
    (net.update receiver ((net.members receiver).applyDelta delta) []).own nodeId =
      net.own nodeId := by
  rw [own_update]
  split
  · subst nodeId
    rw [ClusterState.getD_nodeState_applyDelta, if_neg notReset]
    refine NodeState.applyNodeDelta_of_absorbs fun kv mem => ?_
    obtain ⟨written, le⟩ := sent kv mem
    obtain ⟨w, stored, newer⟩ := complete.latest receiver kv written
    exact ⟨le, w, stored, newer⟩
  · rfl

/-- A gossip round: the receiver's own state does not change, and its other states keep
covering their nodes. -/
theorem Complete.gossip (complete : net.Complete) (safe : net.Safe) {sender receiver : NodeId}
    {senderDead receiverDead : List NodeId} {mtu : Mtu NodeId} {gracePeriod : Nat}
    {choices : Choices NodeId} {delta : Delta NodeId}
    (computed : (net.members sender).computeDelta
      ((net.members receiver).computeDigest receiverDead) mtu senderDead gracePeriod choices =
        some delta) :
    (∀ nodeId, (net.update receiver ((net.members receiver).applyDelta delta) []).own nodeId =
      net.own nodeId) ∧
      (net.update receiver ((net.members receiver).applyDelta delta) []).Complete := by
  have ownSame := complete.own_applyDelta (safe.sent computed receiver)
    (ClusterState.not_mem_nodesToReset_of_le computed (safe.le_own sender receiver))
  refine ⟨ownSame, complete.update_nil ownSame fun nodeId ns held => ?_⟩
  have covers := ClusterState.covers_applyDelta_relayed computed
    (complete.own_positive safe nodeId) (complete.covers_getD safe receiver nodeId)
    (complete.relays safe sender nodeId)
  rwa [held, Option.getD_some] at covers

/-- One admissible event that collects nothing keeps the network safe and complete. -/
theorem Complete.step (complete : net.Complete) (safe : net.Safe) {event : Event NodeId}
    (admissible : event.Admissible) (quiet : ¬ event.Collects)
    (h : net.step event = some net') : net'.Safe ∧ net'.Complete := by
  refine ⟨(safe.step admissible h).2, ?_⟩
  cases event with
  | nodeStateMut member op =>
      obtain ⟨cs, performed, rfl⟩ := Option.map_eq_some'.1 h
      exact complete.nodeStateMut safe
        (fun gracePeriod same => quiet (by simp [same, Event.Collects])) performed
  | gcKeysMarkedForDeletion member gracePeriod deadNodes => exact absurd trivial quiet
  | removeNode member nodeId =>
      cases h
      exact complete.removeNode admissible
  | gossip sender receiver senderDead receiverDead mtu gracePeriod choices =>
      obtain ⟨delta, computed, rfl⟩ := Option.map_eq_some'.1 h
      exact (complete.gossip safe computed).2

theorem Complete.run (complete : net.Complete) (safe : net.Safe)
    {events : List (Event NodeId)}
    (quiet : ∀ event ∈ events, event.Admissible ∧ ¬ event.Collects)
    (h : net.run events = some net') : net'.Safe ∧ net'.Complete :=
  run_preserves (fun net => net.Safe ∧ net.Complete) ⟨safe, complete⟩ quiet
    (fun ⟨safe, complete⟩ ⟨admissible, quiet⟩ stepped =>
      complete.step safe admissible quiet stepped) h

/-! ## Exact copies -/

/-- A member's state of a node holds exactly the node's own records. -/
def Exact (net : Network NodeId) (member nodeId : NodeId) : Prop :=
  ∀ key, (((net.members member).nodeState nodeId).getD default).getVersioned key =
    (net.own nodeId).getVersioned key

/-- In a safe and complete network, a member whose state of a node has reached the node's
`max_version` holds exactly the node's records. -/
theorem Complete.exact_of_caught_up (complete : net.Complete) (safe : net.Safe)
    {member nodeId : NodeId} {ns : NodeState}
    (held : (net.members member).nodeState nodeId = some ns)
    (caughtUp : (net.own nodeId).maxVersion ≤ ns.maxVersion) :
    net.Exact member nodeId := fun key => by
  rw [held, Option.getD_some]
  exact (complete.behind safe ((safe.consistent member).fits nodeId ns held)).getVersioned_eq
    (fun key w stored => complete.covers member nodeId ns held key w stored
      ((safe.own_bounded nodeId key w stored).trans caughtUp)) key

/-- In a run without collection, a member whose state of a node has reached the node's
own `max_version` holds exactly the node's records, tombstones included: what the digest
comparison of `compute_delta` takes for granted when it sends nothing of such a node. -/
theorem caught_up_copy_exact {events : List (Event NodeId)}
    (quiet : ∀ event ∈ events, event.Admissible ∧ ¬ event.Collects)
    (reached : init.run events = some net) {member nodeId : NodeId} {ns : NodeState}
    (held : (net.members member).nodeState nodeId = some ns)
    (caughtUp : (net.own nodeId).maxVersion ≤ ns.maxVersion) :
    net.Exact member nodeId :=
  have ⟨safe, complete⟩ := complete_init.run safe_init quiet reached
  complete.exact_of_caught_up safe held caughtUp

/-- Node 0 sets a key and gossips it to node 1, which has then reached node 0. -/
theorem caught_up_after_round :
    (∀ event ∈ [Event.nodeStateMut (0 : Nat) (.set "key" "1"),
      .gossip 0 1 [] [] Mtu.unbounded 0 Choices.deterministic],
      event.Admissible ∧ ¬ event.Collects) ∧
    ∃ net : Network Nat, init.run [.nodeStateMut 0 (.set "key" "1"),
        .gossip 0 1 [] [] Mtu.unbounded 0 Choices.deterministic] = some net ∧
      (net.members 1).nodeState 0 = some ((default : NodeState).set "key" "1") ∧
      (net.own 0).maxVersion ≤ ((default : NodeState).set "key" "1").maxVersion ∧
      net.Exact 1 0 := by
  have quiet : ∀ event ∈ [Event.nodeStateMut (0 : Nat) (.set "key" "1"),
      .gossip 0 1 [] [] Mtu.unbounded 0 Choices.deterministic],
      event.Admissible ∧ ¬ event.Collects := by
    simp [Event.Admissible, Event.Collects]
  refine ⟨quiet, _, rfl, ?held, ?caughtUp,
    @caught_up_copy_exact Nat _ _ _ _ quiet rfl 1 0 _ ?held ?caughtUp⟩
  · rfl
  · exact le_rfl

/-- A round with an unbounded MTU, from a member whose state of a node is exact and that
counts the node live, leaves the receiver's state of the node exact. -/
theorem Complete.exact_applyDelta_of_unbounded (complete : net.Complete) (safe : net.Safe)
    {sender receiver nodeId : NodeId} {senderDead receiverDead : List NodeId}
    {gracePeriod : Nat} {choices : Choices NodeId} {delta : Delta NodeId}
    (computed : (net.members sender).computeDelta
      ((net.members receiver).computeDigest receiverDead) Mtu.unbounded senderDead gracePeriod
        choices = some delta)
    (exactCopy : net.Exact sender nodeId) (live : nodeId ∉ senderDead) :
    (net.update receiver ((net.members receiver).applyDelta delta) []).Exact receiver nodeId := by
  have safe' := (safe.gossip computed).2
  obtain ⟨ownSame, complete'⟩ := complete.gossip safe computed
  refine (complete'.behind safe' ((safe'.consistent receiver).getD nodeId)).getVersioned_eq
    fun key w stored => ?_
  rw [ownSame] at stored
  rw [members_update, if_pos rfl]
  have sent := exactCopy key
  cases known : (net.members sender).nodeState nodeId with
  | none =>
      rw [known, Option.getD_none, NodeState.getVersioned_default, stored] at sent
      cases sent
  | some ns =>
      have same : ∀ key, ns.getVersioned key = (net.own nodeId).getVersioned key := fun key => by
        simpa only [known, Option.getD_some] using exactCopy key
      exact ClusterState.absorbs_applyDelta_of_unbounded computed known live
        (fun key w held => complete.own_positive safe nodeId key w ((same key).symm.trans held))
        (fun key w held => complete.covers_getD safe receiver nodeId key w
          ((same key).symm.trans held))
        ((same key).trans stored)

/-- A round with an unbounded MTU, from a member whose state of a node is exact and that
counts the node live, leaves the receiver's state of the node exact, in every run without
collection: whatever the receiver held before, truncated, relayed or reset, and whatever
its dead set. The node itself is such a member, so a node's state reaches every member
through any chain of such rounds in which the node writes nothing. -/
theorem round_relays_exact_copy {events : List (Event NodeId)}
    (quiet : ∀ event ∈ events, event.Admissible ∧ ¬ event.Collects)
    (reached : init.run events = some net) {sender receiver nodeId : NodeId}
    {senderDead receiverDead : List NodeId} {gracePeriod : Nat} {choices : Choices NodeId}
    (exact : net.Exact sender nodeId) (live : nodeId ∉ senderDead)
    (h : net.step (.gossip sender receiver senderDead receiverDead Mtu.unbounded gracePeriod
      choices) = some net') :
    net'.Exact receiver nodeId := by
  obtain ⟨safe, complete⟩ := complete_init.run safe_init quiet reached
  obtain ⟨delta, computed, rfl⟩ := Option.map_eq_some'.1 h
  exact complete.exact_applyDelta_of_unbounded safe computed exact live

/-- Node 0 sets a key and gossips it to node 1, which relays it to node 2. -/
theorem exact_copy_relayed_after_set :
    (∀ event ∈ [Event.nodeStateMut (0 : Nat) (.set "key" "1"),
      .gossip 0 1 [] [] Mtu.unbounded 0 Choices.deterministic],
      event.Admissible ∧ ¬ event.Collects) ∧
    ∃ net net' : Network Nat, init.run [.nodeStateMut 0 (.set "key" "1"),
        .gossip 0 1 [] [] Mtu.unbounded 0 Choices.deterministic] = some net ∧
      net.Exact 1 0 ∧ (0 : Nat) ∉ ([] : List Nat) ∧
      net.step (.gossip 1 2 [] [] Mtu.unbounded 0 Choices.deterministic) = some net' ∧
      net'.Exact 2 0 := by
  have quiet : ∀ event ∈ [Event.nodeStateMut (0 : Nat) (.set "key" "1"),
      .gossip 0 1 [] [] Mtu.unbounded 0 Choices.deterministic],
      event.Admissible ∧ ¬ event.Collects := by
    simp [Event.Admissible, Event.Collects]
  have exact : Exact ((init.run [.nodeStateMut 0 (.set "key" "1"),
      .gossip 0 1 [] [] Mtu.unbounded 0 Choices.deterministic]).getD init) 1 0 := fun _ => rfl
  exact ⟨quiet, _, _, rfl, exact, nofun, rfl,
    @round_relays_exact_copy Nat _ _ _ _ _ quiet rfl 1 2 0 [] [] 0 Choices.deterministic exact
      nofun rfl⟩

end Network

end Chitchat
