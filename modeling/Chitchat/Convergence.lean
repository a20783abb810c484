import Chitchat.GossipRound

/-!
# What one round of gossip achieves

A round with an unbounded MTU: the receiver sends its digest, the sender answers with
`compute_delta`, and the receiver applies the delta. Key by key, the receiver keeps its
record unless the sender's is above the round's floor and strictly newer
(`getVersioned_applyNodeDelta_stale`); a reset first replaces its state of the node
with nothing.

When the receiver's state of a node is an earlier state of the sender's, reached by
the sender's local operations, the round delivers every record the sender holds
(`round_delivers_sender_records`). The sender may have collected tombstones in
between, and the receiver then keeps them; without collection it ends with exactly
the sender's records (`round_converges_without_collection`). Whatever the receiver
held, a round that resets the node leaves it with exactly the sender's records
(`reset_round_copies_sender`). What is assumed, as hypotheses: stored versions at most
`max_version`, which every reachable state has, and positive, which every state that
local operations and computed deltas build has; version `0` is never sent. The random
choices of `compute_delta` only order such a round's delta: the receiver ends in the same
state whatever they are (`unbounded_round_ignores_choices`).

Whatever the MTU, a round leaves no gap (`round_keeps_covering`): the sender's records
go out sorted by version and the MTU keeps a prefix of them, so a receiver that held every
record of the sender up to its `max_version`, at that version or a newer one, still does
up to its new `max_version`. The next round's floor skips nothing.
-/

namespace Chitchat

namespace NodeState

theorem nodup_keys_iterStaleKeyValues (ns : NodeState) (floorVersion : Nat) :
    ((ns.iterStaleKeyValues floorVersion).map (·.1)).Nodup :=
  ns.keyValues.nodup_keys.sublist ((List.filter_sublist _).map _)

/-- Applying the sender's records above a floor, in any order, replaces a record only
by the sender's record of the key, when that one is above the floor and strictly
newer. -/
theorem getVersioned_applyNodeDelta_stale {ns sender : NodeState} {floorVersion : Nat}
    {sent : NodeDelta} (perm : sent.Perm (sender.iterStaleKeyValues floorVersion))
    (key : String) :
    (ns.applyNodeDelta sent).getVersioned key =
      ((sender.getVersioned key).filter fun w => floorVersion < w.version).elim
        (ns.getVersioned key) (keep (ns.getVersioned key)) := by
  have distinct := (perm.map (·.1)).nodup_iff.2 (sender.nodup_keys_iterStaleKeyValues _)
  have lookup : SortedMap.lookup key sent =
      (sender.getVersioned key).filter fun w => floorVersion < w.version := by
    cases incoming : (sender.getVersioned key).filter fun w => floorVersion < w.version with
    | some w =>
        rw [Option.filter_eq_some, decide_eq_true_eq] at incoming
        exact SortedMap.lookup_eq_some_of_mem distinct
          (perm.mem_iff.2 (mem_iterStaleKeyValues.2 incoming))
    | none =>
        refine SortedMap.lookup_eq_none_of_not_mem fun mem => ?_
        obtain ⟨⟨k, w⟩, sentMem, rfl⟩ := List.mem_map.1 mem
        obtain ⟨stored, above⟩ := mem_iterStaleKeyValues.1 (perm.mem_iff.1 sentMem)
        simp [Option.filter_some, stored, above] at incoming
  rw [getVersioned_applyNodeDelta distinct, lookup]

/-- A receiver whose state the sender's follows, with no version above its
`max_version`, holds every record of the sender once it applies the sender's records
above a floor at most its `max_version`. -/
theorem Follows.applyNodeDelta_stale {ns sender : NodeState} (follows : ns.Follows sender)
    (bounded : ns.VersionsBounded) {floorVersion : Nat} (below : floorVersion ≤ ns.maxVersion)
    {sent : NodeDelta} (perm : sent.Perm (sender.iterStaleKeyValues floorVersion))
    {key : String} {w : VersionedValue} (held : sender.getVersioned key = some w) :
    (ns.applyNodeDelta sent).getVersioned key = some w := by
  rw [getVersioned_applyNodeDelta_stale perm, held]
  by_cases above : floorVersion < w.version
  · cases stored : ns.getVersioned key with
    | none => simp [Option.filter_some, above, keep]
    | some v =>
        by_cases newer : w.version ≤ v.version
        · have same := follows.old key w held (newer.trans (bounded key v stored))
          rw [stored, Option.some.injEq] at same
          simp [Option.filter_some, above, keep, newer, same]
        · simp [Option.filter_some, above, keep, newer]
  · simpa [Option.filter_some, above] using follows.old key w held (by omega)

/-- Without collection, the receiver also drops nothing the sender lacks: it ends
with exactly the sender's records. -/
theorem applyNodeDelta_stale_of_performAll {ns sender : NodeState} {ops : List Operation}
    (run : ns.performAll ops = some sender)
    (keeps : ∀ op ∈ ops, ∀ gracePeriod, op ≠ .gcKeysMarkedForDeletion gracePeriod)
    (bounded : ns.VersionsBounded) {floorVersion : Nat} (below : floorVersion ≤ ns.maxVersion)
    {sent : NodeDelta} (perm : sent.Perm (sender.iterStaleKeyValues floorVersion))
    (key : String) :
    (ns.applyNodeDelta sent).getVersioned key = sender.getVersioned key := by
  cases held : sender.getVersioned key with
  | some w => exact (performAll_follows run).applyNodeDelta_stale bounded below perm held
  | none =>
      rw [getVersioned_applyNodeDelta_stale perm, held, Option.filter_none, Option.elim]
      cases stored : ns.getVersioned key with
      | none => rfl
      | some v =>
          obtain ⟨w, kept⟩ := performAll_keeps_key run keeps stored
          exact absurd (held.symm.trans kept) nofun

/-- From nothing, the sender's records above `0` are all of its records, when its
versions are positive. -/
theorem getVersioned_default_applyNodeDelta_stale {sender : NodeState}
    (positive : sender.VersionsPositive) {sent : NodeDelta}
    (perm : sent.Perm (sender.iterStaleKeyValues 0)) (key : String) :
    ((default : NodeState).applyNodeDelta sent).getVersioned key = sender.getVersioned key := by
  rw [getVersioned_applyNodeDelta_stale perm, getVersioned_default]
  cases held : sender.getVersioned key with
  | none => rfl
  | some w => simp [Option.filter_some, positive key w held, keep]

/-- The `max_version` a node delta leaves depends only on the records it holds. -/
theorem maxVersion_applyNodeDelta_congr {ns : NodeState} {sent sent' : NodeDelta}
    (same : ∀ kv, kv ∈ sent ↔ kv ∈ sent') :
    (ns.applyNodeDelta sent).maxVersion = (ns.applyNodeDelta sent').maxVersion := by
  have bound : ∀ {sent sent' : NodeDelta}, (∀ kv, kv ∈ sent ↔ kv ∈ sent') →
      (ns.applyNodeDelta sent).maxVersion ≤ (ns.applyNodeDelta sent').maxVersion :=
    fun same => by
      obtain ⟨base, below⟩ := (applyNodeDelta_maxVersion_le_iff ns _ _).1 le_rfl
      exact (applyNodeDelta_maxVersion_le_iff ns _ _).2
        ⟨base, fun kv mem => below kv ((same kv).1 mem)⟩
  exact le_antisymm (bound same) (bound fun kv => (same kv).symm)

/-- The sender's records above a floor leave one state, in whatever order they come. -/
theorem applyNodeDelta_eq_of_perm_stale {ns sender : NodeState} {floorVersion : Nat}
    {sent sent' : NodeDelta} (perm : sent.Perm (sender.iterStaleKeyValues floorVersion))
    (perm' : sent'.Perm (sender.iterStaleKeyValues floorVersion)) :
    ns.applyNodeDelta sent = ns.applyNodeDelta sent' :=
  ext (fun key => by
      rw [getVersioned_applyNodeDelta_stale perm, getVersioned_applyNodeDelta_stale perm'])
    (maxVersion_applyNodeDelta_congr fun _ => (perm.trans perm'.symm).mem_iff)

/-! ### Rounds cut by the MTU -/

/-- `ns` covers `sender` up to its `max_version`: every record of `sender` at a version at
most `ns.maxVersion` is held by `ns`, at that version or a newer one. -/
def Covers (ns sender : NodeState) : Prop :=
  ∀ key w, sender.getVersioned key = some w → w.version ≤ ns.maxVersion →
    ns.Absorbs (key, w)

theorem covers_default {sender : NodeState} (positive : sender.VersionsPositive) :
    (default : NodeState).Covers sender := fun key w held low =>
  absurd (positive key w held) (by simpa using low)

theorem covers_self {ns : NodeState} (bounded : ns.VersionsBounded) : ns.Covers ns :=
  fun key w stored _ => ⟨bounded key w stored, w, stored, le_rfl⟩

/-- A receiver at most as far as `ns` covers every later state of `ns`. -/
theorem Covers.follows {c ns ns' : NodeState} (covers : c.Covers ns) (follows : ns.Follows ns')
    (le : c.maxVersion ≤ ns.maxVersion) : c.Covers ns' := fun key w stored low =>
  covers key w (follows.old key w stored (low.trans le)) low

/-- A prefix of a list sorted by version, with one record per version, holds every record
of the list at a version at most that of one of its own. -/
theorem mem_cut_of_version_le {kvs delivered : NodeDelta}
    (sorted : kvs.Sorted fun a b => a.2.version ≤ b.2.version) (cut : delivered <+: kvs)
    (unique : ∀ a ∈ kvs, ∀ b ∈ kvs, a.2.version = b.2.version → a = b)
    {kv sent : String × VersionedValue} (mem : kv ∈ kvs) (delivers : sent ∈ delivered)
    (le : kv.2.version ≤ sent.2.version) : kv ∈ delivered := by
  obtain ⟨rest, rfl⟩ := cut
  rcases List.mem_append.1 mem with early | late
  · exact early
  · have ge := (List.pairwise_append.1 sorted).2.2 sent delivers kv late
    rw [unique kv mem sent (List.mem_append_left _ delivers) (le_antisymm le ge)]
    exact delivers

/-- The sender's records above a floor, in any order, have one record per version when
the sender's versions are distinct. -/
theorem eq_of_version_eq_of_perm_stale {sender : NodeState} (distinct : sender.DistinctVersions)
    {floorVersion : Nat} {kvs : NodeDelta}
    (perm : kvs.Perm (sender.iterStaleKeyValues floorVersion)) :
    ∀ a ∈ kvs, ∀ b ∈ kvs, a.2.version = b.2.version → a = b := fun a ma b mb same => by
  have storedA := (mem_iterStaleKeyValues.1 (perm.mem_iff.1 ma)).1
  have storedB := (mem_iterStaleKeyValues.1 (perm.mem_iff.1 mb)).1
  by_cases sameKey : a.1 = b.1
  · rw [sameKey, storedB] at storedA
    exact Prod.ext sameKey (Option.some.inj storedA).symm
  · exact absurd same (distinct _ _ _ _ storedA storedB sameKey)

/-- A version above the receiver's `max_version` and at most its new one is at most the
version of a delivered record. -/
theorem exists_delivered_of_reached {ns : NodeState} {delivered : NodeDelta} {version : Nat}
    (above : ns.maxVersion < version)
    (reached : version ≤ (ns.applyNodeDelta delivered).maxVersion) :
    ∃ sent ∈ delivered, version ≤ sent.2.version := by
  by_contra short
  push_neg at short
  exact absurd reached (not_le.2 ((applyNodeDelta_maxVersion_lt_iff _ _ _).2 ⟨above, short⟩))

/-- A record of the sender above the receiver's `max_version` and at most its new one
was delivered, when the delivered records are a prefix of the sender's records above a
floor at most that `max_version`, sorted by version, one per version. -/
theorem mem_delivered_of_above {ns sender : NodeState} (distinct : sender.DistinctVersions)
    {floorVersion : Nat} (below : floorVersion ≤ ns.maxVersion) {kvs delivered : NodeDelta}
    (perm : kvs.Perm (sender.iterStaleKeyValues floorVersion))
    (sorted : kvs.Sorted fun a b => a.2.version ≤ b.2.version) (cut : delivered <+: kvs)
    {key : String} {w : VersionedValue} (stored : sender.getVersioned key = some w)
    (above : ns.maxVersion < w.version)
    (reached : w.version ≤ (ns.applyNodeDelta delivered).maxVersion) :
    (key, w) ∈ delivered := by
  obtain ⟨sent, delivers, reach⟩ := exists_delivered_of_reached above reached
  exact mem_cut_of_version_le sorted cut (eq_of_version_eq_of_perm_stale distinct perm)
    (perm.mem_iff.2 (mem_iterStaleKeyValues.2 ⟨stored, show floorVersion < w.version by omega⟩))
    delivers reach

/-- Applying a prefix of the sender's records above a floor, sorted by version, keeps a
receiver covering the sender, up to its new `max_version`: the sender's versions are
distinct, so the prefix holds every record below its last version. -/
theorem Covers.applyNodeDelta_stale {ns sender : NodeState} (covers : ns.Covers sender)
    (distinct : sender.DistinctVersions) {floorVersion : Nat}
    (below : floorVersion ≤ ns.maxVersion) {kvs delivered : NodeDelta}
    (perm : kvs.Perm (sender.iterStaleKeyValues floorVersion))
    (sorted : kvs.Sorted fun a b => a.2.version ≤ b.2.version) (cut : delivered <+: kvs) :
    (ns.applyNodeDelta delivered).Covers sender := fun key w stored reached => by
  by_cases old : w.version ≤ ns.maxVersion
  · exact (covers key w stored old).applyNodeDelta delivered
  · exact applyNodeDelta_absorbs ns delivered (key, w) (mem_delivered_of_above distinct below
      perm sorted cut stored (Nat.lt_of_not_le old) reached)

end NodeState

namespace ClusterState

variable {NodeId : Type} [LinearOrder NodeId] [DecidableEq NodeId]

section Round

variable {sender : ClusterState NodeId} {digest : Digest NodeId} {senderDead : List NodeId}
  {gracePeriod : Nat} {choices : Choices NodeId} {delta : Delta NodeId}
  {nodeId : NodeId} {senderNs : NodeState}

/-- Under an unbounded MTU, the section of a live known node holds its stale records
at the first loop's floor, each once. -/
theorem getD_nodeDeltas_perm_of_unbounded
    (computed : sender.computeDelta digest Mtu.unbounded senderDead gracePeriod choices =
      some delta)
    (known : sender.nodeState nodeId = some senderNs) (live : nodeId ∉ senderDead) :
    ((delta.nodeDeltas.get nodeId).getD []).Perm
      (senderNs.iterStaleKeyValues (firstFloor (· + ·) digest gracePeriod nodeId senderNs)) := by
  have stale := (senderNs.nodup_keys_iterStaleKeyValues
    (firstFloor (· + ·) digest gracePeriod nodeId senderNs)).of_map Prod.fst
  have planned := staleKvsOf_perm (· + ·) digest gracePeriod sender choices known
  refine (List.perm_ext_iff_of_nodup ?_ stale).2
    (mem_nodeDeltas_of_unbounded _ _ _ _ _ _ computed known live)
  exact (planned.nodup_iff.2 stale).sublist
    (getD_nodeDeltas_prefix_staleKvsOf _ _ _ _ _ _ computed nodeId).sublist

variable (sender digest senderDead gracePeriod choices) in
/-- A round with an unbounded MTU sends, for a live node the sender knows, its records
above `0` when it resets the node, and above the digest's value otherwise. -/
theorem computeDelta_unbounded_sends_stale (known : sender.nodeState nodeId = some senderNs)
    (live : nodeId ∉ senderDead) :
    ∃ delta, sender.computeDelta digest Mtu.unbounded senderDead gracePeriod choices =
        some delta ∧
      ((delta.nodeDeltas.get nodeId).getD []).Perm (senderNs.iterStaleKeyValues
        (if nodeId ∈ delta.nodesToReset then 0
          else (digest.nodeMaxVersion.get nodeId).getD 0)) := by
  obtain ⟨-, delta, computed, -⟩ :=
    computeDeltaWith_spec (· + ·) digest gracePeriod senderDead sender choices Mtu.unbounded
  exact ⟨delta, computed, firstFloor_of_known computed known live ▸
    getD_nodeDeltas_perm_of_unbounded computed known live⟩

end Round

/-- A receiver's digest gives each node at most its `max_version`. -/
theorem getD_computeDigest_le (receiver : ClusterState NodeId) (receiverDead : List NodeId)
    (nodeId : NodeId) :
    ((receiver.computeDigest receiverDead).nodeMaxVersion.get nodeId).getD 0 ≤
      ((receiver.nodeState nodeId).getD default).maxVersion := by
  rw [get_computeDigest]
  split
  · exact Nat.zero_le _
  · cases receiver.nodeState nodeId <;> simp

/-! ## What a computed delta can carry -/

section Carry

variable {addU64 : Nat → Nat → Nat} {cs : ClusterState NodeId} {digest : Digest NodeId}
  {mtu : Mtu NodeId} {deadNodes : List NodeId} {gracePeriod : Nat} {choices : Choices NodeId}
  {delta : Delta NodeId} {nodeId : NodeId}

/-- Every update of a computed delta is a record the sender holds. -/
theorem exists_getVersioned_of_mem_nodeDeltas
    (computed : cs.computeDeltaWith addU64 digest mtu deadNodes gracePeriod choices = some delta)
    {kv : String × VersionedValue} (mem : kv ∈ (delta.nodeDeltas.get nodeId).getD []) :
    ∃ ns, cs.nodeState nodeId = some ns ∧ ns.getVersioned kv.1 = some kv.2 := by
  have planned := (getD_nodeDeltas_prefix_staleKvsOf addU64 digest gracePeriod deadNodes cs
    choices computed nodeId).subset mem
  cases known : cs.nodeState nodeId with
  | none => simp [staleKvsOf, known] at planned
  | some ns =>
      exact ⟨ns, rfl, (NodeState.mem_iterStaleKeyValues.1
        ((staleKvsOf_perm addU64 digest gracePeriod cs choices known).subset planned)).1⟩

/-- A computed delta resets only a node the sender holds, counts live, and finds past
its digest value by more than the grace period. -/
theorem exists_of_mem_nodesToReset
    (computed : cs.computeDeltaWith addU64 digest mtu deadNodes gracePeriod choices = some delta)
    (reset : nodeId ∈ delta.nodesToReset) :
    ∃ ns, cs.nodeState nodeId = some ns ∧ nodeId ∉ deadNodes ∧
      needsReset addU64 ((digest.nodeMaxVersion.get nodeId).getD 0) gracePeriod
        ns.maxVersion = true := by
  obtain ⟨-, delta', computed', -, resets, -, -⟩ :=
    computeDeltaWith_spec addU64 digest gracePeriod deadNodes cs choices mtu
  cases Option.some.inj (computed'.symm.trans computed)
  exact (resets nodeId).1 reset

/-- A computed delta has a section only for a node the sender holds, counts live, and
has stale updates of. -/
theorem exists_of_nodeDeltas_get_eq_some
    (computed : cs.computeDeltaWith addU64 digest mtu deadNodes gracePeriod choices = some delta)
    {updates : NodeDelta} (found : delta.nodeDeltas.get nodeId = some updates) :
    ∃ ns, cs.nodeState nodeId = some ns ∧ nodeId ∉ deadNodes ∧
      0 < staleCount addU64 digest gracePeriod nodeId ns := by
  obtain ⟨order, delta', computed', member, -, sections, -⟩ :=
    computeDeltaWith_spec addU64 digest gracePeriod deadNodes cs choices mtu
  cases Option.some.inj (computed'.symm.trans computed)
  exact (member nodeId).1 (sections nodeId updates found).1

end Carry

/-! ## One round with an unbounded MTU -/

/-- A round with an unbounded MTU, on a node the sender holds and counts live, whose
state at the sender is a later state of the receiver's under the sender's local
operations, collections included: the receiver then holds every record the sender
holds. -/
theorem round_delivers_sender_records (sender receiver : ClusterState NodeId)
    (senderDead receiverDead : List NodeId) (gracePeriod : Nat) (choices : Choices NodeId)
    {nodeId : NodeId} {senderNs : NodeState} (known : sender.nodeState nodeId = some senderNs)
    (live : nodeId ∉ senderDead) (bounded : receiver.VersionsBounded)
    (positive : ((receiver.nodeState nodeId).getD default).VersionsPositive)
    {ops : List NodeState.Operation}
    (run : ((receiver.nodeState nodeId).getD default).performAll ops = some senderNs) :
    ∃ delta, sender.computeDelta (receiver.computeDigest receiverDead) Mtu.unbounded senderDead
        gracePeriod choices = some delta ∧
      ∀ key w, senderNs.getVersioned key = some w →
        (((receiver.applyDelta delta).nodeState nodeId).getD default).getVersioned key =
          some w := by
  obtain ⟨delta, computed, perm⟩ := computeDelta_unbounded_sends_stale sender
    (receiver.computeDigest receiverDead) senderDead gracePeriod choices known live
  refine ⟨delta, computed, fun key w held => ?_⟩
  rw [getD_nodeState_applyDelta]
  by_cases reset : nodeId ∈ delta.nodesToReset
  · rw [if_pos reset] at perm ⊢
    rw [Option.getD_none,
      NodeState.getVersioned_default_applyNodeDelta_stale (positive.performAll run) perm, held]
  · rw [if_neg reset] at perm ⊢
    exact (NodeState.performAll_follows run).applyNodeDelta_stale (bounded.getD nodeId)
      (getD_computeDigest_le receiver receiverDead nodeId) perm held

/-- Same inputs as `round_delivers_sender_records`: the receiver knows the node at
version 1, and the sender has marked the key for deletion since. -/
theorem round_delivers_after_deletion :
    ((∅ : ClusterState String).nodeStateMut "node" fun _ =>
        (default : NodeState).set "key" "1").VersionsBounded ∧
      (((((∅ : ClusterState String).nodeStateMut "node" fun _ =>
        (default : NodeState).set "key" "1").nodeState "node").getD default).VersionsPositive) ∧
      ((((∅ : ClusterState String).nodeStateMut "node" fun _ =>
        (default : NodeState).set "key" "1").nodeState "node").getD default).performAll
          [.markForDeletion "key"] = some (((default : NodeState).set "key" "1").markForDeletion
            "key") ∧
      ∃ delta, ((∅ : ClusterState String).nodeStateMut "node" fun _ =>
        ((default : NodeState).set "key" "1").markForDeletion "key").computeDelta
          (((∅ : ClusterState String).nodeStateMut "node" fun _ =>
            (default : NodeState).set "key" "1").computeDigest []) Mtu.unbounded [] 0
          Choices.deterministic = some delta := by
  have bounded : ((∅ : ClusterState String).nodeStateMut "node" fun _ =>
      (default : NodeState).set "key" "1").VersionsBounded :=
    (Reachable.step (.nodeStateMut "node" (.set "key" "1")) .empty rfl).versionsBounded
  have positive : ((((∅ : ClusterState String).nodeStateMut "node" fun _ =>
      (default : NodeState).set "key" "1").nodeState "node").getD default).VersionsPositive :=
    NodeState.versionsPositive_default.perform
      (show (default : NodeState).perform (.set "key" "1") = some _ from rfl)
  have run : ((((∅ : ClusterState String).nodeStateMut "node" fun _ =>
      (default : NodeState).set "key" "1").nodeState "node").getD default).performAll
        [.markForDeletion "key"] =
      some (((default : NodeState).set "key" "1").markForDeletion "key") := rfl
  exact ⟨bounded, positive, run,
    (round_delivers_sender_records ((∅ : ClusterState String).nodeStateMut "node" fun _ =>
      ((default : NodeState).set "key" "1").markForDeletion "key") _ [] [] 0
      Choices.deterministic (by rfl) (List.not_mem_nil _) bounded positive run).imp
        fun _ h => h.1⟩

/-- Without collection among the sender's operations, the round leaves the receiver
with exactly the sender's records of the node. -/
theorem round_converges_without_collection (sender receiver : ClusterState NodeId)
    (senderDead receiverDead : List NodeId) (gracePeriod : Nat) (choices : Choices NodeId)
    {nodeId : NodeId} {senderNs : NodeState} (known : sender.nodeState nodeId = some senderNs)
    (live : nodeId ∉ senderDead) (bounded : receiver.VersionsBounded)
    (positive : ((receiver.nodeState nodeId).getD default).VersionsPositive)
    {ops : List NodeState.Operation}
    (run : ((receiver.nodeState nodeId).getD default).performAll ops = some senderNs)
    (keeps : ∀ op ∈ ops, ∀ gracePeriod, op ≠ .gcKeysMarkedForDeletion gracePeriod) :
    ∃ delta, sender.computeDelta (receiver.computeDigest receiverDead) Mtu.unbounded senderDead
        gracePeriod choices = some delta ∧
      ∀ key, (((receiver.applyDelta delta).nodeState nodeId).getD default).getVersioned key =
        senderNs.getVersioned key := by
  obtain ⟨delta, computed, perm⟩ := computeDelta_unbounded_sends_stale sender
    (receiver.computeDigest receiverDead) senderDead gracePeriod choices known live
  refine ⟨delta, computed, fun key => ?_⟩
  rw [getD_nodeState_applyDelta]
  by_cases reset : nodeId ∈ delta.nodesToReset
  · rw [if_pos reset] at perm ⊢
    exact NodeState.getVersioned_default_applyNodeDelta_stale (positive.performAll run) perm key
  · rw [if_neg reset] at perm ⊢
    exact NodeState.applyNodeDelta_stale_of_performAll run keeps (bounded.getD nodeId)
      (getD_computeDigest_le receiver receiverDead nodeId) perm key

/-- The receiver knows the node at version 1; the sender has set the key twice since. -/
theorem round_converges_after_sets :
    ((∅ : ClusterState String).nodeStateMut "node" fun _ =>
        (default : NodeState).set "key" "1").VersionsBounded ∧
      (((((∅ : ClusterState String).nodeStateMut "node" fun _ =>
        (default : NodeState).set "key" "1").nodeState "node").getD default).VersionsPositive) ∧
      ((((∅ : ClusterState String).nodeStateMut "node" fun _ =>
        (default : NodeState).set "key" "1").nodeState "node").getD default).performAll
          [.set "key" "2", .set "key" "3"] =
        some ((((default : NodeState).set "key" "1").set "key" "2").set "key" "3") ∧
      (∀ op ∈ [NodeState.Operation.set "key" "2", .set "key" "3"], ∀ gracePeriod,
        op ≠ .gcKeysMarkedForDeletion gracePeriod) ∧
      ∃ delta, ((∅ : ClusterState String).nodeStateMut "node" fun _ =>
        (((default : NodeState).set "key" "1").set "key" "2").set "key" "3").computeDelta
          (((∅ : ClusterState String).nodeStateMut "node" fun _ =>
            (default : NodeState).set "key" "1").computeDigest []) Mtu.unbounded [] 0
          Choices.deterministic = some delta := by
  have bounded : ((∅ : ClusterState String).nodeStateMut "node" fun _ =>
      (default : NodeState).set "key" "1").VersionsBounded :=
    (Reachable.step (.nodeStateMut "node" (.set "key" "1")) .empty rfl).versionsBounded
  have positive : ((((∅ : ClusterState String).nodeStateMut "node" fun _ =>
      (default : NodeState).set "key" "1").nodeState "node").getD default).VersionsPositive :=
    NodeState.versionsPositive_default.perform
      (show (default : NodeState).perform (.set "key" "1") = some _ from rfl)
  have run : ((((∅ : ClusterState String).nodeStateMut "node" fun _ =>
      (default : NodeState).set "key" "1").nodeState "node").getD default).performAll
        [.set "key" "2", .set "key" "3"] =
      some ((((default : NodeState).set "key" "1").set "key" "2").set "key" "3") := rfl
  have keeps : ∀ op ∈ [NodeState.Operation.set "key" "2", .set "key" "3"], ∀ gracePeriod,
      op ≠ .gcKeysMarkedForDeletion gracePeriod := by
    simp
  exact ⟨bounded, positive, run, keeps,
    (round_converges_without_collection ((∅ : ClusterState String).nodeStateMut "node" fun _ =>
      (((default : NodeState).set "key" "1").set "key" "2").set "key" "3") _ [] [] 0
      Choices.deterministic (by rfl) (List.not_mem_nil _) bounded positive run keeps).imp
        fun _ h => h.1⟩

/-- A round that finds the receiver's `max_version` `v` of a node with `0 < v` and
`v + grace` below the sender's resets the node, and leaves the receiver with exactly
the sender's records, whatever it held before, when the sender's versions are
positive. -/
theorem reset_round_copies_sender (sender receiver : ClusterState NodeId)
    (senderDead receiverDead : List NodeId) (gracePeriod : Nat) (choices : Choices NodeId)
    {nodeId : NodeId} {senderNs ns : NodeState} (known : sender.nodeState nodeId = some senderNs)
    (live : nodeId ∉ senderDead) (knownR : receiver.nodeState nodeId = some ns)
    (liveR : nodeId ∉ receiverDead)
    (behind : 0 < ns.maxVersion ∧ ns.maxVersion + gracePeriod < senderNs.maxVersion)
    (positive : senderNs.VersionsPositive) :
    ∃ delta, sender.computeDelta (receiver.computeDigest receiverDead) Mtu.unbounded senderDead
        gracePeriod choices = some delta ∧ nodeId ∈ delta.nodesToReset ∧
      ∀ key, (((receiver.applyDelta delta).nodeState nodeId).getD default).getVersioned key =
        senderNs.getVersioned key := by
  obtain ⟨delta, computed, perm⟩ := computeDelta_unbounded_sends_stale sender
    (receiver.computeDigest receiverDead) senderDead gracePeriod choices known live
  have reset : nodeId ∈ delta.nodesToReset := (mem_nodesToReset_of_known computed known live).2
    (by rwa [getD_computeDigest knownR liveR, needsReset_add])
  rw [if_pos reset] at perm
  refine ⟨delta, computed, reset, fun key => ?_⟩
  rw [getD_nodeState_applyDelta, if_pos reset, Option.getD_none]
  exact NodeState.getVersioned_default_applyNodeDelta_stale positive perm key

/-- The receiver knows the node at version 1, the sender at version 3, with no grace. -/
theorem reset_round_after_two_sets :
    ((∅ : ClusterState String).nodeStateMut "node" fun _ =>
        (((default : NodeState).set "key" "1").set "key" "2").set "key" "3").nodeState "node" =
      some ((((default : NodeState).set "key" "1").set "key" "2").set "key" "3") ∧
      ((∅ : ClusterState String).nodeStateMut "node" fun _ =>
        (default : NodeState).set "key" "1").nodeState "node" =
      some ((default : NodeState).set "key" "1") ∧
      ((((default : NodeState).set "key" "1").set "key" "2").set "key" "3").VersionsPositive ∧
      ∃ delta, ((∅ : ClusterState String).nodeStateMut "node" fun _ =>
        (((default : NodeState).set "key" "1").set "key" "2").set "key" "3").computeDelta
          (((∅ : ClusterState String).nodeStateMut "node" fun _ =>
            (default : NodeState).set "key" "1").computeDigest []) Mtu.unbounded [] 0
          Choices.deterministic = some delta ∧ "node" ∈ delta.nodesToReset := by
  have known : ((∅ : ClusterState String).nodeStateMut "node" fun _ =>
      (((default : NodeState).set "key" "1").set "key" "2").set "key" "3").nodeState "node" =
        some ((((default : NodeState).set "key" "1").set "key" "2").set "key" "3") := rfl
  have knownR : ((∅ : ClusterState String).nodeStateMut "node" fun _ =>
      (default : NodeState).set "key" "1").nodeState "node" =
        some ((default : NodeState).set "key" "1") := rfl
  have positive : ((((default : NodeState).set "key" "1").set "key" "2").set "key"
      "3").VersionsPositive :=
    NodeState.versionsPositive_default.performAll (show (default : NodeState).performAll
      [.set "key" "1", .set "key" "2", .set "key" "3"] = some _ from rfl)
  exact ⟨known, knownR, positive,
    (reset_round_copies_sender _ _ [] [] 0 Choices.deterministic known (List.not_mem_nil _)
      knownR (List.not_mem_nil _) (by decide) positive).imp fun _ h => ⟨h.1, h.2.1⟩⟩

/-- With an unbounded MTU, the state a delta leaves the receiver in does not depend on
the random choices of `compute_delta`: the shuffle of nodes with equal stale counts and
the unstable sort of updates by version only order the delta, and only an MTU that cuts
it makes that order matter. -/
theorem unbounded_round_ignores_choices (sender receiver : ClusterState NodeId)
    (digest : Digest NodeId) (senderDead : List NodeId) (gracePeriod : Nat)
    (choices choices' : Choices NodeId) :
    (sender.computeDelta digest Mtu.unbounded senderDead gracePeriod choices).map
        receiver.applyDelta =
      (sender.computeDelta digest Mtu.unbounded senderDead gracePeriod choices').map
        receiver.applyDelta := by
  obtain ⟨order, delta, computed, member, resets, -, sections⟩ :=
    computeDeltaWith_spec (· + ·) digest gracePeriod senderDead sender choices Mtu.unbounded
  obtain ⟨order', delta', computed', member', resets', -, sections'⟩ :=
    computeDeltaWith_spec (· + ·) digest gracePeriod senderDead sender choices' Mtu.unbounded
  rw [show sender.computeDelta digest Mtu.unbounded senderDead gracePeriod choices = some delta
      from computed, show sender.computeDelta digest Mtu.unbounded senderDead gracePeriod
      choices' = some delta' from computed', Option.map_some', Option.map_some']
  refine congrArg some (ext fun nodeId => ?_)
  have sameBase : (if nodeId ∈ delta.nodesToReset then none else receiver.nodeState nodeId) =
      if nodeId ∈ delta'.nodesToReset then none else receiver.nodeState nodeId :=
    if_congr ((resets nodeId).trans (resets' nodeId).symm) rfl rfl
  have sameOrder := (member nodeId).trans (member' nodeId).symm
  by_cases ordered : nodeId ∈ order
  · obtain ⟨ns, known, -, -⟩ := (member nodeId).1 ordered
    rw [nodeState_applyDelta_of_some _ ((sections rfl nodeId).trans (if_pos ordered)),
      nodeState_applyDelta_of_some _
        ((sections' rfl nodeId).trans (if_pos (sameOrder.1 ordered))), sameBase,
      NodeState.applyNodeDelta_eq_of_perm_stale
        (staleKvsOf_perm (· + ·) digest gracePeriod sender choices known)
        (staleKvsOf_perm (· + ·) digest gracePeriod sender choices' known)]
  · rw [nodeState_applyDelta_of_none _ ((sections rfl nodeId).trans (if_neg ordered)),
      nodeState_applyDelta_of_none _
        ((sections' rfl nodeId).trans (if_neg (mt sameOrder.2 ordered))), sameBase]

/-! ## A round cut by the MTU -/

/-- The first loop's floor is at most the digest's value. -/
theorem firstFloor_le (digest : Digest NodeId) (gracePeriod : Nat) (nodeId : NodeId)
    (ns : NodeState) :
    firstFloor (· + ·) digest gracePeriod nodeId ns ≤
      (digest.nodeMaxVersion.get nodeId).getD 0 := by
  simp only [firstFloor]
  split <;> omega

/-- It is `0` for a node the delta resets. -/
theorem firstFloor_eq_zero_of_mem_nodesToReset {sender : ClusterState NodeId}
    {digest : Digest NodeId} {mtu : Mtu NodeId} {senderDead : List NodeId} {gracePeriod : Nat}
    {choices : Choices NodeId} {delta : Delta NodeId} {nodeId : NodeId} {senderNs : NodeState}
    (computed : sender.computeDelta digest mtu senderDead gracePeriod choices = some delta)
    (known : sender.nodeState nodeId = some senderNs) (reset : nodeId ∈ delta.nodesToReset) :
    firstFloor (· + ·) digest gracePeriod nodeId senderNs = 0 := by
  obtain ⟨ns, known', -, far⟩ := exists_of_mem_nodesToReset computed reset
  cases known.symm.trans known'
  simp [firstFloor, far]

/-- A round never leaves a gap, whatever the MTU: a receiver whose state of a node covers
the sender's up to its `max_version` still covers it after the round, up to its new
`max_version`, when the sender's versions of the node are distinct and positive. A reset
starts the receiver again from nothing, which covers every positive version. -/
theorem round_keeps_covering (sender receiver : ClusterState NodeId)
    (senderDead receiverDead : List NodeId) (mtu : Mtu NodeId) (gracePeriod : Nat)
    (choices : Choices NodeId) {nodeId : NodeId} {senderNs : NodeState}
    (known : sender.nodeState nodeId = some senderNs) (distinct : senderNs.DistinctVersions)
    (positive : senderNs.VersionsPositive)
    (covers : ((receiver.nodeState nodeId).getD default).Covers senderNs) :
    ∃ delta, sender.computeDelta (receiver.computeDigest receiverDead) mtu senderDead
        gracePeriod choices = some delta ∧
      (((receiver.applyDelta delta).nodeState nodeId).getD default).Covers senderNs := by
  obtain ⟨-, delta, computed, -⟩ := computeDeltaWith_spec (· + ·)
    (receiver.computeDigest receiverDead) gracePeriod senderDead sender choices mtu
  refine ⟨delta, computed, ?_⟩
  have perm := staleKvsOf_perm (· + ·) (receiver.computeDigest receiverDead) gracePeriod sender
    choices known
  have sorted := staleKvsOf_sorted (· + ·) (receiver.computeDigest receiverDead) gracePeriod
    sender choices nodeId
  have cut := getD_nodeDeltas_prefix_staleKvsOf _ _ _ _ _ _ computed nodeId
  rw [getD_nodeState_applyDelta]
  by_cases reset : nodeId ∈ delta.nodesToReset
  · rw [if_pos reset, Option.getD_none]
    exact (NodeState.covers_default positive).applyNodeDelta_stale distinct
      (firstFloor_eq_zero_of_mem_nodesToReset computed known reset).le perm sorted cut
  · rw [if_neg reset]
    exact covers.applyNodeDelta_stale distinct
      ((firstFloor_le _ _ _ _).trans (getD_computeDigest_le receiver receiverDead nodeId))
      perm sorted cut

/-- A sender that has set keys "a", "b" and "c", a receiver that holds "a" from the
sender's first set, a grace period of 2, and an MTU that cuts the delta after one record:
the receiver gets "b" only and still covers the sender. -/
theorem round_keeps_covering_after_set :
    ((∅ : ClusterState String).nodeStateMut "node" fun _ =>
        (((default : NodeState).set "a" "1").set "b" "2").set "c" "3").nodeState "node" =
      some ((((default : NodeState).set "a" "1").set "b" "2").set "c" "3") ∧
      ((((default : NodeState).set "a" "1").set "b" "2").set "c" "3").DistinctVersions ∧
      ((((default : NodeState).set "a" "1").set "b" "2").set "c" "3").VersionsPositive ∧
      ((((∅ : ClusterState String).nodeStateMut "node" fun _ =>
          (default : NodeState).set "a" "1").nodeState "node").getD default).Covers
        ((((default : NodeState).set "a" "1").set "b" "2").set "c" "3") ∧
      ∃ delta, ((∅ : ClusterState String).nodeStateMut "node" fun _ =>
          (((default : NodeState).set "a" "1").set "b" "2").set "c" "3").computeDelta
            (((∅ : ClusterState String).nodeStateMut "node" fun _ =>
              (default : NodeState).set "a" "1").computeDigest [])
            ⟨fun sent _ => sent.length < 2⟩ [] 2 Choices.deterministic = some delta ∧
        (delta.nodeDeltas.get "node").getD [] = [("b", ⟨"2", 2, false⟩)] ∧
        (((((∅ : ClusterState String).nodeStateMut "node" fun _ =>
            (default : NodeState).set "a" "1").applyDelta delta).nodeState "node").getD
              default).Covers ((((default : NodeState).set "a" "1").set "b" "2").set "c" "3") := by
  have setA : (default : NodeState).perform (.set "a" "1") = some _ := rfl
  have setB : ((default : NodeState).set "a" "1").perform (.set "b" "2") = some _ := rfl
  have setC : (((default : NodeState).set "a" "1").set "b" "2").perform (.set "c" "3") =
    some _ := rfl
  have first := NodeState.LocallyReachable.default.step _ setA
  have distinct := ((first.step _ setB).step _ setC).invariants.2
  have positive := ((NodeState.versionsPositive_default.perform setA).perform setB).perform setC
  have covers : ((((∅ : ClusterState String).nodeStateMut "node" fun _ =>
      (default : NodeState).set "a" "1").nodeState "node").getD default).Covers
        ((((default : NodeState).set "a" "1").set "b" "2").set "c" "3") := by
    -- the receiver is the sender's state after its first set
    rw [nodeState_nodeStateMut, if_pos rfl]
    exact (NodeState.covers_self first.invariants.1).follows
      ((NodeState.perform_follows setB).trans (NodeState.perform_follows setC)) le_rfl
  obtain ⟨delta, computed, after⟩ := @round_keeps_covering String _ _
    ((∅ : ClusterState String).nodeStateMut "node" fun _ =>
      (((default : NodeState).set "a" "1").set "b" "2").set "c" "3")
    ((∅ : ClusterState String).nodeStateMut "node" fun _ => (default : NodeState).set "a" "1")
    [] [] ⟨fun sent _ => sent.length < 2⟩ 2 Choices.deterministic "node" _ (by rfl) distinct
    positive covers
  cases Option.some.inj (computed.symm.trans (by with_unfolding_all rfl) : some delta =
    some ⟨SortedMap.ofList [("node", [("b", ⟨"2", 2, false⟩)])], []⟩)
  exact ⟨rfl, distinct, positive, covers, _, computed, rfl, after⟩

end ClusterState

end Chitchat
