import Chitchat.ScuttleDepth

/-!
# Rounds of gossip between two cluster states

One round: the receiver sends its digest, the sender answers with
`compute_delta` against it, and the receiver applies the delta. A round never
takes a node from the receiver, nor lowers its `max_version`, unless the delta
resets the node, and it resets a node only when the receiver holds it at a positive
`max_version` more than the grace period below the sender's. A reset replaces the
receiver's state with what the delta carries, which the MTU may cut short, so the node
can lose versions or vanish.

Two rounds in a row resume where the first stopped on every node the second round
does not reset: the receiver's new `max_version` is the last version the first round
delivered, and the updates above it are the undelivered ones, since the sender's
distinct versions were sent in ascending order. The second round resets a node when the
receiver is still too far behind, after a reset cut by the MTU or a sender whose
`max_version` runs ahead of its records, and then sends the same updates again.

`compute_delta` is modelled with unbounded sums here, as a build whose sums do not
overflow; `computeDeltaWith` takes the u64 sum as a parameter.
-/

namespace Chitchat

/-- After the receiver applies a prefix of the sender's stale updates sorted by
version, the sender's updates above the receiver's new `max_version` are those
after the prefix. -/
theorem NodeState.mem_iterStaleKeyValues_past_delivered {sender receiver : NodeState}
    (distinct : sender.DistinctVersions) {kvs delivered : NodeDelta}
    (perm : kvs.Perm (sender.iterStaleKeyValues receiver.maxVersion))
    (sorted : kvs.Sorted fun a b => a.2.version ≤ b.2.version) (prefix_ : delivered <+: kvs)
    (kv : String × VersionedValue) :
    kv ∈ sender.iterStaleKeyValues (receiver.applyNodeDelta delivered).maxVersion ↔
      kv ∈ sender.iterStaleKeyValues receiver.maxVersion ∧ kv ∉ delivered := by
  obtain ⟨rest, rfl⟩ := prefix_
  obtain ⟨above, below⟩ := (applyNodeDelta_maxVersion_le_iff receiver _ _).1 le_rfl
  simp only [mem_iterStaleKeyValues]
  constructor
  · rintro ⟨stored, newer⟩
    exact ⟨⟨stored, by omega⟩, fun mem => absurd (below kv mem) (by omega)⟩
  · rintro ⟨⟨stored, newer⟩, fresh⟩
    refine ⟨stored, (applyNodeDelta_maxVersion_lt_iff _ _ _).2 ⟨newer, fun p mem => ?_⟩⟩
    have inRest : kv ∈ rest := by
      simpa [fresh] using perm.mem_iff.2 (mem_iterStaleKeyValues.2 ⟨stored, newer⟩)
    have pStored := (mem_iterStaleKeyValues.1 (perm.mem_iff.1 (List.mem_append_left _ mem))).1
    have otherKey : p.1 ≠ kv.1 := fun same => by
      rw [same, stored, Option.some.injEq] at pStored
      exact fresh (Prod.ext same.symm pStored ▸ mem)
    exact lt_of_le_of_ne (List.pairwise_append.1 sorted |>.2.2 p mem kv inRest)
      (distinct _ _ _ _ pStored stored otherKey)

namespace ClusterState

variable {NodeId : Type} [LinearOrder NodeId] [DecidableEq NodeId]

/-- A node that a delta does not reset stays, advanced by its section. -/
theorem nodeState_applyDelta_of_not_reset {cs : ClusterState NodeId} {delta : Delta NodeId}
    {nodeId : NodeId} {ns : NodeState} (known : cs.nodeState nodeId = some ns)
    (kept : nodeId ∉ delta.nodesToReset) :
    (cs.applyDelta delta).nodeState nodeId =
      some (ns.applyNodeDelta ((delta.nodeDeltas.get nodeId).getD [])) := by
  cases found : delta.nodeDeltas.get nodeId with
  | none => simp [nodeState_applyDelta_of_none _ found, kept, known, NodeState.applyNodeDelta]
  | some nodeDelta => simp [nodeState_applyDelta_of_some _ found, kept, known]

theorem getD_computeDigest {cs : ClusterState NodeId} {deadNodes : List NodeId} {nodeId : NodeId}
    {ns : NodeState} (known : cs.nodeState nodeId = some ns) (live : nodeId ∉ deadNodes) :
    ((cs.computeDigest deadNodes).nodeMaxVersion.get nodeId).getD 0 = ns.maxVersion := by
  simp [live, known]

/-- A digest gives a node `0`, when it is dead, or the receiver's `max_version` of it. -/
theorem getD_computeDigest_eq (cs : ClusterState NodeId) (deadNodes : List NodeId)
    (nodeId : NodeId) :
    ((cs.computeDigest deadNodes).nodeMaxVersion.get nodeId).getD 0 =
      if nodeId ∈ deadNodes then 0 else ((cs.nodeState nodeId).getD default).maxVersion := by
  rw [get_computeDigest]
  split
  · rfl
  · cases cs.nodeState nodeId <;> rfl

section Floor

variable {sender : ClusterState NodeId} {digest : Digest NodeId} {mtu : Mtu NodeId}
  {senderDead : List NodeId} {gracePeriod : Nat} {choices : Choices NodeId}
  {delta : Delta NodeId} {nodeId : NodeId} {senderNs : NodeState}

/-- Whatever the MTU, a round resets a live node the sender holds exactly when its digest
value needs a reset. -/
theorem mem_nodesToReset_of_known
    (computed : sender.computeDelta digest mtu senderDead gracePeriod choices = some delta)
    (known : sender.nodeState nodeId = some senderNs) (live : nodeId ∉ senderDead) :
    nodeId ∈ delta.nodesToReset ↔
      needsReset (· + ·) ((digest.nodeMaxVersion.get nodeId).getD 0) gracePeriod
        senderNs.maxVersion = true := by
  obtain ⟨-, delta', computed', -, resets, -, -⟩ :=
    computeDeltaWith_spec (· + ·) digest gracePeriod senderDead sender choices mtu
  cases Option.some.inj (computed'.symm.trans computed)
  rw [resets]
  exact ⟨fun ⟨_, known', _, reset⟩ => Option.some.inj (known.symm.trans known') ▸ reset,
    fun reset => ⟨senderNs, known, live, reset⟩⟩

/-- The floor of a round is `0` when it resets the node, and the digest's value
otherwise. -/
theorem firstFloor_of_known
    (computed : sender.computeDelta digest mtu senderDead gracePeriod choices = some delta)
    (known : sender.nodeState nodeId = some senderNs) (live : nodeId ∉ senderDead) :
    firstFloor (· + ·) digest gracePeriod nodeId senderNs =
      if nodeId ∈ delta.nodesToReset then 0 else (digest.nodeMaxVersion.get nodeId).getD 0 := by
  unfold firstFloor
  by_cases reset : nodeId ∈ delta.nodesToReset
  · simp [reset, (mem_nodesToReset_of_known computed known live).1 reset]
  · simp [reset, mt (mem_nodesToReset_of_known computed known live).2 reset]

end Floor

/-- The cluster states of one node, as the examples below build them. -/
theorem eq_of_nodeState_single {nodeId nodeId' : NodeId} {ns ns' : NodeState}
    (h : ((∅ : ClusterState NodeId).nodeStateMut nodeId fun _ => ns).nodeState nodeId' =
      some ns') :
    ns' = ns := by
  rw [nodeState_nodeStateMut] at h
  split_ifs at h
  · exact (Option.some.inj h).symm
  · simp at h

/-- A gossip round keeps every node of the receiver that it does not reset, with a
`max_version` at least as large; and it resets a node only when both sides count it live,
both hold it, and the receiver's `max_version` `v` has `0 < v` and `v + grace <` the
sender's. The sums are unbounded, as in a build where they do not overflow. -/
theorem gossipRound_keeps_unless_reset (sender receiver : ClusterState NodeId)
    (senderDead receiverDead : List NodeId) (mtu : Mtu NodeId) (gracePeriod : Nat)
    (choices : Choices NodeId) :
    ∃ delta, sender.computeDelta (receiver.computeDigest receiverDead) mtu senderDead gracePeriod
        choices = some delta ∧
      (∀ nodeId ns, receiver.nodeState nodeId = some ns → nodeId ∉ delta.nodesToReset →
        ∃ ns', (receiver.applyDelta delta).nodeState nodeId = some ns' ∧
          ns.maxVersion ≤ ns'.maxVersion) ∧
      (∀ nodeId, nodeId ∈ delta.nodesToReset → nodeId ∉ senderDead ∧ nodeId ∉ receiverDead ∧
        ∃ ns senderNs, receiver.nodeState nodeId = some ns ∧
          sender.nodeState nodeId = some senderNs ∧ 0 < ns.maxVersion ∧
            ns.maxVersion + gracePeriod < senderNs.maxVersion) := by
  obtain ⟨-, delta, computed, -, resets, -, -⟩ := computeDeltaWith_spec (· + ·)
    (receiver.computeDigest receiverDead) gracePeriod senderDead sender choices mtu
  refine ⟨delta, computed, fun nodeId ns known kept => ⟨_,
    nodeState_applyDelta_of_not_reset known kept,
    ((NodeState.applyNodeDelta_maxVersion_le_iff _ _ _).1 le_rfl).1⟩, fun nodeId reset => ?_⟩
  obtain ⟨senderNs, senderKnown, live, behind⟩ := (resets nodeId).1 reset
  rw [needsReset_add, get_computeDigest] at behind
  by_cases dead : nodeId ∈ receiverDead
  · simp [dead] at behind
  cases known : receiver.nodeState nodeId with
  | none => simp [dead, known] at behind
  | some ns =>
      simp only [dead, known, if_false, Option.map_some', Option.getD_some] at behind
      exact ⟨live, dead, ns, senderNs, rfl, senderKnown, behind⟩

/-- A second round resumes a first one that the MTU cut, on every node it does not reset:
it sends exactly the sender's updates above the first round's floor for the node that the
first round did not carry, and nothing after a first round with an unbounded MTU. It
resets a node exactly when the receiver then holds it at a positive `max_version` more than
the grace period below the sender's. The sums are unbounded, as in a build where they do
not overflow. -/
theorem truncated_round_resumed (sender receiver : ClusterState NodeId)
    (distinct : ∀ nodeId ns, sender.nodeState nodeId = some ns → ns.DistinctVersions)
    (mtu : Mtu NodeId) (gracePeriod : Nat) (choices₁ choices₂ : Choices NodeId) :
    ∃ delta₁ delta₂,
      sender.computeDelta (receiver.computeDigest []) mtu [] gracePeriod choices₁ =
        some delta₁ ∧
      sender.computeDelta ((receiver.applyDelta delta₁).computeDigest []) Mtu.unbounded []
        gracePeriod choices₂ = some delta₂ ∧
      (∀ nodeId, nodeId ∈ delta₂.nodesToReset ↔
        ∃ ns senderNs, (receiver.applyDelta delta₁).nodeState nodeId = some ns ∧
          sender.nodeState nodeId = some senderNs ∧ 0 < ns.maxVersion ∧
          ns.maxVersion + gracePeriod < senderNs.maxVersion) ∧
      ∀ nodeId, nodeId ∉ delta₂.nodesToReset →
        (∀ kv, kv ∈ (delta₂.nodeDeltas.get nodeId).getD [] ↔
          (∃ senderNs, sender.nodeState nodeId = some senderNs ∧
            kv ∈ senderNs.iterStaleKeyValues
              (firstFloor (· + ·) (receiver.computeDigest []) gracePeriod nodeId senderNs)) ∧
          kv ∉ (delta₁.nodeDeltas.get nodeId).getD []) ∧
        (mtu = Mtu.unbounded → (delta₂.nodeDeltas.get nodeId).getD [] = []) := by
  obtain ⟨-, delta₁, computed₁, -⟩ := computeDeltaWith_spec (· + ·)
    (receiver.computeDigest []) gracePeriod [] sender choices₁ mtu
  obtain ⟨-, delta₂, computed₂, -, resets₂, -, -⟩ := computeDeltaWith_spec (· + ·)
    ((receiver.applyDelta delta₁).computeDigest []) gracePeriod [] sender choices₂ Mtu.unbounded
  refine ⟨delta₁, delta₂, computed₁, computed₂, fun nodeId => ?_, fun nodeId kept => ?_⟩
  · rw [resets₂, get_computeDigest, if_neg (List.not_mem_nil _)]
    cases (receiver.applyDelta delta₁).nodeState nodeId <;> simp [needsReset_add]
  have live : nodeId ∉ ([] : List NodeId) := List.not_mem_nil _
  set delivered := (delta₁.nodeDeltas.get nodeId).getD []
  have mem₂ : ∀ kv, kv ∈ (delta₂.nodeDeltas.get nodeId).getD [] ↔
      (∃ senderNs, sender.nodeState nodeId = some senderNs ∧ kv ∈ senderNs.iterStaleKeyValues
        (firstFloor (· + ·) (receiver.computeDigest []) gracePeriod nodeId senderNs)) ∧
      kv ∉ delivered := fun kv => by
    cases senderKnown : sender.nodeState nodeId with
    | none =>
      have nothing := getD_nodeDeltas_prefix_staleKvsOf _ _ _ _ _ _ computed₂ nodeId
      rw [staleKvsOf, senderKnown, List.prefix_nil] at nothing
      simp [nothing]
    | some senderNs =>
      -- the first round's floor is the `max_version` of the state its section applies to
      have floor₁ : firstFloor (· + ·) (receiver.computeDigest []) gracePeriod nodeId senderNs =
          ((if nodeId ∈ delta₁.nodesToReset then none else receiver.nodeState nodeId).getD
            default).maxVersion := by
        rw [firstFloor_of_known computed₁ senderKnown live, getD_computeDigest_eq, if_neg live]
        split <;> rfl
      have floor₂ := firstFloor_of_known computed₂ senderKnown live
      rw [if_neg kept, getD_computeDigest_eq, if_neg live, getD_nodeState_applyDelta] at floor₂
      rw [mem_nodeDeltas_of_unbounded _ _ _ _ _ _ computed₂ senderKnown live, floor₂,
        NodeState.mem_iterStaleKeyValues_past_delivered (distinct _ _ senderKnown)
          (floor₁ ▸ staleKvsOf_perm _ _ _ _ choices₁ senderKnown)
          (staleKvsOf_sorted _ _ _ _ _ nodeId)
          (getD_nodeDeltas_prefix_staleKvsOf _ _ _ _ _ _ computed₁ nodeId), ← floor₁]
      simp
  refine ⟨mem₂, fun unbounded => List.eq_nil_iff_forall_not_mem.2 fun kv mem => ?_⟩
  obtain ⟨⟨senderNs, senderKnown, stale⟩, fresh⟩ := (mem₂ kv).1 mem
  subst unbounded
  exact fresh ((mem_nodeDeltas_of_unbounded _ _ _ _ _ _ computed₁ senderKnown live kv).2 stale)

/-- A sender that has set keys "a", "b" and "c", a receiver that holds "a" at version 1, a
grace period of 2, and a first round cut after one record: the first round delivers "b",
the second does not reset the node and sends "c" alone, what the first one did not
carry. -/
theorem truncated_round_resumed_after_sets :
    (∀ nodeId ns, ((∅ : ClusterState String).nodeStateMut "node" fun _ =>
        (((default : NodeState).set "a" "1").set "b" "2").set "c" "3").nodeState nodeId =
          some ns → ns.DistinctVersions) ∧
      ∃ delta₁ delta₂, ((∅ : ClusterState String).nodeStateMut "node" fun _ =>
          (((default : NodeState).set "a" "1").set "b" "2").set "c" "3").computeDelta
            (((∅ : ClusterState String).nodeStateMut "node" fun _ =>
              (default : NodeState).set "a" "1").computeDigest [])
            ⟨fun sent _ => sent.length < 2⟩ [] 2 Choices.deterministic = some delta₁ ∧
        ((∅ : ClusterState String).nodeStateMut "node" fun _ =>
          (((default : NodeState).set "a" "1").set "b" "2").set "c" "3").computeDelta
            ((((∅ : ClusterState String).nodeStateMut "node" fun _ =>
              (default : NodeState).set "a" "1").applyDelta delta₁).computeDigest [])
            Mtu.unbounded [] 2 Choices.deterministic = some delta₂ ∧
        (delta₁.nodeDeltas.get "node").getD [] = [("b", ⟨"2", 2, false⟩)] ∧
        "node" ∉ delta₂.nodesToReset ∧
        ∀ kv, kv ∈ (delta₂.nodeDeltas.get "node").getD [] ↔
          (∃ senderNs, ((∅ : ClusterState String).nodeStateMut "node" fun _ =>
              (((default : NodeState).set "a" "1").set "b" "2").set "c" "3").nodeState "node" =
                some senderNs ∧
            kv ∈ senderNs.iterStaleKeyValues (firstFloor (· + ·)
              (((∅ : ClusterState String).nodeStateMut "node" fun _ =>
                (default : NodeState).set "a" "1").computeDigest []) 2 "node" senderNs)) ∧
          kv ∉ (delta₁.nodeDeltas.get "node").getD [] := by
  have distinct : ∀ nodeId ns, ((∅ : ClusterState String).nodeStateMut "node" fun _ =>
      (((default : NodeState).set "a" "1").set "b" "2").set "c" "3").nodeState nodeId =
        some ns → ns.DistinctVersions := fun _ _ known => by
    rw [eq_of_nodeState_single known]
    exact (((NodeState.LocallyReachable.default.step (.set "a" "1") rfl).step
      (.set "b" "2") rfl).step (.set "c" "3") rfl).invariants.2
  obtain ⟨delta₁, delta₂, computed₁, computed₂, resets, resumed⟩ := truncated_round_resumed _
    ((∅ : ClusterState String).nodeStateMut "node" fun _ => (default : NodeState).set "a" "1")
    distinct ⟨fun sent _ => sent.length < 2⟩ 2 Choices.deterministic Choices.deterministic
  cases Option.some.inj (computed₁.symm.trans (by with_unfolding_all rfl) : some delta₁ =
    some ⟨SortedMap.ofList [("node", [("b", ⟨"2", 2, false⟩)])], []⟩)
  have kept : "node" ∉ delta₂.nodesToReset := fun reset => by
    obtain ⟨ns, senderNs, held, senderKnown, -, far⟩ := (resets "node").1 reset
    cases held.symm.trans (by with_unfolding_all rfl :
      _ = some (((default : NodeState).set "a" "1").set "b" "2"))
    cases senderKnown.symm.trans (rfl :
      _ = some ((((default : NodeState).set "a" "1").set "b" "2").set "c" "3"))
    exact absurd far (by decide)
  exact ⟨distinct, _, delta₂, computed₁, computed₂, rfl, kept, (resumed "node" kept).1⟩

end ClusterState

/-- A sender whose `max_version` is above its greatest stored version by more
than the grace period (a `mark_for_deletion` of an absent key) resets the
receiver in every round, and sends the same updates again, even when the first
round was not cut. -/
theorem reset_round_repeats :
    ¬ ∀ (sender receiver : ClusterState String),
      (∀ nodeId ns, sender.nodeState nodeId = some ns →
        ns.DistinctVersions ∧ ns.VersionsBounded) →
      ∀ (mtu : Mtu String) (gracePeriod : Nat) (choices₁ choices₂ : Choices String),
      ∃ delta₁ delta₂,
        sender.computeDelta (receiver.computeDigest []) mtu [] gracePeriod choices₁ =
          some delta₁ ∧
        sender.computeDelta ((receiver.applyDelta delta₁).computeDigest []) Mtu.unbounded []
          gracePeriod choices₂ = some delta₂ ∧
        ∀ nodeId, nodeId ∉ delta₂.nodesToReset ∧
          ∀ kv ∈ (delta₁.nodeDeltas.get nodeId).getD [],
            kv ∉ (delta₂.nodeDeltas.get nodeId).getD [] := by
  intro resumes
  have invariants := ((NodeState.LocallyReachable.default.step (.set "key" "1") rfl).step
    (.markForDeletion "other") rfl).invariants
  obtain ⟨delta₁, delta₂, computed₁, computed₂, resumed⟩ := resumes
    ((∅ : ClusterState String).nodeStateMut "node" fun _ =>
      ((default : NodeState).set "key" "1").markForDeletion "other")
    ((∅ : ClusterState String).nodeStateMut "node" fun _ => (default : NodeState).set "key" "1")
    (fun _ _ known => ClusterState.eq_of_nodeState_single known ▸ invariants.symm)
    Mtu.unbounded 0 Choices.deterministic Choices.deterministic
  cases Option.some.inj (computed₁.symm.trans rfl : some delta₁ =
    some ⟨SortedMap.ofList [("node", [("key", ⟨"1", 1, false⟩)])], ["node"]⟩)
  cases Option.some.inj (computed₂.symm.trans rfl : some delta₂ =
    some ⟨SortedMap.ofList [("node", [("key", ⟨"1", 1, false⟩)])], ["node"]⟩)
  exact (resumed "node").1 (List.mem_singleton_self _)

/-- A round whose delta resets a node and is cut by the MTU before the node's
section takes the node from the receiver. -/
theorem reset_round_drops_node :
    ¬ ∀ (sender receiver : ClusterState String) (senderDead receiverDead : List String)
      (mtu : Mtu String) (gracePeriod : Nat) (choices : Choices String),
      ∃ delta, sender.computeDelta (receiver.computeDigest receiverDead) mtu senderDead
          gracePeriod choices = some delta ∧
        ∀ nodeId ns, receiver.nodeState nodeId = some ns →
          ∃ ns', (receiver.applyDelta delta).nodeState nodeId = some ns' ∧
            ns.maxVersion ≤ ns'.maxVersion := by
  intro keeps
  obtain ⟨delta, computed, kept⟩ := keeps
    ((∅ : ClusterState String).nodeStateMut "node" fun _ =>
      ((default : NodeState).set "key" "1").set "key" "2")
    ((∅ : ClusterState String).nodeStateMut "node" fun _ => (default : NodeState).set "key" "1")
    [] [] ⟨fun _ _ => false⟩ 0 Choices.deterministic
  cases Option.some.inj (computed.symm.trans rfl : some delta = some ⟨∅, ["node"]⟩)
  obtain ⟨ns', lost, -⟩ := kept "node" _ rfl
  have gone : (((∅ : ClusterState String).nodeStateMut "node" fun _ =>
      (default : NodeState).set "key" "1").applyDelta ⟨∅, ["node"]⟩).nodeState "node" =
        none := by
    decide
  exact Option.noConfusion (gone.symm.trans lost)

end Chitchat
