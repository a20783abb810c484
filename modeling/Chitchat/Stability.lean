import Chitchat.Delivery

/-!
# Exact copies stay exact

A member's state of another node is never further than the node's last write
(`Network.Recorded`): its `max_version` comes from records the node wrote. A node's own
`max_version` can be further, since `mark_for_deletion` of an absent key raises it with
no record.

In a run without collection, a member whose state of a node is exact therefore stays
exact (`exact_copy_stays_exact`) through every event except a local operation of the
node, the member's removal of the node, and a round from the node to the member cut by
an MTU (`Event.Keeps`). A round from another member never resets it: that member's state
is no further than the node's last write, which the exact state holds. Every record such
a round carries is the node's record of its key or an older one, which the exact state
absorbs. A round from the node itself with an unbounded MTU leaves it exact, reset or
not. A cut one may reset it when the node's own `max_version` runs ahead of its records,
and then delivers a prefix only.
-/

namespace Chitchat

variable {NodeId : Type} [LinearOrder NodeId] [DecidableEq NodeId]

/-- The event is no local operation of `nodeId`, no removal of `nodeId` by `member`, and
no round from `nodeId` to `member` cut by an MTU. -/
def Event.Keeps (member nodeId : NodeId) : Event NodeId → Prop
  | .nodeStateMut writer _ => writer ≠ nodeId
  | .gcKeysMarkedForDeletion .. => True
  | .removeNode remover removed => remover = member → removed ≠ nodeId
  | .gossip sender receiver _ _ mtu _ _ =>
      sender = nodeId → receiver = member → mtu = Mtu.unbounded

namespace ClusterState

theorem maxVersion_getD_gcKeysMarkedForDeletion (cs : ClusterState NodeId) (gracePeriod : Nat)
    (deadNodes : List NodeId) (nodeId : NodeId) :
    (((cs.gcKeysMarkedForDeletion gracePeriod deadNodes).nodeState nodeId).getD
      default).maxVersion = ((cs.nodeState nodeId).getD default).maxVersion := by
  rw [nodeState_gcKeysMarkedForDeletion]
  cases cs.nodeState nodeId with
  | none => rfl
  | some ns => split <;> rfl

end ClusterState

namespace Network

/-- A member's state of another node is no further than every bound on the node's
writes. -/
def Recorded (net : Network NodeId) : Prop :=
  ∀ member nodeId, member ≠ nodeId → ∀ bound,
    (∀ kv ∈ net.written nodeId, kv.2.version ≤ bound) →
      (((net.members member).nodeState nodeId).getD default).maxVersion ≤ bound

theorem recorded_init : (init : Network NodeId).Recorded := fun _ _ _ _ _ => by
  simp [init]

variable {net net' : Network NodeId}

/-- Every admissible event keeps the network recorded: a round raises a state's
`max_version` only to versions of records it carries, which are writes. -/
theorem Recorded.step (recorded : net.Recorded) (safe : net.Safe) {event : Event NodeId}
    (admissible : event.Admissible) (h : net.step event = some net') : net'.Recorded := by
  have ext := (safe.step admissible h).1
  intro member nodeId other bound bounds
  have old := recorded member nodeId other bound fun kv mem => bounds kv (ext.written_sub _ mem)
  cases event with
  | nodeStateMut writer op =>
      obtain ⟨cs, performed, rfl⟩ := Option.map_eq_some'.1 h
      obtain ⟨ns', -, rfl⟩ := Option.map_eq_some'.1 performed
      rw [members_update]
      split
      · subst member
        rwa [ClusterState.nodeState_nodeStateMut, if_neg other]
      · exact old
  | gcKeysMarkedForDeletion collector gracePeriod deadNodes =>
      cases h
      rw [members_update]
      split
      · subst member
        rwa [ClusterState.maxVersion_getD_gcKeysMarkedForDeletion]
      · exact old
  | removeNode remover removed =>
      cases h
      rw [members_update]
      split
      · subst member
        rw [ClusterState.nodeState_removeNode]
        split
        · exact Nat.zero_le _
        · exact old
      · exact old
  | gossip sender receiver senderDead receiverDead mtu gracePeriod choices =>
      obtain ⟨delta, computed, rfl⟩ := Option.map_eq_some'.1 h
      rw [members_update]
      split
      · subst member
        rw [ClusterState.getD_nodeState_applyDelta, NodeState.applyNodeDelta_maxVersion_le_iff]
        refine ⟨?_, fun kv mem =>
          bounds kv (ext.written_sub _ (safe.sent computed nodeId kv mem).1)⟩
        split
        · exact Nat.zero_le _
        · exact old
      · exact old

theorem Recorded.run (recorded : net.Recorded) (reachable : net.Reachable)
    {events : List (Event NodeId)} (admissible : ∀ event ∈ events, event.Admissible)
    (h : net.run events = some net') : net'.Recorded :=
  (run_preserves (fun net => net.Reachable ∧ net.Recorded) ⟨reachable, recorded⟩ admissible
    (fun ⟨reachable, recorded⟩ admissible stepped =>
      ⟨.step _ reachable admissible stepped, recorded.step reachable.safe admissible stepped⟩)
    h).2

/-! ## One event keeps an exact copy exact -/

/-- An event that changes neither a member's state of a node nor the node's own keeps
the member's state as exact as it was. -/
theorem Exact.of_same {member nodeId : NodeId} (exactCopy : net.Exact member nodeId)
    (copy : (net'.members member).nodeState nodeId = (net.members member).nodeState nodeId)
    (own : (net'.members nodeId).nodeState nodeId = (net.members nodeId).nodeState nodeId) :
    net'.Exact member nodeId := fun key => by
  rw [Network.own, copy, own]
  exact exactCopy key

/-- A round from another member does not reset an exact state: that member's state is no
further than the node's last write, which the exact state holds. -/
theorem Exact.not_mem_nodesToReset {member nodeId sender : NodeId}
    (exactCopy : net.Exact member nodeId) (complete : net.Complete) (safe : net.Safe)
    (recorded : net.Recorded) (other : sender ≠ nodeId) {senderDead receiverDead : List NodeId}
    {mtu : Mtu NodeId} {gracePeriod : Nat} {choices : Choices NodeId} {delta : Delta NodeId}
    (computed : (net.members sender).computeDelta
      ((net.members member).computeDigest receiverDead) mtu senderDead gracePeriod choices =
        some delta) :
    nodeId ∉ delta.nodesToReset := fun reset => by
  obtain ⟨ns, known, -, far⟩ := ClusterState.exists_of_mem_nodesToReset computed reset
  have behind :
      ns.maxVersion ≤ (((net.members member).nodeState nodeId).getD default).maxVersion := by
    have := recorded sender nodeId other _ fun kv mem => by
      obtain ⟨w, own, newer⟩ := complete.latest nodeId kv mem
      exact newer.trans ((safe.consistent member).bounded.getD nodeId kv.1 w
        ((exactCopy kv.1).trans own))
    rwa [known, Option.getD_some] at this
  rw [ClusterState.needsReset_add, ClusterState.getD_computeDigest_eq] at far
  split at far <;> omega

/-- A round to a member holding a node exactly that does not reset the node keeps the
member's state exact: every record the round carries of the node is the node's record of
its key or an older one, which the exact state absorbs. -/
theorem Exact.applyDelta_of_not_reset {member nodeId sender : NodeId}
    (exactCopy : net.Exact member nodeId) (complete : net.Complete) (safe : net.Safe)
    {senderDead receiverDead : List NodeId} {mtu : Mtu NodeId} {gracePeriod : Nat}
    {choices : Choices NodeId} {delta : Delta NodeId}
    (computed : (net.members sender).computeDelta
      ((net.members member).computeDigest receiverDead) mtu senderDead gracePeriod choices =
        some delta)
    (notReset : nodeId ∉ delta.nodesToReset) :
    (net.update member ((net.members member).applyDelta delta) []).Exact member nodeId :=
    fun key => by
  obtain ⟨ownSame, -⟩ := complete.gossip safe computed
  rw [ownSame, members_update, if_pos rfl, ClusterState.getD_nodeState_applyDelta,
    if_neg notReset, NodeState.applyNodeDelta_of_absorbs]
  · exact exactCopy key
  intro kv mem
  obtain ⟨ns, known, stored⟩ := ClusterState.exists_getVersioned_of_mem_nodeDeltas computed mem
  obtain ⟨w, own, order⟩ :=
    complete.behind safe ((safe.consistent sender).fits nodeId ns known) kv.1 kv.2 stored
  have held := (exactCopy kv.1).trans own
  have older : kv.2.version ≤ w.version := order.elim Nat.le_of_lt fun same => by rw [same]
  exact ⟨older.trans ((safe.consistent member).bounded.getD nodeId kv.1 w held), w, held, older⟩

/-- One event without collection that keeps a member's state of a node keeps it exact. -/
theorem Exact.step {member nodeId : NodeId} (exactCopy : net.Exact member nodeId)
    (complete : net.Complete) (safe : net.Safe) (recorded : net.Recorded)
    {event : Event NodeId} (admissible : event.Admissible) (quiet : ¬ event.Collects)
    (keeps : event.Keeps member nodeId) (h : net.step event = some net') :
    net'.Exact member nodeId := by
  cases event with
  | nodeStateMut writer op =>
      obtain ⟨cs, performed, rfl⟩ := Option.map_eq_some'.1 h
      obtain ⟨ns', -, rfl⟩ := Option.map_eq_some'.1 performed
      have untouched : ∀ writes other, ((net.update writer ((net.members writer).nodeStateMut
          writer fun _ => ns') writes).members other).nodeState nodeId =
            (net.members other).nodeState nodeId := fun writes other => by
        rw [members_update]
        split
        · subst other
          rw [ClusterState.nodeState_nodeStateMut, if_neg keeps]
        · rfl
      exact exactCopy.of_same (untouched _ member) (untouched _ nodeId)
  | gcKeysMarkedForDeletion => exact absurd trivial quiet
  | removeNode remover removed =>
      cases h
      have untouched : ∀ other, (remover = other → removed ≠ nodeId) →
          ((net.update remover ((net.members remover).removeNode removed) []).members
            other).nodeState nodeId = (net.members other).nodeState nodeId := fun other kept => by
        rw [members_update]
        split
        · subst other
          rw [ClusterState.nodeState_removeNode, if_neg (Ne.symm (kept rfl))]
        · rfl
      exact exactCopy.of_same (untouched member keeps) (untouched nodeId fun same => by
        rw [← same]
        exact admissible)
  | gossip sender receiver senderDead receiverDead mtu gracePeriod choices =>
      obtain ⟨delta, computed, rfl⟩ := Option.map_eq_some'.1 h
      by_cases toMember : receiver = member
      · subst receiver
        by_cases reset : nodeId ∈ delta.nodesToReset
        · by_cases owner : sender = nodeId
          · subst sender
            obtain rfl := keeps rfl rfl
            obtain ⟨-, -, live, -⟩ := ClusterState.exists_of_mem_nodesToReset computed reset
            exact complete.exact_applyDelta_of_unbounded safe computed (fun _ => rfl) live
          · exact absurd reset
              (exactCopy.not_mem_nodesToReset complete safe recorded owner computed)
        · exact exactCopy.applyDelta_of_not_reset complete safe computed reset
      · intro key
        rw [(complete.gossip safe computed).1, members_update, if_neg (Ne.symm toMember)]
        exact exactCopy key

theorem Exact.run {member nodeId : NodeId} (exactCopy : net.Exact member nodeId)
    (complete : net.Complete) (safe : net.Safe) (recorded : net.Recorded)
    {events : List (Event NodeId)}
    (quiet : ∀ event ∈ events, event.Admissible ∧ ¬ event.Collects)
    (keeps : ∀ event ∈ events, event.Keeps member nodeId)
    (h : net.run events = some net') : net'.Exact member nodeId := by
  have allowed : ∀ event ∈ events, (event.Admissible ∧ ¬ event.Collects) ∧
      event.Keeps member nodeId := fun event mem => ⟨quiet event mem, keeps event mem⟩
  exact (run_preserves (fun net => (net.Safe ∧ net.Complete) ∧ net.Recorded ∧
      net.Exact member nodeId) ⟨⟨safe, complete⟩, recorded, exactCopy⟩ allowed
    (fun ⟨⟨safe, complete⟩, recorded, exactCopy⟩ ⟨⟨admissible, quiet⟩, keeps⟩
        stepped =>
      ⟨complete.step safe admissible quiet stepped, recorded.step safe admissible stepped,
        exactCopy.step complete safe recorded admissible quiet keeps stepped⟩) h).2.2

/-- In a run without collection, a member's state of a node that is exact stays exact
through any later events without collection that are no local operation of the node, no
removal of the node by the member, and no round from the node to the member cut by an
MTU: other members' rounds, in any order, with any MTU, dead sets and grace period, never
take a record from it or bring an older one in. -/
theorem exact_copy_stays_exact {events later : List (Event NodeId)}
    (quiet : ∀ event ∈ events, event.Admissible ∧ ¬ event.Collects)
    (reached : init.run events = some net) {member nodeId : NodeId}
    (exactCopy : net.Exact member nodeId)
    (quietLater : ∀ event ∈ later, event.Admissible ∧ ¬ event.Collects)
    (keeps : ∀ event ∈ later, event.Keeps member nodeId)
    (h : net.run later = some net') : net'.Exact member nodeId := by
  obtain ⟨safe, complete⟩ := complete_init.run safe_init quiet reached
  have recorded := recorded_init.run .init (fun e mem => (quiet e mem).1) reached
  exact exactCopy.run complete safe recorded quietLater keeps h

/-- Node 0 sets a key and gossips it to node 1; node 2 then sets a key of its own and
gossips to node 1 under an MTU that takes two additions. -/
theorem exact_copy_kept_after_other_round :
    (∀ event ∈ [Event.nodeStateMut (0 : Nat) (.set "key" "1"),
      .gossip 0 1 [] [] Mtu.unbounded 0 Choices.deterministic],
      event.Admissible ∧ ¬ event.Collects) ∧
    ∃ net net' : Network Nat, init.run [.nodeStateMut 0 (.set "key" "1"),
        .gossip 0 1 [] [] Mtu.unbounded 0 Choices.deterministic] = some net ∧
      net.Exact 1 0 ∧
      (∀ event ∈ [Event.nodeStateMut (2 : Nat) (.set "key" "2"),
        .gossip 2 1 [] [] ⟨fun sent _ => sent.length < 2⟩ 0 Choices.deterministic],
        event.Admissible ∧ ¬ event.Collects) ∧
      (∀ event ∈ [Event.nodeStateMut (2 : Nat) (.set "key" "2"),
        .gossip 2 1 [] [] ⟨fun sent _ => sent.length < 2⟩ 0 Choices.deterministic],
        event.Keeps 1 0) ∧
      net.run [.nodeStateMut 2 (.set "key" "2"),
        .gossip 2 1 [] [] ⟨fun sent _ => sent.length < 2⟩ 0 Choices.deterministic] =
          some net' ∧
      net'.Exact 1 0 := by
  have quiet : ∀ event ∈ [Event.nodeStateMut (0 : Nat) (.set "key" "1"),
      .gossip 0 1 [] [] Mtu.unbounded 0 Choices.deterministic],
      event.Admissible ∧ ¬ event.Collects := by
    simp [Event.Admissible, Event.Collects]
  have quietLater : ∀ event ∈ [Event.nodeStateMut (2 : Nat) (.set "key" "2"),
      .gossip 2 1 [] [] ⟨fun sent _ => sent.length < 2⟩ 0 Choices.deterministic],
      event.Admissible ∧ ¬ event.Collects := by
    simp [Event.Admissible, Event.Collects]
  have keeps : ∀ event ∈ [Event.nodeStateMut (2 : Nat) (.set "key" "2"),
      .gossip 2 1 [] [] ⟨fun sent _ => sent.length < 2⟩ 0 Choices.deterministic],
      event.Keeps 1 0 := by
    simp [Event.Keeps]
  have exactCopy : Exact ((init.run [.nodeStateMut 0 (.set "key" "1"),
      .gossip 0 1 [] [] Mtu.unbounded 0 Choices.deterministic]).getD init) 1 0 := fun _ => rfl
  exact ⟨quiet, _, _, rfl, exactCopy, quietLater, keeps, rfl,
    @exact_copy_stays_exact Nat _ _ _ _ _ _ quiet rfl 1 0 exactCopy quietLater keeps rfl⟩

/-! ## A node's state spreads along a schedule of rounds -/

/-- `rounds` carries the state of `nodeId` on from the members of `reached`: each is a
round with an unbounded MTU from a member that counts the node live and already holds
it, and its receiver holds it after. -/
def Spreads (nodeId : NodeId) : List NodeId → List (Event NodeId) → Prop
  | _, [] => True
  | reached, .gossip sender receiver senderDead _ mtu _ _ :: rounds =>
      sender ∈ reached ∧ nodeId ∉ senderDead ∧ mtu = Mtu.unbounded ∧
        Spreads nodeId (receiver :: reached) rounds
  | _, _ :: _ => False

/-- The members that receive a round of `rounds`. -/
def receivers : List (Event NodeId) → List NodeId
  | [] => []
  | .gossip _ receiver .. :: rounds => receiver :: receivers rounds
  | _ :: rounds => receivers rounds

theorem exact_own (net : Network NodeId) (nodeId : NodeId) : net.Exact nodeId nodeId :=
  fun _ => rfl

/-- Along a schedule that spreads a node's state from members holding it exactly, every
receiver ends holding it exactly, and so do those members. -/
theorem Exact.spread (complete : net.Complete) (safe : net.Safe) (recorded : net.Recorded)
    {nodeId : NodeId} {reached : List NodeId}
    (exacts : ∀ member ∈ reached, net.Exact member nodeId) {rounds : List (Event NodeId)}
    (spreads : Spreads nodeId reached rounds) (h : net.run rounds = some net') :
    ∀ member, member ∈ reached ∨ member ∈ receivers rounds →
      net'.Exact member nodeId := by
  induction rounds generalizing net reached with
  | nil =>
      cases h
      rintro member (mem | mem)
      · exact exacts member mem
      · cases mem
  | cons round rounds ih =>
      obtain ⟨net₁, stepped, rest⟩ := run_cons.1 h
      cases round with
      | gossip sender receiver senderDead receiverDead mtu gracePeriod choices =>
          obtain ⟨sent, live, rfl, spreadsOn⟩ := spreads
          have admissible : Event.Admissible (.gossip sender receiver senderDead receiverDead
            Mtu.unbounded gracePeriod choices) := trivial
          have quiet : ¬ Event.Collects (.gossip sender receiver senderDead receiverDead
            Mtu.unbounded gracePeriod choices) := id
          obtain ⟨safe₁, complete₁⟩ := complete.step safe admissible quiet stepped
          have exacts₁ : ∀ member ∈ receiver :: reached, net₁.Exact member nodeId := by
            rintro member (_ | ⟨_, mem⟩)
            · obtain ⟨delta, computed, rfl⟩ := Option.map_eq_some'.1 stepped
              exact complete.exact_applyDelta_of_unbounded safe computed (exacts sender sent) live
            · exact (exacts member mem).step complete safe recorded admissible quiet
                (fun _ _ => rfl) stepped
          intro member reach
          refine ih complete₁ safe₁ (recorded.step safe admissible stepped) exacts₁ spreadsOn
            rest member ?_
          simp only [receivers, List.mem_cons] at reach ⊢
          tauto
      | nodeStateMut => exact (spreads : False).elim
      | gcKeysMarkedForDeletion => exact (spreads : False).elim
      | removeNode => exact (spreads : False).elim

/-- In a run without collection, a schedule of rounds with unbounded MTUs that starts at a
node, each from a member that counts the node live and has already received it, leaves
every receiver holding exactly the node's records, whatever each held before and
whatever dead sets the receivers use. -/
theorem gossip_spreads_exact_state {events rounds : List (Event NodeId)}
    (quiet : ∀ event ∈ events, event.Admissible ∧ ¬ event.Collects)
    (reached : init.run events = some net) {nodeId : NodeId}
    (spreads : Spreads nodeId [nodeId] rounds) (h : net.run rounds = some net') :
    ∀ member ∈ receivers rounds, net'.Exact member nodeId := fun member mem => by
  obtain ⟨safe, complete⟩ := complete_init.run safe_init quiet reached
  have recorded := recorded_init.run .init (fun e mem => (quiet e mem).1) reached
  refine Exact.spread complete safe recorded (fun member mem => ?_) spreads h member (.inr mem)
  rw [List.mem_singleton.1 mem]
  exact exact_own net nodeId

/-- Node 0 sets a key; it reaches node 1, then node 2 through node 1. -/
theorem gossip_spreads_through_relay :
    (∀ event ∈ [Event.nodeStateMut (0 : Nat) (.set "key" "1")],
      event.Admissible ∧ ¬ event.Collects) ∧
    ∃ net net' : Network Nat, init.run [.nodeStateMut 0 (.set "key" "1")] = some net ∧
      Spreads 0 [0] [.gossip 0 1 [] [] Mtu.unbounded 0 Choices.deterministic,
        .gossip 1 2 [] [] Mtu.unbounded 0 Choices.deterministic] ∧
      net.run [.gossip 0 1 [] [] Mtu.unbounded 0 Choices.deterministic,
        .gossip 1 2 [] [] Mtu.unbounded 0 Choices.deterministic] = some net' ∧
      ∀ member ∈ receivers [Event.gossip (0 : Nat) 1 [] [] Mtu.unbounded 0
        Choices.deterministic, .gossip 1 2 [] [] Mtu.unbounded 0 Choices.deterministic],
          net'.Exact member 0 := by
  have quiet : ∀ event ∈ [Event.nodeStateMut (0 : Nat) (.set "key" "1")],
      event.Admissible ∧ ¬ event.Collects := by
    simp [Event.Admissible, Event.Collects]
  have spreads : Spreads (0 : Nat) [0] [.gossip 0 1 [] [] Mtu.unbounded 0 Choices.deterministic,
      .gossip 1 2 [] [] Mtu.unbounded 0 Choices.deterministic] := by
    simp [Spreads]
  exact ⟨quiet, _, _, rfl, spreads, rfl,
    @gossip_spreads_exact_state Nat _ _ _ _ _ _ quiet rfl 0 spreads rfl⟩

end Network

end Chitchat
