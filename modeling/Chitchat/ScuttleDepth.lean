import Chitchat.ComputeDelta
import Chitchat.Invariants

/-!
# What `compute_delta` computes

The first loop of `compute_delta` is a fold over the node states; read as a
whole it marks for reset the live nodes whose reset test holds and queues the
live nodes with stale updates, with their count (`foldl_scanNode`). The queue
yields those nodes by non-increasing count. The second loop recomputes each
node's floor in another form, which always agrees with the first
(`secondFloor_eq_firstFloor`): the node is known and its stale updates are not
empty, so neither the `unwrap` nor the `assert!` fails, and the loop hands the
writer a prefix of the planned node sections (`writeNodes_writes`).
`computeDeltaWriter_spec` puts these together; the results about rounds of
gossip are read from it.
-/

namespace Chitchat

namespace ClusterState

section Loops

variable {NodeId : Type} [LinearOrder NodeId] [DecidableEq NodeId]
variable (addU64 : Nat → Nat → Nat) (digest : Digest NodeId) (gracePeriod : Nat)

/-! ## The two floors -/

/-- The floor the second loop recomputes is the floor of the first loop, for
every way of adding: a zero floor stays zero, and a positive floor is reset by
the same test. -/
theorem secondFloor_eq_firstFloor (nodeId : NodeId) (ns : NodeState) :
    secondFloor addU64 digest gracePeriod nodeId ns =
      firstFloor addU64 digest gracePeriod nodeId ns := by
  unfold secondFloor firstFloor needsReset
  by_cases zero : (digest.nodeMaxVersion.get nodeId).getD 0 = 0
  · simp [zero]
  · simp [Nat.pos_of_ne_zero zero]

theorem needsReset_add (floorVersion gracePeriod maxVersion : Nat) :
    needsReset (· + ·) floorVersion gracePeriod maxVersion = true ↔
      0 < floorVersion ∧ floorVersion + gracePeriod < maxVersion := by
  simp [needsReset]

/-- With unbounded sums, a node whose `max_version` is at most its digest value
plus the grace period is not reset: its floor is its digest value. -/
theorem firstFloor_add_of_le {nodeId : NodeId} {ns : NodeState}
    (close : ns.maxVersion ≤ (digest.nodeMaxVersion.get nodeId).getD 0 + gracePeriod) :
    firstFloor (· + ·) digest gracePeriod nodeId ns =
      (digest.nodeMaxVersion.get nodeId).getD 0 := by
  have kept : needsReset (· + ·) ((digest.nodeMaxVersion.get nodeId).getD 0) gracePeriod
      ns.maxVersion = false := by
    rw [Bool.eq_false_iff, ne_eq, needsReset_add]
    omega
  simp [firstFloor, kept]

/-! ## The first loop -/

/-- The number of stale updates the first loop counts for a node. -/
def staleCount (nodeId : NodeId) (ns : NodeState) : Nat :=
  (ns.iterStaleKeyValues (firstFloor addU64 digest gracePeriod nodeId ns)).length

variable (deadNodes : List NodeId)

/-- The live nodes among `entries` that the first loop marks for reset, in order. -/
def resetNodes (entries : List (NodeId × NodeState)) : List NodeId :=
  (entries.filter fun e => decide (e.1 ∉ deadNodes) &&
    needsReset addU64 ((digest.nodeMaxVersion.get e.1).getD 0) gracePeriod
      e.2.maxVersion).map (·.1)

/-- The insertions of the first loop into the queue: the live nodes among
`entries` with stale updates, with their count. -/
def staleNodes (entries : List (NodeId × NodeState)) : List (NodeId × Nat) :=
  (entries.filter fun e => decide (e.1 ∉ deadNodes) &&
    decide (0 < staleCount addU64 digest gracePeriod e.1 e.2)).map
      fun e => (e.1, staleCount addU64 digest gracePeriod e.1 e.2)

/-- The first loop, read as a whole: it appends the reset nodes to the writer and
inserts the stale nodes into the queue. -/
theorem foldl_scanNode (entries : List (NodeId × NodeState)) (writer : DeltaWriter NodeId)
    (queue : NodeSortedByStaleLength NodeId) :
    entries.foldl (scanNode addU64 digest deadNodes gracePeriod) (writer, queue) =
      ({ writer with nodesToReset :=
          writer.nodesToReset ++ resetNodes addU64 digest gracePeriod deadNodes entries },
        (staleNodes addU64 digest gracePeriod deadNodes entries).foldl
          (fun q e => q.insert e.1 e.2) queue) := by
  induction entries generalizing writer queue with
  | nil => simp [resetNodes, staleNodes]
  | cons e entries ih =>
    by_cases dead : e.1 ∈ deadNodes
    · simp [scanNode, dead, ih, resetNodes, staleNodes]
    · by_cases reset : needsReset addU64 ((digest.nodeMaxVersion.get e.1).getD 0) gracePeriod
          e.2.maxVersion <;>
      by_cases stale :
          0 < (e.2.iterStaleKeyValues (firstFloor addU64 digest gracePeriod e.1 e.2)).length <;>
      simp [scanNode, staleCount, resetNodes, staleNodes, DeltaWriter.addNodeToReset, dead, reset,
        stale, ih]

theorem mem_resetNodes {entries : List (NodeId × NodeState)} {nodeId : NodeId} :
    nodeId ∈ resetNodes addU64 digest gracePeriod deadNodes entries ↔
      ∃ ns, (nodeId, ns) ∈ entries ∧ nodeId ∉ deadNodes ∧
        needsReset addU64 ((digest.nodeMaxVersion.get nodeId).getD 0) gracePeriod
          ns.maxVersion = true := by
  simp [resetNodes]

theorem resetNodes_nodup {entries : List (NodeId × NodeState)}
    (distinct : (entries.map (·.1)).Nodup) :
    (resetNodes addU64 digest gracePeriod deadNodes entries).Nodup :=
  distinct.sublist ((List.filter_sublist _).map _)

theorem mem_staleNodes {entries : List (NodeId × NodeState)} {nodeId : NodeId} {count : Nat} :
    (nodeId, count) ∈ staleNodes addU64 digest gracePeriod deadNodes entries ↔
      ∃ ns, (nodeId, ns) ∈ entries ∧ nodeId ∉ deadNodes ∧
        0 < staleCount addU64 digest gracePeriod nodeId ns ∧
          count = staleCount addU64 digest gracePeriod nodeId ns := by
  simp only [staleNodes, List.mem_map, List.mem_filter, Bool.and_eq_true, decide_eq_true_eq,
    Prod.mk.injEq, Prod.exists]
  constructor
  · rintro ⟨n, ns, ⟨mem, live, stale⟩, rfl, rfl⟩
    exact ⟨ns, mem, live, stale, rfl⟩
  · rintro ⟨ns, mem, live, stale, rfl⟩
    exact ⟨nodeId, ns, ⟨mem, live, stale⟩, rfl, rfl⟩

theorem staleNodes_nodup {entries : List (NodeId × NodeState)}
    (distinct : (entries.map (·.1)).Nodup) :
    ((staleNodes addU64 digest gracePeriod deadNodes entries).map (·.1)).Nodup := by
  rw [staleNodes, List.map_map]
  exact distinct.sublist ((List.filter_sublist _).map _)

/-! ## The second loop -/

omit [LinearOrder NodeId] [DecidableEq NodeId] in
open DeltaWriter in
/-- The inner loop hands the writer the updates one by one and stops at the first
refusal; it reports `true` exactly when nothing was refused. -/
theorem addKvs_writes (kvs : NodeDelta) {writer : DeltaWriter NodeId}
    (open_ : writer.refused = none) :
    Writes writer (addKvs kvs writer).2 (kvs.map fun kv => .kv kv.1 kv.2) ∧
      ((addKvs kvs writer).1 = true ↔ (addKvs kvs writer).2.refused = none) := by
  induction kvs generalizing writer with
  | nil => exact ⟨writes_nil open_, by simp [addKvs, open_]⟩
  | cons kv kvs ih =>
    obtain ⟨added, accepted⟩ := add_writes open_ (.kv kv.1 kv.2)
    by_cases ok : (writer.add (.kv kv.1 kv.2)).1
    · have := ih (accepted.1 ok)
      simp only [addKvs, addKv, ok, if_true]
      exact ⟨added.append (accepted.1 ok) this.1, this.2⟩
    · simp only [addKvs, addKv, ok, if_false]
      exact ⟨added.extend (mt accepted.2 ok) _, by simpa using mt accepted.2 ok⟩

variable (cs : ClusterState NodeId) (choices : Choices NodeId)

/-- The updates the second loop writes for a node: its stale updates at the
recomputed floor, sorted by version. -/
def staleKvsOf (nodeId : NodeId) : NodeDelta :=
  match cs.nodeState nodeId with
  | none => []
  | some ns => choices.sortByVersion
      (ns.iterStaleKeyValues (secondFloor addU64 digest gracePeriod nodeId ns))

theorem staleKvsOf_of_some {nodeId : NodeId} {ns : NodeState}
    (h : cs.nodeState nodeId = some ns) :
    staleKvsOf addU64 digest gracePeriod cs choices nodeId =
      choices.sortByVersion
        (ns.iterStaleKeyValues (secondFloor addU64 digest gracePeriod nodeId ns)) := by
  simp [staleKvsOf, h]

/-- The node sections the second loop is to write, in the order of `order`. -/
def plan (order : List NodeId) : List (Addition NodeId) :=
  order.flatMap fun n => nodeSection n (staleKvsOf addU64 digest gracePeriod cs choices n)

open DeltaWriter in
/-- Over nodes that are known and have stale updates, the second loop runs to
its end or to the writer's first refusal, and hands the writer a prefix of the
planned node sections. -/
theorem writeNodes_writes (order : List NodeId) {writer : DeltaWriter NodeId}
    (open_ : writer.refused = none)
    (stale : ∀ n ∈ order, ∃ ns, cs.nodeState n = some ns ∧
      ns.iterStaleKeyValues (secondFloor addU64 digest gracePeriod n ns) ≠ []) :
    ∃ writer', writeNodes addU64 cs digest gracePeriod choices order writer = some writer' ∧
      Writes writer writer' (plan addU64 digest gracePeriod cs choices order) := by
  induction order generalizing writer with
  | nil => exact ⟨writer, rfl, writes_nil open_⟩
  | cons n order ih =>
    obtain ⟨ns, known, nonempty⟩ := stale n (List.mem_cons_self _ _)
    obtain ⟨added, accepted⟩ := add_writes open_ (.node n)
    have split : plan addU64 digest gracePeriod cs choices (n :: order) =
        [.node n] ++ ((staleKvsOf addU64 digest gracePeriod cs choices n).map
          (fun kv => .kv kv.1 kv.2) ++ plan addU64 digest gracePeriod cs choices order) := rfl
    rw [split]
    by_cases ok : (writer.add (.node n)).1
    · obtain ⟨kvsAdded, kvsAccepted⟩ := addKvs_writes (choices.sortByVersion
        (ns.iterStaleKeyValues (secondFloor addU64 digest gracePeriod n ns))) (accepted.1 ok)
      simp only [writeNodes, addNode, ok, Bool.not_true, known, List.isEmpty_iff, nonempty,
        if_false, staleKvsOf_of_some _ _ _ _ _ known]
      by_cases allKvs : (addKvs (choices.sortByVersion
          (ns.iterStaleKeyValues (secondFloor addU64 digest gracePeriod n ns)))
            (writer.add (.node n)).2).1
      · obtain ⟨writer', run, rest⟩ := ih (kvsAccepted.1 allKvs)
          fun n' mem => stale n' (List.mem_cons_of_mem n mem)
        simp only [allKvs, if_true]
        exact ⟨writer', run, added.append (accepted.1 ok)
          (kvsAdded.append (kvsAccepted.1 allKvs) rest)⟩
      · simp only [allKvs, if_false]
        exact ⟨_, rfl, added.append (accepted.1 ok)
          (kvsAdded.extend (mt kvsAccepted.2 allKvs) _)⟩
    · simp only [writeNodes, addNode, ok, Bool.not_false, if_true]
      exact ⟨_, rfl, added.extend (mt accepted.2 ok) _⟩

/-! ## The whole computation -/

/-- `compute_delta` runs without failing. The queue yields the live nodes with
stale updates, each once, by non-increasing count; the writer starts with the
reset nodes marked and is handed a prefix of the planned node sections. -/
theorem computeDeltaWriter_spec (mtu : Mtu NodeId) :
    ∃ order writer,
      computeDeltaWriter addU64 cs digest mtu deadNodes gracePeriod choices = some writer ∧
      (∀ nodeId, nodeId ∈ order ↔ ∃ ns, cs.nodeState nodeId = some ns ∧ nodeId ∉ deadNodes ∧
        0 < staleCount addU64 digest gracePeriod nodeId ns) ∧
      order.Nodup ∧
      order.Pairwise (fun a b => ∀ nsa nsb, cs.nodeState a = some nsa →
        cs.nodeState b = some nsb →
          staleCount addU64 digest gracePeriod b nsb ≤ staleCount addU64 digest gracePeriod a nsa) ∧
      DeltaWriter.Writes
        ⟨mtu, resetNodes addU64 digest gracePeriod deadNodes cs.nodeStates.entries, [], none⟩
        writer (plan addU64 digest gracePeriod cs choices order) := by
  obtain ⟨order, queued, members, ordered⟩ := (NodeSortedByStaleLength.tracks_foldl_insert
    (staleNodes addU64 digest gracePeriod deadNodes cs.nodeStates.entries)).order
      choices.shuffle_perm
  have member : ∀ nodeId, nodeId ∈ order ↔ ∃ ns, cs.nodeState nodeId = some ns ∧
      nodeId ∉ deadNodes ∧ 0 < staleCount addU64 digest gracePeriod nodeId ns := fun nodeId => by
    simp only [members, mem_staleNodes, nodeState, SortedMap.mem_entries_iff]
    exact ⟨fun ⟨_, ns, h, live, stale, _⟩ => ⟨ns, h, live, stale⟩,
      fun ⟨ns, h, live, stale⟩ => ⟨_, ns, h, live, stale, rfl⟩⟩
  obtain ⟨distinct, descending⟩ := ordered (staleNodes_nodup _ _ _ _ cs.nodeStates.nodup_keys)
  obtain ⟨writer, run, writes⟩ := writeNodes_writes addU64 digest gracePeriod cs choices order
    (show (⟨mtu, resetNodes addU64 digest gracePeriod deadNodes cs.nodeStates.entries, [], none⟩ :
      DeltaWriter NodeId).refused = none from rfl)
    fun n mem => by
      obtain ⟨ns, known, -, stale⟩ := (member n).1 mem
      exact ⟨ns, known, by
        rw [secondFloor_eq_firstFloor, ← List.length_pos]
        exact stale⟩
  refine ⟨order, writer, ?_, member, distinct,
    descending.imp_of_mem fun {a b} ma mb later => ?_, writes⟩
  · simp only [computeDeltaWriter, foldl_scanNode, queued]
    exact run
  · intro nsa nsb ha hb
    obtain ⟨_, ha', live_a, stale_a⟩ := (member a).1 ma
    obtain ⟨_, hb', live_b, stale_b⟩ := (member b).1 mb
    cases ha.symm.trans ha'
    cases hb.symm.trans hb'
    exact later _ _
      ((mem_staleNodes ..).2 ⟨nsa, SortedMap.mem_entries_iff.2 ha, live_a, stale_a, rfl⟩)
      ((mem_staleNodes ..).2 ⟨nsb, SortedMap.mem_entries_iff.2 hb, live_b, stale_b, rfl⟩)

/-- The delta `compute_delta` returns, read node by node: the reset nodes, and
for every node a prefix of its planned updates, all of them when the MTU is
unbounded. -/
theorem computeDeltaWith_spec (mtu : Mtu NodeId) :
    ∃ (order : List NodeId) (delta : Delta NodeId),
      computeDeltaWith addU64 cs digest mtu deadNodes gracePeriod choices = some delta ∧
      (∀ nodeId, nodeId ∈ order ↔ ∃ ns, cs.nodeState nodeId = some ns ∧ nodeId ∉ deadNodes ∧
        0 < staleCount addU64 digest gracePeriod nodeId ns) ∧
      (∀ nodeId, nodeId ∈ delta.nodesToReset ↔ ∃ ns, cs.nodeState nodeId = some ns ∧
        nodeId ∉ deadNodes ∧
        needsReset addU64 ((digest.nodeMaxVersion.get nodeId).getD 0) gracePeriod
          ns.maxVersion = true) ∧
      (∀ nodeId updates, delta.nodeDeltas.get nodeId = some updates →
        nodeId ∈ order ∧ updates <+: staleKvsOf addU64 digest gracePeriod cs choices nodeId) ∧
      (mtu = Mtu.unbounded → ∀ nodeId, delta.nodeDeltas.get nodeId =
        if nodeId ∈ order then some (staleKvsOf addU64 digest gracePeriod cs choices nodeId)
        else none) := by
  obtain ⟨order, writer, run, member, -, -, writes⟩ :=
    computeDeltaWriter_spec addU64 digest gracePeriod deadNodes cs choices mtu
  refine ⟨order, writer.into, by simp [computeDeltaWith, run], member, fun nodeId => ?_,
    fun _ _ found => writes.get_into found,
    fun unbounded => writes.get_into_of_open (writes.open_of_unbounded unbounded)⟩
  rw [writes.into_nodesToReset, mem_resetNodes]
  simp only [nodeState, SortedMap.mem_entries_iff]

/-- The planned updates of a known node are its stale updates at the first
loop's floor, in ascending version order. -/
theorem staleKvsOf_perm {nodeId : NodeId} {ns : NodeState}
    (known : cs.nodeState nodeId = some ns) :
    (staleKvsOf addU64 digest gracePeriod cs choices nodeId).Perm
      (ns.iterStaleKeyValues (firstFloor addU64 digest gracePeriod nodeId ns)) := by
  rw [staleKvsOf_of_some _ _ _ _ _ known, secondFloor_eq_firstFloor]
  exact choices.sortByVersion_perm _

theorem staleKvsOf_sorted (nodeId : NodeId) :
    (staleKvsOf addU64 digest gracePeriod cs choices nodeId).Sorted
      fun a b => a.2.version ≤ b.2.version := by
  unfold staleKvsOf
  split
  · exact List.sorted_nil
  · exact choices.sortByVersion_sorted _

/-- A node's section in the delta is a prefix of its planned updates. -/
theorem getD_nodeDeltas_prefix_staleKvsOf {mtu : Mtu NodeId} {delta : Delta NodeId}
    (computed : computeDeltaWith addU64 cs digest mtu deadNodes gracePeriod choices = some delta)
    (nodeId : NodeId) :
    (delta.nodeDeltas.get nodeId).getD [] <+:
      staleKvsOf addU64 digest gracePeriod cs choices nodeId := by
  obtain ⟨order, delta', computed', -, -, sections, -⟩ :=
    computeDeltaWith_spec addU64 digest gracePeriod deadNodes cs choices mtu
  cases Option.some.inj (computed'.symm.trans computed)
  cases found : delta.nodeDeltas.get nodeId with
  | none => exact List.nil_prefix
  | some updates => exact (sections _ _ found).2

/-- Under an unbounded MTU the section of a live known node holds exactly its
stale updates at the first loop's floor. -/
theorem mem_nodeDeltas_of_unbounded {delta : Delta NodeId}
    (computed : computeDeltaWith addU64 cs digest Mtu.unbounded deadNodes gracePeriod choices =
      some delta)
    {nodeId : NodeId} {ns : NodeState} (known : cs.nodeState nodeId = some ns)
    (live : nodeId ∉ deadNodes) (kv : String × VersionedValue) :
    kv ∈ (delta.nodeDeltas.get nodeId).getD [] ↔
      kv ∈ ns.iterStaleKeyValues (firstFloor addU64 digest gracePeriod nodeId ns) := by
  obtain ⟨order, delta', computed', member, -, -, full⟩ :=
    computeDeltaWith_spec addU64 digest gracePeriod deadNodes cs choices Mtu.unbounded
  cases Option.some.inj (computed'.symm.trans computed)
  rw [full rfl nodeId]
  split_ifs with ordered
  · exact (staleKvsOf_perm addU64 digest gracePeriod cs choices known).mem_iff
  · have none_stale : staleCount addU64 digest gracePeriod nodeId ns = 0 :=
      Nat.eq_zero_of_not_pos fun stale => ordered ((member nodeId).2 ⟨ns, known, live, stale⟩)
    rw [staleCount, List.length_eq_zero] at none_stale
    simp [none_stale]

end Loops

/-! ## Properties of `compute_delta` -/

variable {NodeId : Type} [LinearOrder NodeId] [DecidableEq NodeId]

/-- The `unwrap` and the `assert!` of the second loop never fail, however the
build adds `u64`s: the floor the second loop recomputes is the one the first
loop used, and `compute_delta` returns a delta. -/
theorem computeDelta_never_panics (addU64 : Nat → Nat → Nat) (cs : ClusterState NodeId)
    (digest : Digest NodeId) (mtu : Mtu NodeId) (deadNodes : List NodeId) (gracePeriod : Nat)
    (choices : Choices NodeId) :
    (∀ nodeId ns, secondFloor addU64 digest gracePeriod nodeId ns =
      firstFloor addU64 digest gracePeriod nodeId ns) ∧
    ∃ delta, cs.computeDeltaWith addU64 digest mtu deadNodes gracePeriod choices = some delta := by
  obtain ⟨-, delta, computed, -⟩ :=
    computeDeltaWith_spec addU64 digest gracePeriod deadNodes cs choices mtu
  exact ⟨secondFloor_eq_firstFloor addU64 digest gracePeriod, delta, computed⟩

/-- Scuttle-depth ordering: the reset nodes are the live nodes whose peer is too
far behind, and the writer is handed, up to its first refusal, the live nodes
with stale updates by non-increasing count, each followed by its stale updates
in ascending version order. Dead nodes and nodes the peer is not behind on
contribute nothing. The sums are taken unbounded, as `computeDelta` takes them;
`computeDeltaWith` gives the writer for the u64 sum of the release build. -/
theorem computeDelta_scuttleDepth (cs : ClusterState NodeId) (bounded : cs.VersionsBounded)
    (digest : Digest NodeId) (mtu : Mtu NodeId) (deadNodes : List NodeId) (gracePeriod : Nat)
    (choices : Choices NodeId) :
    ∃ writer,
      cs.computeDeltaWriter (· + ·) digest mtu deadNodes gracePeriod choices = some writer ∧
      writer.into.nodesToReset.Nodup ∧
      (∀ nodeId, nodeId ∈ writer.into.nodesToReset ↔ ∃ ns, cs.nodeState nodeId = some ns ∧
        nodeId ∉ deadNodes ∧ 0 < (digest.nodeMaxVersion.get nodeId).getD 0 ∧
        (digest.nodeMaxVersion.get nodeId).getD 0 + gracePeriod < ns.maxVersion) ∧
      ∃ (order : List NodeId) (kvs : NodeId → NodeDelta),
        (∀ nodeId, nodeId ∈ order ↔ ∃ ns, cs.nodeState nodeId = some ns ∧
          nodeId ∉ deadNodes ∧
          ns.iterStaleKeyValues (firstFloor (· + ·) digest gracePeriod nodeId ns) ≠ []) ∧
        order.Nodup ∧
        order.Pairwise (fun a b => ∀ nsa nsb, cs.nodeState a = some nsa →
          cs.nodeState b = some nsb →
            (nsb.iterStaleKeyValues (firstFloor (· + ·) digest gracePeriod b nsb)).length ≤
              (nsa.iterStaleKeyValues (firstFloor (· + ·) digest gracePeriod a nsa)).length) ∧
        (∀ nodeId ns, cs.nodeState nodeId = some ns →
          (kvs nodeId).Perm
            (ns.iterStaleKeyValues (firstFloor (· + ·) digest gracePeriod nodeId ns)) ∧
          (kvs nodeId).Sorted fun a b => a.2.version ≤ b.2.version) ∧
        writer.handed <+: order.flatMap (fun n => nodeSection n (kvs n)) ∧
        (writer.refused = none →
          writer.handed = order.flatMap fun n => nodeSection n (kvs n)) ∧
        mtu.accepts [] writer.sent ∧
        (∀ addition, writer.refused = some addition → mtu.fits writer.sent addition = false) ∧
        ∀ nodeId ns, cs.nodeState nodeId = some ns →
          nodeId ∈ deadNodes ∨ ns.maxVersion ≤ (digest.nodeMaxVersion.get nodeId).getD 0 →
          nodeId ∉ order ∧ nodeId ∉ writer.into.nodesToReset ∧
            writer.into.nodeDeltas.get nodeId = none := by
  obtain ⟨order, writer, run, member, distinct, descending, writes⟩ :=
    computeDeltaWriter_spec (· + ·) digest gracePeriod deadNodes cs choices mtu
  obtain ⟨accepted, sent, accepts, handed, full⟩ := writes.sent
  have resets : ∀ nodeId, nodeId ∈ writer.into.nodesToReset ↔
      ∃ ns, cs.nodeState nodeId = some ns ∧ nodeId ∉ deadNodes ∧
        0 < (digest.nodeMaxVersion.get nodeId).getD 0 ∧
        (digest.nodeMaxVersion.get nodeId).getD 0 + gracePeriod < ns.maxVersion :=
    fun nodeId => by
      rw [writes.into_nodesToReset, mem_resetNodes]
      simp only [nodeState, SortedMap.mem_entries_iff, needsReset_add]
  have member' : ∀ nodeId, nodeId ∈ order ↔ ∃ ns, cs.nodeState nodeId = some ns ∧
      nodeId ∉ deadNodes ∧
      ns.iterStaleKeyValues (firstFloor (· + ·) digest gracePeriod nodeId ns) ≠ [] :=
    fun nodeId => by simp only [member, staleCount, List.length_pos]
  refine ⟨writer, run,
    writes.into_nodesToReset ▸ resetNodes_nodup _ _ _ _ cs.nodeStates.nodup_keys, resets, order,
    staleKvsOf (· + ·) digest gracePeriod cs choices, member', distinct, descending,
    fun nodeId ns known => ⟨staleKvsOf_perm _ _ _ _ _ known, staleKvsOf_sorted _ _ _ _ _ nodeId⟩,
    ?_, fun open_ => ?_, by simpa [sent] using accepts,
    fun addition => by simpa using writes.refused addition, fun nodeId ns known quiet => ?_⟩
  · rw [DeltaWriter.handed, sent, List.nil_append]
    exact handed
  · rw [DeltaWriter.handed, sent, List.nil_append, full open_, open_, Option.toList_none,
      List.append_nil]
    rfl
  · have notOrdered : nodeId ∉ order := fun mem => by
      obtain ⟨ns', known', live, stale⟩ := (member' nodeId).1 mem
      cases known.symm.trans known'
      refine quiet.elim live fun above =>
        stale ((bounded _ _ known).iterStaleKeyValues_eq_nil ?_)
      rwa [firstFloor_add_of_le _ _ (Nat.le_add_right_of_le above)]
    refine ⟨notOrdered, fun reset => ?_, ?_⟩
    · obtain ⟨ns', known', live, -, behind⟩ := (resets nodeId).1 reset
      cases known.symm.trans known'
      exact quiet.elim live (by omega)
    · cases found : writer.into.nodeDeltas.get nodeId with
      | none => rfl
      | some updates => exact absurd (writes.get_into found).1 notOrdered

/-- A state that one `set` reaches satisfies the hypothesis of
`computeDelta_scuttleDepth`. -/
theorem scuttleDepth_after_set :
    ((∅ : ClusterState String).nodeStateMut "node" fun _ =>
        (default : NodeState).set "key" "value").VersionsBounded ∧
      ∃ writer, ((∅ : ClusterState String).nodeStateMut "node" fun _ =>
        (default : NodeState).set "key" "value").computeDeltaWriter (· + ·) ⟨∅⟩ Mtu.unbounded [] 0
          Choices.deterministic = some writer := by
  have bounded :=
    (Reachable.step (.nodeStateMut "node" (.set "key" "value")) .empty rfl).versionsBounded
  exact ⟨bounded,
    (computeDelta_scuttleDepth _ bounded ⟨∅⟩ Mtu.unbounded [] 0 Choices.deterministic).imp
      fun _ h => h.1⟩

/-! ## Sums at the `u64` limit -/

/-- A peer's digest may give a node `u64::MAX`, and a delta may carry version
`u64::MAX`. The first loop of `compute_delta` then adds the grace period past
`u64::MAX`, and a wrapping build resets a node that the unbounded sum does not;
`set` on a node that such a delta reached adds one past `u64::MAX`. -/
theorem version_sums_exceed_u64 :
    ((∅ : ClusterState String).nodeStateMut "node" fun _ =>
        (default : NodeState).set "key" "1").Reachable ∧
      ((⟨(∅ : SortedMap String Nat).insert "node" (2 ^ 64 - 1)⟩ : Digest String).nodeMaxVersion.get
        "node").getD 0 ≤ 2 ^ 64 - 1 ∧
      2 ^ 64 - 1 < ((⟨(∅ : SortedMap String Nat).insert "node" (2 ^ 64 - 1)⟩ :
        Digest String).nodeMaxVersion.get "node").getD 0 + 1 ∧
      (((∅ : ClusterState String).nodeStateMut "node" fun _ =>
        (default : NodeState).set "key" "1").computeDeltaWith wrappingAdd
          ⟨(∅ : SortedMap String Nat).insert "node" (2 ^ 64 - 1)⟩ Mtu.unbounded [] 1
          Choices.deterministic).map (·.nodesToReset) = some ["node"] ∧
      (((∅ : ClusterState String).nodeStateMut "node" fun _ =>
        (default : NodeState).set "key" "1").computeDelta
          ⟨(∅ : SortedMap String Nat).insert "node" (2 ^ 64 - 1)⟩ Mtu.unbounded [] 1
          Choices.deterministic).map (·.nodesToReset) = some [] ∧
      ((∅ : ClusterState String).applyDelta
        ⟨SortedMap.ofList [("node", [("key", ⟨"v", 2 ^ 64 - 1, false⟩)])], []⟩).Reachable ∧
      2 ^ 64 - 1 < (((((∅ : ClusterState String).applyDelta
        ⟨SortedMap.ofList [("node", [("key", ⟨"v", 2 ^ 64 - 1, false⟩)])], []⟩).nodeState
          "node").getD default).set "key" "w").maxVersion :=
  ⟨.step (.nodeStateMut "node" (.set "key" "1")) .empty rfl, by decide, by decide, by decide,
    by decide, .step (.applyDelta _) .empty rfl, by decide⟩

end ClusterState

end Chitchat
