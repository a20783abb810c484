import Mathlib.Data.List.Sort
import Mathlib.Data.List.Perm.Basic
import Chitchat.SortedMap

/-!
# Nodes sorted by stale length

`NodeSortedByStaleLength` of `state.rs`: a bucket of nodes per stale length,
and a `BinaryHeap` of the lengths that have a bucket. `into_iter` pops the
largest length, takes its bucket out with `remove(&length).unwrap()` (a
failure here is the panic of that `unwrap`), shuffles it and yields it.

The heap is modelled by the order its pops return its elements, a
non-increasing list; the shuffle by any function on buckets, each call seen as
one draw of the random generator.

Inserts from the empty queue keep a bucket for each inserted length, holding
the nodes inserted under it, and that length once on the heap (`Tracks`). So
the heap holds the keys of the buckets map exactly (`HeapMatchesBuckets`),
`into_iter` never fails its `unwrap`, and it yields the inserts sorted by
non-increasing length (`YieldsByLength`).
-/

namespace Chitchat

/-- `BinaryHeap<usize>`, as the non-increasing sequence its pops return. -/
structure BinaryHeap where
  elems : List Nat
  sorted : elems.Sorted (· ≥ ·)

namespace BinaryHeap

instance : EmptyCollection BinaryHeap := ⟨⟨[], List.sorted_nil⟩⟩

/-- `BinaryHeap::push`. -/
def push (heap : BinaryHeap) (x : Nat) : BinaryHeap :=
  ⟨heap.elems.orderedInsert (· ≥ ·) x, heap.sorted.orderedInsert x heap.elems⟩

@[simp] theorem elems_empty : (∅ : BinaryHeap).elems = [] := rfl

theorem push_perm (heap : BinaryHeap) (x : Nat) : (heap.push x).elems.Perm (x :: heap.elems) :=
  List.perm_orderedInsert _ x heap.elems

end BinaryHeap

/-- `NodeSortedByStaleLength`. -/
structure NodeSortedByStaleLength (NodeId : Type) where
  nodePerStaleLength : SortedMap Nat (List NodeId)
  staleLengths : BinaryHeap

namespace NodeSortedByStaleLength

variable {NodeId : Type}

instance : EmptyCollection (NodeSortedByStaleLength NodeId) := ⟨⟨∅, ∅⟩⟩

/-- `insert`: append the node to the bucket of its length, pushing the length
onto the heap when `or_insert_with` creates the bucket. -/
def insert (queue : NodeSortedByStaleLength NodeId) (nodeId : NodeId) (staleLength : Nat) :
    NodeSortedByStaleLength NodeId :=
  match queue.nodePerStaleLength.get staleLength with
  | some nodes => ⟨queue.nodePerStaleLength.insert staleLength (nodes ++ [nodeId]),
      queue.staleLengths⟩
  | none => ⟨queue.nodePerStaleLength.insert staleLength [nodeId],
      queue.staleLengths.push staleLength⟩

/-- The loop of `into_iter` over the popped lengths. -/
def drain (shuffle : List NodeId → List NodeId) :
    List Nat → SortedMap Nat (List NodeId) → Option (List NodeId)
  | [], _ => some []
  | length :: rest, buckets =>
      match buckets.get length with
      | none => none
      | some nodes => (drain shuffle rest (buckets.remove length)).map (shuffle nodes ++ ·)

/-- `into_iter`, `shuffle` standing for `nodes.shuffle(&mut rng)`. -/
def intoIter (queue : NodeSortedByStaleLength NodeId) (shuffle : List NodeId → List NodeId) :
    Option (List NodeId) :=
  drain shuffle queue.staleLengths.elems queue.nodePerStaleLength

/-! ## What a sequence of inserts builds -/

/-- The nodes inserted with a given stale length, in insertion order. -/
def bucketOf (inserted : List (NodeId × Nat)) (length : Nat) : List NodeId :=
  (inserted.filter fun e => e.2 = length).map (·.1)

/-- The queue holds a bucket for exactly the lengths inserted, with the nodes
inserted under it, and its heap holds each of those lengths once. -/
structure Tracks (queue : NodeSortedByStaleLength NodeId) (inserted : List (NodeId × Nat)) :
    Prop where
  bucket : ∀ length, queue.nodePerStaleLength.get length =
    if (bucketOf inserted length).isEmpty then none else some (bucketOf inserted length)
  heap_nodup : queue.staleLengths.elems.Nodup
  mem_heap : ∀ length, length ∈ queue.staleLengths.elems ↔ bucketOf inserted length ≠ []

theorem bucketOf_append_single (inserted : List (NodeId × Nat)) (nodeId : NodeId)
    (length length' : Nat) :
    bucketOf (inserted ++ [(nodeId, length)]) length' =
      if length = length' then bucketOf inserted length' ++ [nodeId]
      else bucketOf inserted length' := by
  by_cases h : length = length' <;> simp [bucketOf, h]

@[simp] theorem staleLengths_empty :
    (∅ : NodeSortedByStaleLength NodeId).staleLengths = ∅ := rfl

theorem tracks_empty : (∅ : NodeSortedByStaleLength NodeId).Tracks [] :=
  ⟨fun _ => rfl, List.nodup_nil, fun _ => by simp [bucketOf]⟩

theorem Tracks.insert {queue : NodeSortedByStaleLength NodeId} {inserted : List (NodeId × Nat)}
    (tracks : queue.Tracks inserted) (nodeId : NodeId) (length : Nat) :
    (queue.insert nodeId length).Tracks (inserted ++ [(nodeId, length)]) := by
  unfold NodeSortedByStaleLength.insert
  cases hget : queue.nodePerStaleLength.get length with
  | some nodes =>
      have hb : bucketOf inserted length = nodes ∧ nodes ≠ [] := by
        have := tracks.bucket length
        split at this <;> simp_all [List.isEmpty_iff]
      refine ⟨fun length' => ?_, tracks.heap_nodup, fun length' => ?_⟩
      · rw [SortedMap.get_insert, bucketOf_append_single]
        by_cases h : length = length'
        · subst h; simp [hb.1]
        · rw [if_neg h, if_neg h, tracks.bucket]
      · rw [tracks.mem_heap, bucketOf_append_single]
        by_cases h : length = length'
        · subst h; simp [hb]
        · rw [if_neg h]
  | none =>
      have hb : bucketOf inserted length = [] := by
        have := tracks.bucket length
        split at this <;> simp_all
      have fresh : length ∉ queue.staleLengths.elems := by simp [tracks.mem_heap, hb]
      refine ⟨fun length' => ?_, ?_, fun length' => ?_⟩
      · rw [SortedMap.get_insert, bucketOf_append_single]
        by_cases h : length = length'
        · subst h; simp [hb]
        · rw [if_neg h, if_neg h, tracks.bucket]
      · exact (BinaryHeap.push_perm _ _).nodup_iff.mpr
          (List.nodup_cons.mpr ⟨fresh, tracks.heap_nodup⟩)
      · rw [(BinaryHeap.push_perm _ _).mem_iff, List.mem_cons, tracks.mem_heap,
          bucketOf_append_single]
        by_cases h : length = length'
        · subst h; simp [hb]
        · simp [h, Ne.symm h]

theorem Tracks.foldl_insert {queue : NodeSortedByStaleLength NodeId}
    {inserted : List (NodeId × Nat)} (tracks : queue.Tracks inserted)
    (more : List (NodeId × Nat)) :
    (more.foldl (fun q e => q.insert e.1 e.2) queue).Tracks (inserted ++ more) := by
  induction more generalizing queue inserted with
  | nil => simpa using tracks
  | cons e rest ih => simpa using ih (tracks.insert e.1 e.2)

theorem drain_eq (shuffle : List NodeId → List NodeId) {heap : List Nat}
    (nodup : heap.Nodup) {buckets : SortedMap Nat (List NodeId)} {f : Nat → List NodeId}
    (present : ∀ length ∈ heap, buckets.get length = some (f length)) :
    drain shuffle heap buckets = some (heap.flatMap fun length => shuffle (f length)) := by
  induction heap generalizing buckets with
  | nil => rfl
  | cons length rest ih =>
      rw [List.nodup_cons] at nodup
      have later : ∀ length' ∈ rest, (buckets.remove length).get length' = some (f length') :=
        fun length' mem => by
          rw [SortedMap.get_remove, if_neg (fun (h : length' = length) => nodup.1 (h ▸ mem))]
          exact present length' (List.mem_cons_of_mem _ mem)
      simp [drain, present length (List.mem_cons_self _ _), ih nodup.2 later]

/-- `into_iter` yields each bucket, shuffled, in the order the heap pops the
lengths; it does not fail. -/
theorem Tracks.intoIter {queue : NodeSortedByStaleLength NodeId}
    {inserted : List (NodeId × Nat)} (tracks : queue.Tracks inserted)
    (shuffle : List NodeId → List NodeId) :
    queue.intoIter shuffle = some (queue.staleLengths.elems.flatMap fun length =>
      shuffle (bucketOf inserted length)) :=
  drain_eq shuffle tracks.heap_nodup fun length mem => by
    rw [tracks.bucket]
    simpa [List.isEmpty_iff] using (tracks.mem_heap length).mp mem

/-! ## The order `into_iter` yields -/

theorem mem_bucketOf {inserted : List (NodeId × Nat)} {nodeId : NodeId} {length : Nat} :
    nodeId ∈ bucketOf inserted length ↔ (nodeId, length) ∈ inserted := by
  simp only [bucketOf, List.mem_map, List.mem_filter, decide_eq_true_eq]
  constructor
  · rintro ⟨⟨n, l⟩, ⟨mem, rfl⟩, rfl⟩
    exact mem
  · exact fun mem => ⟨_, ⟨mem, rfl⟩, rfl⟩

/-- With distinct nodes, a node was inserted under one length only. -/
theorem length_unique {inserted : List (NodeId × Nat)} (distinct : (inserted.map (·.1)).Nodup)
    {nodeId : NodeId} {length₁ length₂ : Nat} (mem₁ : (nodeId, length₁) ∈ inserted)
    (mem₂ : (nodeId, length₂) ∈ inserted) : length₁ = length₂ :=
  congrArg Prod.snd (List.inj_on_of_nodup_map distinct mem₁ mem₂ rfl)

theorem map_pair_bucketOf (inserted : List (NodeId × Nat)) (length : Nat) :
    (bucketOf inserted length).map (·, length) = inserted.filter fun e => e.2 = length := by
  rw [bucketOf, List.map_map]
  conv_rhs => rw [← List.map_id (inserted.filter _)]
  exact List.map_congr_left fun e mem => by
    rw [List.mem_filter, decide_eq_true_eq] at mem
    simp [← mem.2]

/-- Taking the buckets of a duplicate-free list of lengths that holds every
inserted length regroups the insertions. -/
theorem perm_flatMap_bucketOf {inserted : List (NodeId × Nat)} {lengths : List Nat}
    (nodup : lengths.Nodup) (covers : ∀ e ∈ inserted, e.2 ∈ lengths) :
    (lengths.flatMap fun length => (bucketOf inserted length).map (·, length)).Perm inserted := by
  simp only [map_pair_bucketOf]
  induction lengths generalizing inserted with
  | nil => simp [List.eq_nil_iff_forall_not_mem.2 fun e mem => List.not_mem_nil _ (covers e mem)]
  | cons length lengths ih =>
    rw [List.nodup_cons] at nodup
    have rest := @ih (inserted.filter fun e => !decide (e.2 = length)) nodup.2
      fun e mem => by
        rw [List.mem_filter, Bool.not_eq_true', decide_eq_false_iff_not] at mem
        exact (List.mem_cons.1 (covers e mem.1)).resolve_left mem.2
    -- the inserts of `length` first, then the others, regrouped by the induction
    rw [List.flatMap_cons]
    refine (List.Perm.append_left _
      (.trans (.of_eq (List.flatMap_congr fun l mem => ?_)) rest)).trans
        (List.filter_append_perm _ inserted)
    rw [List.filter_filter]
    exact List.filter_congr fun e _ => by
      by_cases h : e.2 = l
      · simp [h, show l ≠ length from fun same => nodup.1 (same ▸ mem)]
      · simp [h]

/-- What a queue keyed by stale length is for: it yields the inserted nodes, one
per insertion, by non-increasing length, in any order among equal lengths. -/
def YieldsByLength (inserted : List (NodeId × Nat)) (order : List NodeId) : Prop :=
  ∃ yielded : List (NodeId × Nat), yielded.Perm inserted ∧
    yielded.Sorted (fun a b => b.2 ≤ a.2) ∧ yielded.map (·.1) = order

/-- `into_iter` refines `YieldsByLength`, whatever the inserts and the shuffles. -/
theorem Tracks.yieldsByLength {queue : NodeSortedByStaleLength NodeId}
    {inserted : List (NodeId × Nat)} (tracks : queue.Tracks inserted)
    {shuffle : List NodeId → List NodeId} (shuffle_perm : ∀ nodes, (shuffle nodes).Perm nodes) :
    ∃ order, queue.intoIter shuffle = some order ∧ YieldsByLength inserted order := by
  refine ⟨_, tracks.intoIter shuffle, queue.staleLengths.elems.flatMap fun length =>
    (shuffle (bucketOf inserted length)).map (·, length), ?_, ?_,
    by simp [List.map_flatMap, Function.comp_def]⟩
  · refine .trans (.flatMap_left _ fun length _ => (shuffle_perm _).map _)
      (perm_flatMap_bucketOf tracks.heap_nodup fun e mem => (tracks.mem_heap e.2).2 ?_)
    exact List.ne_nil_of_mem (mem_bucketOf.2 mem)
  · refine List.pairwise_flatMap.2 ⟨fun length _ => ?_, queue.staleLengths.sorted.imp ?_⟩
    · exact List.pairwise_map.2 (List.pairwise_of_forall fun _ _ => le_rfl)
    · intro l₁ l₂ ge a mem_a b mem_b
      obtain ⟨_, -, rfl⟩ := List.mem_map.1 mem_a
      obtain ⟨_, -, rfl⟩ := List.mem_map.1 mem_b
      exact ge

theorem YieldsByLength.perm {inserted : List (NodeId × Nat)} {order : List NodeId}
    (yields : YieldsByLength inserted order) : order.Perm (inserted.map (·.1)) := by
  obtain ⟨yielded, perm, -, rfl⟩ := yields
  exact perm.map _

/-- With distinct nodes, each node has one length, and the order is by it. -/
theorem YieldsByLength.pairwise {inserted : List (NodeId × Nat)} {order : List NodeId}
    (yields : YieldsByLength inserted order) (distinct : (inserted.map (·.1)).Nodup) :
    order.Pairwise fun a b => ∀ la lb, (a, la) ∈ inserted → (b, lb) ∈ inserted → lb ≤ la := by
  obtain ⟨yielded, perm, sorted, rfl⟩ := yields
  refine List.pairwise_map.2 (sorted.imp_of_mem fun {a b} mem_a mem_b le la lb ha hb => ?_)
  rw [length_unique distinct ha (perm.mem_iff.1 mem_a),
    length_unique distinct hb (perm.mem_iff.1 mem_b)]
  exact le

/-- The nodes `into_iter` yields are the inserted ones, each once when the inserted
nodes are distinct, by non-increasing length. -/
theorem Tracks.order {queue : NodeSortedByStaleLength NodeId} {inserted : List (NodeId × Nat)}
    (tracks : queue.Tracks inserted) {shuffle : List NodeId → List NodeId}
    (shuffle_perm : ∀ nodes, (shuffle nodes).Perm nodes) :
    ∃ order, queue.intoIter shuffle = some order ∧
      (∀ nodeId, nodeId ∈ order ↔ ∃ length, (nodeId, length) ∈ inserted) ∧
      ((inserted.map (·.1)).Nodup → order.Nodup ∧ order.Pairwise fun a b =>
        ∀ la lb, (a, la) ∈ inserted → (b, lb) ∈ inserted → lb ≤ la) := by
  obtain ⟨order, run, yields⟩ := tracks.yieldsByLength shuffle_perm
  exact ⟨order, run, fun nodeId => by simp [yields.perm.mem_iff],
    fun distinct => ⟨yields.perm.nodup_iff.2 distinct, yields.pairwise distinct⟩⟩

/-! ## The heap and the buckets -/

/-- The heap holds each key of the buckets map once, and nothing else. -/
def HeapMatchesBuckets (queue : NodeSortedByStaleLength NodeId) : Prop :=
  queue.staleLengths.elems.Perm (queue.nodePerStaleLength.entries.map (·.1))

theorem Tracks.heapMatchesBuckets {queue : NodeSortedByStaleLength NodeId}
    {inserted : List (NodeId × Nat)} (tracks : queue.Tracks inserted) :
    queue.HeapMatchesBuckets := by
  refine (List.perm_ext_iff_of_nodup tracks.heap_nodup queue.nodePerStaleLength.nodup_keys).2
    fun length => ?_
  simp only [tracks.mem_heap, List.mem_map, Prod.exists, exists_and_right, exists_eq_right,
    SortedMap.mem_entries_iff, tracks.bucket]
  by_cases empty : bucketOf inserted length = [] <;> simp [empty, List.isEmpty_iff]

theorem tracks_foldl_insert (inserted : List (NodeId × Nat)) :
    (inserted.foldl (fun q e => q.insert e.1 e.2) ∅ : NodeSortedByStaleLength NodeId).Tracks
      inserted := by
  simpa using tracks_empty.foldl_insert inserted

/-- A correct bucket queue: after every insert the heap holds each bucket's length
once and nothing else, and `into_iter` never fails its `unwrap`; with distinct
nodes it yields each once, by non-increasing length. -/
theorem intoIter_yields_by_stale_length (inserted : List (NodeId × Nat))
    (distinct : (inserted.map (·.1)).Nodup) (shuffle : List NodeId → List NodeId)
    (shuffle_perm : ∀ nodes, (shuffle nodes).Perm nodes) :
    (∀ n, ((inserted.take n).foldl (fun q e => q.insert e.1 e.2) ∅ :
      NodeSortedByStaleLength NodeId).HeapMatchesBuckets) ∧
    ∃ order, (inserted.foldl (fun q e => q.insert e.1 e.2) ∅ :
        NodeSortedByStaleLength NodeId).intoIter shuffle = some order ∧
      order.Perm (inserted.map (·.1)) ∧
      order.Pairwise fun a b => ∀ la lb, (a, la) ∈ inserted → (b, lb) ∈ inserted → lb ≤ la := by
  obtain ⟨order, run, yields⟩ := (tracks_foldl_insert inserted).yieldsByLength shuffle_perm
  exact ⟨fun n => (tracks_foldl_insert _).heapMatchesBuckets, order, run, yields.perm,
    yields.pairwise distinct⟩

/-- The inserts of the test with doubled lengths satisfy the hypotheses of
`intoIter_yields_by_stale_length`. -/
theorem intoIter_yields_by_stale_length_doubles :
    (([(10001, 1), (20001, 2), (20002, 2), (20003, 2)] : List (Nat × Nat)).map (·.1)).Nodup ∧
      ∃ order, (([(10001, 1), (20001, 2), (20002, 2), (20003, 2)] : List (Nat × Nat)).foldl
        (fun q e => q.insert e.1 e.2) ∅ : NodeSortedByStaleLength Nat).intoIter id = some order :=
  ⟨by decide, (intoIter_yields_by_stale_length _ (by decide) id fun _ => .refl _).2.imp
    fun _ h => h.1⟩

example :
    (([(10001, 1), (10002, 2), (10003, 3)] : List (Nat × Nat)).foldl
      (fun q e => q.insert e.1 e.2) ∅ : NodeSortedByStaleLength Nat).intoIter id =
        some [10003, 10002, 10001] := by
  decide

end NodeSortedByStaleLength

end Chitchat
