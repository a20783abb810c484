import Chitchat.NodeState

/-!
# Deltas and the delta writer

`delta.rs` is not among the sources: `Delta`, `NodeDelta` and `DeltaWriter`
are modelled from the specification (its sections 4.4 and 6). A node delta is
an ordered list of updates. The writer's byte accounting compares serialized
sizes, which belong to the serializer; the model keeps the budget abstract as
an admission test, `Mtu.fits`, so that every pattern of acceptances and
refusals a byte budget can produce is an instance of it. The writer is kept as
what it was handed (the accepted additions and the refused one); `into` groups
the accepted additions into node sections.

`Writes w w' plan` describes a run of the writer from `w` to `w'` over a prefix
of a planned sequence of additions; runs compose (`Writes.append`), which is
how the second loop of `compute_delta` is specified.
-/

namespace Chitchat

/-- Modelled from the spec: a `NodeDelta`, the ordered updates of one node. -/
abbrev NodeDelta := List (String × VersionedValue)

/-- Modelled from the spec: `Delta`, per-node updates and the nodes the peer must
reset before applying them. -/
structure Delta (NodeId : Type) [LinearOrder NodeId] where
  nodeDeltas : SortedMap NodeId NodeDelta
  nodesToReset : List NodeId

/-- Modelled from the spec: an addition a `DeltaWriter` is asked for, a node
section header (`add_node`) or an update of the open section (`add_kv`). -/
inductive Addition (NodeId : Type) where
  | node (nodeId : NodeId)
  | kv (key : String) (versionedValue : VersionedValue)
  deriving DecidableEq, Repr

/-- Modelled from the spec: the MTU of a `DeltaWriter`. `fits sent next` says
whether `next` still fits after the accepted additions `sent`. -/
structure Mtu (NodeId : Type) where
  fits : List (Addition NodeId) → Addition NodeId → Bool

/-- An MTU that no delta reaches. -/
def Mtu.unbounded {NodeId : Type} : Mtu NodeId := ⟨fun _ _ => true⟩

/-- The MTU accepts `additions` one after the other once `sent` is accepted. -/
def Mtu.accepts {NodeId : Type} (mtu : Mtu NodeId) :
    List (Addition NodeId) → List (Addition NodeId) → Prop
  | _, [] => True
  | sent, addition :: rest =>
      mtu.fits sent addition = true ∧ mtu.accepts (sent ++ [addition]) rest

/-- Modelled from the spec: `DeltaWriter`, by what it was given: the nodes to
reset, the additions it accepted (what the byte count is charged for), and the
addition it refused, after which no further addition is legal. -/
structure DeltaWriter (NodeId : Type) where
  mtu : Mtu NodeId
  nodesToReset : List NodeId
  sent : List (Addition NodeId)
  refused : Option (Addition NodeId)

/-- The updates at the head of a list of additions, up to the next node header. -/
def leadingKvs {NodeId : Type} : List (Addition NodeId) → NodeDelta
  | .kv key versionedValue :: rest => (key, versionedValue) :: leadingKvs rest
  | _ => []

/-- The node sections of a list of additions: each node header with the updates
that follow it. -/
def sections {NodeId : Type} : List (Addition NodeId) → List (NodeId × NodeDelta)
  | [] => []
  | .node nodeId :: rest => (nodeId, leadingKvs rest) :: sections rest
  | .kv _ _ :: rest => sections rest

section Sections

variable {NodeId : Type}

/-- The additions of one node section: its header, then its updates in order. -/
def nodeSection (nodeId : NodeId) (nodeDelta : NodeDelta) : List (Addition NodeId) :=
  .node nodeId :: nodeDelta.map fun kv => .kv kv.1 kv.2

@[simp] theorem leadingKvs_kvs_append (nodeDelta : NodeDelta) (rest : List (Addition NodeId)) :
    leadingKvs (nodeDelta.map (fun kv => .kv kv.1 kv.2) ++ rest) =
      nodeDelta ++ leadingKvs rest := by
  induction nodeDelta with
  | nil => rfl
  | cons kv nodeDelta ih => simp [leadingKvs, ih]

@[simp] theorem sections_kvs_append (nodeDelta : NodeDelta) (rest : List (Addition NodeId)) :
    sections (nodeDelta.map (fun kv => .kv kv.1 kv.2) ++ rest) = sections rest := by
  induction nodeDelta with
  | nil => rfl
  | cons kv nodeDelta ih => simp [sections, ih]

theorem leadingKvs_flatMap (order : List NodeId) (nodeDelta : NodeId → NodeDelta) :
    leadingKvs (order.flatMap fun n => nodeSection n (nodeDelta n)) = [] := by
  cases order <;> rfl

/-- A sequence of node sections is read back section by section. -/
theorem sections_flatMap (order : List NodeId) (nodeDelta : NodeId → NodeDelta) :
    sections (order.flatMap fun n => nodeSection n (nodeDelta n)) =
      order.map fun n => (n, nodeDelta n) := by
  induction order with
  | nil => rfl
  | cons n order ih =>
    rw [List.flatMap_cons, nodeSection, List.cons_append, sections, leadingKvs_kvs_append,
      sections_kvs_append, leadingKvs_flatMap, ih, List.append_nil, List.map_cons]

theorem leadingKvs_prefix_leadingKvs {additions additions' : List (Addition NodeId)}
    (h : additions <+: additions') :
    leadingKvs additions <+: leadingKvs additions' := by
  induction additions generalizing additions' with
  | nil => exact List.nil_prefix
  | cons addition rest ih =>
    obtain ⟨additions', rfl⟩ := h
    cases addition with
    | node n => exact List.nil_prefix
    | kv key versionedValue =>
      exact List.cons_prefix_cons.2 ⟨rfl, ih (List.prefix_append _ _)⟩

theorem sections_prefix_kvs_append {additions : List (Addition NodeId)} {nodeDelta : NodeDelta}
    {rest : List (Addition NodeId)}
    (h : additions <+: nodeDelta.map (fun kv => .kv kv.1 kv.2) ++ rest) :
    ∃ additions', additions' <+: rest ∧ sections additions = sections additions' := by
  induction nodeDelta generalizing additions with
  | nil => exact ⟨additions, h, rfl⟩
  | cons kv nodeDelta ih =>
    cases additions with
    | nil => exact ⟨[], List.nil_prefix, rfl⟩
    | cons addition additions =>
      rw [List.map_cons, List.cons_append, List.cons_prefix_cons] at h
      obtain ⟨rfl, h⟩ := h
      obtain ⟨additions', h', same⟩ := ih h
      exact ⟨additions', h', same⟩

/-- A section read from a prefix of a sequence of node sections belongs to a
node of the sequence and is a prefix of that node's updates. -/
theorem lookup_sections_prefix_flatMap [DecidableEq NodeId] {order : List NodeId}
    {nodeDelta : NodeId → NodeDelta} {additions : List (Addition NodeId)}
    (h : additions <+: order.flatMap fun n => nodeSection n (nodeDelta n))
    {nodeId : NodeId} {updates : NodeDelta}
    (found : SortedMap.lookup nodeId (sections additions) = some updates) :
    nodeId ∈ order ∧ updates <+: nodeDelta nodeId := by
  induction order generalizing additions with
  | nil => simp_all [List.prefix_nil, sections]
  | cons n order ih =>
    cases additions with
    | nil => simp [sections] at found
    | cons addition additions =>
      rw [List.flatMap_cons, nodeSection, List.cons_append, List.cons_prefix_cons] at h
      obtain ⟨rfl, h⟩ := h
      simp only [sections, SortedMap.lookup_cons] at found
      split_ifs at found with same
      · cases same
        cases found
        have := leadingKvs_prefix_leadingKvs h
        rw [leadingKvs_kvs_append, leadingKvs_flatMap, List.append_nil] at this
        exact ⟨List.mem_cons_self _ _, this⟩
      · obtain ⟨additions', h', same'⟩ := sections_prefix_kvs_append h
        rw [same'] at found
        exact (ih h' found).imp_left (List.mem_cons_of_mem n)

theorem lookup_sections_flatMap [DecidableEq NodeId] (order : List NodeId)
    (nodeDelta : NodeId → NodeDelta) (nodeId : NodeId) :
    SortedMap.lookup nodeId (sections (order.flatMap fun n => nodeSection n (nodeDelta n))) =
      if nodeId ∈ order then some (nodeDelta nodeId) else none := by
  rw [sections_flatMap]
  induction order with
  | nil => simp
  | cons n order ih =>
    by_cases same : n = nodeId
    · subst same
      simp [SortedMap.lookup_cons]
    · simp [SortedMap.lookup_cons, same, ih, Ne.symm same]

end Sections

namespace DeltaWriter

variable {NodeId : Type}

/-- Modelled from the spec: `DeltaWriter::with_mtu`. -/
def withMtu (mtu : Mtu NodeId) : DeltaWriter NodeId := ⟨mtu, [], [], none⟩

/-- Modelled from the spec: `add_node_to_reset`. -/
def addNodeToReset (w : DeltaWriter NodeId) (nodeId : NodeId) : DeltaWriter NodeId :=
  { w with nodesToReset := w.nodesToReset ++ [nodeId] }

/-- Modelled from the spec: one addition, `false` when it does not fit. -/
def add (w : DeltaWriter NodeId) (addition : Addition NodeId) : Bool × DeltaWriter NodeId :=
  if w.mtu.fits w.sent addition then (true, { w with sent := w.sent ++ [addition] })
  else (false, { w with refused := some addition })

/-- Modelled from the spec: `add_node`, opening a node section. -/
def addNode (w : DeltaWriter NodeId) (nodeId : NodeId) : Bool × DeltaWriter NodeId :=
  w.add (.node nodeId)

/-- Modelled from the spec: `add_kv`, an update of the open node section. -/
def addKv (w : DeltaWriter NodeId) (key : String) (versionedValue : VersionedValue) :
    Bool × DeltaWriter NodeId :=
  w.add (.kv key versionedValue)

/-- Modelled from the spec: finalizing a writer into its `Delta`. -/
def into [LinearOrder NodeId] [DecidableEq NodeId] (w : DeltaWriter NodeId) : Delta NodeId :=
  ⟨SortedMap.ofList (sections w.sent), w.nodesToReset⟩

/-- The additions handed to the writer, in order: the accepted ones, then the
refused one. -/
def handed (w : DeltaWriter NodeId) : List (Addition NodeId) := w.sent ++ w.refused.toList

/-! ## Runs of the writer over a planned sequence -/

/-- From `w` to `w'` the writer was handed a prefix of `plan`: it accepted, in
order, the additions that `w'.sent` adds to `w.sent`, and refused the next
addition of `plan` when it refused one. -/
structure Writes (w w' : DeltaWriter NodeId) (plan : List (Addition NodeId)) : Prop where
  mtu : w'.mtu = w.mtu
  nodesToReset : w'.nodesToReset = w.nodesToReset
  sent : ∃ accepted, w'.sent = w.sent ++ accepted ∧ w.mtu.accepts w.sent accepted ∧
    accepted ++ w'.refused.toList <+: plan ∧ (w'.refused = none → accepted = plan)
  refused : ∀ addition, w'.refused = some addition → w.mtu.fits w'.sent addition = false

theorem accepts_append (mtu : Mtu NodeId) (sent first second : List (Addition NodeId)) :
    mtu.accepts sent (first ++ second) ↔
      mtu.accepts sent first ∧ mtu.accepts (sent ++ first) second := by
  induction first generalizing sent with
  | nil => simp [Mtu.accepts]
  | cons addition rest ih => simp [Mtu.accepts, ih, and_assoc]

theorem writes_nil {w : DeltaWriter NodeId} (open_ : w.refused = none) : Writes w w [] :=
  ⟨rfl, rfl, ⟨[], by simp, trivial, by simp [open_], fun _ => rfl⟩, by simp [open_]⟩

theorem add_writes {w : DeltaWriter NodeId} (open_ : w.refused = none)
    (addition : Addition NodeId) :
    Writes w (w.add addition).2 [addition] ∧
      ((w.add addition).1 = true ↔ (w.add addition).2.refused = none) := by
  unfold add
  by_cases fits : w.mtu.fits w.sent addition
  · simp only [fits, if_true]
    exact ⟨⟨rfl, rfl, ⟨[addition], rfl, ⟨fits, trivial⟩, by simp [open_], fun _ => rfl⟩,
      by simp [open_]⟩, by simp [open_]⟩
  · simp only [fits, if_false]
    exact ⟨⟨rfl, rfl, ⟨[], by simp, trivial, by simp, by simp⟩, by simpa using fits⟩,
      by simp⟩

/-- A run that ended open continues with the next run. -/
theorem Writes.append {w w₁ w₂ : DeltaWriter NodeId} {first second : List (Addition NodeId)}
    (h₁ : Writes w w₁ first) (open₁ : w₁.refused = none) (h₂ : Writes w₁ w₂ second) :
    Writes w w₂ (first ++ second) := by
  obtain ⟨mtu₁, resets₁, ⟨acc₁, sent₁, accepts₁, -, full₁⟩, -⟩ := h₁
  rcases h₂ with ⟨mtu₂, resets₂, ⟨acc₂, sent₂, accepts₂, prefix₂, full₂⟩, refused₂⟩
  cases full₁ open₁
  refine ⟨mtu₂.trans mtu₁, resets₂.trans resets₁,
    ⟨first ++ acc₂, ?_, ?_, ?_, ?_⟩, ?_⟩
  · rw [sent₂, sent₁, List.append_assoc]
  · rw [accepts_append, ← sent₁]
    exact ⟨accepts₁, mtu₁ ▸ accepts₂⟩
  · simpa [List.append_assoc] using prefix₂
  · intro h
    rw [full₂ h]
  · intro addition h
    rw [← mtu₁]
    exact refused₂ addition h

/-- A run that ended with a refusal is a run over any longer plan. -/
theorem Writes.extend {w w' : DeltaWriter NodeId} {plan : List (Addition NodeId)}
    (h : Writes w w' plan) (closed : w'.refused ≠ none) (more : List (Addition NodeId)) :
    Writes w w' (plan ++ more) := by
  obtain ⟨mtu, resets, ⟨acc, sent, accepts, prefix_, -⟩, refused⟩ := h
  exact ⟨mtu, resets, ⟨acc, sent, accepts, prefix_.trans (List.prefix_append _ _),
    fun h => absurd h closed⟩, refused⟩

/-! ## The delta of a run over planned node sections -/

section Into

variable [LinearOrder NodeId] [DecidableEq NodeId] {mtu : Mtu NodeId} {nodesToReset : List NodeId}
  {w : DeltaWriter NodeId} {order : List NodeId} {nodeDelta : NodeId → NodeDelta}

/-- Every section of the delta belongs to a planned node and is a prefix of its
planned updates. -/
theorem Writes.get_into (h : Writes ⟨mtu, nodesToReset, [], none⟩ w
      (order.flatMap fun n => nodeSection n (nodeDelta n)))
    {nodeId : NodeId} {updates : NodeDelta} (found : w.into.nodeDeltas.get nodeId = some updates) :
    nodeId ∈ order ∧ updates <+: nodeDelta nodeId := by
  obtain ⟨-, -, ⟨accepted, sent, -, handed, -⟩, -⟩ := h
  rw [into, SortedMap.get_ofList, sent, List.nil_append] at found
  exact lookup_sections_prefix_flatMap ((List.prefix_append _ _).trans handed) found

/-- When nothing was refused, the delta holds every planned section in full. -/
theorem Writes.get_into_of_open (h : Writes ⟨mtu, nodesToReset, [], none⟩ w
      (order.flatMap fun n => nodeSection n (nodeDelta n)))
    (open_ : w.refused = none) (nodeId : NodeId) :
    w.into.nodeDeltas.get nodeId = if nodeId ∈ order then some (nodeDelta nodeId) else none := by
  obtain ⟨-, -, ⟨accepted, sent, -, -, full⟩, -⟩ := h
  rw [into, SortedMap.get_ofList, sent, full open_, List.nil_append, lookup_sections_flatMap]

theorem Writes.into_nodesToReset {plan : List (Addition NodeId)}
    (h : Writes ⟨mtu, nodesToReset, [], none⟩ w plan) : w.into.nodesToReset = nodesToReset :=
  h.nodesToReset

omit [LinearOrder NodeId] [DecidableEq NodeId] in
/-- A writer with an unbounded MTU refuses nothing. -/
theorem Writes.open_of_unbounded {w₀ : DeltaWriter NodeId} {plan : List (Addition NodeId)}
    (h : Writes w₀ w plan) (unbounded : w₀.mtu = Mtu.unbounded) : w.refused = none := by
  cases refused : w.refused with
  | none => rfl
  | some addition =>
    have := h.refused addition refused
    rw [unbounded] at this
    cases this

end Into

end DeltaWriter

end Chitchat
