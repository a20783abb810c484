import Chitchat.ClusterState

/-!
# Applying deltas twice, and in either order

`apply_delta` keeps, under each key, the stored record unless an incoming one is
strictly newer, and raises `max_version` to every version it sees. After a node
delta is applied, the state absorbs each of its updates, so a second
application changes nothing. Two updates commute unless they share key and
version with different contents, so node deltas that agree commute. At the
level of cluster states, a reset wipes a node, which no longer commutes with
the other delta's updates of that node.
-/

namespace Chitchat

namespace NodeState

/-- The record `apply_delta` leaves under a key: the stored one unless the
incoming one is strictly newer. -/
def keep (stored : Option VersionedValue) (incoming : VersionedValue) : Option VersionedValue :=
  match stored with
  | some record => if incoming.version ≤ record.version then some record else some incoming
  | none => some incoming

@[simp] theorem applyKeyValue_maxVersion (ns : NodeState) (kv : String × VersionedValue) :
    (ns.applyKeyValue kv).maxVersion = max ns.maxVersion kv.2.version := by
  unfold applyKeyValue
  split
  · split <;> rfl
  · rfl

theorem getVersioned_applyKeyValue (ns : NodeState) (kv : String × VersionedValue)
    (key : String) :
    (ns.applyKeyValue kv).getVersioned key =
      if kv.1 = key then keep (ns.getVersioned key) kv.2 else ns.getVersioned key := by
  unfold applyKeyValue getVersioned
  by_cases hk : kv.1 = key
  · subst hk
    split <;> rename_i h
    · split <;> simp [keep, h, *]
    · simp [keep, h]
  · split
    · split <;> simp [hk]
    · simp [hk]

@[simp] theorem applyNodeDelta_nil (ns : NodeState) : ns.applyNodeDelta [] = ns := rfl

theorem applyNodeDelta_cons (ns : NodeState) (kv : String × VersionedValue) (rest : NodeDelta) :
    ns.applyNodeDelta (kv :: rest) = (ns.applyKeyValue kv).applyNodeDelta rest := rfl

/-- After a node delta, `max_version` is the greatest of the old one and of the
delta's versions. -/
theorem applyNodeDelta_maxVersion_le_iff (ns : NodeState) (nodeDelta : NodeDelta) (bound : Nat) :
    (ns.applyNodeDelta nodeDelta).maxVersion ≤ bound ↔
      ns.maxVersion ≤ bound ∧ ∀ kv ∈ nodeDelta, kv.2.version ≤ bound := by
  induction nodeDelta generalizing ns with
  | nil => simp
  | cons kv rest ih =>
    simp only [applyNodeDelta_cons, ih, applyKeyValue_maxVersion, max_le_iff, List.forall_mem_cons,
      and_assoc]

theorem applyNodeDelta_maxVersion_lt_iff (ns : NodeState) (nodeDelta : NodeDelta) (bound : Nat) :
    (ns.applyNodeDelta nodeDelta).maxVersion < bound ↔
      ns.maxVersion < bound ∧ ∀ kv ∈ nodeDelta, kv.2.version < bound := by
  induction nodeDelta generalizing ns with
  | nil => simp
  | cons kv rest ih =>
    simp only [applyNodeDelta_cons, ih, applyKeyValue_maxVersion, max_lt_iff, List.forall_mem_cons,
      and_assoc]

theorem applyNodeDelta_append (ns : NodeState) (nodeDelta₁ nodeDelta₂ : NodeDelta) :
    ns.applyNodeDelta (nodeDelta₁ ++ nodeDelta₂) =
      (ns.applyNodeDelta nodeDelta₁).applyNodeDelta nodeDelta₂ :=
  List.foldl_append _ _ _ _

/-- A node delta with distinct keys acts key by key: the stored record stays
unless the delta's record for the key is strictly newer. -/
theorem getVersioned_applyNodeDelta {nodeDelta : NodeDelta}
    (distinct : (nodeDelta.map (·.1)).Nodup) (ns : NodeState) (key : String) :
    (ns.applyNodeDelta nodeDelta).getVersioned key =
      (SortedMap.lookup key nodeDelta).elim (ns.getVersioned key) (keep (ns.getVersioned key)) := by
  induction nodeDelta generalizing ns with
  | nil => rfl
  | cons kv rest ih =>
    rw [List.map_cons, List.nodup_cons] at distinct
    rw [applyNodeDelta_cons, ih distinct.2, SortedMap.lookup_cons, getVersioned_applyKeyValue]
    by_cases hk : kv.1 = key
    · subst hk
      simp [SortedMap.lookup_eq_none_of_not_mem distinct.1]
    · simp only [hk, if_false]

theorem keep_eq_some {stored : Option VersionedValue} {incoming w : VersionedValue}
    (h : keep stored incoming = some w) : stored = some w ∨ incoming = w := by
  cases stored with
  | none => exact .inr (Option.some.inj h)
  | some record =>
      by_cases older : incoming.version ≤ record.version
      · rw [keep, if_pos older] at h
        exact .inl h
      · rw [keep, if_neg older] at h
        exact .inr (Option.some.inj h)

/-- A record after a node delta is the stored one or one of the delta's. -/
theorem getVersioned_applyNodeDelta_of_some {ns : NodeState} {nodeDelta : NodeDelta}
    {key : String} {w : VersionedValue}
    (held : (ns.applyNodeDelta nodeDelta).getVersioned key = some w) :
    ns.getVersioned key = some w ∨ (key, w) ∈ nodeDelta := by
  induction nodeDelta generalizing ns with
  | nil => exact .inl held
  | cons kv rest ih =>
    rw [applyNodeDelta_cons] at held
    rcases ih held with stored | sent
    · rw [getVersioned_applyKeyValue] at stored
      split at stored
      · rename_i same
        subst same
        rcases keep_eq_some stored with stored | rfl
        · exact .inl stored
        · exact .inr (List.mem_cons_self _ _)
      · exact .inl stored
    · exact .inr (List.mem_cons_of_mem _ sent)

/-! ## Idempotence -/

/-- `ns` holds, under the key of `kv`, a record at least as new as `kv`, and a
`max_version` at least its version. -/
def Absorbs (ns : NodeState) (kv : String × VersionedValue) : Prop :=
  kv.2.version ≤ ns.maxVersion ∧
    ∃ record, ns.getVersioned kv.1 = some record ∧ kv.2.version ≤ record.version

theorem keep_version_le {stored : Option VersionedValue} {record : VersionedValue}
    (h : stored = some record) (incoming : VersionedValue) :
    ∃ record', keep stored incoming = some record' ∧ record.version ≤ record'.version := by
  subst h
  by_cases hv : incoming.version ≤ record.version
  · exact ⟨record, by simp [keep, hv], le_rfl⟩
  · exact ⟨incoming, by simp [keep, hv], by omega⟩

theorem applyKeyValue_absorbs (ns : NodeState) (kv : String × VersionedValue) :
    (ns.applyKeyValue kv).Absorbs kv := by
  refine ⟨by simp, ?_⟩
  rw [getVersioned_applyKeyValue, if_pos rfl]
  cases ns.getVersioned kv.1 with
  | none => exact ⟨kv.2, rfl, le_rfl⟩
  | some record =>
      by_cases hv : kv.2.version ≤ record.version
      · exact ⟨record, by simp [keep, hv], hv⟩
      · exact ⟨kv.2, by simp [keep, hv], le_rfl⟩

theorem Absorbs.applyKeyValue {ns : NodeState} {kv : String × VersionedValue}
    (absorbs : ns.Absorbs kv) (kv' : String × VersionedValue) :
    (ns.applyKeyValue kv').Absorbs kv := by
  obtain ⟨hmax, record, hget, hle⟩ := absorbs
  refine ⟨by simp; omega, ?_⟩
  rw [getVersioned_applyKeyValue]
  split
  · obtain ⟨record', hkeep, hle'⟩ := keep_version_le hget kv'.2
    exact ⟨record', hkeep, hle.trans hle'⟩
  · exact ⟨record, hget, hle⟩

theorem applyKeyValue_of_absorbs {ns : NodeState} {kv : String × VersionedValue}
    (absorbs : ns.Absorbs kv) : ns.applyKeyValue kv = ns := by
  obtain ⟨hmax, record, hget, hle⟩ := absorbs
  refine ext (fun key => ?_) (by simp [hmax])
  rw [getVersioned_applyKeyValue]
  split
  · subst_vars
    simp [keep, hget, hle]
  · rfl

theorem Absorbs.applyNodeDelta {ns : NodeState} {kv : String × VersionedValue}
    (absorbs : ns.Absorbs kv) (nodeDelta : NodeDelta) :
    (ns.applyNodeDelta nodeDelta).Absorbs kv := by
  induction nodeDelta generalizing ns with
  | nil => exact absorbs
  | cons kv' rest ih => exact ih (absorbs.applyKeyValue kv')

theorem applyNodeDelta_absorbs (ns : NodeState) (nodeDelta : NodeDelta) :
    ∀ kv ∈ nodeDelta, (ns.applyNodeDelta nodeDelta).Absorbs kv := by
  induction nodeDelta generalizing ns with
  | nil => simp
  | cons kv rest ih =>
      intro kv' mem
      rw [applyNodeDelta_cons]
      rcases List.mem_cons.mp mem with rfl | mem
      · exact (applyKeyValue_absorbs ns kv').applyNodeDelta rest
      · exact ih _ kv' mem

theorem applyNodeDelta_of_absorbs {ns : NodeState} {nodeDelta : NodeDelta}
    (absorbs : ∀ kv ∈ nodeDelta, ns.Absorbs kv) : ns.applyNodeDelta nodeDelta = ns := by
  induction nodeDelta with
  | nil => rfl
  | cons kv rest ih =>
      rw [applyNodeDelta_cons, applyKeyValue_of_absorbs (absorbs kv (List.mem_cons_self _ _))]
      exact ih fun kv' mem => absorbs kv' (List.mem_cons_of_mem _ mem)

/-- A node delta applied twice acts as applied once. -/
theorem applyNodeDelta_applyNodeDelta (ns : NodeState) (nodeDelta : NodeDelta) :
    (ns.applyNodeDelta nodeDelta).applyNodeDelta nodeDelta = ns.applyNodeDelta nodeDelta :=
  applyNodeDelta_of_absorbs (applyNodeDelta_absorbs ns nodeDelta)

/-! ## Order -/

/-- Two updates agree wherever they share key and version. -/
def Agree (kv₁ kv₂ : String × VersionedValue) : Prop :=
  kv₁.1 = kv₂.1 → kv₁.2.version = kv₂.2.version → kv₁.2 = kv₂.2

theorem keep_keep (stored : Option VersionedValue) (a b : VersionedValue)
    (agree : a.version = b.version → a = b) :
    keep (keep stored a) b = keep (keep stored b) a := by
  cases stored with
  | none =>
      by_cases hab : a.version = b.version
      · rw [agree hab]
      · rcases lt_or_gt_of_ne hab with h | h <;>
          simp [keep, h.le, not_le.mpr h]
  | some record =>
      by_cases ha : a.version ≤ record.version <;> by_cases hb : b.version ≤ record.version
      · simp [keep, ha, hb]
      · simp [keep, ha, hb, (not_le.mp hb).le, ha.trans (not_le.mp hb).le]
      · simp [keep, ha, hb, (not_le.mp ha).le, hb.trans (not_le.mp ha).le]
      · by_cases hab : a.version = b.version
        · rw [agree hab]
        · rcases lt_or_gt_of_ne hab with h | h <;>
            simp [keep, ha, hb, h.le, not_le.mpr h]

theorem applyKeyValue_comm (ns : NodeState) (a b : String × VersionedValue) (agree : Agree a b) :
    (ns.applyKeyValue a).applyKeyValue b = (ns.applyKeyValue b).applyKeyValue a := by
  refine ext (fun key => ?_) (by simp only [applyKeyValue_maxVersion]; omega)
  simp only [getVersioned_applyKeyValue]
  by_cases ha : a.1 = key <;> by_cases hb : b.1 = key <;> simp only [ha, hb, if_true, if_false]
  subst ha
  exact keep_keep _ _ _ (agree hb.symm)

end NodeState

/-- Folding a list after another equals folding them the other way round when
every element of one commutes with every element of the other. -/
theorem foldl_append_comm {α β : Type} {f : β → α → β} {l₁ l₂ : List α}
    (swap : ∀ a ∈ l₁, ∀ b ∈ l₂, ∀ z, f (f z a) b = f (f z b) a) (z : β) :
    (l₁ ++ l₂).foldl f z = (l₂ ++ l₁).foldl f z := by
  induction l₂ generalizing z with
  | nil => simp
  | cons b rest ih =>
      have past : ∀ z, f (l₁.foldl f z) b = l₁.foldl f (f z b) := by
        clear ih
        induction l₁ with
        | nil => intro z; rfl
        | cons a l ihl =>
            intro z
            rw [List.foldl_cons, List.foldl_cons, ← swap a (List.mem_cons_self _ _) b
              (List.mem_cons_self _ _)]
            exact ihl (fun a' ha' b' hb' => swap a' (List.mem_cons_of_mem _ ha') b' hb') _
      have ih' := ih (fun a ha b' hb' => swap a ha b' (List.mem_cons_of_mem _ hb')) (f z b)
      simp only [List.foldl_append, List.foldl_cons] at ih' ⊢
      rw [past, ih']

namespace NodeState

theorem applyNodeDelta_comm (ns : NodeState) {nodeDelta₁ nodeDelta₂ : NodeDelta}
    (agree : ∀ a ∈ nodeDelta₁, ∀ b ∈ nodeDelta₂, Agree a b) :
    (ns.applyNodeDelta nodeDelta₁).applyNodeDelta nodeDelta₂ =
      (ns.applyNodeDelta nodeDelta₂).applyNodeDelta nodeDelta₁ := by
  rw [← applyNodeDelta_append, ← applyNodeDelta_append]
  exact foldl_append_comm (fun a ha b hb z => applyKeyValue_comm z a b (agree a ha b hb)) ns

end NodeState

namespace Delta

variable {NodeId : Type} [LinearOrder NodeId] [DecidableEq NodeId]

/-- Any (node, key, version) the two deltas both carry has the same value and
deletion flag in each. -/
def Consistent (d₁ d₂ : Delta NodeId) : Prop :=
  ∀ nodeId nodeDelta₁ nodeDelta₂, d₁.nodeDeltas.get nodeId = some nodeDelta₁ →
    d₂.nodeDeltas.get nodeId = some nodeDelta₂ →
    ∀ a ∈ nodeDelta₁, ∀ b ∈ nodeDelta₂, NodeState.Agree a b

/-- The delta resets the node or carries updates for it. -/
def Mentions (delta : Delta NodeId) (nodeId : NodeId) : Prop :=
  nodeId ∈ delta.nodesToReset ∨ delta.nodeDeltas.get nodeId ≠ none

/-- Neither delta resets a node the other one mentions. -/
def ResetsApart (d₁ d₂ : Delta NodeId) : Prop :=
  ∀ nodeId, (nodeId ∈ d₁.nodesToReset → ¬ d₂.Mentions nodeId) ∧
    (nodeId ∈ d₂.nodesToReset → ¬ d₁.Mentions nodeId)

end Delta

namespace ClusterState

variable {NodeId : Type} [LinearOrder NodeId] [DecidableEq NodeId]

theorem applyDelta_applyDelta (cs : ClusterState NodeId) (delta : Delta NodeId) :
    (cs.applyDelta delta).applyDelta delta = cs.applyDelta delta := by
  refine ext fun nodeId => ?_
  simp only [nodeState_applyDelta]
  by_cases reset : nodeId ∈ delta.nodesToReset <;>
    cases delta.nodeDeltas.get nodeId <;>
      simp [reset, NodeState.applyNodeDelta_applyNodeDelta]

/-- A node a delta neither resets nor updates keeps its state. -/
theorem nodeState_applyDelta_of_not_mentions (cs : ClusterState NodeId) {delta : Delta NodeId}
    {nodeId : NodeId} (quiet : ¬ delta.Mentions nodeId) :
    (cs.applyDelta delta).nodeState nodeId = cs.nodeState nodeId := by
  simp only [Delta.Mentions, not_or, ne_eq, not_not] at quiet
  simp [nodeState_applyDelta, quiet.1, quiet.2]

theorem applyDelta_comm (cs : ClusterState NodeId) {d₁ d₂ : Delta NodeId}
    (consistent : d₁.Consistent d₂) (apart : d₁.ResetsApart d₂) :
    (cs.applyDelta d₁).applyDelta d₂ = (cs.applyDelta d₂).applyDelta d₁ := by
  refine ext fun nodeId => ?_
  by_cases reset₁ : nodeId ∈ d₁.nodesToReset
  · rw [nodeState_applyDelta_of_not_mentions _ ((apart nodeId).1 reset₁)]
    simp [nodeState_applyDelta, reset₁]
  by_cases reset₂ : nodeId ∈ d₂.nodesToReset
  · rw [nodeState_applyDelta_of_not_mentions _ ((apart nodeId).2 reset₂)]
    simp [nodeState_applyDelta, reset₂]
  simp only [nodeState_applyDelta, reset₁, reset₂, if_false]
  cases h₁ : d₁.nodeDeltas.get nodeId <;> cases h₂ : d₂.nodeDeltas.get nodeId <;> simp only
  exact congrArg some (NodeState.applyNodeDelta_comm _ (consistent nodeId _ _ h₁ h₂))

end ClusterState

/-- Deltas that update one node under different versions commute. -/
theorem applyDelta_comm_two_versions :
    let d₁ : Delta String :=
      ⟨(∅ : SortedMap String NodeDelta).insert "node" [("key", ⟨"a", 1, false⟩)], []⟩
    let d₂ : Delta String :=
      ⟨(∅ : SortedMap String NodeDelta).insert "node" [("key", ⟨"b", 2, false⟩)], []⟩
    d₁.Consistent d₂ ∧ d₁.ResetsApart d₂ ∧
      ((∅ : ClusterState String).applyDelta d₁).applyDelta d₂ =
        ((∅ : ClusterState String).applyDelta d₂).applyDelta d₁ := by
  intro d₁ d₂
  have consistent : d₁.Consistent d₂ := by
    intro nodeId nd₁ nd₂ h₁ h₂ a ha b hb _ hv
    simp only [d₁, d₂, SortedMap.get_insert, SortedMap.get_empty] at h₁ h₂
    by_cases hn : "node" = nodeId <;>
      simp only [hn, if_true, if_false, Option.some.injEq, reduceCtorEq] at h₁ h₂
    subst h₁ h₂
    simp only [List.mem_singleton] at ha hb
    subst ha hb
    simp at hv
  have apart : d₁.ResetsApart d₂ := fun _ => ⟨by simp [d₁], by simp [d₂]⟩
  exact ⟨consistent, apart, ClusterState.applyDelta_comm ∅ consistent apart⟩

/-- A delta resetting a node and a consistent delta updating it do not commute:
the update survives the reset in one order and not in the other. -/
theorem applyDelta_reset_not_comm :
    ¬ ∀ (cs : ClusterState String) (d₁ d₂ : Delta String), d₁.Consistent d₂ →
      (cs.applyDelta d₁).applyDelta d₂ = (cs.applyDelta d₂).applyDelta d₁ := by
  intro comm
  have h := comm ∅ ⟨∅, ["node"]⟩
    ⟨(∅ : SortedMap String NodeDelta).insert "node" [("key", ⟨"value", 1, false⟩)], []⟩
    (fun _ _ _ h => by simp at h)
  revert h
  decide


end Chitchat
