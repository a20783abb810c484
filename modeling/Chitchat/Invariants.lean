import Chitchat.ApplyDelta

/-!
# Version invariants of reachable states

The operations of `state.rs` that change a cluster state, as one step
function, and the states reachable from the empty one. Every reachable state
keeps each stored version at most its node's `max_version`; given that, every
operation that changes a stored record gives it a strictly greater version,
except `apply_delta` on a node it resets, which may store an older one. A node
state changed only by its local operations carries distinct versions under
distinct keys.
-/

namespace Chitchat

namespace NodeState

/-- The local operations of a node state. -/
inductive Operation where
  | set (key value : String)
  | setWithVersion (key value : String) (version : Nat)
  | markForDeletion (key : String)
  | gcKeysMarkedForDeletion (gracePeriod : Nat)

/-- Run a local operation; `none` is the failed assertion of `set_with_version`. -/
def perform (ns : NodeState) : Operation → Option NodeState
  | .set key value => some (ns.set key value)
  | .setWithVersion key value version => ns.setWithVersion key value version
  | .markForDeletion key => some (ns.markForDeletion key)
  | .gcKeysMarkedForDeletion gracePeriod => some (ns.gcKeysMarkedForDeletion gracePeriod)

/-- The node states a node reaches from `NodeState::default()` by its local
operations. -/
inductive LocallyReachable : NodeState → Prop where
  | default : LocallyReachable default
  | step {ns ns' : NodeState} (op : Operation) :
      LocallyReachable ns → ns.perform op = some ns' → LocallyReachable ns'

/-- Every stored version is at most `max_version`. -/
def VersionsBounded (ns : NodeState) : Prop :=
  ∀ key versionedValue, ns.getVersioned key = some versionedValue →
    versionedValue.version ≤ ns.maxVersion

/-- Distinct keys carry distinct versions. -/
def DistinctVersions (ns : NodeState) : Prop :=
  ∀ key₁ key₂ versionedValue₁ versionedValue₂,
    ns.getVersioned key₁ = some versionedValue₁ →
    ns.getVersioned key₂ = some versionedValue₂ →
    key₁ ≠ key₂ → versionedValue₁.version ≠ versionedValue₂.version

/-- Every key present before and after keeps its record or gets a strictly newer
one. -/
def RecordsGrow (ns ns' : NodeState) : Prop :=
  ∀ key versionedValue versionedValue', ns.getVersioned key = some versionedValue →
    ns'.getVersioned key = some versionedValue' → versionedValue' ≠ versionedValue →
    versionedValue.version < versionedValue'.version

/-! ## What a local operation can do -/

/-- A local operation stores one record at a fresh `max_version`, only raises
`max_version`, or drops records and leaves `max_version` alone. -/
theorem perform_cases {ns ns' : NodeState} {op : Operation} (h : ns.perform op = some ns') :
    (ns.maxVersion < ns'.maxVersion ∧ ∃ key versionedValue,
      ns'.getVersioned key = some versionedValue ∧ versionedValue.version = ns'.maxVersion ∧
      ∀ key', key ≠ key' → ns'.getVersioned key' = ns.getVersioned key') ∨
    (ns.maxVersion < ns'.maxVersion ∧ ∀ key, ns'.getVersioned key = ns.getVersioned key) ∨
    (ns'.maxVersion = ns.maxVersion ∧ ∀ key versionedValue,
      ns'.getVersioned key = some versionedValue →
        ns.getVersioned key = some versionedValue) := by
  cases op with
  | set key value =>
      cases h
      exact .inl ⟨by simp, key, ⟨value, ns.maxVersion + 1, false⟩, by simp, rfl,
        fun key' hk => by simp [hk]⟩
  | setWithVersion key value version =>
      obtain ⟨hlt, rfl⟩ := setWithVersion_eq_some h
      exact .inl ⟨hlt, key, ⟨value, version, false⟩, by simp [getVersioned], rfl,
        fun key' hk => by simp [getVersioned, hk]⟩
  | markForDeletion key =>
      cases h
      cases hget : ns.getVersioned key with
      | none => exact .inr (.inl ⟨by simp, fun key' => by
          by_cases hk : key = key'
          · subst hk; simp [hget]
          · simp [hk]⟩)
      | some versionedValue =>
          exact .inl ⟨by simp, key,
            { versionedValue with markedForDeletion := true, version := ns.maxVersion + 1 },
            by simp [hget], by simp, fun key' hk => by simp [hk]⟩
  | gcKeysMarkedForDeletion gracePeriod =>
      cases h
      refine .inr (.inr ⟨rfl, fun key versionedValue hget => ?_⟩)
      simp only [getVersioned_gcKeysMarkedForDeletion, Option.filter_eq_some] at hget
      exact hget.1

theorem VersionsBounded.perform {ns ns' : NodeState} {op : Operation}
    (bounded : ns.VersionsBounded) (h : ns.perform op = some ns') : ns'.VersionsBounded := by
  intro key versionedValue hget
  rcases perform_cases h with
    ⟨hlt, key₀, v₀, hget₀, hv₀, rest⟩ | ⟨hlt, same⟩ | ⟨hmax, sub⟩
  · by_cases hk : key₀ = key
    · subst hk
      rw [hget₀] at hget
      cases hget
      exact hv₀.le
    · rw [rest key hk] at hget
      exact (bounded key _ hget).trans hlt.le
  · rw [same] at hget
    exact (bounded key _ hget).trans hlt.le
  · exact hmax ▸ bounded key _ (sub key _ hget)

theorem perform_recordsGrow {ns ns' : NodeState} {op : Operation}
    (bounded : ns.VersionsBounded) (h : ns.perform op = some ns') : ns.RecordsGrow ns' := by
  intro key versionedValue versionedValue' hget hget' hne
  rcases perform_cases h with
    ⟨hlt, key₀, v₀, hget₀, hv₀, rest⟩ | ⟨hlt, same⟩ | ⟨hmax, sub⟩
  · by_cases hk : key₀ = key
    · subst hk
      rw [hget₀] at hget'
      cases hget'
      have := bounded key₀ _ hget
      omega
    · rw [rest key hk, hget] at hget'
      exact absurd (Option.some.inj hget').symm hne
  · rw [same, hget] at hget'
    exact absurd (Option.some.inj hget').symm hne
  · rw [sub key _ hget'] at hget
    exact absurd (Option.some.inj hget) hne

theorem DistinctVersions.perform {ns ns' : NodeState} {op : Operation}
    (bounded : ns.VersionsBounded) (distinct : ns.DistinctVersions)
    (h : ns.perform op = some ns') : ns'.DistinctVersions := by
  intro key₁ key₂ v₁ v₂ hget₁ hget₂ hne
  rcases perform_cases h with
    ⟨hlt, key₀, v₀, hget₀, hv₀, rest⟩ | ⟨hlt, same⟩ | ⟨hmax, sub⟩
  · have fresh : ∀ key v, key₀ ≠ key → ns'.getVersioned key = some v →
        v.version < v₀.version :=
      fun key v hk hget => by
        rw [rest key hk] at hget
        have := bounded key v hget
        omega
    by_cases hk₁ : key₀ = key₁
    · subst hk₁
      rw [hget₀] at hget₁
      cases hget₁
      exact (fresh key₂ v₂ hne hget₂).ne'
    · by_cases hk₂ : key₀ = key₂
      · subst hk₂
        rw [hget₀] at hget₂
        cases hget₂
        exact (fresh key₁ v₁ hk₁ hget₁).ne
      · rw [rest key₁ hk₁] at hget₁
        rw [rest key₂ hk₂] at hget₂
        exact distinct key₁ key₂ v₁ v₂ hget₁ hget₂ hne
  · rw [same] at hget₁ hget₂
    exact distinct key₁ key₂ v₁ v₂ hget₁ hget₂ hne
  · exact distinct key₁ key₂ v₁ v₂ (sub _ _ hget₁) (sub _ _ hget₂) hne

theorem recordsGrow_refl (ns : NodeState) : ns.RecordsGrow ns := by
  intro key v v' hv hv' hne
  rw [hv] at hv'
  exact absurd (Option.some.inj hv').symm hne

/-! ## Applying updates -/

/-- Every record present in `ns` is still present in `ns'`, unchanged or newer. -/
def Grows (ns ns' : NodeState) : Prop :=
  ∀ key versionedValue, ns.getVersioned key = some versionedValue →
    ∃ versionedValue', ns'.getVersioned key = some versionedValue' ∧
      (versionedValue' = versionedValue ∨ versionedValue.version < versionedValue'.version)

theorem Grows.trans {ns₁ ns₂ ns₃ : NodeState} (h₁₂ : ns₁.Grows ns₂)
    (h₂₃ : ns₂.Grows ns₃) :
    ns₁.Grows ns₃ := by
  intro key v₁ hget₁
  obtain ⟨v₂, hget₂, h₂⟩ := h₁₂ key v₁ hget₁
  obtain ⟨v₃, hget₃, h₃⟩ := h₂₃ key v₂ hget₂
  refine ⟨v₃, hget₃, ?_⟩
  rcases h₂ with rfl | h₂ <;> rcases h₃ with rfl | h₃
  · exact .inl rfl
  · exact .inr h₃
  · exact .inr h₂
  · exact .inr (h₂.trans h₃)

theorem Grows.recordsGrow {ns ns' : NodeState} (grows : ns.Grows ns') : ns.RecordsGrow ns' := by
  intro key v v' hget hget' hne
  obtain ⟨v'', hget'', h⟩ := grows key v hget
  rw [hget'] at hget''
  cases hget''
  exact h.resolve_left hne

theorem applyKeyValue_grows (ns : NodeState) (kv : String × VersionedValue) :
    ns.Grows (ns.applyKeyValue kv) := by
  intro key v hget
  rw [getVersioned_applyKeyValue]
  split
  · rw [hget]
    by_cases hv : kv.2.version ≤ v.version
    · exact ⟨v, by simp [keep, hv], .inl rfl⟩
    · exact ⟨kv.2, by simp [keep, hv], .inr (by omega)⟩
  · exact ⟨v, hget, .inl rfl⟩

theorem applyNodeDelta_grows (ns : NodeState) (nodeDelta : NodeDelta) :
    ns.Grows (ns.applyNodeDelta nodeDelta) := by
  induction nodeDelta generalizing ns with
  | nil => exact fun _ v hget => ⟨v, hget, .inl rfl⟩
  | cons kv rest ih => exact (applyKeyValue_grows ns kv).trans (ih _)

theorem VersionsBounded.applyNodeDelta {ns : NodeState} (bounded : ns.VersionsBounded)
    (nodeDelta : NodeDelta) : (ns.applyNodeDelta nodeDelta).VersionsBounded := by
  induction nodeDelta generalizing ns with
  | nil => exact bounded
  | cons kv rest ih =>
      refine ih fun key v hget => ?_
      rw [getVersioned_applyKeyValue] at hget
      simp only [applyKeyValue_maxVersion]
      split at hget
      · cases hstored : ns.getVersioned key with
        | none =>
            simp only [hstored, keep, Option.some.injEq] at hget
            subst hget
            exact le_max_right _ _
        | some record =>
            simp only [hstored, keep] at hget
            split at hget <;> cases hget
            · exact (bounded key _ hstored).trans (le_max_left _ _)
            · exact le_max_right _ _
      · exact (bounded key v hget).trans (le_max_left _ _)

theorem versionsBounded_default : (default : NodeState).VersionsBounded := by
  intro key v hget
  simp at hget

/-- A node state whose versions are bounded has nothing above its `max_version`. -/
theorem VersionsBounded.iterStaleKeyValues_eq_nil {ns : NodeState} (bounded : ns.VersionsBounded)
    {floorVersion : Nat} (above : ns.maxVersion ≤ floorVersion) :
    ns.iterStaleKeyValues floorVersion = [] :=
  List.eq_nil_iff_forall_not_mem.2 fun kv mem => by
    obtain ⟨stored, stale⟩ := mem_iterStaleKeyValues.1 mem
    have := bounded _ _ stored
    omega

/-- Local operations keep both node-state invariants. -/
theorem LocallyReachable.invariants {ns : NodeState} (reachable : ns.LocallyReachable) :
    ns.VersionsBounded ∧ ns.DistinctVersions := by
  induction reachable with
  | default => exact ⟨versionsBounded_default, fun _ _ _ _ h => by simp at h⟩
  | step op _ h ih => exact ⟨ih.1.perform h, ih.2.perform ih.1 h⟩

/-! ## Runs of local operations -/

/-- The node state after the local operations `ops` in turn; `none` if one fails. -/
def performAll (ns : NodeState) : List Operation → Option NodeState
  | [] => some ns
  | op :: ops => (ns.perform op).bind fun ns' => ns'.performAll ops

theorem performAll_cons {ns ns'' : NodeState} {op : Operation} {ops : List Operation} :
    ns.performAll (op :: ops) = some ns'' ↔
      ∃ ns', ns.perform op = some ns' ∧ ns'.performAll ops = some ns'' :=
  Option.bind_eq_some

/-- Every stored version is positive. -/
def VersionsPositive (ns : NodeState) : Prop :=
  ∀ key versionedValue, ns.getVersioned key = some versionedValue → 0 < versionedValue.version

/-- `ns'` is a later state of `ns`: `max_version` has not decreased, and every
record of `ns'` at a version `ns` had reached was already in `ns`. -/
structure Follows (ns ns' : NodeState) : Prop where
  maxVersion_le : ns.maxVersion ≤ ns'.maxVersion
  old : ∀ key versionedValue, ns'.getVersioned key = some versionedValue →
    versionedValue.version ≤ ns.maxVersion → ns.getVersioned key = some versionedValue

theorem Follows.trans {ns₁ ns₂ ns₃ : NodeState} (h₁₂ : ns₁.Follows ns₂) (h₂₃ : ns₂.Follows ns₃) :
    ns₁.Follows ns₃ :=
  ⟨h₁₂.maxVersion_le.trans h₂₃.maxVersion_le, fun key v held old =>
    h₁₂.old key v (h₂₃.old key v held (old.trans h₁₂.maxVersion_le)) old⟩

theorem perform_follows {ns ns' : NodeState} {op : Operation} (h : ns.perform op = some ns') :
    ns.Follows ns' := by
  rcases perform_cases h with
    ⟨hlt, key₀, v₀, hget₀, hv₀, rest⟩ | ⟨hlt, same⟩ | ⟨hmax, sub⟩
  · refine ⟨hlt.le, fun key v held old => ?_⟩
    by_cases hk : key₀ = key
    · subst hk
      rw [hget₀, Option.some.injEq] at held
      subst held
      omega
    · rwa [← rest key hk]
  · exact ⟨hlt.le, fun key v held _ => same key ▸ held⟩
  · exact ⟨hmax.ge, fun key v held _ => sub key v held⟩

theorem versionsPositive_default : (default : NodeState).VersionsPositive := by
  intro key v hget
  simp at hget

theorem VersionsPositive.perform {ns ns' : NodeState} {op : Operation}
    (positive : ns.VersionsPositive) (h : ns.perform op = some ns') : ns'.VersionsPositive := by
  intro key v held
  by_cases old : v.version ≤ ns.maxVersion
  · exact positive key v ((perform_follows h).old key v held old)
  · omega

/-- An operation other than the collection of tombstones keeps every key. -/
theorem perform_keeps_key {ns ns' : NodeState} {op : Operation} (h : ns.perform op = some ns')
    (keeps : ∀ gracePeriod, op ≠ .gcKeysMarkedForDeletion gracePeriod) {key : String}
    {versionedValue : VersionedValue} (held : ns.getVersioned key = some versionedValue) :
    ∃ versionedValue', ns'.getVersioned key = some versionedValue' := by
  cases op with
  | set key' value =>
      cases h
      by_cases hk : key' = key <;> simp [hk, held]
  | setWithVersion key' value version =>
      obtain ⟨-, rfl⟩ := setWithVersion_eq_some h
      by_cases hk : key' = key
      · exact ⟨⟨value, version, false⟩, by simp [getVersioned, SortedMap.get_insert, hk]⟩
      · exact ⟨_, by rw [getVersioned, SortedMap.get_insert, if_neg hk]; exact held⟩
  | markForDeletion key' =>
      cases h
      by_cases hk : key' = key <;> simp [hk, held]
  | gcKeysMarkedForDeletion gracePeriod => exact absurd rfl (keeps gracePeriod)

theorem performAll_follows {ns ns' : NodeState} {ops : List Operation}
    (run : ns.performAll ops = some ns') : ns.Follows ns' := by
  induction ops generalizing ns with
  | nil =>
      cases run
      exact ⟨le_rfl, fun _ _ held _ => held⟩
  | cons op ops ih =>
      obtain ⟨ns₁, h, run⟩ := performAll_cons.1 run
      exact (perform_follows h).trans (ih run)

theorem VersionsBounded.performAll {ns ns' : NodeState} {ops : List Operation}
    (bounded : ns.VersionsBounded) (run : ns.performAll ops = some ns') : ns'.VersionsBounded := by
  induction ops generalizing ns with
  | nil => cases run; exact bounded
  | cons op ops ih =>
      obtain ⟨ns₁, h, run⟩ := performAll_cons.1 run
      exact ih (bounded.perform h) run

theorem VersionsPositive.performAll {ns ns' : NodeState} {ops : List Operation}
    (positive : ns.VersionsPositive) (run : ns.performAll ops = some ns') :
    ns'.VersionsPositive := by
  induction ops generalizing ns with
  | nil => cases run; exact positive
  | cons op ops ih =>
      obtain ⟨ns₁, h, run⟩ := performAll_cons.1 run
      exact ih (positive.perform h) run

/-- Without collection, a run keeps every key. -/
theorem performAll_keeps_key {ns ns' : NodeState} {ops : List Operation}
    (run : ns.performAll ops = some ns')
    (keeps : ∀ op ∈ ops, ∀ gracePeriod, op ≠ .gcKeysMarkedForDeletion gracePeriod)
    {key : String} {versionedValue : VersionedValue}
    (held : ns.getVersioned key = some versionedValue) :
    ∃ versionedValue', ns'.getVersioned key = some versionedValue' := by
  induction ops generalizing ns versionedValue with
  | nil => cases run; exact ⟨_, held⟩
  | cons op ops ih =>
      obtain ⟨ns₁, h, run⟩ := performAll_cons.1 run
      obtain ⟨v₁, held₁⟩ := perform_keeps_key h (keeps op (List.mem_cons_self _ _)) held
      exact ih run (fun op' mem => keeps op' (List.mem_cons_of_mem _ mem)) held₁

end NodeState

namespace ClusterState

variable {NodeId : Type} [LinearOrder NodeId] [DecidableEq NodeId]

/-- The operations of a cluster state: a local operation through
`node_state_mut`, the cluster-wide collection of tombstones, `apply_delta` and
`remove_node`. -/
inductive Operation (NodeId : Type) [LinearOrder NodeId] where
  | nodeStateMut (nodeId : NodeId) (op : NodeState.Operation)
  | gcKeysMarkedForDeletion (gracePeriod : Nat) (deadNodes : List NodeId)
  | applyDelta (delta : Delta NodeId)
  | removeNode (nodeId : NodeId)

/-- Run an operation; `none` is the failed assertion of `set_with_version`. -/
def perform (cs : ClusterState NodeId) : Operation NodeId → Option (ClusterState NodeId)
  | .nodeStateMut nodeId op =>
      (((cs.nodeState nodeId).getD default).perform op).map fun ns =>
        cs.nodeStateMut nodeId fun _ => ns
  | .gcKeysMarkedForDeletion gracePeriod deadNodes =>
      some (cs.gcKeysMarkedForDeletion gracePeriod deadNodes)
  | .applyDelta delta => some (cs.applyDelta delta)
  | .removeNode nodeId => some (cs.removeNode nodeId)

/-- The cluster states reachable from the empty one. -/
inductive Reachable : ClusterState NodeId → Prop where
  | empty : Reachable ∅
  | step {cs cs' : ClusterState NodeId} (op : Operation NodeId) :
      Reachable cs → cs.perform op = some cs' → Reachable cs'

/-- Every node state keeps its versions at most its `max_version`. -/
def VersionsBounded (cs : ClusterState NodeId) : Prop :=
  ∀ nodeId ns, cs.nodeState nodeId = some ns → ns.VersionsBounded

/-- The node's records only grow from `cs` to `cs'`. -/
def RecordsGrow (cs cs' : ClusterState NodeId) (nodeId : NodeId) : Prop :=
  ∀ ns ns', cs.nodeState nodeId = some ns → cs'.nodeState nodeId = some ns' →
    ns.RecordsGrow ns'

theorem VersionsBounded.getD {cs : ClusterState NodeId} (bounded : cs.VersionsBounded)
    (nodeId : NodeId) : ((cs.nodeState nodeId).getD default).VersionsBounded := by
  cases h : cs.nodeState nodeId with
  | none => exact NodeState.versionsBounded_default
  | some ns => exact bounded nodeId ns h

theorem VersionsBounded.perform {cs cs' : ClusterState NodeId} {op : Operation NodeId}
    (bounded : cs.VersionsBounded) (h : cs.perform op = some cs') : cs'.VersionsBounded := by
  intro nodeId ns' hget
  cases op with
  | nodeStateMut nodeId₀ op =>
      obtain ⟨ns, hns, rfl⟩ := Option.map_eq_some'.mp h
      rw [nodeState_nodeStateMut] at hget
      split at hget
      · cases hget
        exact (bounded.getD nodeId₀).perform hns
      · exact bounded _ _ hget
  | gcKeysMarkedForDeletion gracePeriod deadNodes =>
      cases h
      obtain ⟨ns, hns, rfl⟩ := Option.map_eq_some'.mp
        ((nodeState_gcKeysMarkedForDeletion ..).symm.trans hget)
      split
      · exact bounded _ _ hns
      · exact (bounded _ _ hns).perform
          (show ns.perform (.gcKeysMarkedForDeletion gracePeriod) = some _ from rfl)
  | applyDelta delta =>
      cases h
      cases hd : delta.nodeDeltas.get nodeId with
      | none =>
          rw [nodeState_applyDelta_of_none _ hd] at hget
          split at hget
          · cases hget
          · exact bounded _ _ hget
      | some nodeDelta =>
          rw [nodeState_applyDelta_of_some _ hd] at hget
          cases hget
          refine NodeState.VersionsBounded.applyNodeDelta ?_ nodeDelta
          split
          · exact NodeState.versionsBounded_default
          · exact bounded.getD nodeId
  | removeNode nodeId₀ =>
      cases h
      rw [nodeState_removeNode] at hget
      split at hget
      · cases hget
      · exact bounded _ _ hget

theorem recordsGrow_of_eq {cs cs' : ClusterState NodeId} {nodeId : NodeId}
    (same : cs'.nodeState nodeId = cs.nodeState nodeId) : cs.RecordsGrow cs' nodeId := by
  intro ns ns' hget hget'
  rw [same, hget] at hget'
  cases hget'
  exact NodeState.recordsGrow_refl ns

/-- Given the bound, every operation except `apply_delta` on a node it resets
keeps or upgrades the node's records. -/
theorem perform_recordsGrow {cs cs' : ClusterState NodeId} {op : Operation NodeId}
    {nodeId : NodeId} (bounded : cs.VersionsBounded) (h : cs.perform op = some cs')
    (notReset : ∀ delta, op = .applyDelta delta → nodeId ∉ delta.nodesToReset) :
    cs.RecordsGrow cs' nodeId := by
  cases op with
  | nodeStateMut nodeId₀ op =>
      obtain ⟨ns, hns, rfl⟩ := Option.map_eq_some'.mp h
      by_cases hn : nodeId₀ = nodeId
      · subst hn
        intro ns₀ ns' hget hget'
        rw [nodeState_nodeStateMut, if_pos rfl] at hget'
        rw [hget, Option.getD_some] at hns
        cases hget'
        exact NodeState.perform_recordsGrow (bounded _ _ hget) hns
      · exact recordsGrow_of_eq (by simp [hn])
  | gcKeysMarkedForDeletion gracePeriod deadNodes =>
      cases h
      intro ns ns' hget hget'
      rw [nodeState_gcKeysMarkedForDeletion, hget] at hget'
      cases hget'
      split
      · exact NodeState.recordsGrow_refl ns
      · exact NodeState.perform_recordsGrow (bounded _ _ hget)
          (show ns.perform (.gcKeysMarkedForDeletion gracePeriod) = some _ from rfl)
  | applyDelta delta =>
      cases h
      intro ns ns' hget hget'
      cases hd : delta.nodeDeltas.get nodeId with
      | none =>
          rw [nodeState_applyDelta_of_none _ hd, if_neg (notReset delta rfl), hget] at hget'
          cases hget'
          exact NodeState.recordsGrow_refl ns
      | some nodeDelta =>
          rw [nodeState_applyDelta_of_some _ hd, if_neg (notReset delta rfl), hget] at hget'
          cases hget'
          exact (NodeState.applyNodeDelta_grows ns _).recordsGrow
  | removeNode nodeId₀ =>
      cases h
      by_cases hn : nodeId = nodeId₀
      · intro ns ns' _ hget'
        simp [hn] at hget'
      · exact recordsGrow_of_eq (by simp [hn])

theorem Reachable.versionsBounded {cs : ClusterState NodeId} (reachable : cs.Reachable) :
    cs.VersionsBounded := by
  induction reachable with
  | empty => intro nodeId ns h; simp at h
  | step op _ h ih => exact ih.perform h

/-- The version invariants: stored versions stay at most `max_version`; records
only grow, except under `apply_delta` on a node it resets; local operations keep
versions distinct across keys. -/
theorem version_invariants :
    (∀ cs : ClusterState NodeId, cs.Reachable → cs.VersionsBounded) ∧
    (∀ (cs cs' : ClusterState NodeId) (op : Operation NodeId) (nodeId : NodeId),
      cs.Reachable → cs.perform op = some cs' →
      (∀ delta, op = .applyDelta delta → nodeId ∉ delta.nodesToReset) →
      cs.RecordsGrow cs' nodeId) ∧
    (∀ ns : NodeState, ns.LocallyReachable → ns.DistinctVersions) :=
  ⟨fun _ reachable => reachable.versionsBounded,
    fun _ _ _ _ reachable h notReset => perform_recordsGrow reachable.versionsBounded h notReset,
    fun _ reachable => reachable.invariants.2⟩

end ClusterState

/-- Setting a key twice and then applying a delta that resets the node and
carries the key's first version stores that older version again. -/
theorem reset_stores_older_version :
    ¬ ∀ (cs cs' : ClusterState String) (op : ClusterState.Operation String) (nodeId : String),
      cs.Reachable → cs.perform op = some cs' → cs.RecordsGrow cs' nodeId := by
  intro grows
  let setKey : ClusterState.Operation String := .nodeStateMut "node" (.set "key" "value")
  let twice : ClusterState String := ((∅ : ClusterState String).nodeStateMut "node"
    (·.set "key" "value")).nodeStateMut "node" (·.set "key" "value")
  have reachable : twice.Reachable :=
    .step setKey (.step setKey .empty rfl) rfl
  let reset : Delta String := ⟨(∅ : SortedMap String NodeDelta).insert "node"
    [("key", ⟨"value", 1, false⟩)], ["node"]⟩
  have h := grows twice (twice.applyDelta reset) (.applyDelta reset) "node" reachable rfl
    _ _ rfl rfl "key" ⟨"value", 2, false⟩ ⟨"value", 1, false⟩ rfl rfl (by decide)
  exact absurd h (by decide)

end Chitchat
