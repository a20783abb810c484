import Mathlib.Data.String.Basic
import Chitchat.SortedMap

/-!
# Node states

`VersionedValue` and `NodeState` of `state.rs`. A node state maps keys to
versioned values and records the highest version it has assigned or received.
`last_heartbeat` is left out: no modelled function reads it. The assertion of
`set_with_version` is a failure of the model (`none`); `set` is the call of
`set_with_version` at `max_version + 1`, where it always holds
(`setWithVersion_succ`).
-/

namespace Chitchat

/-- Modelled from the spec: `VersionedValue`, declared outside `state.rs`, with the
fields `state.rs` reads. -/
structure VersionedValue where
  value : String
  version : Nat
  markedForDeletion : Bool
  deriving DecidableEq, Repr

/-- `NodeState`, without `last_heartbeat`. -/
structure NodeState where
  keyValues : SortedMap String VersionedValue
  maxVersion : Nat
  deriving DecidableEq

namespace NodeState

/-- `NodeState::default()`. -/
instance : Inhabited NodeState := ⟨⟨∅, 0⟩⟩

/-- `internal_iter_key_values`: the entries the predicate accepts, tombstones
included. -/
def internalIterKeyValues (ns : NodeState) (predicate : String → VersionedValue → Bool) :
    List (String × VersionedValue) :=
  ns.keyValues.entries.filter fun e => predicate e.1 e.2

/-- `iter_key_values`: the entries the predicate accepts that are not marked for
deletion. -/
def iterKeyValues (ns : NodeState) (predicate : String → VersionedValue → Bool) :
    List (String × VersionedValue) :=
  (ns.internalIterKeyValues predicate).filter fun e => !e.2.markedForDeletion

/-- `iter_stale_key_values`: the entries whose version is above `floorVersion`. -/
def iterStaleKeyValues (ns : NodeState) (floorVersion : Nat) : List (String × VersionedValue) :=
  ns.internalIterKeyValues fun _ versionedValue => floorVersion < versionedValue.version

/-- `get_versioned`. -/
def getVersioned (ns : NodeState) (key : String) : Option VersionedValue :=
  ns.keyValues.get key

/-- `get`. -/
def get (ns : NodeState) (key : String) : Option String :=
  (ns.getVersioned key).map fun versionedValue => versionedValue.value

/-- `set_with_version`; `none` is the failed `assert!(version > self.max_version)`. -/
def setWithVersion (ns : NodeState) (key value : String) (version : Nat) : Option NodeState :=
  if ns.maxVersion < version then
    some ⟨ns.keyValues.insert key ⟨value, version, false⟩, version⟩
  else none

/-- `set`: `set_with_version` at `max_version + 1`. -/
def set (ns : NodeState) (key value : String) : NodeState :=
  ⟨ns.keyValues.insert key ⟨value, ns.maxVersion + 1, false⟩, ns.maxVersion + 1⟩

/-- `mark_for_deletion`: the version is bumped even when the key is absent. -/
def markForDeletion (ns : NodeState) (key : String) : NodeState :=
  let newVersion := ns.maxVersion + 1
  match ns.keyValues.get key with
  | some versionedValue =>
      ⟨ns.keyValues.insert key
        { versionedValue with markedForDeletion := true, version := newVersion }, newVersion⟩
  | none => ⟨ns.keyValues, newVersion⟩

/-- `gc_keys_marked_for_deletion`: drop the tombstones with
`version + grace_period < max_version`. -/
def gcKeysMarkedForDeletion (ns : NodeState) (gracePeriod : Nat) : NodeState :=
  ⟨ns.keyValues.retain fun _ versionedValue =>
      !(versionedValue.markedForDeletion &&
        decide (versionedValue.version + gracePeriod < ns.maxVersion)), ns.maxVersion⟩

theorem ext {ns₁ ns₂ : NodeState}
    (keyValues : ∀ key, ns₁.getVersioned key = ns₂.getVersioned key)
    (maxVersion : ns₁.maxVersion = ns₂.maxVersion) : ns₁ = ns₂ := by
  cases ns₁; cases ns₂
  cases SortedMap.ext keyValues
  cases maxVersion
  rfl

theorem setWithVersion_succ (ns : NodeState) (key value : String) :
    ns.setWithVersion key value (ns.maxVersion + 1) = some (ns.set key value) := by
  simp [setWithVersion, set]

/-! ## Field lemmas -/

@[simp] theorem default_maxVersion : (default : NodeState).maxVersion = 0 := rfl

@[simp] theorem getVersioned_default (key : String) :
    (default : NodeState).getVersioned key = none := rfl

@[simp] theorem set_maxVersion (ns : NodeState) (key value : String) :
    (ns.set key value).maxVersion = ns.maxVersion + 1 := rfl

@[simp] theorem getVersioned_set (ns : NodeState) (key key' value : String) :
    (ns.set key value).getVersioned key' =
      if key = key' then some ⟨value, ns.maxVersion + 1, false⟩ else ns.getVersioned key' :=
  SortedMap.get_insert _ _ _ _

@[simp] theorem markForDeletion_maxVersion (ns : NodeState) (key : String) :
    (ns.markForDeletion key).maxVersion = ns.maxVersion + 1 := by
  unfold markForDeletion
  split <;> rfl

@[simp] theorem getVersioned_markForDeletion (ns : NodeState) (key key' : String) :
    (ns.markForDeletion key).getVersioned key' =
      if key = key' then
        (ns.getVersioned key).map fun versionedValue =>
          { versionedValue with markedForDeletion := true, version := ns.maxVersion + 1 }
      else ns.getVersioned key' := by
  unfold markForDeletion getVersioned
  cases h : ns.keyValues.get key with
  | none =>
      by_cases hk : key = key'
      · subst hk; simp [h]
      · simp [hk]
  | some versionedValue => simp

@[simp] theorem gcKeysMarkedForDeletion_maxVersion (ns : NodeState) (gracePeriod : Nat) :
    (ns.gcKeysMarkedForDeletion gracePeriod).maxVersion = ns.maxVersion := rfl

@[simp] theorem getVersioned_gcKeysMarkedForDeletion (ns : NodeState) (gracePeriod : Nat)
    (key : String) :
    (ns.gcKeysMarkedForDeletion gracePeriod).getVersioned key =
      (ns.getVersioned key).filter fun versionedValue =>
        !(versionedValue.markedForDeletion &&
          decide (versionedValue.version + gracePeriod < ns.maxVersion)) :=
  SortedMap.get_retain _ _ _

theorem setWithVersion_eq_some {ns ns' : NodeState} {key value : String} {version : Nat}
    (h : ns.setWithVersion key value version = some ns') :
    ns.maxVersion < version ∧
      ns' = ⟨ns.keyValues.insert key ⟨value, version, false⟩, version⟩ := by
  unfold setWithVersion at h
  split at h
  · exact ⟨‹_›, (Option.some.inj h).symm⟩
  · cases h

/-! ## The two read paths

`iter_key_values` hides tombstones, as its documentation says; `get` reads
`get_versioned` and does not. -/

/-- `iter_key_values` lists exactly the live entries the predicate accepts. -/
theorem mem_iterKeyValues {ns : NodeState} {predicate : String → VersionedValue → Bool}
    {key : String} {versionedValue : VersionedValue} :
    (key, versionedValue) ∈ ns.iterKeyValues predicate ↔
      ns.getVersioned key = some versionedValue ∧ predicate key versionedValue = true ∧
        versionedValue.markedForDeletion = false := by
  simp only [iterKeyValues, internalIterKeyValues, List.mem_filter, SortedMap.mem_entries_iff,
    getVersioned, Bool.not_eq_true', and_assoc]

/-- `iter_stale_key_values` lists exactly the entries above the floor, tombstones
included. -/
theorem mem_iterStaleKeyValues {ns : NodeState} {floorVersion : Nat}
    {kv : String × VersionedValue} :
    kv ∈ ns.iterStaleKeyValues floorVersion ↔
      ns.getVersioned kv.1 = some kv.2 ∧ floorVersion < kv.2.version := by
  simp [iterStaleKeyValues, internalIterKeyValues, ← SortedMap.mem_entries_iff, getVersioned]

/-- After `mark_for_deletion` of a present key, `get` still returns its value. -/
theorem get_markForDeletion (ns : NodeState) (key : String) :
    (ns.markForDeletion key).get key = ns.get key := by
  simp [get, Option.map_map, Function.comp_def]

/-- After `set` and `mark_for_deletion` of one key, `get` still returns the
value while `iter_key_values` lists nothing. -/
theorem get_returns_tombstone :
    (((default : NodeState).set "key" "1").markForDeletion "key").get "key" = some "1" ∧
      (((default : NodeState).set "key" "1").markForDeletion "key").iterKeyValues
        (fun _ _ => true) = [] := by
  decide

end NodeState

end Chitchat
