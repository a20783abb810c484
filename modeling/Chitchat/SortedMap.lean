import Mathlib.Data.List.Sort
import Mathlib.Order.Basic

/-!
# Ordered maps

`BTreeMap<K, V>` as a list of entries kept strictly sorted by key. The order
is part of the value, so two maps with the same lookups are equal
(`SortedMap.ext`), and iterating a map visits its keys in ascending order, as
a `BTreeMap` does. Insertion replaces an entry on a key collision.
-/

namespace Chitchat

/-- A `BTreeMap`: its entries, strictly sorted by key. -/
structure SortedMap (K V : Type) [LinearOrder K] where
  entries : List (K × V)
  sorted : entries.Pairwise (fun a b => a.1 < b.1)

namespace SortedMap

variable {K V W : Type} [DecidableEq K]

/-- Lookup in an entry list, the first entry with the key winning. -/
def lookup (k : K) : List (K × V) → Option V
  | [] => none
  | e :: rest => if e.1 = k then some e.2 else lookup k rest

@[simp] theorem lookup_nil (k : K) : lookup k ([] : List (K × V)) = none := rfl

theorem lookup_cons (k : K) (e : K × V) (rest : List (K × V)) :
    lookup k (e :: rest) = if e.1 = k then some e.2 else lookup k rest := rfl

theorem lookup_eq_head?_filter (k : K) (l : List (K × V)) :
    lookup k l = ((l.filter fun e => e.1 = k).head?).map (·.2) := by
  induction l with
  | nil => rfl
  | cons e rest ih =>
      rw [lookup_cons, List.filter_cons]
      by_cases hk : e.1 = k <;> simp [hk, ih]

theorem lookup_eq_none_of_not_mem {k : K} {l : List (K × V)} (absent : k ∉ l.map (·.1)) :
    lookup k l = none := by
  induction l with
  | nil => rfl
  | cons e rest ih =>
      rw [List.map_cons, List.mem_cons, not_or] at absent
      rw [lookup_cons, if_neg (Ne.symm absent.1), ih absent.2]

/-- In an entry list with distinct keys, lookup finds every entry. -/
theorem lookup_eq_some_of_mem {k : K} {v : V} {l : List (K × V)}
    (distinct : (l.map (·.1)).Nodup) (mem : (k, v) ∈ l) : lookup k l = some v := by
  induction l with
  | nil => cases mem
  | cons e rest ih =>
      rw [List.map_cons, List.nodup_cons] at distinct
      rw [lookup_cons]
      rcases List.mem_cons.1 mem with rfl | mem
      · simp
      · have other : e.1 ≠ k := fun same => distinct.1 (same ▸ List.mem_map_of_mem (·.1) mem)
        rw [if_neg other, ih distinct.2 mem]

variable [LinearOrder K]

/-- One-pass sorted insertion, replacing an entry of the same key. -/
def insertEntry (k : K) (v : V) : List (K × V) → List (K × V)
  | [] => [(k, v)]
  | e :: rest =>
      if k = e.1 then (k, v) :: rest
      else if k < e.1 then (k, v) :: e :: rest
      else e :: insertEntry k v rest

/-- A key below every key of a sorted list is not found in it. -/
theorem lookup_eq_none_of_lt {k : K} {l : List (K × V)}
    (below : ∀ e ∈ l, k < e.1) : lookup k l = none := by
  induction l with
  | nil => rfl
  | cons e rest ih =>
      have hne : e.1 ≠ k := (ne_of_lt (below e (List.mem_cons_self _ _))).symm
      rw [lookup_cons, if_neg hne]
      exact ih fun e' he' => below e' (List.mem_cons_of_mem _ he')

theorem mem_insertEntry {k : K} {v : V} {a : K × V} {l : List (K × V)}
    (mem : a ∈ insertEntry k v l) : a = (k, v) ∨ a ∈ l := by
  induction l with
  | nil => simpa [insertEntry] using mem
  | cons e rest ih =>
      simp only [insertEntry] at mem
      split_ifs at mem
      · exact (List.mem_cons.mp mem).imp id (List.mem_cons_of_mem e)
      · exact List.mem_cons.mp mem
      · rcases List.mem_cons.mp mem with rfl | h
        · exact .inr (List.mem_cons_self _ _)
        · exact (ih h).imp id (List.mem_cons_of_mem _)

theorem lookup_insertEntry (k k' : K) (v : V) (l : List (K × V)) :
    lookup k' (insertEntry k v l) = if k = k' then some v else lookup k' l := by
  induction l with
  | nil => rfl
  | cons e rest ih =>
      by_cases heq : k = e.1
      · subst heq
        simp only [insertEntry, if_pos rfl]
        by_cases h : e.1 = k' <;> simp [lookup_cons, h]
      · by_cases hlt : k < e.1
        · simp only [insertEntry, if_neg heq, if_pos hlt]
          rfl
        · simp only [insertEntry, if_neg hlt, if_neg heq, lookup_cons, ih]
          by_cases h : k = k'
          · subst h
            simp [Ne.symm heq]
          · simp [h]

theorem insertEntry_sorted (k : K) (v : V) {l : List (K × V)}
    (sorted : l.Pairwise (fun a b => a.1 < b.1)) :
    (insertEntry k v l).Pairwise (fun a b => a.1 < b.1) := by
  induction l with
  | nil => simp [insertEntry]
  | cons e rest ih =>
      rw [List.pairwise_cons] at sorted
      simp only [insertEntry]
      split_ifs with heq hlt
      · exact List.Pairwise.cons (fun a ha => heq ▸ sorted.1 a ha) sorted.2
      · refine List.Pairwise.cons (fun a ha => ?_) (List.Pairwise.cons sorted.1 sorted.2)
        rcases List.mem_cons.mp ha with rfl | ha
        · exact hlt
        · exact hlt.trans (sorted.1 a ha)
      · refine List.Pairwise.cons (fun a ha => ?_) (ih sorted.2)
        rcases mem_insertEntry ha with rfl | ha
        · exact lt_of_le_of_ne (not_lt.mp hlt) (Ne.symm heq)
        · exact sorted.1 a ha

/-- A sorted entry list holds an entry exactly when lookup finds its value. -/
theorem mem_iff_lookup {l : List (K × V)} (sorted : l.Pairwise (fun a b => a.1 < b.1))
    {e : K × V} : e ∈ l ↔ lookup e.1 l = some e.2 := by
  induction l with
  | nil => simp
  | cons e' rest ih =>
      rw [List.pairwise_cons] at sorted
      rw [List.mem_cons, lookup_cons, ih sorted.2]
      by_cases hk : e'.1 = e.1
      · rw [if_pos hk, lookup_eq_none_of_lt (hk ▸ sorted.1)]
        simp [Prod.ext_iff, hk, eq_comm]
      · rw [if_neg hk]
        exact or_iff_right fun h => hk (h ▸ rfl)

/-- Sorted entry lists with the same lookups are equal. -/
theorem entries_eq_of_lookup {l₁ l₂ : List (K × V)}
    (sorted₁ : l₁.Pairwise (fun a b => a.1 < b.1))
    (sorted₂ : l₂.Pairwise (fun a b => a.1 < b.1))
    (same : ∀ k, lookup k l₁ = lookup k l₂) : l₁ = l₂ := by
  have : IsAntisymm (K × V) (fun a b => a.1 < b.1) :=
    ⟨fun _ _ h h' => absurd (h.trans h') (lt_irrefl _)⟩
  refine List.eq_of_perm_of_sorted ((List.perm_ext_iff_of_nodup ?_ ?_).2 fun e => ?_) sorted₁
    sorted₂
  · exact sorted₁.imp fun h => ne_of_apply_ne Prod.fst (ne_of_lt h)
  · exact sorted₂.imp fun h => ne_of_apply_ne Prod.fst (ne_of_lt h)
  · rw [mem_iff_lookup sorted₁, mem_iff_lookup sorted₂, same]

/-! ## Operations -/

omit [DecidableEq K] in
theorem entries_injective {m₁ m₂ : SortedMap K V} (h : m₁.entries = m₂.entries) :
    m₁ = m₂ := by
  cases m₁; cases m₂; cases h; rfl

omit [DecidableEq K] in
/-- The keys of a map are distinct. -/
theorem nodup_keys (m : SortedMap K V) : (m.entries.map (·.1)).Nodup :=
  List.pairwise_map.2 (m.sorted.imp ne_of_lt)

instance [DecidableEq V] : DecidableEq (SortedMap K V) := fun m₁ m₂ =>
  decidable_of_iff (m₁.entries = m₂.entries) ⟨entries_injective, fun h => h ▸ rfl⟩

instance : EmptyCollection (SortedMap K V) := ⟨⟨[], List.Pairwise.nil⟩⟩

instance : Inhabited (SortedMap K V) := ⟨∅⟩

/-- `BTreeMap::get`. -/
def get (m : SortedMap K V) (k : K) : Option V := lookup k m.entries

/-- `BTreeMap::insert`. -/
def insert (m : SortedMap K V) (k : K) (v : V) : SortedMap K V :=
  ⟨insertEntry k v m.entries, insertEntry_sorted k v m.sorted⟩

/-- Rewrite every value in place, the keys staying as they are. -/
def mapValues (m : SortedMap K V) (f : K → V → W) : SortedMap K W :=
  ⟨m.entries.map (fun e => (e.1, f e.1 e.2)),
    List.pairwise_map.mpr (m.sorted.imp id)⟩

/-- Collect the entries for which `f` gives a value into a new map. -/
def filterMapValues (m : SortedMap K V) (f : K → V → Option W) : SortedMap K W :=
  ⟨m.entries.filterMap (fun e => (f e.1 e.2).map (fun w => (e.1, w))),
    List.Pairwise.filterMap _ (fun a b hab a' ha' b' hb' => by
      simp only [Option.mem_def, Option.map_eq_some'] at ha' hb'
      obtain ⟨_, -, rfl⟩ := ha'
      obtain ⟨_, -, rfl⟩ := hb'
      exact hab) m.sorted⟩

/-- `BTreeMap::retain`. -/
def retain (m : SortedMap K V) (p : K → V → Bool) : SortedMap K V :=
  m.filterMapValues fun k v => if p k v then some v else none

/-- `BTreeMap::remove`. -/
def remove (m : SortedMap K V) (k : K) : SortedMap K V :=
  m.retain fun k' _ => k' ≠ k

/-- A map of a list of entries, the first entry of a key winning. -/
def ofList (l : List (K × V)) : SortedMap K V :=
  l.foldr (fun e m => m.insert e.1 e.2) ∅

/-- `BTreeMap::from_iter`, which `collect` calls: insert each pair in turn, a later
pair of a key replacing an earlier one. -/
def fromIter (l : List (K × V)) : SortedMap K V :=
  l.foldl (fun m e => m.insert e.1 e.2) ∅

/-- `BTreeMap::contains_key`. -/
def containsKey (m : SortedMap K V) (k : K) : Bool := (m.get k).isSome

/-! ## Lookup lemmas -/

@[simp] theorem get_empty (k : K) : (∅ : SortedMap K V).get k = none := rfl

@[simp] theorem get_insert (m : SortedMap K V) (k k' : K) (v : V) :
    (m.insert k v).get k' = if k = k' then some v else m.get k' :=
  lookup_insertEntry k k' v m.entries

/-- In a sorted list, the entry a key finds is its only one. -/
theorem lookup_filterMap {l : List (K × V)} (sorted : l.Pairwise (fun a b => a.1 < b.1))
    (f : K → V → Option W) (k : K) :
    lookup k (l.filterMap fun e => (f e.1 e.2).map fun w => (e.1, w)) =
      (lookup k l).bind (f k) := by
  induction l with
  | nil => rfl
  | cons e rest ih =>
      rw [List.pairwise_cons] at sorted
      rw [List.filterMap_cons, lookup_cons]
      by_cases hk : e.1 = k
      · subst hk
        have gone : lookup e.1 rest = none := lookup_eq_none_of_lt sorted.1
        rw [if_pos rfl, Option.some_bind]
        cases hf : f e.1 e.2 <;> simp [lookup_cons, hf, ih sorted.2, gone]
      · cases hf : f e.1 e.2 <;> simp [lookup_cons, hk, hf, ih sorted.2]

@[simp] theorem get_filterMapValues (m : SortedMap K V) (f : K → V → Option W) (k : K) :
    (m.filterMapValues f).get k = (m.get k).bind (f k) :=
  lookup_filterMap m.sorted f k

@[simp] theorem get_retain (m : SortedMap K V) (p : K → V → Bool) (k : K) :
    (m.retain p).get k = (m.get k).filter (p k) := by
  simp only [retain, get_filterMapValues]
  cases m.get k with
  | none => rfl
  | some v => by_cases h : p k v <;> simp [h, Option.filter]

@[simp] theorem get_remove (m : SortedMap K V) (k k' : K) :
    (m.remove k).get k' = if k' = k then none else m.get k' := by
  simp only [remove, get_retain]
  cases m.get k' <;> by_cases h : k' = k <;> simp [h, Option.filter]

@[simp] theorem get_mapValues (m : SortedMap K V) (f : K → V → W) (k : K) :
    (m.mapValues f).get k = (m.get k).map (f k) := by
  simp only [get, mapValues]
  induction m.entries with
  | nil => rfl
  | cons e rest ih =>
      by_cases hk : e.1 = k
      · subst hk; simp [lookup_cons]
      · simp [lookup_cons, hk, ih]

@[simp] theorem get_ofList (l : List (K × V)) (k : K) : (ofList l).get k = lookup k l := by
  induction l with
  | nil => rfl
  | cons e rest ih =>
      simp only [ofList, List.foldr_cons] at ih ⊢
      rw [get_insert, ih, lookup_cons]

/-- Collecting keeps, for each key, its last pair. -/
theorem get_fromIter (l : List (K × V)) (k : K) :
    (fromIter l).get k = ((l.filter fun e => e.1 = k).getLast?).map (·.2) := by
  have folded : fromIter l = ofList l.reverse := (List.foldr_reverse _ _ _).symm
  rw [folded, get_ofList, lookup_eq_head?_filter, List.filter_reverse, List.head?_reverse]

/-- Maps with the same lookups are equal. -/
theorem ext {m₁ m₂ : SortedMap K V} (same : ∀ k, m₁.get k = m₂.get k) : m₁ = m₂ := by
  cases m₁; cases m₂
  congr
  exact entries_eq_of_lookup ‹_› ‹_› same

theorem mem_entries_iff {m : SortedMap K V} {k : K} {v : V} :
    (k, v) ∈ m.entries ↔ m.get k = some v :=
  mem_iff_lookup m.sorted

end SortedMap

end Chitchat
