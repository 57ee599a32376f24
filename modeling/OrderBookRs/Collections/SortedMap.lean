import Mathlib.Data.List.Sort
import Mathlib.Data.List.Lattice
import Mathlib.Order.Basic

/-!
# Sorted maps

An ordered map over a linearly ordered key type, kept as a list of entries in strictly ascending
key order. The order is a field of the structure, so an unsorted map cannot be built, and both
directions of iteration are a matter of reading the list forwards or backwards.

Lookup, insertion and removal are all characterised by membership in `entries`; the rest of the
API is derived from those three characterisations.

## Main definitions

* `SortedMap K V`: the map itself.
* `SortedMap.get?`, `SortedMap.insert`, `SortedMap.erase`: point operations.
* `SortedMap.firstKey?`, `SortedMap.lastKey?`: the two ends.

## Main results

* `SortedMap.mem_entries_iff`: an entry is listed iff it is found by lookup.
* `SortedMap.get?_insert`, `SortedMap.get?_erase`: lookup after an update.
* `SortedMap.ext_get?`: lookup determines the map.
-/

namespace OrderBookRs

/-- A map with entries in strictly ascending key order. -/
structure SortedMap (K V : Type) [LinearOrder K] where
  /-- The entries, in ascending key order. -/
  entries : List (K × V)
  /-- Keys strictly ascend, so each key occurs at most once. -/
  sorted : entries.Pairwise fun a b => a.1 < b.1

namespace SortedMap

variable {K V : Type} [LinearOrder K]

/-- The map with no entries. -/
def empty : SortedMap K V := ⟨[], List.Pairwise.nil⟩

instance : EmptyCollection (SortedMap K V) := ⟨empty⟩

/-- The value at key `k`, if any. -/
def get? (m : SortedMap K V) (k : K) : Option V :=
  (m.entries.find? fun e => e.1 = k).map Prod.snd

/-- The map has no entries. -/
def isEmpty (m : SortedMap K V) : Bool := m.entries.isEmpty

/-- The smallest key. -/
def firstKey? (m : SortedMap K V) : Option K := m.entries.head?.map Prod.fst

/-- The largest key. -/
def lastKey? (m : SortedMap K V) : Option K := m.entries.getLast?.map Prod.fst

/-- Insertion into an ascending list, replacing the entry at an equal key. -/
def insertEntries (k : K) (v : V) : List (K × V) → List (K × V)
  | [] => [(k, v)]
  | (k', v') :: rest =>
    if k < k' then (k, v) :: (k', v') :: rest
    else if k = k' then (k, v) :: rest
    else (k', v') :: insertEntries k v rest

/-! ### Membership in the entry list -/

theorem mem_insertEntries {k : K} {v : V} {e : K × V} {es : List (K × V)}
    (hs : es.Pairwise fun a b => a.1 < b.1) :
    e ∈ insertEntries k v es ↔ e = (k, v) ∨ (e ∈ es ∧ e.1 ≠ k) := by
  induction es with
  | nil => simp [insertEntries]
  | cons x rest ih =>
    obtain ⟨k', v'⟩ := x
    obtain ⟨hlt, hrest⟩ := List.pairwise_cons.mp hs
    have htail : ∀ a ∈ rest, k' < a.1 := hlt
    simp only [insertEntries]
    split_ifs with h₁ h₂
    · -- every listed key is above `k`, so the side condition is free
      have hne : ∀ a ∈ (k', v') :: rest, a.1 ≠ k := by
        intro a ha
        rcases List.mem_cons.mp ha with rfl | ha
        · exact h₁.ne'
        · exact (h₁.trans (htail a ha)).ne'
      constructor
      · intro h
        rcases List.mem_cons.mp h with rfl | h
        · exact Or.inl rfl
        · exact Or.inr ⟨h, hne e h⟩
      · rintro (rfl | ⟨h, -⟩)
        · exact List.mem_cons_self ..
        · exact List.mem_cons_of_mem _ h
    · subst h₂
      constructor
      · intro h
        rcases List.mem_cons.mp h with rfl | h
        · exact Or.inl rfl
        · exact Or.inr ⟨List.mem_cons_of_mem _ h, (htail e h).ne'⟩
      · rintro (rfl | ⟨h, hk⟩)
        · exact List.mem_cons_self ..
        · rcases List.mem_cons.mp h with rfl | h
          · exact absurd rfl hk
          · exact List.mem_cons_of_mem _ h
    · rw [List.mem_cons, ih hrest, List.mem_cons]
      constructor
      · rintro (rfl | rfl | ⟨h, hk⟩)
        · exact Or.inr ⟨Or.inl rfl, fun h => h₂ h.symm⟩
        · exact Or.inl rfl
        · exact Or.inr ⟨Or.inr h, hk⟩
      · rintro (rfl | ⟨rfl | h, hk⟩)
        · exact Or.inr (Or.inl rfl)
        · exact Or.inl rfl
        · exact Or.inr (Or.inr ⟨h, hk⟩)

theorem pairwise_insertEntries {k : K} {v : V} {es : List (K × V)}
    (hs : es.Pairwise fun a b => a.1 < b.1) :
    (insertEntries k v es).Pairwise fun a b => a.1 < b.1 := by
  induction es with
  | nil => simp [insertEntries]
  | cons x rest ih =>
    obtain ⟨k', v'⟩ := x
    obtain ⟨hlt, hrest⟩ := List.pairwise_cons.mp hs
    simp only [insertEntries]
    split_ifs with h₁ h₂
    · refine List.pairwise_cons.mpr ⟨fun a ha => ?_, hs⟩
      rcases List.mem_cons.mp ha with rfl | ha
      · exact h₁
      · exact h₁.trans (hlt a ha)
    · subst h₂
      exact List.pairwise_cons.mpr ⟨hlt, hrest⟩
    · refine List.pairwise_cons.mpr ⟨fun a ha => ?_, ih hrest⟩
      rcases (mem_insertEntries hrest).mp ha with rfl | ⟨ha, -⟩
      · exact lt_of_le_of_ne (not_lt.mp h₁) (Ne.symm h₂)
      · exact hlt a ha

/-- Insert `v` at `k`, replacing what was there. -/
def insert (m : SortedMap K V) (k : K) (v : V) : SortedMap K V :=
  ⟨insertEntries k v m.entries, pairwise_insertEntries m.sorted⟩

theorem insertEntries_append_last {k : K} {v : V} {es tail : List (K × V)}
    (hes : ∀ e ∈ es, e.1 < k) :
    insertEntries k v (es ++ tail) = es ++ insertEntries k v tail := by
  induction es with
  | nil => rfl
  | cons x rest ih =>
    obtain ⟨k', v'⟩ := x
    have hlt : k' < k := hes _ (List.mem_cons_self ..)
    rw [List.cons_append, insertEntries, if_neg hlt.not_gt, if_neg hlt.ne',
      ih fun e he => hes e (List.mem_cons_of_mem _ he), List.cons_append]

/-- A key above all others goes to the end. -/
theorem entries_insert_of_forall_lt {m : SortedMap K V} {k : K} (v : V)
    (h : ∀ e ∈ m.entries, e.1 < k) : (m.insert k v).entries = m.entries ++ [(k, v)] := by
  have hins : insertEntries k v (m.entries ++ []) = m.entries ++ insertEntries k v [] :=
    insertEntries_append_last h
  rwa [List.append_nil] at hins

/-- The value at the last key is replaced in place. -/
theorem entries_insert_last {m : SortedMap K V} {es : List (K × V)} {k : K} {w : V} (v : V)
    (h : m.entries = es ++ [(k, w)]) : (m.insert k v).entries = es ++ [(k, v)] := by
  have hsorted := m.sorted
  rw [h, List.pairwise_append] at hsorted
  have hlt : ∀ e ∈ es, e.1 < k := fun e he => hsorted.2.2 e he _ (List.mem_singleton_self _)
  have hins : insertEntries k v [(k, w)] = [(k, v)] := by
    rw [insertEntries, if_neg (lt_irrefl k), if_pos rfl]
  show insertEntries k v m.entries = _
  rw [h, insertEntries_append_last hlt, hins]

/-- Remove the entry at `k`. -/
def erase (m : SortedMap K V) (k : K) : SortedMap K V :=
  ⟨m.entries.filter fun e => e.1 ≠ k, m.sorted.sublist List.filter_sublist⟩

/-- Keep the entries whose key passes a test. -/
def filter (m : SortedMap K V) (p : K → Bool) : SortedMap K V :=
  ⟨m.entries.filter fun e => p e.1, m.sorted.sublist List.filter_sublist⟩

theorem nodup_keys (m : SortedMap K V) : (m.entries.map Prod.fst).Nodup :=
  List.pairwise_map.mpr (m.sorted.imp fun h => h.ne)

theorem eq_of_mem_entries {m : SortedMap K V} {k : K} {v w : V} (hv : (k, v) ∈ m.entries)
    (hw : (k, w) ∈ m.entries) : v = w :=
  congrArg Prod.snd (List.inj_on_of_nodup_map m.nodup_keys hv hw rfl)

/-- **Lookup is membership.** -/
theorem mem_entries_iff {m : SortedMap K V} {k : K} {v : V} :
    (k, v) ∈ m.entries ↔ m.get? k = some v := by
  constructor
  · intro h
    have hsome : (m.entries.find? fun e => e.1 = k).isSome :=
      List.find?_isSome.mpr ⟨(k, v), h, by simp⟩
    obtain ⟨⟨k', w⟩, hw⟩ := Option.isSome_iff_exists.mp hsome
    have hk : k' = k := by simpa using List.find?_some hw
    subst hk
    rw [get?, hw, Option.map_some, eq_of_mem_entries (List.mem_of_find?_eq_some hw) h]
  · intro h
    obtain ⟨⟨k', w⟩, hw, rfl⟩ := Option.map_eq_some_iff.mp h
    have hk : k' = k := by simpa using List.find?_some hw
    exact hk ▸ List.mem_of_find?_eq_some hw

theorem get?_eq_none_iff {m : SortedMap K V} {k : K} :
    m.get? k = none ↔ ∀ v, (k, v) ∉ m.entries := by
  simp only [mem_entries_iff, Option.eq_none_iff_forall_ne_some, ne_eq]

/-! ### Lookup after an update -/

theorem mem_entries_insert {m : SortedMap K V} {k : K} {v : V} {e : K × V} :
    e ∈ (m.insert k v).entries ↔ e = (k, v) ∨ (e ∈ m.entries ∧ e.1 ≠ k) :=
  mem_insertEntries m.sorted

theorem mem_entries_erase {m : SortedMap K V} {k : K} {e : K × V} :
    e ∈ (m.erase k).entries ↔ e ∈ m.entries ∧ e.1 ≠ k := by
  simp [erase, List.mem_filter]

@[simp] theorem get?_insert_self (m : SortedMap K V) (k : K) (v : V) :
    (m.insert k v).get? k = some v :=
  mem_entries_iff.mp (mem_entries_insert.mpr (Or.inl rfl))

theorem get?_insert_of_ne (m : SortedMap K V) {k k' : K} (v : V) (h : k' ≠ k) :
    (m.insert k v).get? k' = m.get? k' := by
  ext w
  rw [← mem_entries_iff, ← mem_entries_iff, mem_entries_insert]
  simp [h]

theorem get?_insert (m : SortedMap K V) (k k' : K) (v : V) :
    (m.insert k v).get? k' = if k' = k then some v else m.get? k' := by
  split_ifs with h
  · rw [h, get?_insert_self]
  · exact get?_insert_of_ne m v h

theorem get?_erase (m : SortedMap K V) (k k' : K) :
    (m.erase k).get? k' = if k' = k then none else m.get? k' := by
  split_ifs with h
  · rw [get?_eq_none_iff]
    intro v hv
    exact (mem_entries_erase.mp hv).2 h
  · ext w
    rw [← mem_entries_iff, ← mem_entries_iff, mem_entries_erase]
    simp [h]

@[simp] theorem get?_empty (k : K) : (∅ : SortedMap K V).get? k = none := rfl

/-- **Lookup determines the map**: two strictly ascending lists with the same entries agree. -/
theorem ext_get? {m n : SortedMap K V} (h : ∀ k, m.get? k = n.get? k) : m = n := by
  obtain ⟨es, hes⟩ := m
  obtain ⟨fs, hfs⟩ := n
  have hperm : es.Perm fs := by
    refine (List.perm_ext_iff_of_nodup (hes.imp fun h e => h.ne (congrArg Prod.fst e))
      (hfs.imp fun h e => h.ne (congrArg Prod.fst e))).mpr ?_
    rintro ⟨k, v⟩
    rw [mem_entries_iff (m := ⟨es, hes⟩), mem_entries_iff (m := ⟨fs, hfs⟩), h k]
  have heq : es = fs :=
    hperm.eq_of_pairwise (fun a b _ _ hab hba => absurd hab hba.not_gt) hes hfs
  subst heq
  rfl

theorem insert_eq_self {m : SortedMap K V} {k : K} {v : V} (h : m.get? k = some v) :
    m.insert k v = m := by
  refine ext_get? fun k' => ?_
  rw [get?_insert]
  split_ifs with hk
  · rw [hk, h]
  · rfl

/-! ### The two ends -/

theorem insert_insert (m : SortedMap K V) (k : K) (v w : V) :
    (m.insert k v).insert k w = m.insert k w := by
  refine ext_get? fun k' => ?_
  rw [get?_insert, get?_insert, get?_insert]
  split_ifs <;> rfl

theorem firstKey?_eq_none_iff {m : SortedMap K V} : m.firstKey? = none ↔ ∀ k, m.get? k = none := by
  simp only [firstKey?, Option.map_eq_none_iff, List.head?_eq_none_iff, get?_eq_none_iff]
  constructor
  · intro h k v
    simp [h]
  · intro h
    exact List.eq_nil_iff_forall_not_mem.mpr fun e => h e.1 e.2

/-- The first key is a key, and no key is below it. -/
theorem firstKey?_eq_some_iff {m : SortedMap K V} {k : K} :
    m.firstKey? = some k ↔ (m.get? k).isSome ∧ ∀ k', (m.get? k').isSome → k ≤ k' := by
  obtain ⟨es, hes⟩ := m
  cases es with
  | nil => simp [firstKey?, get?]
  | cons e rest =>
    have hmem : ∀ k', (get? ⟨e :: rest, hes⟩ k').isSome ↔ ∃ v, (k', v) ∈ e :: rest := by
      intro k'
      rw [Option.isSome_iff_exists]
      exact exists_congr fun v => mem_entries_iff.symm
    have hmin : ∀ x ∈ e :: rest, e.1 ≤ x.1 := by
      intro x hx
      rcases List.mem_cons.mp hx with rfl | hx
      · exact le_rfl
      · exact ((List.pairwise_cons.mp hes).1 x hx).le
    simp only [firstKey?, List.head?_cons, Option.map_some, Option.some.injEq, hmem]
    constructor
    · rintro rfl
      exact ⟨⟨e.2, List.mem_cons_self ..⟩, fun k' ⟨v, hv⟩ => hmin _ hv⟩
    · rintro ⟨⟨v, hv⟩, hle⟩
      exact le_antisymm (hmin _ hv) (hle e.1 ⟨e.2, List.mem_cons_self ..⟩)

/-- The last key is a key, and no key is above it. -/
theorem lastKey?_eq_some_iff {m : SortedMap K V} {k : K} :
    m.lastKey? = some k ↔ (m.get? k).isSome ∧ ∀ k', (m.get? k').isSome → k' ≤ k := by
  have hmem : ∀ k', (m.get? k').isSome ↔ ∃ v, (k', v) ∈ m.entries := by
    intro k'
    rw [Option.isSome_iff_exists]
    exact exists_congr fun v => mem_entries_iff.symm
  simp only [hmem, lastKey?]
  rcases List.eq_nil_or_concat m.entries with hnil | ⟨init, e, hcons⟩
  · simp [hnil]
  · rw [List.concat_eq_append] at hcons
    have hmax : ∀ x ∈ m.entries, x.1 ≤ e.1 := by
      intro x hx
      rw [hcons, List.mem_append, List.mem_singleton] at hx
      rcases hx with hx | rfl
      · have hs := m.sorted
        rw [hcons, List.pairwise_append] at hs
        exact (hs.2.2 x hx e (List.mem_singleton.mpr rfl)).le
      · exact le_rfl
    have he : e ∈ m.entries := by simp [hcons]
    rw [show m.entries.getLast?.map Prod.fst = some e.1 by simp [hcons], Option.some.injEq]
    constructor
    · rintro rfl
      exact ⟨⟨e.2, he⟩, fun k' ⟨v, hv⟩ => hmax _ hv⟩
    · rintro ⟨⟨v, hv⟩, hle⟩
      exact le_antisymm (hle e.1 ⟨e.2, he⟩) (hmax _ hv)

theorem lastKey?_eq_none_iff {m : SortedMap K V} : m.lastKey? = none ↔ ∀ k, m.get? k = none := by
  rw [← firstKey?_eq_none_iff]
  simp [firstKey?, lastKey?]

/-- The two ends depend on the keys only. -/
theorem firstKey?_congr {m n : SortedMap K V} (h : ∀ k, (m.get? k).isSome ↔ (n.get? k).isSome) :
    m.firstKey? = n.firstKey? := by
  ext k
  simp only [firstKey?_eq_some_iff, h]

theorem lastKey?_congr {m n : SortedMap K V} (h : ∀ k, (m.get? k).isSome ↔ (n.get? k).isSome) :
    m.lastKey? = n.lastKey? := by
  ext k
  simp only [lastKey?_eq_some_iff, h]

theorem insertEntries_append {k : K} {v w : V} {before after : List (K × V)}
    (h : ∀ e ∈ before, e.1 < k) :
    insertEntries k w (before ++ (k, v) :: after) = before ++ (k, w) :: after := by
  induction before with
  | nil => simp [insertEntries]
  | cons e before ih =>
    have he : e.1 < k := h e (List.mem_cons_self ..)
    have hrest := ih (List.forall_mem_cons.mp h).2
    simp only [List.cons_append, insertEntries, if_neg he.not_gt, if_neg he.ne', hrest]

/-- The entries around a key, and what writing or erasing the key makes of them. -/
theorem entries_split {m : SortedMap K V} {k : K} {v : V} (h : m.get? k = some v) :
    ∃ before after, m.entries = before ++ (k, v) :: after ∧
      (∀ e ∈ before, e.1 < k) ∧ (∀ e ∈ after, k < e.1) ∧
      (∀ w, (m.insert k w).entries = before ++ (k, w) :: after) ∧
      (m.erase k).entries = before ++ after := by
  obtain ⟨before, after, hsplit⟩ := List.append_of_mem (mem_entries_iff.mpr h)
  have hsorted := m.sorted
  rw [hsplit, List.pairwise_append, List.pairwise_cons] at hsorted
  have hbefore : ∀ e ∈ before, e.1 < k := fun e he => hsorted.2.2 e he _ (List.mem_cons_self ..)
  have hafter : ∀ e ∈ after, k < e.1 := hsorted.2.1.1
  refine ⟨before, after, hsplit, hbefore, hafter, fun w => ?_, ?_⟩
  · show insertEntries k w m.entries = _
    rw [hsplit, insertEntries_append hbefore]
  · show m.entries.filter _ = _
    rw [hsplit, List.filter_append, List.filter_cons_of_neg (by simp)]
    congr 1
    · exact List.filter_eq_self.mpr fun e he => by simpa using (hbefore e he).ne
    · exact List.filter_eq_self.mpr fun e he => by simpa using (hafter e he).ne'

theorem isEmpty_iff {m : SortedMap K V} : m.isEmpty ↔ ∀ k, m.get? k = none := by
  rw [← firstKey?_eq_none_iff]
  simp [isEmpty, firstKey?]

end SortedMap

end OrderBookRs
