import Mathlib.Data.List.AList
import Mathlib.Algebra.BigOperators.Group.List.Basic
import Mathlib.Algebra.Order.BigOperators.Group.List
import Mathlib.Data.List.Perm.Subperm
import Mathlib.Tactic.Ring

/-!
# Totals over association maps

`AssocMap K V` is Mathlib's `AList` without type dependency. The point operations and their lemmas
are Mathlib's; this module adds the total of a weight over all entries, how an insertion or a
removal changes it, how it compares with a total over a list whose keys are all in the map, and when
two maps have the same entries. It also compares the weights of two lists with distinct keys.

## Main definitions

* `AssocMap.total`: the sum of a weight over the entries.
* `AssocMap.weightAt`: what one key contributes to the total.
* `AssocMap.Alike`: the same entries, in whatever order.

## Main results

* `AssocMap.total_erase`, `AssocMap.total_update`: the total after an update.
* `AssocMap.sum_le_total`: a list of distinct keys weighs at most the whole map.
* `AssocMap.sum_eq_total`: with exactly the map's keys it weighs the same.
* `sum_add_sum_of_keys`: two lists differ by what the elements of the first gave away.
-/

namespace OrderBookRs

/-- A finite map with one entry per key, in the order of insertion. -/
abbrev AssocMap (K V : Type) := AList fun _ : K => V

namespace AssocMap

variable {K V : Type}

/-- The sum of a weight over all entries. -/
def total (f : K → V → ℕ) (m : AssocMap K V) : ℕ := (m.entries.map fun e => f e.1 e.2).sum

@[simp] theorem total_empty (f : K → V → ℕ) : total f (∅ : AssocMap K V) = 0 := rfl

theorem nodup_entries (m : AssocMap K V) : m.entries.Nodup := m.nodupKeys.nodup

variable [DecidableEq K]

/-- What key `k` contributes to a total. -/
def weightAt (f : K → V → ℕ) (m : AssocMap K V) (k : K) : ℕ := (m.lookup k).elim 0 (f k)

/-- Removing a key takes away exactly its contribution. -/
theorem total_erase (f : K → V → ℕ) (m : AssocMap K V) (k : K) :
    total f (m.erase k) + weightAt f m k = total f m := by
  rcases m with ⟨es, hes⟩
  change ((es.kerase k).map fun e => f e.1 e.2).sum + (es.dlookup k).elim 0 (f k) = _
  by_cases hk : k ∈ es.keys
  · obtain ⟨v, l₁, l₂, -, rfl, herase⟩ := List.exists_of_kerase hk
    have hlookup : (l₁ ++ ⟨k, v⟩ :: l₂).dlookup k = some v := by
      rw [← Option.mem_def, List.mem_dlookup_iff hes]
      simp
    rw [herase, hlookup]
    simp only [total, List.map_append, List.sum_append, List.map_cons, List.sum_cons,
      Option.elim_some]
    ring
  · rw [List.kerase_of_notMem_keys hk, List.dlookup_eq_none.mpr hk]
    simp [total]

theorem mem_keys_of_lookup {m : AssocMap K V} {k : K} (h : m.lookup k ≠ none) : k ∈ m.keys :=
  AList.mem_keys.mp (AList.lookup_isSome.mp (Option.isSome_iff_ne_none.mpr h))

/-- The entry list as key-value pairs found by lookup. -/
theorem mem_entries_iff_lookup {m : AssocMap K V} {k : K} {v : V} :
    (⟨k, v⟩ : Sigma fun _ : K => V) ∈ m.entries ↔ m.lookup k = some v := by
  rw [← AList.mem_lookup_iff, Option.mem_def]

/-- Two maps that differ at one key differ by its contributions. -/
theorem total_update {m m' : AssocMap K V} {k : K} (f : K → V → ℕ)
    (h : ∀ k', k' ≠ k → m'.lookup k' = m.lookup k') :
    total f m' + weightAt f m k = total f m + weightAt f m' k := by
  have hperm : (m'.erase k).entries.Perm (m.erase k).entries := by
    refine (List.perm_ext_iff_of_nodup (nodup_entries _) (nodup_entries _)).mpr ?_
    rintro ⟨k', v⟩
    rw [mem_entries_iff_lookup, mem_entries_iff_lookup]
    by_cases hk : k' = k
    · rw [hk, AList.lookup_erase, AList.lookup_erase]
    · rw [AList.lookup_erase_ne hk, AList.lookup_erase_ne hk, h k' hk]
  have herase : total f (m'.erase k) = total f (m.erase k) := (hperm.map _).sum_eq
  have hbefore := total_erase f m k
  have hafter := total_erase f m' k
  omega

/-- **A list of distinct keys of the map weighs at most the whole map.** -/
theorem sum_le_total {α : Type} {f : K → V → ℕ} {m : AssocMap K V} {xs : List α} {key : α → K}
    {val : α → V} (hnodup : (xs.map key).Nodup)
    (hmem : ∀ x ∈ xs, m.lookup (key x) = some (val x)) :
    (xs.map fun x => f (key x) (val x)).sum ≤ total f m := by
  let es : List (Sigma fun _ : K => V) := xs.map fun x => ⟨key x, val x⟩
  have hes : es.Nodup := by
    refine List.Nodup.of_map Sigma.fst ?_
    simpa [es, Function.comp_def] using hnodup
  have hsub : es ⊆ m.entries := by
    intro e he
    obtain ⟨x, hx, rfl⟩ := List.mem_map.mp he
    exact mem_entries_iff_lookup.mpr (hmem x hx)
  obtain ⟨es', hperm, hsublist⟩ := hes.subperm hsub
  calc (xs.map fun x => f (key x) (val x)).sum
      = (es.map fun e => f e.1 e.2).sum := by simp [es, Function.comp_def]
    _ = (es'.map fun e => f e.1 e.2).sum := (hperm.symm.map _).sum_eq
    _ ≤ total f m := (hsublist.map _).sum_le_sum fun _ _ => Nat.zero_le _

/-- A list that holds exactly the map's keys weighs the same as the map. -/
theorem sum_eq_total {α : Type} {f : K → V → ℕ} {m : AssocMap K V} {xs : List α} {key : α → K}
    {val : α → V} (hnodup : (xs.map key).Nodup)
    (hmem : ∀ k v, m.lookup k = some v ↔ ∃ x ∈ xs, key x = k ∧ val x = v) :
    (xs.map fun x => f (key x) (val x)).sum = total f m := by
  let es : List (Sigma fun _ : K => V) := xs.map fun x => ⟨key x, val x⟩
  have hes : es.Nodup := by
    refine List.Nodup.of_map Sigma.fst ?_
    simpa [es, Function.comp_def] using hnodup
  have hperm : es.Perm m.entries := by
    refine (List.perm_ext_iff_of_nodup hes m.nodup_entries).mpr ?_
    rintro ⟨k, v⟩
    rw [mem_entries_iff_lookup, hmem k v]
    simp [es, and_left_comm]
  calc (xs.map fun x => f (key x) (val x)).sum
      = (es.map fun e => f e.1 e.2).sum := by simp [es, Function.comp_def]
    _ = total f m := (hperm.map _).sum_eq

/-! ### Maps with the same entries -/

/-- Every lookup gives the same; the entries may stand in different orders. -/
def Alike (m m' : AssocMap K V) : Prop := ∀ k, m'.lookup k = m.lookup k

theorem Alike.refl (m : AssocMap K V) : Alike m m := fun _ => rfl

theorem Alike.insert {m m' : AssocMap K V} (h : Alike m m') (k : K) (v : V) :
    Alike (m.insert k v) (m'.insert k v) := by
  intro k'
  by_cases hk : k' = k
  · rw [hk, AList.lookup_insert, AList.lookup_insert]
  · rw [AList.lookup_insert_ne hk, AList.lookup_insert_ne hk, h]

theorem Alike.erase {m m' : AssocMap K V} (h : Alike m m') (k : K) :
    Alike (m.erase k) (m'.erase k) := by
  intro k'
  by_cases hk : k' = k
  · rw [hk, AList.lookup_erase, AList.lookup_erase]
  · rw [AList.lookup_erase_ne hk, AList.lookup_erase_ne hk, h]

end AssocMap

/-! ### Lists with distinct keys -/

/-- **What elements gave away is what they lost together.** The elements of `ys` are those of `xs`
that are left: one that stays weighs less by what it gave, one that is gone gave all it weighed. -/
theorem sum_add_sum_of_keys {α K : Type} {key : α → K} {weight gave : α → ℕ} {xs ys : List α}
    (hxs : (xs.map key).Nodup) (hys : (ys.map key).Nodup) (hsub : ys.map key ⊆ xs.map key)
    (hstays : ∀ x ∈ xs, ∀ y ∈ ys, key y = key x → weight y + gave x = weight x)
    (hleaves : ∀ x ∈ xs, key x ∉ ys.map key → gave x = weight x) :
    (ys.map weight).sum + (xs.map gave).sum = (xs.map weight).sum := by
  induction xs generalizing ys with
  | nil =>
    cases ys with
    | nil => rfl
    | cons y ys => cases hsub (List.mem_cons_self ..)
  | cons x xs ih =>
    obtain ⟨hx, hxs⟩ := List.nodup_cons.mp hxs
    rw [List.map_cons, List.sum_cons, List.map_cons, List.sum_cons]
    by_cases hkey : key x ∈ ys.map key
    · obtain ⟨y, hy, hyx⟩ := List.mem_map.mp hkey
      have hhead := hstays x (List.mem_cons_self ..) y hy hyx
      -- the element that stays is taken out of `ys`
      obtain ⟨before, after, rfl⟩ := List.append_of_mem hy
      have hperm : (before ++ y :: after).Perm (y :: (before ++ after)) := List.perm_middle
      obtain ⟨hnot, hnodup⟩ := List.nodup_cons.mp ((hperm.map key).nodup_iff.mp hys)
      have hkeys : ∀ k, k ∈ (before ++ y :: after).map key ↔
          k = key y ∨ k ∈ (before ++ after).map key := fun k =>
        (hperm.map key).mem_iff.trans List.mem_cons
      have hsum : ((before ++ y :: after).map weight).sum =
          weight y + ((before ++ after).map weight).sum := (hperm.map weight).sum_eq
      have htail := ih hxs hnodup
        (fun k hk => (List.mem_cons.mp (hsub ((hkeys k).mpr (Or.inr hk)))).resolve_left fun heq =>
          hnot (by rwa [hyx, ← heq]))
        (fun z hz w hw => hstays z (List.mem_cons_of_mem _ hz) w
          (hperm.symm.subset (List.mem_cons_of_mem _ hw)))
        (fun z hz hgone => hleaves z (List.mem_cons_of_mem _ hz) fun hmem =>
          ((hkeys _).mp hmem).elim (fun heq => hx (by
            rw [← hyx, ← heq]
            exact List.mem_map_of_mem hz)) hgone)
      omega
    · have hhead := hleaves x (List.mem_cons_self ..) hkey
      have htail := ih hxs hys
        (fun k hk => (List.mem_cons.mp (hsub hk)).resolve_left fun heq => hkey (heq ▸ hk))
        (fun z hz => hstays z (List.mem_cons_of_mem _ hz))
        (fun z hz => hleaves z (List.mem_cons_of_mem _ hz))
      omega

end OrderBookRs
