import OrderBookRs.Collections.AssocMap
import OrderBookRs.Order

/-!
# The per-user order index

`user_orders` and its three maintenance functions in `private.rs`: tracking appends to the user's
list, untracking by user filters that list, untracking by id searches all lists and swap-removes.
A list that runs empty is dropped.

What the index says is the relation `Listed`; each function is characterised by how it changes that
relation, and keeps `WellFormed`.

## Main definitions

* `UserOrders.track`, `UserOrders.untrackUser`, `UserOrders.untrackById`.
* `UserOrders.Listed`: an id is in a user's list.
* `UserOrders.WellFormed`: no empty list, no id twice.
-/

namespace OrderBookRs

/-! ### Swap-removal -/

/-- `Vec::swap_remove`: the last element takes the place of the removed one. -/
def swapRemove {α : Type} (xs : List α) (pos : ℕ) : List α :=
  match xs.getLast? with
  | none => []
  | some z => (xs.set pos z).dropLast

theorem swapRemove_last {α : Type} (l₁ : List α) (a : α) :
    swapRemove (l₁ ++ [a]) l₁.length = l₁ := by simp [swapRemove]

theorem swapRemove_concat {α : Type} (l₁ l₂ : List α) (a z : α) :
    swapRemove (l₁ ++ a :: (l₂ ++ [z])) l₁.length = l₁ ++ z :: l₂ := by
  have hset : (l₁ ++ a :: (l₂ ++ [z])).set l₁.length z = l₁ ++ z :: (l₂ ++ [z]) := by simp
  have hlast : (l₁ ++ a :: (l₂ ++ [z])).getLast? = some z := by
    rw [show l₁ ++ a :: (l₂ ++ [z]) = (l₁ ++ a :: l₂) ++ [z] by simp]
    exact List.getLast?_concat
  rw [swapRemove, hlast]
  simp only [hset]
  rw [show l₁ ++ z :: (l₂ ++ [z]) = (l₁ ++ z :: l₂) ++ [z] by simp, List.dropLast_concat]

/-- Swap-removal removes one element and permutes the rest. -/
theorem swapRemove_perm {α : Type} (l₁ l₂ : List α) (a : α) :
    (swapRemove (l₁ ++ a :: l₂) l₁.length).Perm (l₁ ++ l₂) := by
  rcases List.eq_nil_or_concat l₂ with rfl | ⟨l₃, z, rfl⟩
  · rw [swapRemove_last, List.append_nil]
  · rw [List.concat_eq_append, swapRemove_concat]
    exact (List.perm_append_singleton z l₃).symm.append_left l₁

theorem swapRemove_idxOf_perm {ids : List OrderId} {i : OrderId} (h : i ∈ ids) :
    (swapRemove ids (ids.idxOf i)).Perm (ids.erase i) := by
  obtain ⟨l₁, l₂, hnot, rfl, herase⟩ := List.exists_erase_eq h
  have hidx : (l₁ ++ i :: l₂).idxOf i = l₁.length := by
    rw [List.idxOf_append_of_notMem hnot]
    simp
  rw [hidx, herase]
  exact swapRemove_perm l₁ l₂ i

/-- Swap-removal closes the gap in place only near the end of the list. -/
theorem swapRemove_eq_filter_iff {ids : List OrderId} {i : OrderId} (hnodup : ids.Nodup)
    (h : i ∈ ids) :
    swapRemove ids (ids.idxOf i) = ids.filter (fun x => x ≠ i) ↔
      ids.length ≤ ids.idxOf i + 2 := by
  obtain ⟨l₁, l₂, hnot, rfl, -⟩ := List.exists_erase_eq h
  have hidx : (l₁ ++ i :: l₂).idxOf i = l₁.length := by
    rw [List.idxOf_append_of_notMem hnot]
    simp
  have hnot' : i ∉ l₂ := (List.nodup_cons.mp hnodup.of_append_right).1
  have hfilter : (l₁ ++ i :: l₂).filter (fun x => x ≠ i) = l₁ ++ l₂ := by
    rw [List.filter_append, List.filter_cons_of_neg (by simp), List.filter_eq_self.mpr,
      List.filter_eq_self.mpr]
    · exact fun x hx => by simpa using ne_of_mem_of_not_mem hx hnot'
    · exact fun x hx => by simpa using ne_of_mem_of_not_mem hx hnot
  rw [hidx, hfilter, List.length_append, List.length_cons]
  rcases List.eq_nil_or_concat l₂ with rfl | ⟨l₃, z, rfl⟩
  · rw [swapRemove_last, List.append_nil]
    exact iff_of_true rfl (by simp)
  · rw [List.concat_eq_append, swapRemove_concat, List.append_cancel_left_eq, List.length_append]
    cases l₃ with
    | nil => simp
    | cons =>
      refine iff_of_false (fun heq => ?_) (by simp)
      have hz := (List.nodup_cons.mp hnodup.of_append_right).2
      rw [List.concat_eq_append, (List.cons.inj heq).1] at hz
      simp at hz

/-! ### The index -/

/-- `user_orders`: the resting order ids of each user, in admission order until a fill disturbs
it. -/
abbrev UserOrders := AssocMap Hash32 (List OrderId)

namespace UserOrders

/-- `track_user_order`. -/
def track (m : UserOrders) (user : Hash32) (id : OrderId) : UserOrders :=
  m.insert user ((m.lookup user).getD [] ++ [id])

/-- Store a user's list, dropping it when empty. -/
def store (m : UserOrders) (user : Hash32) (ids : List OrderId) : UserOrders :=
  if ids.isEmpty then m.erase user else m.insert user ids

/-- `untrack_user_order`. -/
def untrackUser (m : UserOrders) (user : Hash32) (id : OrderId) : UserOrders :=
  match m.lookup user with
  | none => m
  | some ids => m.store user (ids.filter fun x => x ≠ id)

/-- `untrack_order_by_id`: the first list that holds the id loses it. -/
def untrackById (m : UserOrders) (id : OrderId) : UserOrders :=
  match m.entries.find? fun e => id ∈ e.2 with
  | none => m
  | some e => m.store e.1 (swapRemove e.2 (e.2.idxOf id))

/-- `id` is in the list of `user`. -/
def Listed (m : UserOrders) (user : Hash32) (id : OrderId) : Prop :=
  ∃ ids, m.lookup user = some ids ∧ id ∈ ids

/-- No list is empty, no list repeats an id, and no two lists share one. -/
structure WellFormed (m : UserOrders) : Prop where
  nonempty : ∀ {user ids}, m.lookup user = some ids → ids ≠ []
  nodup : ∀ {user ids}, m.lookup user = some ids → ids.Nodup
  unique : ∀ {user user' id}, Listed m user id → Listed m user' id → user = user'

variable {m : UserOrders} {user user' : Hash32} {id id' : OrderId} {ids : List OrderId}

theorem listed_iff_of_lookup (h : m.lookup user = some ids) : Listed m user id ↔ id ∈ ids := by
  constructor
  · rintro ⟨ids', h', hmem⟩
    rw [h] at h'
    cases h'
    exact hmem
  · exact fun hmem => ⟨ids, h, hmem⟩

@[simp] theorem not_listed_empty : ¬ Listed (∅ : UserOrders) user id := by
  rintro ⟨ids, h, -⟩
  simp at h

theorem wellFormed_empty : WellFormed (∅ : UserOrders) :=
  ⟨fun h => by simp at h, fun h => by simp at h, fun h => absurd h not_listed_empty⟩

theorem lookup_store (m : UserOrders) (user user' : Hash32) (ids : List OrderId) :
    (m.store user ids).lookup user' =
      if user' = user then (if ids.isEmpty then none else some ids) else m.lookup user' := by
  unfold store
  split_ifs with he hu hu
  · rw [hu, AList.lookup_erase]
  · exact AList.lookup_erase_ne hu
  · rw [hu, AList.lookup_insert]
  · exact AList.lookup_insert_ne hu

theorem listed_store : Listed (m.store user ids) user' id ↔
    if user' = user then id ∈ ids else Listed m user' id := by
  unfold Listed
  rw [lookup_store]
  split_ifs with hu he
  · simp [List.isEmpty_iff.mp he]
  · simp
  · rfl

/-- Storing a shorter version of a user's own list keeps the index well formed. -/
theorem WellFormed.store (h : WellFormed m) {old : List OrderId} (hold : m.lookup user = some old)
    (hnodup : ids.Nodup) (hsub : ids ⊆ old) : WellFormed (m.store user ids) := by
  have hlisted : ∀ {v j}, Listed (m.store user ids) v j → Listed m v j := by
    intro v j hv
    rw [listed_store] at hv
    split_ifs at hv with hu
    · exact hu ▸ (listed_iff_of_lookup hold).mpr (hsub hv)
    · exact hv
  refine ⟨?_, ?_, fun h₁ h₂ => h.unique (hlisted h₁) (hlisted h₂)⟩
  · intro v js hjs
    rw [lookup_store] at hjs
    split_ifs at hjs with hu he
    · cases hjs
      exact fun hnil => he (List.isEmpty_iff.mpr hnil)
    · exact h.nonempty hjs
  · intro v js hjs
    rw [lookup_store] at hjs
    split_ifs at hjs with hu he
    · cases hjs
      exact hnodup
    · exact h.nodup hjs

/-! ### Tracking -/

theorem listed_track : Listed (m.track user id) user' id' ↔
    Listed m user' id' ∨ user' = user ∧ id' = id := by
  unfold Listed track
  by_cases hu : user' = user
  · subst hu
    rw [AList.lookup_insert]
    cases hl : m.lookup user' with
    | none | some => simp
  · rw [AList.lookup_insert_ne hu]
    simp [hu]

theorem WellFormed.track (h : WellFormed m) (hnew : ∀ u, ¬ Listed m u id) :
    WellFormed (m.track user id) := by
  have hnotMem : id ∉ (m.lookup user).getD [] := by
    intro hmem
    cases hl : m.lookup user with
    | none => simp [hl] at hmem
    | some ids => exact hnew user ⟨ids, hl, by simpa [hl] using hmem⟩
  refine ⟨?_, ?_, ?_⟩
  · intro v js hjs
    rw [UserOrders.track] at hjs
    by_cases hv : v = user
    · rw [hv, AList.lookup_insert] at hjs
      cases hjs
      simp
    · rw [AList.lookup_insert_ne hv] at hjs
      exact h.nonempty hjs
  · intro v js hjs
    rw [UserOrders.track] at hjs
    by_cases hv : v = user
    · rw [hv, AList.lookup_insert] at hjs
      cases hjs
      cases hl : m.lookup user with
      | none => simp
      | some =>
        rw [hl] at hnotMem
        exact List.nodup_append.mpr ⟨h.nodup hl, by simp, by
          rintro a ha b hb rfl
          exact hnotMem (by simpa [List.mem_singleton.mp hb] using ha)⟩
    · rw [AList.lookup_insert_ne hv] at hjs
      exact h.nodup hjs
  · intro v v' j hv hv'
    rw [listed_track] at hv hv'
    rcases hv with hv | ⟨rfl, rfl⟩ <;> rcases hv' with hv' | ⟨rfl, hj⟩
    · exact h.unique hv hv'
    · exact absurd (hj ▸ hv) (hnew v)
    · exact absurd hv' (hnew v')
    · rfl

/-! ### Untracking -/

theorem listed_untrackUser : Listed (m.untrackUser user id) user' id' ↔
    Listed m user' id' ∧ ¬ (user' = user ∧ id' = id) := by
  unfold untrackUser
  cases hl : m.lookup user with
  | none =>
    constructor
    · intro h
      refine ⟨h, ?_⟩
      rintro ⟨rfl, -⟩
      obtain ⟨ids, hids, -⟩ := h
      rw [hl] at hids
      cases hids
    · exact fun h => h.1
  | some =>
    rw [listed_store]
    split_ifs with hu
    · subst hu
      simp [listed_iff_of_lookup hl]
    · simp [hu]

theorem WellFormed.untrackUser (h : WellFormed m) : WellFormed (m.untrackUser user id) := by
  unfold UserOrders.untrackUser
  cases hl : m.lookup user with
  | none => exact h
  | some => exact h.store hl ((h.nodup hl).filter _) fun _ hx => List.mem_of_mem_filter hx

theorem find?_listed {e : Sigma fun _ : Hash32 => List OrderId}
    (h : (m.entries.find? fun e => id ∈ e.2) = some e) : m.lookup e.1 = some e.2 ∧ id ∈ e.2 :=
  ⟨AssocMap.mem_entries_iff_lookup.mp (List.mem_of_find?_eq_some h),
    by simpa using List.find?_some h⟩

theorem listed_untrackById (h : WellFormed m) : Listed (m.untrackById id) user' id' ↔
    Listed m user' id' ∧ id' ≠ id := by
  unfold untrackById
  cases hf : m.entries.find? fun e => id ∈ e.2 with
  | none =>
    constructor
    · rintro ⟨ids, hids, hmem⟩
      refine ⟨⟨ids, hids, hmem⟩, ?_⟩
      rintro rfl
      have := List.find?_eq_none.mp hf _ (AssocMap.mem_entries_iff_lookup.mpr hids)
      simp [hmem] at this
    · exact fun h => h.1
  | some e =>
    obtain ⟨hl, hmem⟩ := find?_listed hf
    rw [listed_store]
    split_ifs with hu
    · subst hu
      rw [(swapRemove_idxOf_perm hmem).mem_iff, (h.nodup hl).mem_erase_iff,
        listed_iff_of_lookup hl, and_comm]
    · -- the id is in this list only, so the other lists cannot hold it
      refine ⟨fun hv => ⟨hv, ?_⟩, fun hv => hv.1⟩
      rintro rfl
      exact hu (h.unique hv ⟨e.2, hl, hmem⟩)

theorem WellFormed.untrackById (h : WellFormed m) : WellFormed (m.untrackById id) := by
  unfold UserOrders.untrackById
  cases hf : m.entries.find? fun e => id ∈ e.2 with
  | none => exact h
  | some =>
    obtain ⟨hl, hmem⟩ := find?_listed hf
    have hperm := swapRemove_idxOf_perm hmem
    exact h.store hl (hperm.nodup_iff.mpr ((h.nodup hl).erase id))
      fun _ hx => List.mem_of_mem_erase (hperm.subset hx)

/-- **The two ways to untrack an id agree** iff its own user alone lists it, if anyone, near the end
of the list. -/
theorem lookup_untrack_eq_iff (h : WellFormed m) (howner : ∀ {v}, Listed m v id → v = user) :
    (∀ v, (m.untrackById id).lookup v = (m.untrackUser user id).lookup v) ↔
      ∀ ids, m.lookup user = some ids → ids.length ≤ ids.idxOf id + 2 := by
  by_cases hlisted : Listed m user id
  · obtain ⟨ids, hids, hmem⟩ := hlisted
    have hbyId : m.untrackById id = m.store user (swapRemove ids (ids.idxOf id)) := by
      rw [untrackById]
      cases hf : m.entries.find? fun e => id ∈ e.2 with
      | none =>
        have hnone := List.find?_eq_none.mp hf _ (AssocMap.mem_entries_iff_lookup.mpr hids)
        exact absurd hmem (by simpa using hnone)
      | some e =>
        obtain ⟨hl, hmem'⟩ := find?_listed hf
        obtain ⟨v, js⟩ := e
        obtain rfl := howner ⟨js, hl, hmem'⟩
        rw [hids] at hl
        obtain rfl := Option.some.inj hl
        rfl
    have hbyUser : m.untrackUser user id = m.store user (ids.filter fun x => x ≠ id) := by
      rw [untrackUser, hids]
    rw [hbyId, hbyUser]
    simp only [lookup_store, hids, Option.some.injEq, forall_eq']
    rw [← swapRemove_eq_filter_iff (h.nodup hids) hmem]
    constructor
    · intro heq
      have huser := heq user
      simp only [if_true] at huser
      split_ifs at huser with he he'
      · rw [List.isEmpty_iff.mp he, List.isEmpty_iff.mp he']
      · exact Option.some.inj huser
    · intro heq v
      rw [heq]
  · have hbyId : m.untrackById id = m := by
      rw [untrackById]
      cases hf : m.entries.find? fun e => id ∈ e.2 with
      | none => rfl
      | some =>
        obtain ⟨hl, hmem⟩ := find?_listed hf
        exact absurd (howner ⟨_, hl, hmem⟩ ▸ ⟨_, hl, hmem⟩) hlisted
    refine iff_of_true (fun v => ?_) fun ids hids => ?_
    · rw [hbyId, untrackUser]
      cases hids : m.lookup user with
      | none => rfl
      | some ids =>
        have hnot : id ∉ ids := fun hmem => hlisted ⟨ids, hids, hmem⟩
        have hself : (ids.filter fun x => x ≠ id) = ids :=
          List.filter_eq_self.mpr fun x hx => by simpa using ne_of_mem_of_not_mem hx hnot
        dsimp only
        rw [hself, lookup_store]
        split_ifs with hv hempty
        · exact absurd (List.isEmpty_iff.mp hempty) (h.nonempty hids)
        · rw [hv, hids]
        · rfl
    · rw [List.idxOf_eq_length fun hmem => hlisted ⟨ids, hids, hmem⟩]
      exact Nat.le_add_right ..

theorem listed_erase : Listed (m.erase user) user' id ↔ user' ≠ user ∧ Listed m user' id := by
  unfold Listed
  by_cases hu : user' = user
  · subst hu
    simp [AList.lookup_erase]
  · rw [AList.lookup_erase_ne hu]
    simp [hu]

theorem WellFormed.erase (h : WellFormed m) : WellFormed (m.erase user) := by
  have hlookup : ∀ {v js}, (m.erase user).lookup v = some js → m.lookup v = some js := by
    intro v js hjs
    by_cases hv : v = user
    · rw [hv, AList.lookup_erase] at hjs
      cases hjs
    · rwa [AList.lookup_erase_ne hv] at hjs
  exact ⟨fun hjs => h.nonempty (hlookup hjs), fun hjs => h.nodup (hlookup hjs),
    fun h₁ h₂ => h.unique (listed_erase.mp h₁).2 (listed_erase.mp h₂).2⟩

end UserOrders

end OrderBookRs
