import OrderBookRs.CancelPaths
import OrderBookRs.Queues
import OrderBookRs.Settings
import OrderBookRs.SpecialOrders

/-!
# What a batch of cancels leaves

The targeted mass cancels and the eviction collect ids and cancel them one by one. Each cancel finds
one order and takes it out of its queue, `order_locations`, the list of its user, the risk state and
the registered special orders, and none of these edits depends on the ones before it. So what a
batch leaves is described by the ids alone: `OrderBook.Sheds`.

## Main definitions

* `OrderBook.Sheds`: the second book is the first without the orders of some ids.
* `OrderBook.foundOrders`: what a batch finds, in the order of its ids.

## Main results

* `OrderBook.Sheds.append`: shedding composes.
* `OrderBook.Sound.sheds_batch`: a batch sheds the ids it finds and returns their orders.
-/

namespace OrderBookRs

open PriceLevel OrderBook

/-! ### Risk -/

theorem RiskEntry.sub_share (account : Hash32) (weight : RiskEntry → ℕ) (e : RiskEntry) (n : ℕ) :
    n - e.share account weight = if account = e.account then n - weight e else n := by
  split_ifs with h
  · rw [h, RiskEntry.share_self]
  · rw [RiskEntry.share_of_ne h, Nat.sub_zero]

namespace RiskState

/-- What the cancels of some ids release of an account, by a weight of the entries. Without a
configuration nothing is released. -/
def released (r : RiskState) (account : Hash32) (weight : RiskEntry → ℕ) (ids : List OrderId) : ℕ :=
  if r.config = none then 0
  else (ids.map fun i => (r.orders.lookup i).elim 0 (RiskEntry.share account weight)).sum

/-- `r'` is `r` after the cancels of `ids`. The counters saturate at zero. -/
structure Sheds (r : RiskState) (ids : List OrderId) (r' : RiskState) : Prop where
  config : r'.config = r.config
  entry : ∀ i, r'.orders.lookup i =
    if i ∈ ids ∧ r.config ≠ none then none else r.orders.lookup i
  openCount : ∀ a, r'.openCount a = r.openCount a - r.released a (fun _ => 1) ids
  restingNotional : ∀ a, r'.restingNotional a =
    r.restingNotional a - r.released a RiskEntry.notional ids

variable {r r' r'' : RiskState} {ids ids' : List OrderId}

theorem Sheds.refl (r : RiskState) : r.Sheds [] r where
  config := rfl
  entry i := by rw [if_neg fun h => List.not_mem_nil h.1]
  openCount a := by rw [released, List.map_nil, List.sum_nil, ite_self, Nat.sub_zero]
  restingNotional a := by rw [released, List.map_nil, List.sum_nil, ite_self, Nat.sub_zero]

theorem released_append (account : Hash32) (weight : RiskEntry → ℕ) :
    r.released account weight (ids ++ ids') =
      r.released account weight ids + r.released account weight ids' := by
  rw [released, released, released]
  split_ifs
  · rfl
  · rw [List.map_append, List.sum_append]

theorem released_perm (h : ids.Perm ids') (account : Hash32) (weight : RiskEntry → ℕ) :
    r.released account weight ids = r.released account weight ids' := by
  rw [released, released, (h.map _).sum_eq]

/-- Other ids release what they released before. -/
theorem Sheds.released_eq (h : r.Sheds ids r') (hdisjoint : ∀ i ∈ ids', i ∉ ids)
    (account : Hash32) (weight : RiskEntry → ℕ) :
    r'.released account weight ids' = r.released account weight ids' := by
  have hentries : ids'.map (fun i => (r'.orders.lookup i).elim 0 (RiskEntry.share account weight)) =
      ids'.map fun i => (r.orders.lookup i).elim 0 (RiskEntry.share account weight) :=
    List.map_congr_left fun i hi => by rw [h.entry, if_neg fun hin => hdisjoint i hi hin.1]
  rw [released, released, h.config, hentries]

theorem Sheds.append (h : r.Sheds ids r') (h' : r'.Sheds ids' r'')
    (hdisjoint : ∀ i ∈ ids', i ∉ ids) : r.Sheds (ids ++ ids') r'' where
  config := h'.config.trans h.config
  entry i := by
    rw [h'.entry, h.entry, h.config]
    simp only [List.mem_append]
    grind
  openCount a := by
    rw [h'.openCount, h.openCount, h.released_eq hdisjoint, released_append, Nat.sub_sub]
  restingNotional a := by
    rw [h'.restingNotional, h.restingNotional, h.released_eq hdisjoint, released_append,
      Nat.sub_sub]

/-- `on_cancel` sheds one id. -/
theorem sheds_onCancel (r : RiskState) (i : OrderId) : r.Sheds [i] (r.onCancel i) := by
  cases hconfig : r.config with
  | none =>
    have hsame : r.onCancel i = r := by rw [onCancel, hconfig]
    have hnothing : ∀ a weight, r.released a weight [i] = 0 :=
      fun a weight => by rw [released, if_pos hconfig]
    rw [hsame]
    refine ⟨rfl, fun j => ?_, fun a => ?_, fun a => ?_⟩
    · rw [if_neg fun h => h.2 hconfig]
    · rw [hnothing, Nat.sub_zero]
    · rw [hnothing, Nat.sub_zero]
  | some cfg =>
    have hne : r.config ≠ none := by rw [hconfig]; exact Option.some_ne_none cfg
    have hreleased : ∀ a weight, r.released a weight [i] =
        (r.orders.lookup i).elim 0 (RiskEntry.share a weight) := fun a weight => by
      rw [released, if_neg hne, List.map_singleton, List.sum_singleton]
    refine ⟨config_onCancel .., fun j => ?_, fun a => ?_, fun a => ?_⟩
    · rw [orders_onCancel hconfig]
      simp only [List.mem_singleton, hne, ne_eq, not_false_iff, and_true]
    · rw [hreleased]
      cases hi : r.orders.lookup i with
      | none => rw [onCancel_of_none hi, Option.elim_none, Nat.sub_zero]
      | some =>
        rw [openCount_of_held (held_onCancel hconfig hi a), Option.elim_some, RiskEntry.sub_share]
        split_ifs with ha
        · rw [ha]
        · rfl
    · rw [hreleased]
      cases hi : r.orders.lookup i with
      | none => rw [onCancel_of_none hi, Option.elim_none, Nat.sub_zero]
      | some =>
        rw [restingNotional_of_held (held_onCancel hconfig hi a), Option.elim_some,
          RiskEntry.sub_share]
        split_ifs with ha
        · rw [ha]
        · rfl

end RiskState

/-! ### User lists -/

/-- A user's list without some ids; a list that runs empty is dropped. -/
def trimmed (ids : List OrderId) (list : Option (List OrderId)) : Option (List OrderId) :=
  (list.map fun l => l.filter fun i => i ∉ ids).filter fun l => !l.isEmpty

theorem trimmed_nil {list : Option (List OrderId)} (h : list ≠ some []) :
    trimmed [] list = list := by
  cases list with
  | none => rfl
  | some l =>
    have hself : (l.filter fun i => i ∉ ([] : List OrderId)) = l :=
      List.filter_eq_self.mpr fun i _ => by simp
    have hne : l ≠ [] := fun hl => h (by rw [hl])
    rw [trimmed, Option.map_some, hself]
    exact Option.filter_some_pos (by simpa using hne)

theorem trimmed_trimmed (ids ids' : List OrderId) (list : Option (List OrderId)) :
    trimmed ids' (trimmed ids list) = trimmed (ids ++ ids') list := by
  cases list with
  | none => rfl
  | some l =>
    have hfilter : ((l.filter fun i => i ∉ ids).filter fun i => i ∉ ids') =
        l.filter fun i => i ∉ ids ++ ids' := by
      rw [List.filter_filter]
      refine List.filter_congr fun i _ => ?_
      simp [Bool.and_comm]
    by_cases hempty : (l.filter fun i => i ∉ ids) = []
    · rw [hempty, List.filter_nil] at hfilter
      simp only [trimmed, Option.map_some, hempty, ← hfilter, Option.filter_some, List.isEmpty_nil,
        Bool.not_true, Bool.false_eq_true, if_false, Option.map_none, Option.filter_none]
    · have hkept : trimmed ids (some l) = some (l.filter fun i => i ∉ ids) := by
        rw [trimmed, Option.map_some]
        exact Option.filter_some_pos (by simpa using hempty)
      rw [hkept, trimmed, trimmed, Option.map_some, Option.map_some, hfilter]

/-- `untrack_user_order` trims every list, since no other user lists the id. -/
theorem UserOrders.lookup_untrackUser {m : UserOrders} (h : m.WellFormed) {user : Hash32}
    {id : OrderId} (howner : ∀ {v}, Listed m v id → v = user) (v : Hash32) :
    (m.untrackUser user id).lookup v = trimmed [id] (m.lookup v) := by
  by_cases hv : v = user
  · subst hv
    rw [untrackUser]
    cases hl : m.lookup v with
    | none => exact hl
    | some l =>
      simp only [lookup_store, trimmed, Option.map_some, List.mem_singleton, if_true,
        Option.filter_some]
      cases l.filter fun x => x ≠ id <;> rfl
  · have hother : (m.untrackUser user id).lookup v = m.lookup v := by
      rw [untrackUser]
      cases m.lookup user with
      | none => rfl
      | some => rw [lookup_store, if_neg hv]
    rw [hother]
    cases hl : m.lookup v with
    | none => rfl
    | some l =>
      have hnot : id ∉ l := fun hmem => hv (howner ⟨l, hl, hmem⟩)
      have hself : (l.filter fun i => i ∉ [id]) = l :=
        List.filter_eq_self.mpr fun i hi => by simpa using ne_of_mem_of_not_mem hi hnot
      rw [trimmed, Option.map_some, hself]
      exact (Option.filter_some_pos (by simpa using h.nonempty hl)).symm

/-! ### Books -/

variable {L : Type} [PriceLevel L] {i : OrderId} {o : Order}

/-- `b'` is `b` without the orders of `ids`. -/
structure OrderBook.Sheds (b : OrderBook L) (ids : List OrderId) (b' : OrderBook L) : Prop where
  queue : ∀ side price, b'.queueAt side price =
    (b.queueAt side price).filter fun o => o.id ∉ ids
  location : ∀ i, b'.orderLocations.lookup i = if i ∈ ids then none else b.orderLocations.lookup i
  users : ∀ user, b'.userOrders.lookup user = trimmed ids (b.userOrders.lookup user)
  risk : b.riskState.Sheds ids b'.riskState
  special : ∀ k i, i ∈ b'.specialOrderTracker.ids k ↔
    i ∉ ids ∧ i ∈ b.specialOrderTracker.ids k
  settings : b'.settings = b.settings

namespace OrderBook.Sheds

variable {b b' b'' : OrderBook L} {ids ids' : List OrderId} {side : Side} {price : ℕ}

theorem of_sameState (hlists : b.userOrders.WellFormed) (h : b.SameState b') :
    b.Sheds [] b' := by
  obtain ⟨_, _, _, rfl⟩ := h
  refine ⟨fun side price => ?_, fun i => rfl, fun user => ?_, .refl _, fun k i => ?_, rfl⟩
  · exact (List.filter_eq_self.mpr fun o _ => by simp).symm
  · exact (trimmed_nil fun hl => hlists.nonempty hl rfl).symm
  · exact ⟨fun hi => ⟨List.not_mem_nil, hi⟩, fun hi => hi.2⟩

theorem trans_sameState (h : b.Sheds ids b') (hsame : b'.SameState b'') :
    b.Sheds ids b'' := by
  obtain ⟨_, _, _, rfl⟩ := hsame
  exact ⟨h.queue, h.location, h.users, h.risk, h.special, h.settings⟩

/-- **Shedding composes.** -/
theorem append (h : b.Sheds ids b') (h' : b'.Sheds ids' b'')
    (hdisjoint : ∀ i ∈ ids', i ∉ ids) : b.Sheds (ids ++ ids') b'' where
  queue side price := by
    rw [h'.queue, h.queue, List.filter_filter]
    refine List.filter_congr fun o _ => ?_
    simp [Bool.and_comm]
  location i := by
    rw [h'.location, h.location]
    simp only [List.mem_append]
    grind
  users user := by rw [h'.users, h.users, trimmed_trimmed]
  risk := h.risk.append h'.risk hdisjoint
  special k i := by
    rw [h'.special, h.special, List.mem_append, not_or]
    tauto
  settings := h'.settings.trans h.settings

/-- What rests afterwards rested before, and its id was not shed. -/
theorem rests_iff (h : b.Sheds ids b') :
    b'.Rests side price o ↔ b.Rests side price o ∧ o.id ∉ ids := by
  rw [← mem_queueAt, h.queue, List.mem_filter, mem_queueAt, decide_eq_true_eq]

theorem holds_iff (h : b.Sheds ids b') : b'.Holds i ↔ b.Holds i ∧ i ∉ ids := by
  constructor
  · rintro ⟨side, price, o, ho, rfl⟩
    obtain ⟨ho, hnot⟩ := h.rests_iff.mp ho
    exact ⟨⟨side, price, o, ho, rfl⟩, hnot⟩
  · rintro ⟨⟨side, price, o, ho, rfl⟩, hnot⟩
    exact ⟨side, price, o, h.rests_iff.mpr ⟨ho, hnot⟩, rfl⟩

variable [LevelQueue L]

/-- A cancel sheds one id. -/
theorem of_cancelAt (hsound : b.Sound) (husers : b.UsersIndexed) {l l' : L}
    (hout : b.TakesOff side price l l' o) : b.Sheds [o.id] (b.cancelAt side price l' o) where
  queue s p := by
    rw [hsound.queueAt_cancelAt hout]
    exact List.filter_congr fun x _ => by simp
  location i := by
    rw [cancelAt_orderLocations]
    simp only [List.mem_singleton]
    split_ifs with hi
    · rw [hi, AList.lookup_erase]
    · exact AList.lookup_erase_ne hi
  users user := by
    rw [cancelAt_userOrders]
    exact UserOrders.lookup_untrackUser husers.lists (fun hu => husers.owner hout.rests hu) user
  risk := by
    rw [cancelAt_riskState]
    exact RiskState.sheds_onCancel ..
  special k i := by
    rw [cancelAt_specialOrderTracker, SpecialOrderTracker.mem_ids_unregister, List.mem_singleton]
  settings := settings_cancelAt ..

end OrderBook.Sheds

/-! ### Batches -/

namespace OrderBook

/-- The ids of a list that are found. -/
def found (b : OrderBook L) (ids : List OrderId) : List OrderId :=
  ids.filter fun i => (b.getOrder i).isSome

/-- What a batch finds, in the order of its ids. -/
def foundOrders (b : OrderBook L) (ids : List OrderId) : List (OrderId × Order) :=
  ids.filterMap fun i => (b.getOrder i).map fun o => (i, o)

theorem mem_found {b : OrderBook L} {ids : List OrderId} :
    i ∈ b.found ids ↔ i ∈ ids ∧ (b.getOrder i).isSome := List.mem_filter

theorem map_fst_foundOrders (b : OrderBook L) (ids : List OrderId) :
    (b.foundOrders ids).map Prod.fst = b.found ids := by
  induction ids with
  | nil => rfl
  | cons i ids ih =>
    simp only [foundOrders, found] at ih ⊢
    cases hi : b.getOrder i with
    | none =>
      rw [List.filterMap_cons_none (by rw [hi]; rfl), ih, List.filter_cons_of_neg (by simp [hi])]
    | some o =>
      rw [List.filterMap_cons_some (b := (i, o)) (by rw [hi]; rfl), List.map_cons, ih,
        List.filter_cons_of_pos (by simp [hi])]

variable [LevelQueue L] {b b' : OrderBook L} {ids : List OrderId}

theorem Sound.getOrder_eq_some_iff (h : b.Sound) :
    b.getOrder i = some o ↔ (∃ side price, b.Rests side price o) ∧ o.id = i := by
  constructor
  · intro hget
    obtain ⟨side, price, l, -, hl, ho, hid⟩ := getOrder_eq_some hget
    exact ⟨⟨side, price, l, hl, ho⟩, hid⟩
  · rintro ⟨⟨side, price, l, hl, ho⟩, rfl⟩
    exact getOrder_of_mem (h.located ⟨l, hl, ho⟩) hl ho

theorem Sound.isSome_getOrder_iff (h : b.Sound) : (b.getOrder i).isSome ↔ b.Holds i := by
  rw [Option.isSome_iff_exists]
  constructor
  · rintro ⟨o, hget⟩
    obtain ⟨⟨side, price, ho⟩, hid⟩ := h.getOrder_eq_some_iff.mp hget
    exact ⟨side, price, o, ho, hid⟩
  · rintro ⟨side, price, o, ho, hid⟩
    exact ⟨o, h.getOrder_eq_some_iff.mpr ⟨⟨side, price, ho⟩, hid⟩⟩

/-- The other orders are found as before. -/
theorem Sheds.getOrder_eq (h : b.Sheds ids b') (hsound : b.Sound) (hsound' : b'.Sound)
    (hi : i ∉ ids) : b'.getOrder i = b.getOrder i := by
  refine Option.ext fun o => ?_
  rw [hsound.getOrder_eq_some_iff, hsound'.getOrder_eq_some_iff]
  constructor
  · rintro ⟨⟨side, price, ho⟩, hid⟩
    exact ⟨⟨side, price, (h.rests_iff.mp ho).1⟩, hid⟩
  · rintro ⟨⟨side, price, ho⟩, rfl⟩
    exact ⟨⟨side, price, h.rests_iff.mpr ⟨ho, hi⟩⟩, rfl⟩

/-- **One cancel** returns the order of the id, if it is found, and sheds it. -/
theorem Sound.sheds_cancel (hsound : b.Sound) (husers : b.UsersIndexed) (id : OrderId)
    (reason : CancelReason) :
    (b.cancelOrderWithReason id reason).2 = b.getOrder id ∧
      b.Sheds (b.found [id]) (b.cancelOrderWithReason id reason).1 ∧
      (b.cancelOrderWithReason id reason).1.Sound ∧
      (b.cancelOrderWithReason id reason).1.UsersIndexed := by
  rcases b.cancelOrderWithReason_cases id reason with
    ⟨hsame, hnone, hgone⟩ | ⟨side, price, l, l', o, rfl, hout, hsome, hsame⟩
  · have hget : b.getOrder id = none := getOrder_eq_none <| by
      rintro ⟨side, price, o, ho, rfl⟩
      exact hgone side price o (hsound.located ho) ho rfl
    have hfound : b.found [id] = [] := List.filter_cons_of_neg (by simp [hget])
    rw [hfound, hnone, hget]
    exact ⟨rfl, .of_sameState husers.lists hsame, hsound.sameState hsame, husers.sameState hsame⟩
  · have hget : b.getOrder o.id = some o := getOrder_of_mem hout.place hout.level hout.mem
    have hfound : b.found [o.id] = [o.id] := List.filter_cons_of_pos (by simp [hget])
    rw [hfound, hsome, hget]
    exact ⟨rfl, (Sheds.of_cancelAt hsound husers hout.off).trans_sameState hsame,
      (hsound.cancelAt hout.off).sameState hsame, (husers.cancelAt hsound hout.off).sameState hsame⟩

/-- **A batch sheds the ids it finds** and returns their orders. -/
theorem Sound.sheds_batch (hsound : b.Sound) (husers : b.UsersIndexed) (hnodup : ids.Nodup)
    (reason : CancelReason) :
    (b.cancelOrderBatchWithReason ids reason).2 = b.foundOrders ids ∧
      b.Sheds (b.found ids) (b.cancelOrderBatchWithReason ids reason).1 ∧
      (b.cancelOrderBatchWithReason ids reason).1.Sound ∧
      (b.cancelOrderBatchWithReason ids reason).1.UsersIndexed := by
  induction ids generalizing b with
  | nil => exact ⟨rfl, .of_sameState husers.lists (.refl b), hsound, husers⟩
  | cons id ids ih =>
    obtain ⟨hnot, hnodup⟩ := List.nodup_cons.mp hnodup
    obtain ⟨hresult, hfirst, hsound', husers'⟩ := hsound.sheds_cancel husers id reason
    obtain ⟨hrest, hothers, hend⟩ := ih hsound' husers' hnodup
    -- the first cancel does not touch what the others look up
    have hget : ∀ i ∈ ids, (b.cancelOrderWithReason id reason).1.getOrder i = b.getOrder i := by
      intro i hi
      refine hfirst.getOrder_eq hsound hsound' fun hmem => ?_
      have hid := List.mem_singleton.mp (mem_found.mp hmem).1
      exact hnot (hid ▸ hi)
    have hfound : (b.cancelOrderWithReason id reason).1.found ids = b.found ids :=
      List.filter_congr fun i hi => by rw [hget i hi]
    have hshed : (b.cancelOrderWithReason id reason).1.foundOrders ids = b.foundOrders ids :=
      List.filterMap_congr fun i hi => by rw [hget i hi]
    rw [cancelOrderBatchWithReason_cons]
    refine ⟨?_, ?_, hend⟩
    · rw [hrest, hshed, hresult, foundOrders, foundOrders]
      cases hi : b.getOrder id with
      | none => rw [List.filterMap_cons_none (by rw [hi]; rfl)]; rfl
      | some o => rw [List.filterMap_cons_some (b := (id, o)) (by rw [hi]; rfl)]; rfl
    · have hsplit : b.found (id :: ids) = b.found [id] ++ b.found ids :=
        List.filter_append [id] ids
      rw [hsplit, ← hfound]
      refine hfirst.append hothers fun i hi hmem => ?_
      have hid := List.mem_singleton.mp (mem_found.mp hmem).1
      exact hnot (hid ▸ (mem_found.mp hi).1)

end OrderBook

end OrderBookRs
