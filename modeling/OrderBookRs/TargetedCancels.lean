import OrderBookRs.UserLists

/-!
# Targeted mass cancels

`cancel_orders_by_side`, `cancel_orders_by_user`, `cancel_orders_by_price_range` and
`evict_expired_orders` are one computation: collect the ids of the orders aimed at, cancel them in a
batch, return the ids found. Three of them collect by scanning the levels they then cancel from, and
the fourth reads the list of the user.

## Main definitions

* `TargetedCancel`, `TargetedCancel.run`, `TargetedCancel.targets`: the four calls and the orders
  each is aimed at.
* `OrderBook.RemovesExactly`: what a call aimed at some orders has to do.
* `OrderBook.ScannedBefore`: bids before asks, by ascending price, then by queue order.

## Main results

* `targeted_cancel_removesExactly`: each call removes exactly its target, from any reachable book.
-/

namespace OrderBookRs

open PriceLevel OrderBook

variable {L : Type} [PriceLevel L] {side : Side} {price : ℕ} {o : Order}

/-! ### The calls and their targets -/

/-- The four targeted cancels. -/
inductive TargetedCancel
  | bySide (side : Side)
  | byUser (user : Hash32)
  | byPriceRange (side : Side) (minPrice maxPrice : ℕ)
  | expired (now : ℕ)
  deriving DecidableEq, Repr

namespace TargetedCancel

/-- The call, with the ids it returns. -/
def run (c : TargetedCancel) (b : OrderBook L) : OrderBook L × List OrderId :=
  match c with
  | .bySide side => b.cancelOrdersBySide side
  | .byUser user => b.cancelOrdersByUser user
  | .byPriceRange side minPrice maxPrice => b.cancelOrdersByPriceRange side minPrice maxPrice
  | .expired now => ((b.evictExpiredOrders now).1, (b.evictExpiredOrders now).2.map Order.id)

/-- The order resting at this side and price is aimed at. -/
def targets (c : TargetedCancel) (b : OrderBook L) (side : Side) (price : ℕ) (o : Order) : Bool :=
  match c with
  | .bySide side' => side = side'
  | .byUser user => o.userId = user
  | .byPriceRange side' minPrice maxPrice => side = side' ∧ minPrice ≤ price ∧ price ≤ maxPrice
  | .expired now => isExpired L o.timeInForce now b.marketCloseForExpiry

end TargetedCancel

/-- The call returned, without repetition, the ids of the orders aimed at; they are gone, and every
queue is left with its other orders as they were. -/
structure OrderBook.RemovesExactly (b : OrderBook L) (target : Side → ℕ → Order → Bool)
    (r : OrderBook L × List OrderId) : Prop where
  nodup : r.2.Nodup
  mem_iff : ∀ i, i ∈ r.2 ↔
    ∃ side price o, b.Rests side price o ∧ target side price o ∧ o.id = i
  gone : ∀ i ∈ r.2, ¬ r.1.Holds i
  others : ∀ side price, r.1.queueAt side price =
    (b.queueAt side price).filter fun o => !target side price o

/-! ### Scanning -/

/-- One place is scanned before the other: bids before asks, by ascending price, then by queue
order. -/
def OrderBook.PlaceBefore (b : OrderBook L) (x y : Side × ℕ × Order) : Prop :=
  x.1 = .buy ∧ y.1 = .sell ∨
    x.1 = y.1 ∧ (x.2.1 < y.2.1 ∨
      x.2.1 = y.2.1 ∧ [x.2.2, y.2.2].Sublist (b.queueAt x.1 x.2.1))

/-- One resting order is scanned before the other. -/
def OrderBook.ScannedBefore (b : OrderBook L) (i j : OrderId) : Prop :=
  ∃ s p o s' p' o', b.Rests s p o ∧ o.id = i ∧ b.Rests s' p' o' ∧ o'.id = j ∧
    b.PlaceBefore (s, p, o) (s', p', o')

namespace OrderBook

/-- All resting orders with their places, in the order of a scan. -/
def placedOrders (b : OrderBook L) : List (Side × ℕ × Order) :=
  PreparedSnapshotLevels.placedOn .buy b.bids.entries ++
    PreparedSnapshotLevels.placedOn .sell b.asks.entries

theorem mem_placedOn {side' : Side} {m : SkipMap L} :
    (side', price, o) ∈ PreparedSnapshotLevels.placedOn side m.entries ↔
      side' = side ∧ ∃ l, m.get? price = some l ∧ o ∈ orders l := by
  simp only [PreparedSnapshotLevels.placedOn, List.mem_flatMap, List.mem_map, Prod.mk.injEq]
  constructor
  · rintro ⟨⟨p, l⟩, he, x, hx, rfl, rfl, rfl⟩
    exact ⟨rfl, l, SortedMap.mem_entries_iff.mp he, hx⟩
  · rintro ⟨rfl, l, hl, ho⟩
    exact ⟨(price, l), SortedMap.mem_entries_iff.mpr hl, o, ho, rfl, rfl, rfl⟩

theorem mem_placedOrders {b : OrderBook L} :
    (side, price, o) ∈ b.placedOrders ↔ b.Rests side price o := by
  rw [placedOrders, List.mem_append, mem_placedOn, mem_placedOn]
  cases side <;> simp [Rests, levels]

theorem placedOn_pairwise (b : OrderBook L) (side : Side) :
    (PreparedSnapshotLevels.placedOn side (b.levels side).entries).Pairwise b.PlaceBefore := by
  rw [PreparedSnapshotLevels.placedOn, List.pairwise_flatMap]
  constructor
  · intro e he
    have hqueue : b.queueAt side e.1 = orders e.2 :=
      queueAt_of_get? (SortedMap.mem_entries_iff.mp he)
    rw [List.pairwise_map, List.pairwise_iff_forall_sublist]
    intro o o' hsub
    exact Or.inr ⟨rfl, Or.inr ⟨rfl, by rwa [hqueue]⟩⟩
  · refine (b.levels side).sorted.imp fun {e e'} hlt x hx y hy => ?_
    obtain ⟨o, -, rfl⟩ := List.mem_map.mp hx
    obtain ⟨o', -, rfl⟩ := List.mem_map.mp hy
    exact Or.inr ⟨rfl, Or.inl hlt⟩

/-- **The scan goes through the bids, then the asks, by ascending price and queue order.** -/
theorem placedOrders_pairwise (b : OrderBook L) : b.placedOrders.Pairwise b.PlaceBefore := by
  refine List.pairwise_append.mpr
    ⟨b.placedOn_pairwise .buy, b.placedOn_pairwise .sell, fun x hx y hy => ?_⟩
  obtain ⟨s, p, o⟩ := x
  obtain ⟨s', p', o'⟩ := y
  exact Or.inl ⟨(mem_placedOn.mp hx).1, (mem_placedOn.mp hy).1⟩

theorem map_placedOn (side : Side) (entries : List (ℕ × L)) :
    (PreparedSnapshotLevels.placedOn side entries).map (fun x => x.2.2) = queuedOrders entries := by
  rw [PreparedSnapshotLevels.placedOn, queuedOrders, List.map_flatMap]
  simp only [List.map_map]
  exact List.flatMap_congr fun e _ => List.map_id _

theorem map_placedOrders (b : OrderBook L) :
    b.placedOrders.map (fun x => x.2.2) = b.restingOrders := by
  rw [placedOrders, List.map_append, map_placedOn, map_placedOn, restingOrders]

end OrderBook

/-! ### What a batch of targets does -/

section Batch

variable [LevelQueue L] {b : OrderBook L}

theorem map_id_foundOrders (hsound : b.Sound) (ids : List OrderId) :
    (b.foundOrders ids).map (fun x => x.2.id) = b.found ids := by
  rw [← map_fst_foundOrders]
  refine List.map_congr_left fun x hx => ?_
  obtain ⟨i, -, hget⟩ := List.mem_filterMap.mp hx
  obtain ⟨o, ho, rfl⟩ := Option.map_eq_some_iff.mp hget
  exact (hsound.getOrder_eq_some_iff.mp ho).2

/-- **A batch of ids removes exactly the target** if the ids found are those of the target. -/
theorem removesExactly_batch (hsound : b.Sound) (husers : b.UsersIndexed) {ids : List OrderId}
    (hnodup : ids.Nodup) (reason : CancelReason) {target : Side → ℕ → Order → Bool}
    (hids : ∀ {side price o}, b.Rests side price o → (o.id ∈ ids ↔ target side price o)) :
    b.RemovesExactly target ((b.cancelOrderBatchWithReason ids reason).1, b.found ids) := by
  obtain ⟨-, hsheds, -⟩ := hsound.sheds_batch husers hnodup reason
  have hmem : ∀ {side price o}, b.Rests side price o →
      (o.id ∈ b.found ids ↔ target side price o) := fun ho => by
    rw [mem_found, hids ho, hsound.isSome_getOrder_iff]
    exact and_iff_left ⟨_, _, _, ho, rfl⟩
  refine ⟨hnodup.filter _, fun i => ?_, fun i hi hholds => ?_, fun side price => ?_⟩
  · constructor
    · intro hi
      obtain ⟨-, hget⟩ := mem_found.mp hi
      obtain ⟨side, price, o, ho, rfl⟩ := hsound.isSome_getOrder_iff.mp hget
      exact ⟨side, price, o, ho, (hmem ho).mp hi, rfl⟩
    · rintro ⟨side, price, o, ho, htarget, rfl⟩
      exact (hmem ho).mpr htarget
  · exact (hsheds.holds_iff.mp hholds).2 hi
  · rw [hsheds.queue]
    refine List.filter_congr fun o ho => ?_
    rw [← Bool.coe_iff_coe, decide_eq_true_eq, hmem (mem_queueAt.mp ho), Bool.not_eq_true',
      Bool.not_eq_true]

/-- The ids of the orders aimed at, as a scan meets them. -/
def OrderBook.scannedIds (b : OrderBook L) (target : Side → ℕ → Order → Bool) : List OrderId :=
  (b.placedOrders.filter fun x => target x.1 x.2.1 x.2.2).map fun x => x.2.2.id

omit [LevelQueue L] in
theorem scannedIds_pairwise (b : OrderBook L) (target : Side → ℕ → Order → Bool) :
    (b.scannedIds target).Pairwise b.ScannedBefore := by
  rw [scannedIds, List.pairwise_map]
  refine (b.placedOrders_pairwise.filter _).imp_of_mem ?_
  rintro ⟨s, p, o⟩ ⟨s', p', o'⟩ hx hy hbefore
  exact ⟨s, p, o, s', p', o', mem_placedOrders.mp (List.mem_of_mem_filter hx), rfl,
    mem_placedOrders.mp (List.mem_of_mem_filter hy), rfl, hbefore⟩

theorem nodup_scannedIds (hsound : b.Sound) (target : Side → ℕ → Order → Bool) :
    (b.scannedIds target).Nodup := by
  have hall : (b.placedOrders.map fun x => x.2.2.id).Nodup := by
    have hnodup := hsound.nodup_restingOrders
    rwa [← map_placedOrders, List.map_map] at hnodup
  exact hall.sublist (List.filter_sublist.map _)

theorem mem_scannedIds_iff (hsound : b.Sound) {target : Side → ℕ → Order → Bool}
    (ho : b.Rests side price o) : o.id ∈ b.scannedIds target ↔ target side price o := by
  rw [scannedIds, List.mem_map]
  constructor
  · rintro ⟨⟨s, p, x⟩, hx, hid⟩
    obtain ⟨hx, htarget⟩ := List.mem_filter.mp hx
    have hx := mem_placedOrders.mp hx
    obtain ⟨rfl, rfl⟩ := hsound.same_place hx ho hid
    obtain rfl := hsound.unique hx ho hid
    exact htarget
  · exact fun htarget =>
      ⟨(side, price, o), List.mem_filter.mpr ⟨mem_placedOrders.mpr ho, htarget⟩, rfl⟩

/-- A scan meets resting orders only. -/
theorem found_scannedIds (hsound : b.Sound) (target : Side → ℕ → Order → Bool) :
    b.found (b.scannedIds target) = b.scannedIds target := by
  refine List.filter_eq_self.mpr fun i hi => ?_
  obtain ⟨⟨s, p, o⟩, hx, rfl⟩ := List.mem_map.mp hi
  exact hsound.isSome_getOrder_iff.mpr
    ⟨s, p, o, mem_placedOrders.mp (List.mem_of_mem_filter hx), rfl⟩

end Batch

/-! ### The four calls -/

theorem filter_placedOn (side : Side) (entries : List (ℕ × L)) (keep : ℕ → Bool) :
    (PreparedSnapshotLevels.placedOn side entries).filter (fun x => keep x.2.1) =
      PreparedSnapshotLevels.placedOn side (entries.filter fun e => keep e.1) := by
  rw [PreparedSnapshotLevels.placedOn, PreparedSnapshotLevels.placedOn, List.filter_flatMap]
  induction entries with
  | nil => rfl
  | cons e entries ih =>
    -- a level is kept or dropped as a whole
    have hlevel : ((orders e.2).map fun o => (side, e.1, o)).filter (fun x => keep x.2.1) =
        if keep e.1 then (orders e.2).map fun o => (side, e.1, o) else [] := by
      rw [List.filter_map]
      split_ifs with he
      · exact congrArg _ (List.filter_eq_self.mpr fun o _ => he)
      · exact congrArg _ (List.filter_eq_nil_iff.mpr fun o _ => he)
    rw [List.flatMap_cons, ih, hlevel, List.filter_cons]
    split_ifs
    · rw [List.flatMap_cons]
    · rfl

/-- A scan of one side at the prices kept. -/
theorem scannedIds_side (b : OrderBook L) (side : Side) (keep : ℕ → Bool) :
    b.scannedIds (fun s p _ => s = side ∧ keep p) =
      (queuedOrders ((b.levels side).entries.filter fun e => keep e.1)).map Order.id := by
  have hsplit : ∀ side' (entries : List (ℕ × L)),
      (PreparedSnapshotLevels.placedOn side' entries).filter
          (fun x => decide (x.1 = side ∧ keep x.2.1)) =
        if side' = side then
          (PreparedSnapshotLevels.placedOn side' entries).filter fun x => keep x.2.1
        else [] := by
    intro side' entries
    have hside : ∀ x ∈ PreparedSnapshotLevels.placedOn side' entries, x.1 = side' := by
      intro x hx
      obtain ⟨e, -, hx⟩ := List.mem_flatMap.mp hx
      obtain ⟨o, -, rfl⟩ := List.mem_map.mp hx
      rfl
    split_ifs with hs
    · exact List.filter_congr fun x hx => by rw [hside x hx]; simp [hs]
    · exact List.filter_eq_nil_iff.mpr fun x hx => by rw [hside x hx]; simp [hs]
  rw [scannedIds, placedOrders, List.filter_append, hsplit, hsplit, filter_placedOn,
    filter_placedOn]
  cases side with
  | buy => simp only [if_true, reduceCtorEq, if_false, List.append_nil,
      PreparedSnapshotLevels.placedOn_ids, levels]
  | sell => simp only [if_true, reduceCtorEq, if_false, List.nil_append,
      PreparedSnapshotLevels.placedOn_ids, levels]

section Calls

variable [LevelQueue L] {b : OrderBook L}

theorem cancelOrdersBySide_eq (hsound : b.Sound) (husers : b.UsersIndexed) (side : Side) :
    b.cancelOrdersBySide side =
      ((b.cancelOrderBatchWithReason (b.scannedIds ((TargetedCancel.bySide side).targets b))
          .massCancelBySide).1,
        b.found (b.scannedIds ((TargetedCancel.bySide side).targets b))) := by
  have hids : b.scannedIds ((TargetedCancel.bySide side).targets b) =
      (queuedOrders (b.levels side).entries).map Order.id := by
    have hscan := scannedIds_side b side fun _ => true
    simp only [and_true, List.filter_true] at hscan
    exact hscan
  obtain ⟨hresult, -⟩ := hsound.sheds_batch husers
    (nodup_scannedIds hsound ((TargetedCancel.bySide side).targets b)) .massCancelBySide
  rw [← map_fst_foundOrders, ← hresult, hids]
  rfl

theorem cancelOrdersByPriceRange_eq (hsound : b.Sound) (husers : b.UsersIndexed) (side : Side)
    (minPrice maxPrice : ℕ) :
    b.cancelOrdersByPriceRange side minPrice maxPrice =
      ((b.cancelOrderBatchWithReason
          (b.scannedIds ((TargetedCancel.byPriceRange side minPrice maxPrice).targets b))
          .massCancelByPriceRange).1,
        b.found
          (b.scannedIds ((TargetedCancel.byPriceRange side minPrice maxPrice).targets b))) := by
  have hids : b.scannedIds ((TargetedCancel.byPriceRange side minPrice maxPrice).targets b) =
      (queuedOrders ((b.levels side).entries.filter fun e =>
        minPrice ≤ e.1 ∧ e.1 ≤ maxPrice)).map Order.id := by
    have hscan := scannedIds_side b side fun p => decide (minPrice ≤ p ∧ p ≤ maxPrice)
    simp only [decide_eq_true_eq] at hscan
    exact hscan
  obtain ⟨hresult, -⟩ := hsound.sheds_batch husers
    (nodup_scannedIds hsound ((TargetedCancel.byPriceRange side minPrice maxPrice).targets b))
    .massCancelByPriceRange
  rw [← map_fst_foundOrders, ← hresult, hids, cancelOrdersByPriceRange]
  split_ifs with hempty
  · -- the code returns early; the scan would not have found anything either
    have hnone : ((b.levels side).entries.filter fun e => minPrice ≤ e.1 ∧ e.1 ≤ maxPrice) = [] :=
      List.filter_eq_nil_iff.mpr fun e _ => by simp; omega
    rw [hnone]
    rfl
  · rfl

theorem evictExpiredOrders_eq (hsound : b.Sound) (husers : b.UsersIndexed) (now : ℕ) :
    (TargetedCancel.expired now).run b =
      ((b.cancelOrderBatchWithReason (b.scannedIds ((TargetedCancel.expired now).targets b))
          .timeInForceExpired).1,
        b.found (b.scannedIds ((TargetedCancel.expired now).targets b))) := by
  have hids : b.scannedIds ((TargetedCancel.expired now).targets b) =
      (b.restingOrders.filter fun o =>
        isExpired L o.timeInForce now b.marketCloseForExpiry).map Order.id := by
    rw [scannedIds, ← map_placedOrders, List.filter_map, List.map_map]
    rfl
  obtain ⟨hresult, -⟩ := hsound.sheds_batch husers
    (nodup_scannedIds hsound ((TargetedCancel.expired now).targets b)) .timeInForceExpired
  rw [← map_id_foundOrders hsound, ← hresult, hids, TargetedCancel.run, evictExpiredOrders]
  dsimp only
  split_ifs with hempty
  · rw [List.isEmpty_iff.mp hempty]
    rfl
  · rw [List.map_map]
    rfl

/-- The list of a user names every order of the user that rests, and only those. -/
theorem removesExactly_byUser (h : b.Catalogued) (user : Hash32) :
    b.RemovesExactly ((TargetedCancel.byUser user).targets b) (b.cancelOrdersByUser user) := by
  have hsound : ({ b with userOrders := b.userOrders.erase user } : OrderBook L).Sound :=
    ⟨h.sound.located, h.sound.standing, h.sound.nonempty⟩
  have hnodup := h.users.nodup_list user
  have hids : ∀ {side price o}, b.Rests side price o →
      (o.id ∈ (b.userOrders.lookup user).getD [] ↔
        (TargetedCancel.byUser user).targets b side price o) := by
    intro side price o ho
    rw [TargetedCancel.targets, decide_eq_true_eq]
    constructor
    · intro hmem
      cases hids : b.userOrders.lookup user with
      | none =>
        rw [hids] at hmem
        exact absurd hmem List.not_mem_nil
      | some ids =>
        rw [hids] at hmem
        exact (h.users.owner ho ⟨ids, hids, hmem⟩).symm
    · rintro rfl
      obtain ⟨ids, hids, hmem⟩ := h.listed ho
      rw [hids]
      exact hmem
  obtain ⟨hresult, -⟩ := hsound.sheds_batch (h.users.erase user) hnodup .massCancelByUser
  have hremoves := removesExactly_batch hsound (h.users.erase user) hnodup .massCancelByUser hids
  rw [← map_fst_foundOrders, ← hresult] at hremoves
  exact ⟨hremoves.nodup, hremoves.mem_iff, hremoves.gone, hremoves.others⟩

end Calls

/-! ### Reachable books -/

section Main

variable [SnapshotChecksum] [DisplayId] [LevelSnapshot L] [LevelQueue L] [LevelMatch L]
  [LevelResize L]

/-- **Targeted cancels remove exactly their target**, from any reachable book: the ids returned are
those of the orders aimed at, once each; none of them rests afterwards; every other order is left as
it is and where it is in its queue. The three calls that scan the levels return the ids in the order
of the scan. A range with its bounds the wrong way round does nothing at all. -/
theorem targeted_cancel_removesExactly {b : OrderBook L} (h : b.ReachableByCalls)
    (c : TargetedCancel) :
    b.RemovesExactly (c.targets b) (c.run b) ∧
      ((∀ user, c ≠ .byUser user) → (c.run b).2.Pairwise b.ScannedBefore) ∧
      ∀ side minPrice maxPrice, c = .byPriceRange side minPrice maxPrice → maxPrice < minPrice →
        c.run b = (b, []) := by
  have hcat := h.catalogued
  -- the three scans share one argument
  have hscan : ∀ reason, c.run b = ((b.cancelOrderBatchWithReason (b.scannedIds (c.targets b))
      reason).1, b.found (b.scannedIds (c.targets b))) →
      b.RemovesExactly (c.targets b) (c.run b) ∧ (c.run b).2.Pairwise b.ScannedBefore := by
    intro reason hrun
    have hremoves := removesExactly_batch hcat.sound hcat.users
      (nodup_scannedIds hcat.sound (c.targets b)) reason (mem_scannedIds_iff hcat.sound)
    rw [hrun]
    refine ⟨hremoves, ?_⟩
    rw [found_scannedIds hcat.sound]
    exact scannedIds_pairwise b _
  cases c with
  | bySide side =>
    obtain ⟨hremoves, horder⟩ := hscan _ (cancelOrdersBySide_eq hcat.sound hcat.users side)
    exact ⟨hremoves, fun _ => horder, fun _ _ _ hc => by cases hc⟩
  | byUser user =>
    exact ⟨removesExactly_byUser hcat user, fun hc => absurd rfl (hc user),
      fun _ _ _ hc => by cases hc⟩
  | byPriceRange side minPrice maxPrice =>
    obtain ⟨hremoves, horder⟩ :=
      hscan _ (cancelOrdersByPriceRange_eq hcat.sound hcat.users side minPrice maxPrice)
    refine ⟨hremoves, fun _ => horder, fun side' minPrice' maxPrice' hc hempty => ?_⟩
    injection hc with _ hmin hmax
    rw [TargetedCancel.run, cancelOrdersByPriceRange, if_pos (by rw [hmin, hmax]; exact hempty)]
  | expired now =>
    obtain ⟨hremoves, horder⟩ := hscan _ (evictExpiredOrders_eq hcat.sound hcat.users now)
    exact ⟨hremoves, fun _ => horder, fun _ _ _ hc => by cases hc⟩

end Main

/-- Two users quote both sides, partly until a date. -/
def quotedSides : OrderBook FifoLevel :=
  ((((withClock "BTC" ⟨fun n => n, 0⟩ : OrderBook FifoLevel).execute
    (.addOrder ⟨1, 100, .buy, 7, 0, .gtc, 5, .standard⟩)).execute
      (.addOrder ⟨2, 99, .buy, 8, 0, .gtd 50, 4, .standard⟩)).execute
        (.addOrder ⟨3, 105, .sell, 7, 0, .gtd 60, 3, .standard⟩)).execute
          (.addOrder ⟨4, 105, .sell, 8, 0, .gtc, 2, .standard⟩)

theorem quotedSides_reachable :
    letI := noDigest
    letI := tallyIds
    quotedSides.ReachableByCalls := by
  let _ := noDigest
  let _ := tallyIds
  exact ⟨"BTC", ⟨fun n => n, 0⟩,
    [.op (.command (.addOrder ⟨1, 100, .buy, 7, 0, .gtc, 5, .standard⟩)),
      .op (.command (.addOrder ⟨2, 99, .buy, 8, 0, .gtd 50, 4, .standard⟩)),
      .op (.command (.addOrder ⟨3, 105, .sell, 7, 0, .gtd 60, 3, .standard⟩)),
      .op (.command (.addOrder ⟨4, 105, .sell, 8, 0, .gtc, 2, .standard⟩))], rfl⟩

/-- What has expired at 60 leaves, lower bid first, and the ask behind it stays. -/
theorem quotedSides_expired :
    quotedSides.RemovesExactly ((TargetedCancel.expired 60).targets quotedSides)
        ((TargetedCancel.expired 60).run quotedSides) ∧
      ((TargetedCancel.expired 60).run quotedSides).2 = [2, 3] := by
  let _ := noDigest
  let _ := tallyIds
  exact ⟨(targeted_cancel_removesExactly quotedSides_reachable _).1, by decide⟩

end OrderBookRs
