import OrderBookRs.RiskLimits
import OrderBookRs.TargetedCancels
import OrderBookRs.TrackedStatus
import OrderBookRs.TrackerRetention

/-!
# The bulk cancel against cancelling one by one

`cancel_all_orders` clears six structures at once where `cancel_order` edits each of them for one
order. The two agree on what belongs to a resting order. They differ on what belongs to none: a
registration that a fill left behind, the location of an order resized away, a risk entry that was
never released. The bulk cancel clears these as well, and the cancels one by one do not reach them.
They also differ on the tracked statuses when the tracker cannot keep them all, since then the order
of the cancels decides which are dropped.

## Main definitions

* `OrderBook.cancelEach`: `cancel_order` for a list of ids.
* `CancelledAlike`: the two books agree.
* `BulkEqualsEach`: the bulk cancel agrees with every order of the cancels.
* `OrderBook.NothingStale`: everything on record belongs to a resting order.

## Main results

* `bulk_equals_each_iff`.
-/

namespace OrderBookRs

open PriceLevel OrderBook

variable {L : Type} [PriceLevel L] {ids : List OrderId} {b : OrderBook L}

/-! ### The two calls -/

/-- `cancel_order` for each id of a list. -/
def OrderBook.cancelEach (b : OrderBook L) (ids : List OrderId) : OrderBook L :=
  ids.foldl (fun b id => (b.cancelOrder id).1) b

/-- The books agree on their levels, indices, risk entries and counters, special orders, tracked
statuses up to the cancel reason, and best prices. -/
structure CancelledAlike (b b' : OrderBook L) : Prop where
  levels : ∀ side, b.levels side = b'.levels side
  locations : ∀ i, b.orderLocations.lookup i = b'.orderLocations.lookup i
  users : ∀ user, b.userOrders.lookup user = b'.userOrders.lookup user
  riskEntries : ∀ i, b.riskState.orders.lookup i = b'.riskState.orders.lookup i
  openCount : ∀ a, b.riskState.openCount a = b'.riskState.openCount a
  restingNotional : ∀ a, b.riskState.restingNotional a = b'.riskState.restingNotional a
  special : ∀ k, b.specialOrderTracker.ids k = b'.specialOrderTracker.ids k
  statuses : ∀ i, (b.orderStatus i).map OrderStatus.withoutReason =
    (b'.orderStatus i).map OrderStatus.withoutReason
  bestPrices : ∀ side, (b.bestPrice side).1 = (b'.bestPrice side).1

/-- The bulk cancel returns the resting ids once each, in the order of a scan, and leaves what
cancelling them one by one leaves, in any order. -/
structure BulkEqualsEach (b : OrderBook L) : Prop where
  nodup : b.cancelAllOrders.2.Nodup
  mem_iff : ∀ i, i ∈ b.cancelAllOrders.2 ↔ b.Holds i
  scanned : b.cancelAllOrders.2.Pairwise b.ScannedBefore
  alike : ∀ ids, ids.Perm (b.restingOrders.map Order.id) →
    CancelledAlike b.cancelAllOrders.1 (b.cancelEach ids)

/-- Whatever the book has on record belongs to an order that rests, the risk entries of the resting
orders account for the counters, and the tracker can take the cancels in any order. -/
structure OrderBook.NothingStale (b : OrderBook L) : Prop where
  location : ∀ i, b.orderLocations.lookup i ≠ none → b.Holds i
  special : ∀ k, ∀ i ∈ b.specialOrderTracker.ids k, b.Holds i
  riskEntry : ∀ i, b.riskState.orders.lookup i ≠ none → b.riskState.config ≠ none ∧ b.Holds i
  openCount : ∀ a, b.riskState.openCount a ≤
    b.riskState.released a (fun _ => 1) (b.restingOrders.map Order.id)
  restingNotional : ∀ a, b.riskState.restingNotional a ≤
    b.riskState.released a RiskEntry.notional (b.restingOrders.map Order.id)
  tracker : ∀ t, b.orderStateTracker = some t → t.OrderFree (b.restingOrders.map Order.id)

/-! ### Tracked statuses -/

omit [PriceLevel L] in
theorem trackState_cancelled (b : OrderBook L) (id : OrderId) (reason : CancelReason) :
    (b.trackState id (.cancelled (b.trackedFilled id) reason)).orderStateTracker =
      b.orderStateTracker.map fun t => t.cancel reason id := by
  rw [trackState, trackedFilled]
  cases b.orderStateTracker with
  | none | some => rfl

omit [PriceLevel L] in
theorem foldl_trackState_cancelled (reason : CancelReason) (ids : List OrderId) (b : OrderBook L) :
    (ids.foldl (fun b id => b.trackState id (.cancelled (b.trackedFilled id) reason))
        b).orderStateTracker =
      b.orderStateTracker.map (OrderStateTracker.cancelAll reason ids) := by
  induction ids generalizing b with
  | nil => exact Option.map_id'.symm
  | cons id ids ih =>
    rw [List.foldl_cons, ih, trackState_cancelled, Option.map_map]
    rfl

omit [PriceLevel L] in
theorem orderStatus_eq {b' : OrderBook L} {f : OrderStateTracker → OrderStateTracker}
    (h : b'.orderStateTracker = b.orderStateTracker.map f) (i : OrderId) :
    b'.orderStatus i = b.orderStateTracker.bind fun t => (f t).get i := by
  rw [orderStatus, h, Option.bind_map]
  rfl

/-! ### One by one -/

theorem cancelEach_eq (b : OrderBook L) (ids : List OrderId) :
    b.cancelEach ids = (b.cancelOrderBatchWithReason ids .userRequested).1 := by
  induction ids generalizing b with
  | nil => rfl
  | cons id ids ih =>
    rw [cancelOrderBatchWithReason_cons]
    exact ih _

/-- Every cancel invalidates the cached best prices. -/
theorem unread_cancelEach (b : OrderBook L) (hne : ids ≠ []) (side : Side) :
    (b.cancelEach ids).Unread side := by
  obtain ⟨before, id, rfl⟩ := List.eq_nil_or_concat ids |>.resolve_left hne
  rw [cancelEach, List.concat_eq_append, List.foldl_append]
  exact unread_cancelOrderWithReason ..

section Each

variable [LevelQueue L] {b : OrderBook L} {ids : List OrderId}

/-- A cancel that finds its order records it. -/
theorem tracker_cancelOrder (hsound : b.Sound) {id : OrderId} (hid : b.Holds id) :
    (b.cancelOrder id).1.orderStateTracker =
      b.orderStateTracker.map fun t => t.cancel .userRequested id := by
  rcases b.cancelOrderWithReason_step id .userRequested with
    ⟨-, -, hnone⟩ | ⟨side, price, l, l', o, -, -, -, cache, clock, hbook⟩
  · obtain ⟨side, price, o, ho, rfl⟩ := hid
    exact absurd rfl (hnone side price o (hsound.located ho) ho)
  · rw [cancelOrder, hbook]
    exact trackState_cancelled ..

/-- **Cancelling resting ids one by one** sheds them and records each cancel. -/
theorem OrderBook.Sound.cancelEach (hsound : b.Sound) (husers : b.UsersIndexed)
    (hnodup : ids.Nodup) (hids : ∀ i ∈ ids, b.Holds i) :
    b.Sheds ids (b.cancelEach ids) ∧ (b.cancelEach ids).Sound ∧
      (b.cancelEach ids).orderStateTracker =
        b.orderStateTracker.map (OrderStateTracker.cancelAll .userRequested ids) := by
  obtain ⟨-, hsheds, hsound', -⟩ := hsound.sheds_batch husers hnodup .userRequested
  have hfound : b.found ids = ids :=
    List.filter_eq_self.mpr fun i hi => hsound.isSome_getOrder_iff.mpr (hids i hi)
  rw [hfound] at hsheds
  refine ⟨by rwa [cancelEach_eq], by rwa [cancelEach_eq], ?_⟩
  clear hsheds hsound' hfound
  induction ids generalizing b with
  | nil => exact Option.map_id'.symm
  | cons id ids ih =>
    obtain ⟨hnot, hnodup⟩ := List.nodup_cons.mp hnodup
    obtain ⟨-, hfirst, hsound', husers'⟩ := hsound.sheds_cancel husers id .userRequested
    rw [← cancelOrder] at hfirst hsound' husers'
    have hrest : ∀ i ∈ ids, (b.cancelOrder id).1.Holds i := by
      intro i hi
      refine hfirst.holds_iff.mpr ⟨hids i (List.mem_cons_of_mem id hi), fun hmem => ?_⟩
      have hid := List.mem_singleton.mp (mem_found.mp hmem).1
      exact hnot (hid ▸ hi)
    have hstep : b.cancelEach (id :: ids) = (b.cancelOrder id).1.cancelEach ids := rfl
    rw [hstep, ih hsound' husers' hnodup hrest,
      tracker_cancelOrder hsound (hids id List.mem_cons_self), Option.map_map]
    rfl

end Each

/-! ### At once -/

theorem cancelAllOrders_of_nil (h : b.restingOrders = []) :
    b.cancelAllOrders = (b.invalidateCache, []) := by
  have hids : (b.invalidateCache.restingOrders.map Order.id).isEmpty = true := by
    have hnil : b.invalidateCache.restingOrders = [] := h
    rw [hnil]
    rfl
  rw [cancelAllOrders]
  exact if_pos hids

/-- **The bulk cancel of a book with orders** clears everything and records each cancel. -/
theorem cancelAllOrders_of_ne_nil (h : b.restingOrders ≠ []) :
    b.cancelAllOrders.2 = b.restingOrders.map Order.id ∧
      (∀ side, b.cancelAllOrders.1.levels side = ∅) ∧
      b.cancelAllOrders.1.orderLocations = ∅ ∧ b.cancelAllOrders.1.userOrders = ∅ ∧
      b.cancelAllOrders.1.specialOrderTracker = {} ∧
      b.cancelAllOrders.1.riskState.orders = ∅ ∧ b.cancelAllOrders.1.riskState.counters = ∅ ∧
      b.cancelAllOrders.1.orderStateTracker = b.orderStateTracker.map
        (OrderStateTracker.cancelAll .massCancelAll (b.restingOrders.map Order.id)) ∧
      ∀ side, b.cancelAllOrders.1.Unread side := by
  have hids : ¬ (b.invalidateCache.restingOrders.map Order.id).isEmpty = true := by
    rw [List.isEmpty_iff, List.map_eq_nil_iff]
    exact h
  rw [cancelAllOrders]
  rw [if_neg hids]
  refine ⟨rfl, fun side => by cases side <;> rfl, rfl, rfl, rfl, rfl, rfl, ?_,
    fun side => unread_invalidateCache _ side⟩
  rw [foldl_trackState_cancelled, deliverCleared_tracker, deliverCleared_tracker]
  rfl

/-! ### Comparing the two -/

section Main

variable [LevelQueue L] {b : OrderBook L}

omit [LevelQueue L] in
/-- Shedding every resting id leaves no level. -/
theorem OrderBook.Sheds.levels_eq_empty {b' : OrderBook L} (h : b.Sheds ids b') (hsound : b'.Sound)
    (hids : ∀ i, i ∈ ids ↔ b.Holds i) (side : Side) : b'.levels side = ∅ := by
  refine SortedMap.ext_get? fun price => (hsound.get?_eq_none_iff.mpr ?_).trans rfl
  rw [h.queue, List.filter_eq_nil_iff]
  intro o ho
  have hmem := (hids o.id).mpr ⟨side, price, o, mem_queueAt.mp ho, rfl⟩
  simp [hmem]

/-- A user list without the resting ids is empty, if it names nothing else. -/
theorem trimmed_eq_none {list : Option (List OrderId)} (h : ∀ l, list = some l → ∀ i ∈ l, i ∈ ids) :
    trimmed ids list = none := by
  cases list with
  | none => rfl
  | some l =>
    have hnil : (l.filter fun i => i ∉ ids) = [] :=
      List.filter_eq_nil_iff.mpr fun i hi => by simpa using h l rfl i hi
    rw [trimmed, Option.map_some, hnil]
    rfl

/-- Cancelling the resting ids one by one, in any order. -/
theorem OrderBook.Catalogued.cancelEach (hcat : b.Catalogued)
    (hperm : ids.Perm (b.restingOrders.map Order.id)) :
    b.Sheds ids (b.cancelEach ids) ∧ (b.cancelEach ids).Sound ∧
      (b.cancelEach ids).orderStateTracker =
        b.orderStateTracker.map (OrderStateTracker.cancelAll .userRequested ids) :=
  hcat.sound.cancelEach hcat.users (hperm.nodup_iff.mpr hcat.sound.nodup_restingOrders)
    fun _ hi => mem_restingIds_iff.mp (hperm.mem_iff.mp hi)

/-- The tracked statuses the two leave are those of two runs of the tracker. -/
theorem orderStatus_cancelAll (hcat : b.Catalogued) (hne : b.restingOrders ≠ [])
    (hperm : ids.Perm (b.restingOrders.map Order.id)) (i : OrderId) :
    b.cancelAllOrders.1.orderStatus i = (b.orderStateTracker.bind fun t =>
        (t.cancelAll .massCancelAll (b.restingOrders.map Order.id)).get i) ∧
      (b.cancelEach ids).orderStatus i =
        b.orderStateTracker.bind fun t => (t.cancelAll .userRequested ids).get i := by
  obtain ⟨-, -, -, -, -, -, -, htracker, -⟩ := cancelAllOrders_of_ne_nil hne
  exact ⟨orderStatus_eq htracker i, orderStatus_eq (hcat.cancelEach hperm).2.2 i⟩

omit [LevelQueue L] in
theorem counters_cancelAllOrders (hne : b.restingOrders ≠ []) (a : Hash32) :
    b.cancelAllOrders.1.riskState.openCount a = 0 ∧
      b.cancelAllOrders.1.riskState.restingNotional a = 0 := by
  obtain ⟨-, -, -, -, -, -, hcounters, -⟩ := cancelAllOrders_of_ne_nil hne
  rw [RiskState.openCount, RiskState.restingNotional, hcounters]
  exact ⟨rfl, rfl⟩

/-- What is stale would be left by the cancels one by one. -/
theorem nothingStale_of_alike (hcat : b.Catalogued) (hne : b.restingOrders ≠ [])
    (h : ∀ ids, ids.Perm (b.restingOrders.map Order.id) →
      CancelledAlike b.cancelAllOrders.1 (b.cancelEach ids)) : b.NothingStale := by
  obtain ⟨-, -, hlocations, -, hspecial, hentries, -⟩ := cancelAllOrders_of_ne_nil hne
  have hsame := h _ (.refl _)
  obtain ⟨hsheds, -, -⟩ := hcat.cancelEach (.refl (b.restingOrders.map Order.id))
  refine ⟨fun i hi => ?_, fun k i hi => ?_, fun i hi => ?_, fun a => ?_, fun a => ?_,
    fun t ht => ?_⟩
  · by_contra hnot
    have hlookup := hsame.locations i
    rw [hlocations, hsheds.location, if_neg fun hmem => hnot (mem_restingIds_iff.mp hmem)]
      at hlookup
    exact hi hlookup.symm
  · by_contra hnot
    have hmem : i ∈ (b.cancelEach (b.restingOrders.map Order.id)).specialOrderTracker.ids k :=
      (hsheds.special k i).mpr ⟨fun hmem => hnot (mem_restingIds_iff.mp hmem), hi⟩
    rw [← hsame.special k, hspecial] at hmem
    cases k <;> exact absurd hmem (Finset.notMem_empty i)
  · have hlookup := hsame.riskEntries i
    rw [hentries, hsheds.risk.entry] at hlookup
    split_ifs at hlookup with hboth
    · exact ⟨hboth.2, mem_restingIds_iff.mp hboth.1⟩
    · exact absurd hlookup.symm hi
  · have hcount := hsame.openCount a
    rw [(counters_cancelAllOrders hne a).1, hsheds.risk.openCount] at hcount
    omega
  · have hcount := hsame.restingNotional a
    rw [(counters_cancelAllOrders hne a).2, hsheds.risk.restingNotional] at hcount
    omega
  · refine (OrderStateTracker.orderFree_iff hcat.sound.nodup_restingOrders .massCancelAll
      .userRequested).mp fun run hperm i => ?_
    have hstatus := (h run hperm).statuses i
    obtain ⟨hall, heach⟩ := orderStatus_cancelAll hcat hne hperm i
    rw [hall, heach, ht] at hstatus
    exact hstatus

/-- With nothing stale the two leave the same. -/
theorem OrderBook.NothingStale.alike (h : b.NothingStale) (hcat : b.Catalogued)
    (hne : b.restingOrders ≠ []) (hperm : ids.Perm (b.restingOrders.map Order.id)) :
    CancelledAlike b.cancelAllOrders.1 (b.cancelEach ids) := by
  obtain ⟨-, hlevels, hlocations, husers, hspecial, hentries, -, -, hunread⟩ :=
    cancelAllOrders_of_ne_nil hne
  obtain ⟨hsheds, hsound, -⟩ := hcat.cancelEach hperm
  have hids : ∀ i, i ∈ ids ↔ b.Holds i := fun i => hperm.mem_iff.trans mem_restingIds_iff
  have hidsne : ids ≠ [] := fun hnil => by
    rw [hnil] at hperm
    exact hne (List.map_eq_nil_iff.mp hperm.symm.eq_nil)
  have hempty := hsheds.levels_eq_empty hsound hids
  refine ⟨fun side => (hlevels side).trans (hempty side).symm, fun i => ?_, fun user => ?_,
    fun i => ?_, fun a => ?_, fun a => ?_, fun k => ?_, fun i => ?_, fun side => ?_⟩
  · rw [hlocations, hsheds.location]
    split_ifs with hi
    · rfl
    · by_contra hlookup
      exact hi ((hids i).mpr (h.location i fun hnone => hlookup hnone.symm))
  · rw [husers, hsheds.users, trimmed_eq_none]
    · rfl
    · intro l hl i hi
      exact (hids i).mpr (h.location i (hcat.users.located ⟨l, hl, hi⟩))
  · rw [hentries, hsheds.risk.entry]
    split_ifs with hboth
    · rfl
    · by_contra hlookup
      obtain ⟨hconfig, hholds⟩ := h.riskEntry i fun hnone => hlookup hnone.symm
      exact hboth ⟨(hids i).mpr hholds, hconfig⟩
  · rw [(counters_cancelAllOrders hne a).1, hsheds.risk.openCount, RiskState.released_perm hperm,
      Nat.sub_eq_zero_of_le (h.openCount a)]
  · rw [(counters_cancelAllOrders hne a).2, hsheds.risk.restingNotional,
      RiskState.released_perm hperm, Nat.sub_eq_zero_of_le (h.restingNotional a)]
  · have hnone : (b.cancelEach ids).specialOrderTracker.ids k = ∅ := by
      refine Finset.eq_empty_of_forall_notMem fun i hi => ?_
      obtain ⟨hnot, hi⟩ := (hsheds.special k i).mp hi
      exact hnot ((hids i).mpr (h.special k i hi))
    rw [hnone, hspecial]
    cases k <;> rfl
  · obtain ⟨hall, heach⟩ := orderStatus_cancelAll hcat hne hperm i
    rw [hall, heach]
    cases ht : b.orderStateTracker with
    | none => rfl
    | some t =>
      exact (OrderStateTracker.orderFree_iff hcat.sound.nodup_restingOrders .massCancelAll
        .userRequested).mpr (h.tracker t ht) ids hperm i
  · rw [(hunread side).bestPrice_fst, (unread_cancelEach b hidsne side).bestPrice_fst, hlevels,
      hempty]

omit [LevelQueue L] in
/-- Without orders the bulk cancel only invalidates the cache. -/
theorem alike_iff_of_nil (hsound : b.Sound) (hnil : b.restingOrders = []) :
    CancelledAlike b.cancelAllOrders.1 b ↔ ∀ side, (b.bestPrice side).1 = none := by
  have hlevels : ∀ side, b.levels side = ∅ := fun side => by
    refine SortedMap.ext_get? fun price => (hsound.get?_eq_none_iff.mpr ?_).trans rfl
    refine List.eq_nil_iff_forall_not_mem.mpr fun o ho => ?_
    have hmem := mem_restingOrders.mpr ⟨side, price, mem_queueAt.mp ho⟩
    rw [hnil] at hmem
    exact List.not_mem_nil hmem
  have hbest : ∀ side, (b.invalidateCache.bestPrice side).1 = none := fun side => by
    rw [(unread_invalidateCache b side).bestPrice_fst]
    show bestKey side (b.levels side) = none
    rw [hlevels]
    cases side <;> rfl
  rw [cancelAllOrders_of_nil hnil]
  constructor
  · exact fun h side => (h.bestPrices side).symm.trans (hbest side)
  · exact fun h => ⟨fun _ => rfl, fun _ => rfl, fun _ => rfl, fun _ => rfl, fun _ => rfl,
      fun _ => rfl, fun _ => rfl, fun _ => rfl, fun side => (hbest side).trans (h side).symm⟩

omit [LevelQueue L] in
theorem cancelAllOrders_snd : b.cancelAllOrders.2 = b.restingOrders.map Order.id := by
  by_cases hnil : b.restingOrders = []
  · rw [cancelAllOrders_of_nil hnil, hnil]
    rfl
  · exact (cancelAllOrders_of_ne_nil hnil).1

omit [LevelQueue L] in
theorem restingIds_pairwise (b : OrderBook L) :
    (b.restingOrders.map Order.id).Pairwise b.ScannedBefore := by
  have hscan := scannedIds_pairwise b fun _ _ _ => true
  rw [scannedIds, List.filter_true] at hscan
  rw [← map_placedOrders, List.map_map]
  exact hscan

variable [SnapshotChecksum] [DisplayId] [LevelSnapshot L] [LevelMatch L] [LevelResize L]

/-- **The bulk cancel equals cancelling one by one**, in any order, iff the book has nothing on
record but its resting orders, or no resting order at all and no best price in its cache. -/
theorem bulk_equals_each_iff (h : b.ReachableByCalls) :
    BulkEqualsEach b ↔ (b.restingOrders = [] → ∀ side, (b.bestPrice side).1 = none) ∧
      (b.restingOrders ≠ [] → b.NothingStale) := by
  have hcat := h.catalogued
  have hreturned : b.cancelAllOrders.2.Nodup ∧ (∀ i, i ∈ b.cancelAllOrders.2 ↔ b.Holds i) ∧
      b.cancelAllOrders.2.Pairwise b.ScannedBefore := by
    rw [cancelAllOrders_snd]
    exact ⟨hcat.sound.nodup_restingOrders, fun i => mem_restingIds_iff, restingIds_pairwise b⟩
  constructor
  · intro hequals
    refine ⟨fun hnil => (alike_iff_of_nil hcat.sound hnil).mp ?_,
      fun hne => nothingStale_of_alike hcat hne hequals.alike⟩
    exact hequals.alike [] (by rw [hnil]; exact .refl [])
  · rintro ⟨hempty, hstale⟩
    refine ⟨hreturned.1, hreturned.2.1, hreturned.2.2, fun ids hperm => ?_⟩
    by_cases hnil : b.restingOrders = []
    · rw [hnil] at hperm
      rw [hperm.eq_nil]
      exact (alike_iff_of_nil hcat.sound hnil).mpr (hempty hnil)
    · exact (hstale hnil).alike hcat hnil hperm

end Main

/-! ### A peg that is taken -/

/-- A pegged ask is bought, in part or all of it, and another ask comes to rest. -/
def pegTaken (quantity : ℕ) : OrderBook FifoLevel :=
  ((((withClock "BTC" ⟨fun n => n, 0⟩ : OrderBook FifoLevel).configure
    (.riskConfig (some { maxNotionalPerAccount := some 900 }))).execute
      (.addOrder ⟨1, 101, .sell, 7, 0, .gtc, 5, .pegged 1 .bestAsk⟩)).execute
        (.addOrder ⟨2, 101, .buy, 8, 0, .ioc, quantity, .standard⟩)).execute
          (.addOrder ⟨3, 103, .sell, 9, 0, .gtc, 4, .standard⟩)

theorem pegTaken_reachable (quantity : ℕ) :
    letI := noDigest
    letI := tallyIds
    (pegTaken quantity).ReachableByCalls := by
  let _ := noDigest
  let _ := tallyIds
  exact ⟨"BTC", ⟨fun n => n, 0⟩,
    [.op (.configure (.riskConfig (some { maxNotionalPerAccount := some 900 }))),
      .op (.command (.addOrder ⟨1, 101, .sell, 7, 0, .gtc, 5, .pegged 1 .bestAsk⟩)),
      .op (.command (.addOrder ⟨2, 101, .buy, 8, 0, .ioc, quantity, .standard⟩)),
      .op (.command (.addOrder ⟨3, 103, .sell, 9, 0, .gtc, 4, .standard⟩))], rfl⟩

/-- A peg that still rests is not stale. -/
theorem pegTaken_nothingStale : (pegTaken 2).NothingStale := by
  have hholds : ∀ i ∈ (pegTaken 2).restingOrders.map Order.id, (pegTaken 2).Holds i :=
    fun i hi => mem_restingIds_iff.mp hi
  refine ⟨fun i hi => hholds i ?_, fun k i hi => hholds i ?_, fun i hi => ⟨?_, hholds i ?_⟩,
    fun a => ?_, fun a => ?_, fun t ht => ?_⟩
  · have hkeys : ∀ i ∈ (pegTaken 2).orderLocations.keys,
        i ∈ (pegTaken 2).restingOrders.map Order.id := by decide
    exact hkeys i (AssocMap.mem_keys_of_lookup hi)
  · have hspecial : ∀ k, ∀ i ∈ (pegTaken 2).specialOrderTracker.ids k,
        i ∈ (pegTaken 2).restingOrders.map Order.id := by
      intro k
      cases k <;> decide
    exact hspecial k i hi
  · decide
  · have hkeys : ∀ i ∈ (pegTaken 2).riskState.orders.keys,
        i ∈ (pegTaken 2).restingOrders.map Order.id := by decide
    exact hkeys i (AssocMap.mem_keys_of_lookup hi)
  · by_cases ha : (pegTaken 2).riskState.counters.lookup a = none
    · rw [RiskState.openCount, ha]
      exact Nat.zero_le _
    · have hkeys : ∀ a ∈ (pegTaken 2).riskState.counters.keys, (pegTaken 2).riskState.openCount a ≤
          (pegTaken 2).riskState.released a (fun _ => 1)
            ((pegTaken 2).restingOrders.map Order.id) := by decide
      exact hkeys a (AssocMap.mem_keys_of_lookup ha)
  · by_cases ha : (pegTaken 2).riskState.counters.lookup a = none
    · rw [RiskState.restingNotional, ha]
      exact Nat.zero_le _
    · have hkeys : ∀ a ∈ (pegTaken 2).riskState.counters.keys,
          (pegTaken 2).riskState.restingNotional a ≤ (pegTaken 2).riskState.released a
            RiskEntry.notional ((pegTaken 2).restingOrders.map Order.id) := by decide
      exact hkeys a (AssocMap.mem_keys_of_lookup ha)
  · cases ht

/-- A peg taken in part is cancelled alike. -/
theorem pegTaken_bulk_equals_each : BulkEqualsEach (pegTaken 2) := by
  let _ := noDigest
  let _ := tallyIds
  exact (bulk_equals_each_iff (pegTaken_reachable 2)).mpr
    ⟨fun hnil => absurd hnil (by decide), fun _ => pegTaken_nothingStale⟩

/-- **A filled peg stays registered.** The risk counters are those of the one order that rests. The
bulk cancel unregisters the peg; cancelling the resting order does not. -/
theorem pegTaken_bulk_differs :
    letI := noDigest
    letI := tallyIds
    (pegTaken 5).ReachableByCalls ∧
      (∀ a, (pegTaken 5).riskState.openCount a = ((pegTaken 5).ordersOf a).length ∧
        (pegTaken 5).riskState.restingNotional a =
          (((pegTaken 5).ordersOf a).map fun x => x.price * x.size).sum) ∧
      (pegTaken 5).restingOrders.map Order.id = [3] ∧
      (pegTaken 5).cancelAllOrders.1.specialOrderTracker.peggedOrders = ∅ ∧
      ((pegTaken 5).cancelEach [3]).specialOrderTracker.peggedOrders = {1} ∧
      ¬ BulkEqualsEach (pegTaken 5) := by
  have hall : (pegTaken 5).cancelAllOrders.1.specialOrderTracker.peggedOrders = ∅ := by decide
  have heach : ((pegTaken 5).cancelEach [3]).specialOrderTracker.peggedOrders = {1} := by decide
  have hresting : (pegTaken 5).restingOrders.map Order.id = [3] := by decide
  refine ⟨pegTaken_reachable 5, fun a => ?_, hresting, hall, heach, fun h => ?_⟩
  · by_cases ha : a = 9
    · subst ha
      decide
    · have hcounters : (pegTaken 5).riskState.counters.lookup a = none := by
        by_contra hne
        have hkeys : (pegTaken 5).riskState.counters.keys = [9] := by decide
        have hmem := AssocMap.mem_keys_of_lookup hne
        rw [hkeys] at hmem
        exact ha (List.mem_singleton.mp hmem)
      have hnone : (pegTaken 5).ordersOf a = [] := by
        refine List.filter_eq_nil_iff.mpr fun o ho => ?_
        have husers : ∀ o ∈ (pegTaken 5).restingOrders, o.userId = 9 := by decide
        rw [husers o ho]
        simpa using Ne.symm ha
      rw [RiskState.openCount, RiskState.restingNotional, hcounters, hnone]
      exact ⟨rfl, rfl⟩
  · have hspecial := (h.alike [3] (by rw [hresting])).special .pegged
    have hspecial : (pegTaken 5).cancelAllOrders.1.specialOrderTracker.peggedOrders =
        ((pegTaken 5).cancelEach [3]).specialOrderTracker.peggedOrders := hspecial
    rw [hall, heach] at hspecial
    exact absurd hspecial (by decide)

end OrderBookRs
