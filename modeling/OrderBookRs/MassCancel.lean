import OrderBookRs.Modifications

/-!
# Mass cancels and eviction

`mass_cancel.rs`: the bulk cancel of the whole book, the targeted cancels, which collect ids and
cancel them one by one, and the eviction of expired orders.

## Main definitions

* `OrderBook.cancelAllOrders`, `OrderBook.cancelOrdersBySide`, `OrderBook.cancelOrdersByUser`,
  `OrderBook.cancelOrdersByPriceRange`, `OrderBook.evictExpiredOrders`.
-/

namespace OrderBookRs

open PriceLevel

namespace OrderBook

variable {L : Type} [PriceLevel L]

/-- The orders of some levels, by level and then in queue order. -/
def queuedOrders (entries : List (ℕ × L)) : List Order := entries.flatMap fun e => orders e.2

/-- All resting orders: bids by ascending price, then asks by ascending price. -/
def restingOrders (b : OrderBook L) : List Order :=
  queuedOrders b.bids.entries ++ queuedOrders b.asks.entries

/-- `cancel_order_batch_with_reason`: cancel ids one by one, collecting the orders found. -/
def cancelOrderBatchWithReason (b : OrderBook L) (ids : List OrderId) (reason : CancelReason) :
    OrderBook L × List (OrderId × Order) :=
  ids.foldl
    (fun st id =>
      let c := st.1.cancelOrderWithReason id reason
      (c.1, st.2 ++ c.2.toList.map fun o => (id, o)))
    (b, [])

/-- Announce that every level of a side is now empty. -/
def deliverCleared (b : OrderBook L) (side : Side) : OrderBook L :=
  (b.levels side).entries.foldl (fun b e => b.deliverLevelChange side e.1 0) b

/-- `cancel_all_orders`: drain everything at once. -/
def cancelAllOrders (b : OrderBook L) : OrderBook L × List OrderId :=
  let b := b.invalidateCache
  let ids := b.restingOrders.map Order.id
  if ids.isEmpty then (b, [])
  else
    let b := (b.deliverCleared .buy).deliverCleared .sell
    let b := ids.foldl
      (fun b id => b.trackState id (.cancelled (b.trackedFilled id) .massCancelAll)) b
    ({ b with
        bids := ∅
        asks := ∅
        orderLocations := ∅
        userOrders := ∅
        specialOrderTracker := {}
        riskState := b.riskState.clear
        cache := b.cache.invalidate }, ids)

/-- `cancel_orders_by_side`. -/
def cancelOrdersBySide (b : OrderBook L) (side : Side) : OrderBook L × List OrderId :=
  let ids := (queuedOrders (b.levels side).entries).map Order.id
  let c := b.cancelOrderBatchWithReason ids .massCancelBySide
  (c.1, c.2.map Prod.fst)

/-- `cancel_orders_by_user`: the user's list is taken out of the index before the cancels. -/
def cancelOrdersByUser (b : OrderBook L) (user : Hash32) : OrderBook L × List OrderId :=
  let ids := (b.userOrders.lookup user).getD []
  let b : OrderBook L := { b with userOrders := b.userOrders.erase user }
  let c := b.cancelOrderBatchWithReason ids .massCancelByUser
  (c.1, c.2.map Prod.fst)

/-- `cancel_orders_by_price_range`: an inclusive range; an empty one cancels nothing. -/
def cancelOrdersByPriceRange (b : OrderBook L) (side : Side) (minPrice maxPrice : ℕ) :
    OrderBook L × List OrderId :=
  if maxPrice < minPrice then (b, [])
  else
    let range := (b.levels side).entries.filter fun e => minPrice ≤ e.1 ∧ e.1 ≤ maxPrice
    let c := b.cancelOrderBatchWithReason ((queuedOrders range).map Order.id)
      .massCancelByPriceRange
    (c.1, c.2.map Prod.fst)

/-- `evict_expired_orders`: cancel what is expired at the given time. -/
def evictExpiredOrders (b : OrderBook L) (now : ℕ) : OrderBook L × List Order :=
  let expired := b.restingOrders.filter fun o =>
    isExpired L o.timeInForce now b.marketCloseForExpiry
  if expired.isEmpty then (b, [])
  else
    let c := b.cancelOrderBatchWithReason (expired.map Order.id) .timeInForceExpired
    (c.1, c.2.map Prod.snd)

end OrderBook

end OrderBookRs
