import OrderBookRs.Order

/-!
# The price-level crate

The book keeps every price level in the `pricelevel` crate, whose source is not part of the
repository. The crate is therefore a parameter of the development: `PriceLevel L` lists the
operations the book calls on a level of type `L`, and the classes below state, one topic each, the
documented behaviour a result may rely on. A result names exactly the classes it uses.

## Main definitions

* `PriceLevel`: the operations.
* `LevelQueue`, `LevelResize`, `LevelMatch`, `LevelReports`: a level is a queue of orders with
  unique ids, and how admission, cancels, resizes and matches change that queue.
* `MatchAccounting`, `MatchBalance`, `MatchConservation`, `MatchExhausts`, `MatchableDryRun`,
  `MatchDepth`, `SelfMatchSkip`, `MatchReach`, `TradeRecords`, `TradeRefusal`, `InsertionOrder`,
  `MatchInLots`, `MatchDisplays`, `MatchReportsOnce`: the trades of a match and the orders it
  leaves.
* `LevelCapacity`, `LevelTotals`: the bounds on what a level holds, and its total quantity.
* `LevelSnapshot`: taking a snapshot of a level and restoring it.
* `LevelDisplay`: the displayed aggregate and the price of a level.
-/

namespace OrderBookRs

/-- The execution statistics of a level that do not depend on the clock. -/
structure LevelStatistics where
  ordersAdded : ℕ
  ordersRemoved : ℕ
  ordersExecuted : ℕ
  quantityExecuted : ℕ
  valueExecuted : ℕ
  statsDegraded : Bool
  deriving DecidableEq, Repr

/-- `PriceLevelSnapshot`: the serialisable state of a level, orders in queue order. -/
structure PriceLevelSnapshot where
  price : ℕ
  visibleQuantity : ℕ
  hiddenQuantity : ℕ
  orderCount : ℕ
  orders : List Order
  statistics : LevelStatistics
  deriving DecidableEq, Repr

/-- The operations of the `pricelevel` crate that the book calls. A level operation that the crate
performs in place returns the level it leaves behind. -/
class PriceLevel (L : Type) where
  /-- `PriceLevel::new`. -/
  new : ℕ → L
  price : L → ℕ
  visibleQuantity : L → ℕ
  totalQuantity : L → Except PriceLevelError ℕ
  orderCount : L → ℕ
  /-- `snapshot_by_insertion_seq`: the resting orders in the order a sweep consumes them. -/
  orders : L → List Order
  /-- `matchable_quantity(cap, taker_id)`: the dry run of a match. -/
  matchableQuantity : L → ℕ → OrderId → ℕ
  /-- `add_order`; a refused order leaves the level as it was. -/
  addOrder : L → Order → Except PriceLevelError L
  updateOrder : L → OrderUpdate → Except PriceLevelError (Option Order) × L
  /-- `match_order(quantity, taker_id, kind)`. -/
  matchOrder : L → ℕ → OrderId → TakerKind → MatchResult × L
  snapshot : L → PriceLevelSnapshot
  fromSnapshot : PriceLevelSnapshot → Except PriceLevelError L
  refreshAggregates : PriceLevelSnapshot → PriceLevelSnapshot
  /-- `OrderType::with_reduced_quantity`. -/
  withReducedQuantity : Order → ℕ → Order
  /-- `TimeInForce::is_expired(now, market_close)`. -/
  isExpired : TimeInForce → ℕ → Option ℕ → Bool
  /-- `MatchResult::add_trade`. -/
  addTrade : MatchResult → Trade → Except PriceLevelError MatchResult

namespace PriceLevel

variable {L : Type} [PriceLevel L]

/-- The ids queued on a level. -/
def orderIds (l : L) : List OrderId := (orders l).map Order.id

/-- `total_quantity().unwrap_or(0)`. -/
def levelTotal (l : L) : ℕ := (totalQuantity l).toOption.getD 0

theorem mem_orderIds {l : L} {i : OrderId} : i ∈ orderIds l ↔ ∃ o ∈ orders l, o.id = i := by
  simp [orderIds]

end PriceLevel

open PriceLevel

/-- A level is a queue of orders with unique ids: an admitted order joins at the back, and
cancelling an id removes that order and no other. -/
class LevelQueue (L : Type) [PriceLevel L] : Prop where
  orderCount_eq : ∀ l : L, orderCount l = (orders l).length
  nodup_orderIds : ∀ l : L, (orderIds l).Nodup
  orders_new : ∀ p, orders (new p : L) = []
  orders_addOrder : ∀ {l l' : L} {o}, addOrder l o = .ok l' → orders l' = orders l ++ [o]
  cancel_of_mem : ∀ {l : L} {o}, o ∈ orders l →
    ∃ l', updateOrder l (.cancel o.id) = (.ok (some o), l') ∧
      orders l' = (orders l).filter fun x => x.id ≠ o.id
  cancel_of_notMem : ∀ {l : L} {i}, i ∉ orderIds l → updateOrder l (.cancel i) = (.ok none, l)

/-- Resizing: an unknown id and a refused resize leave the level alone; an accepted one rewrites
that order with `with_reduced_quantity`, wherever it then queues, and touches no other order. Only
a resize to zero may take the order off the level. -/
class LevelResize (L : Type) [PriceLevel L] : Prop where
  withReducedQuantity_eq : ∀ o q, ∃ v h, withReducedQuantity L o q = o.setTranches v h
  resize_of_notMem : ∀ {l : L} {i q}, i ∉ orderIds l →
    updateOrder l (.updateQuantity i q) = (.ok none, l)
  resize_of_mem : ∀ {l : L} {o q}, o ∈ orders l →
    (∃ e, updateOrder l (.updateQuantity o.id q) = (.error e, l)) ∨
      ∃ l', updateOrder l (.updateQuantity o.id q) =
          (.ok (some (withReducedQuantity L o q)), l') ∧
        ((orders l').filter fun x => x.id ≠ o.id) = ((orders l).filter fun x => x.id ≠ o.id) ∧
        (withReducedQuantity L o q ∈ orders l' ∨ q = 0 ∧ o.id ∉ orderIds l')

section Reduced

variable {L : Type} [PriceLevel L] [LevelResize L] (o : Order) (q : ℕ)

@[simp] theorem reduced_id : (withReducedQuantity L o q).id = o.id := by
  obtain ⟨v, h, hred⟩ := LevelResize.withReducedQuantity_eq (L := L) o q
  rw [hred, Order.setTranches_id]

@[simp] theorem reduced_userId : (withReducedQuantity L o q).userId = o.userId := by
  obtain ⟨v, h, hred⟩ := LevelResize.withReducedQuantity_eq (L := L) o q
  rw [hred, Order.setTranches_userId]

end Reduced

/-- Matching: the makers left behind differ from the ones found in their quantities only, a maker
listed as filled has left the level, one with a display that has left it is listed as filled, and a
post-only taker is a dry run. -/
class LevelMatch (L : Type) [PriceLevel L] : Prop where
  orders_match : ∀ {l l' : L} {q i r o'}, matchOrder l q i .standard = (r, l') →
    o' ∈ orders l' → ∃ o ∈ orders l, ∃ v h, o' = o.setTranches v h
  left_of_filled : ∀ {l l' : L} {q i r j}, matchOrder l q i .standard = (r, l') →
    j ∈ r.filledOrderIds → j ∈ orderIds l ∧ j ∉ orderIds l'
  filled_of_left : ∀ {l l' : L} {q i r o}, matchOrder l q i .standard = (r, l') → o ∈ orders l →
    0 < o.visibleQuantity → o.id ∉ orderIds l' → o.id ∈ r.filledOrderIds
  match_postOnly : ∀ (l : L) (q i), (matchOrder l q i .postOnly).2 = l

/-- Every maker that leaves the level is listed as filled. Of the crate this is so where every order
displays something: a match drops an order without a display and does not list it. -/
class LevelReports (L : Type) [PriceLevel L] : Prop extends LevelMatch L where
  filled_of_gone : ∀ {l l' : L} {q i r j}, matchOrder l q i .standard = (r, l') →
    j ∈ orderIds l → j ∉ orderIds l' → j ∈ r.filledOrderIds

/-- The accounting of one match: every trade fills a maker of the level by a positive quantity, what
is not traded remains, and `add_trade` fails only when it would underflow. -/
class MatchAccounting (L : Type) [PriceLevel L] : Prop where
  trade_mem : ∀ {l l' : L} {q i r t}, matchOrder l q i .standard = (r, l') → t ∈ r.trades →
    t.makerOrderId ∈ orderIds l ∧ 0 < t.quantity
  traded_add_remaining : ∀ {l l' : L} {q i r}, matchOrder l q i .standard = (r, l') →
    tradedQuantity r.trades + r.remainingQuantity = q
  addTrade_eq : ∀ (r : MatchResult) (t : Trade), t.quantity ≤ r.remainingQuantity →
    addTrade L r t = .ok { r with
      trades := r.trades ++ [t], remainingQuantity := r.remainingQuantity - t.quantity }

/-- The balance of a maker. One that stays has lost exactly what it traded and keeps something if it
traded at all; one that leaves has traded everything, or is a reserve order without auto-replenish
whose display ran out. Such a reserve order never draws on its hidden tranche. -/
class MatchBalance (L : Type) [PriceLevel L] : Prop where
  stays : ∀ {l l' : L} {q i r o o'}, matchOrder l q i .standard = (r, l') → o ∈ orders l →
    o' ∈ orders l' → o'.id = o.id →
    o'.size + tradedQuantity (tradesOf o.id r.trades) = o.size ∧
      (tradesOf o.id r.trades ≠ [] → 0 < o'.size)
  leaves : ∀ {l l' : L} {q i r o}, matchOrder l q i .standard = (r, l') → o ∈ orders l →
    o.id ∉ orderIds l' →
    tradedQuantity (tradesOf o.id r.trades) = o.size ∨
      o.keepsHidden ∧ tradedQuantity (tradesOf o.id r.trades) = o.visibleQuantity
  hidden_kept : ∀ {l l' : L} {q i r o o'}, matchOrder l q i .standard = (r, l') → o ∈ orders l →
    o' ∈ orders l' → o'.id = o.id → o.keepsHidden → o'.hiddenQuantity = o.hiddenQuantity

/-- Quantity conservation within one level: the balance of each maker, and a maker that did not
trade is unchanged. -/
class MatchConservation (L : Type) [PriceLevel L] : Prop extends MatchBalance L where
  untraded : ∀ {l l' : L} {q i r o}, matchOrder l q i .standard = (r, l') → o ∈ orders l →
    tradesOf o.id r.trades = [] → o ∈ orders l'

/-- A match that comes back with unfilled quantity leaves no order but the taker's own id. That a
post-only probe that is not rejected found no other order either is the assumption the no-crossing
results are stated under; it is not the documented behaviour, by which the probe passes over orders
it cannot trade with. -/
class MatchExhausts (L : Type) [PriceLevel L] : Prop where
  eq_of_remaining : ∀ {l l' : L} {q i r o}, matchOrder l q i .standard = (r, l') →
    r.remainingQuantity ≠ 0 → o ∈ orders l' → o.id = i
  eq_of_not_rejected : ∀ {l : L} {q i o}, 0 < q →
    (matchOrder l q i .postOnly).1.wasRejected = false → o ∈ orders l → o.id = i

/-- `matchable_quantity` predicts the match, and for a taker that does not rest on the level it is
the sum of what each order lets a sweep draw. -/
class MatchableDryRun (L : Type) [PriceLevel L] : Prop where
  remaining_eq : ∀ {l l' : L} {q i r}, matchOrder l q i .standard = (r, l') →
    r.remainingQuantity = q - min q (matchableQuantity l q i)
  matchableQuantity_eq : ∀ {l : L} {q i}, i ∉ orderIds l →
    min q (matchableQuantity l q i) = min q ((orders l).map Order.matchableQty).sum

/-- A match trades at the price of its level and, when it comes back with unfilled quantity, has
used up what the level lets this taker match: `matchable_quantity` without a cap, of which a smaller
cap sees as much as it asks for. -/
class MatchDepth (L : Type) [PriceLevel L] : Prop where
  trade_price : ∀ {l l' : L} {q i r t}, matchOrder l q i .standard = (r, l') → t ∈ r.trades →
    t.price = price l
  matchableQuantity_cap : ∀ {l : L} {q i}, q ≤ u64Max →
    min q (matchableQuantity l q i) = min q (matchableQuantity l u64Max i)
  exhausted : ∀ {l l' : L} {q i r}, matchOrder l q i .standard = (r, l') →
    r.remainingQuantity ≠ 0 → matchableQuantity l' u64Max i = 0

/-- A match passes over the order with the taker's own id. -/
class SelfMatchSkip (L : Type) [PriceLevel L] : Prop where
  own_untraded : ∀ {l l' : L} {q i r}, matchOrder l q i .standard = (r, l') →
    tradesOf i r.trades = []

/-- What a match can reach: no maker gives more than it lets a sweep draw, and the dry run adds this
up over the makers other than the taker's own order. -/
class MatchReach (L : Type) [PriceLevel L] : Prop where
  traded_le : ∀ {l l' : L} {q i r o}, matchOrder l q i .standard = (r, l') → o ∈ orders l →
    tradedQuantity (tradesOf o.id r.trades) ≤ o.matchableQty
  matchableQuantity_others : ∀ (l : L) (q i), min q (matchableQuantity l q i) =
    min q (((orders l).filter fun o => o.id ≠ i).map Order.matchableQty).sum

/-- `total_quantity` adds up the visible and the hidden quantities of the orders. It errs only if
the sum is beyond a `u64`. -/
class LevelTotals (L : Type) [PriceLevel L] : Prop where
  totalQuantity_eq : ∀ {l : L}, ((orders l).map Order.size).sum ≤ u64Max →
    totalQuantity l = .ok ((orders l).map Order.size).sum
  totalQuantity_error : ∀ {l : L}, u64Max < ((orders l).map Order.size).sum →
    ∃ e, totalQuantity l = .error e

/-- A trade names the taker the match was made for, and `add_trade` lists the trade if it succeeds.
-/
class TradeRecords (L : Type) [PriceLevel L] : Prop where
  trade_taker : ∀ {l l' : L} {q i r t}, matchOrder l q i .standard = (r, l') → t ∈ r.trades →
    t.takerOrderId = i
  addTrade_trades : ∀ {r r' : MatchResult} {t : Trade}, addTrade L r t = .ok r' →
    r'.trades = r.trades ++ [t]

/-- `add_trade` refuses a trade that would underflow the remaining quantity. -/
class TradeRefusal (L : Type) [PriceLevel L] : Prop where
  addTrade_error : ∀ (r : MatchResult) (t : Trade), r.remainingQuantity < t.quantity →
    ∃ e, addTrade L r t = .error e

/-- Makers are consumed in queue order: before a maker trades, every maker ahead of it other than
the taker's own order, which is passed over, has traded at least its display. A replenished tranche
may re-enter at its old place or at the back. -/
class InsertionOrder (L : Type) [PriceLevel L] : Prop where
  ahead_traded : ∀ {l l' : L} {q i r ahead o behind}, matchOrder l q i .standard = (r, l') →
    orders l = ahead ++ o :: behind → tradesOf o.id r.trades ≠ [] →
    ∀ x ∈ ahead, x.id ≠ i → x.visibleQuantity ≤ tradedQuantity (tradesOf x.id r.trades)

/-- What the orders of a level display adds up to fits in the level's counter, and so does the size
of each order. -/
class LevelCapacity (L : Type) [PriceLevel L] : Prop where
  sum_visible_le : ∀ l : L, ((orders l).map Order.visibleQuantity).sum ≤ u64Max
  size_le : ∀ {l : L} {o}, o ∈ orders l → o.size ≤ u64Max

/-- A match in whole lots on a level whose orders are in whole lots leaves them in whole lots: a
display is refreshed by its own size, by the replenish amount or by what is left of the hidden part.
-/
class MatchInLots (L : Type) [PriceLevel L] : Prop where
  orders_inLots : ∀ {l l' : L} {q i r lot}, matchOrder l q i .standard = (r, l') → lot ∣ q →
    (∀ o ∈ orders l, o.InLots lot) → ∀ o ∈ orders l', o.InLots lot

/-- An order that a match leaves on the level still displays something if it did before. -/
class MatchDisplays (L : Type) [PriceLevel L] : Prop where
  visible_pos : ∀ {l l' : L} {q i r o o'}, matchOrder l q i .standard = (r, l') → o ∈ orders l →
    o' ∈ orders l' → o'.id = o.id → 0 < o.visibleQuantity → 0 < o'.visibleQuantity

/-- A match reports a filled order once. -/
class MatchReportsOnce (L : Type) [PriceLevel L] : Prop where
  nodup_filledOrderIds : ∀ {l l' : L} {q i r}, matchOrder l q i .standard = (r, l') →
    r.filledOrderIds.Nodup

/-- A snapshot carries the price and the queue of its level, refreshing its aggregates changes
neither, and a level restored from it has that price and that queue. -/
class LevelSnapshot (L : Type) [PriceLevel L] : Prop where
  snapshot_price : ∀ l : L, (snapshot l).price = price l
  snapshot_orders : ∀ l : L, (snapshot l).orders = orders l
  refresh_price : ∀ s, (refreshAggregates L s).price = s.price
  refresh_orders : ∀ s, (refreshAggregates L s).orders = s.orders
  fromSnapshot_price : ∀ {s} {l : L}, fromSnapshot s = .ok l → price l = s.price
  fromSnapshot_orders : ∀ {s} {l : L}, fromSnapshot s = .ok l → orders l = s.orders

/-- A level restored from its refreshed snapshot is the level itself. -/
class LevelRoundTrip (L : Type) [PriceLevel L] : Prop where
  fromSnapshot_snapshot : ∀ l : L, fromSnapshot (refreshAggregates L (snapshot l)) = .ok l

/-- What has expired stays expired, for a fixed market close. -/
class ExpiryMonotone (L : Type) [PriceLevel L] : Prop where
  isExpired_mono : ∀ {timeInForce close now later}, now ≤ later →
    isExpired L timeInForce now close → isExpired L timeInForce later close

/-- Only admissions, cancels, resizes and matches that trade change what a level displays; none of
them changes its price, and a level without orders displays nothing. -/
class LevelDisplay (L : Type) [PriceLevel L] : Prop where
  price_new : ∀ p, price (new p : L) = p
  price_addOrder : ∀ {l l' : L} {o}, addOrder l o = .ok l' → price l' = price l
  price_updateOrder : ∀ (l : L) (u), price (updateOrder l u).2 = price l
  price_matchOrder : ∀ (l : L) (q i k), price (matchOrder l q i k).2 = price l
  visible_of_orders_nil : ∀ {l : L}, orders l = [] → visibleQuantity l = 0
  visible_of_no_trades : ∀ {l l' : L} {q i r}, matchOrder l q i .standard = (r, l') →
    r.trades = [] → visibleQuantity l' = visibleQuantity l

end OrderBookRs
