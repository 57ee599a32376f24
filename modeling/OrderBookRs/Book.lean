import Mathlib.Data.Finset.Erase
import Mathlib.Data.Finset.Insert
import OrderBookRs.Collections.SortedMap
import OrderBookRs.Fallible
import OrderBookRs.OrderState
import OrderBookRs.PriceLevel
import OrderBookRs.Risk
import OrderBookRs.UserOrders

/-!
# The order book

The state of an `OrderBook` and the small operations every larger one is made of: reading the best
prices through the cache, emitting events to the listeners, recording a status, looking an order up.

The two listeners are callbacks. What the book can observe of a callback is the read-only queries it
makes while it runs, since those go through the best-price cache; a `Listener` is therefore the list
of queries it makes on each event. Two fields are history variables, which no source function reads:
`stamped` records every event that took a sequence number and `fills` every trade applied to a
maker.

## Main definitions

* `OrderBook L`: the book over levels of type `L`.
* `OrderBook.levels`, `OrderBook.setLevel`, `OrderBook.removeLevel`: the two sides.
* `OrderBook.bestBid`, `OrderBook.bestAsk`, `OrderBook.willCrossMarket`: cached best prices.
* `OrderBook.deliverLevelChange`, `OrderBook.deliverTrade`: the outbound streams.
* `OrderBook.Rests`: an order rests at a side and price.
-/

namespace OrderBookRs

open PriceLevel

/-! ### Best-price cache -/

/-- `PriceLevelCache`: one slot a side, each with its own valid flag. -/
structure PriceLevelCache where
  bestBidPrice : ℕ := 0
  bestAskPrice : ℕ := 0
  bidValid : Bool := false
  askValid : Bool := false
  deriving DecidableEq, Repr

namespace PriceLevelCache

/-- `invalidate`. -/
def invalidate (c : PriceLevelCache) : PriceLevelCache :=
  { c with bidValid := false, askValid := false }

/-- `get_cached_best_bid` and `get_cached_best_ask`. -/
def cached (c : PriceLevelCache) : Side → Option ℕ
  | .buy => if c.bidValid then some c.bestBidPrice else none
  | .sell => if c.askValid then some c.bestAskPrice else none

/-- `update_best_bid` and `update_best_ask`. -/
def update (c : PriceLevelCache) : Side → Option ℕ → PriceLevelCache
  | .buy, some price => { c with bestBidPrice := price, bidValid := true }
  | .buy, none => { c with bidValid := false }
  | .sell, some price => { c with bestAskPrice := price, askValid := true }
  | .sell, none => { c with askValid := false }

@[simp] theorem cached_invalidate (c : PriceLevelCache) (s : Side) :
    c.invalidate.cached s = none := by cases s <;> rfl

@[simp] theorem cached_update_self (c : PriceLevelCache) (s : Side) (best : Option ℕ) :
    (c.update s best).cached s = best := by cases s <;> cases best <;> rfl

@[simp] theorem cached_update_opposite (c : PriceLevelCache) (s : Side) (best : Option ℕ) :
    (c.update s best).cached s.opposite = c.cached s.opposite := by
  cases s <;> cases best <;> rfl

end PriceLevelCache

/-! ### Events -/

/-- `PriceLevelChangedEvent`. -/
structure PriceLevelChangedEvent where
  side : Side
  price : ℕ
  quantity : ℕ
  engineSeq : UInt64
  deriving DecidableEq, Repr

/-- `FeeSchedule`: signed rates in basis points; a negative rate is a rebate. -/
structure FeeSchedule where
  makerFeeBps : ℤ
  takerFeeBps : ℤ
  deriving DecidableEq, Repr

namespace FeeSchedule

/-- `is_zero_fee`. -/
def isZeroFee (f : FeeSchedule) : Bool := f.makerFeeBps = 0 ∧ f.takerFeeBps = 0

/-- `calculate_fee`: the magnitude is floored after a product that saturates at `u128::MAX`. -/
def calculateFee (f : FeeSchedule) (notional : ℕ) (isMaker : Bool) : ℤ :=
  let bps := if isMaker then f.makerFeeBps else f.takerFeeBps
  let magnitude : ℤ := (satMul128 notional bps.natAbs / 10000 : ℕ)
  if bps < 0 then -magnitude else magnitude

end FeeSchedule

/-- `TradeResult`: what a trade listener receives. -/
structure TradeResult where
  symbol : String
  matchResult : MatchResult
  totalMakerFees : ℤ
  totalTakerFees : ℤ
  engineSeq : UInt64
  quoteNotional : ℕ
  deriving DecidableEq, Repr

namespace TradeResult

/-- `i128` addition that keeps the running sum when it would overflow. -/
def addFee (sum fee : ℤ) : ℤ :=
  if -2 ^ 127 ≤ sum + fee ∧ sum + fee < 2 ^ 127 then sum + fee else sum

/-- One leg of the fee totals. -/
def feeTotal (schedule : FeeSchedule) (isMaker : Bool) (trades : List Trade) : ℤ :=
  trades.foldl (fun sum t => addFee sum (schedule.calculateFee (satMul128 t.price t.quantity)
    isMaker)) 0

/-- `TradeResult::with_fees`. -/
def withFees (symbol : String) (r : MatchResult) (schedule : Option FeeSchedule)
    (engineSeq : UInt64) : TradeResult :=
  let fees : ℤ × ℤ :=
    match schedule with
    | some schedule =>
      if schedule.isZeroFee then (0, 0)
      else (feeTotal schedule true r.trades, feeTotal schedule false r.trades)
    | none => (0, 0)
  { symbol := symbol
    matchResult := r
    totalMakerFees := fees.1
    totalTakerFees := fees.2
    engineSeq := engineSeq
    quoteNotional := r.trades.foldl (fun sum t => satAdd128 sum (satMul128 t.price t.quantity)) 0 }

end TradeResult

/-- An event that took a sequence number: handed to its listener, or, a trade result without a
trade listener, unheard. -/
inductive OutboundEvent
  | level (event : PriceLevelChangedEvent)
  | trade (result : TradeResult)
  | unheard (result : TradeResult)
  deriving DecidableEq, Repr

namespace OutboundEvent

/-- The sequence number an event carries. -/
def engineSeq : OutboundEvent → UInt64
  | level e => e.engineSeq
  | trade t | unheard t => t.engineSeq

/-- The event went to a listener. -/
def heard : OutboundEvent → Bool
  | level _ | trade _ => true
  | unheard _ => false

end OutboundEvent

/-- A callback, as the book observes it: the best-price queries it makes on each event. -/
structure Listener (E : Type) where
  queries : E → List Side

/-- `SpecialOrderTracker`: the ids due for re-pricing. -/
structure SpecialOrderTracker where
  peggedOrders : Finset OrderId := ∅
  trailingStopOrders : Finset OrderId := ∅
  deriving DecidableEq

namespace SpecialOrderTracker

/-- Register an order that came to rest, if its kind is re-priced. -/
def register (t : SpecialOrderTracker) (o : Order) : SpecialOrderTracker :=
  match o.kind with
  | .pegged .. => { t with peggedOrders := insert o.id t.peggedOrders }
  | .trailingStop .. => { t with trailingStopOrders := insert o.id t.trailingStopOrders }
  | _ => t

/-- `unregister_pegged_order` and `unregister_trailing_stop`. -/
def unregister (t : SpecialOrderTracker) (id : OrderId) : SpecialOrderTracker :=
  { peggedOrders := t.peggedOrders.erase id
    trailingStopOrders := t.trailingStopOrders.erase id }

end SpecialOrderTracker

/-! ### State -/

/-- The levels of one side, by price. -/
abbrev SkipMap (L : Type) := SortedMap ℕ L

/-- `OrderBook`. -/
structure OrderBook (L : Type) where
  symbol : String
  bids : SkipMap L := ∅
  asks : SkipMap L := ∅
  orderLocations : AssocMap OrderId (ℕ × Side) := ∅
  userOrders : UserOrders := ∅
  engineSeq : UInt64 := 0
  killSwitch : Bool := false
  riskState : RiskState := {}
  lastTradePrice : ℕ := 0
  hasTraded : Bool := false
  marketCloseTimestamp : ℕ := 0
  hasMarketClose : Bool := false
  cache : PriceLevelCache := {}
  tradeListener : Option (Listener TradeResult) := none
  priceLevelChangedListener : Option (Listener PriceLevelChangedEvent) := none
  specialOrderTracker : SpecialOrderTracker := {}
  tickSize : Option ℕ := none
  lotSize : Option ℕ := none
  minOrderSize : Option ℕ := none
  maxOrderSize : Option ℕ := none
  stpMode : STPMode := .none
  feeSchedule : Option FeeSchedule := none
  orderStateTracker : Option OrderStateTracker := none
  clock : Clock
  /-- History: every event that took a sequence number. -/
  stamped : List OutboundEvent := []
  /-- History: every trade applied to a maker. -/
  fills : List Trade := []

/-- A method of the book that returns a `Result`. -/
abbrev BookM (L α : Type) := Fallible OrderBookError (OrderBook L) α

namespace OrderBook

variable {L : Type}

/-- The levels of a side. -/
def levels (b : OrderBook L) : Side → SkipMap L
  | .buy => b.bids
  | .sell => b.asks

/-- A book without bids and asks has no level. -/
theorem get?_levels_of_empty {b : OrderBook L} (hbids : b.bids = ∅) (hasks : b.asks = ∅)
    (side : Side) (price : ℕ) : (b.levels side).get? price = none := by
  cases side
  · rw [levels, hbids]
    rfl
  · rw [levels, hasks]
    rfl

/-- Replace the levels of a side. -/
def setLevels (b : OrderBook L) (side : Side) (m : SkipMap L) : OrderBook L :=
  { b with
    bids := match side with | .buy => m | .sell => b.bids
    asks := match side with | .buy => b.asks | .sell => m }

/-- Store a level. -/
def setLevel (b : OrderBook L) (side : Side) (price : ℕ) (l : L) : OrderBook L :=
  b.setLevels side ((b.levels side).insert price l)

/-- Remove a level. -/
def removeLevel (b : OrderBook L) (side : Side) (price : ℕ) : OrderBook L :=
  b.setLevels side ((b.levels side).erase price)

@[simp] theorem levels_setLevels_self (b : OrderBook L) (side : Side) (m : SkipMap L) :
    (b.setLevels side m).levels side = m := by cases side <;> rfl

theorem levels_setLevels_of_ne (b : OrderBook L) {side side' : Side} (m : SkipMap L)
    (h : side' ≠ side) : (b.setLevels side m).levels side' = b.levels side' := by
  cases side <;> cases side' <;> first | rfl | exact absurd rfl h

/-! ### Best prices -/

/-- The best price of a side: the largest bid, the smallest ask. -/
def bestKey : Side → SkipMap L → Option ℕ
  | .buy, m => m.lastKey?
  | .sell, m => m.firstKey?

/-- `best_bid` and `best_ask`: the cached price when the slot is valid, else the best key, which
fills the slot. -/
def bestPrice (b : OrderBook L) (side : Side) : Option ℕ × OrderBook L :=
  match b.cache.cached side with
  | some price => (some price, b)
  | none =>
    let best := bestKey side (b.levels side)
    (best, { b with cache := b.cache.update side best })

/-- `best_bid`. -/
def bestBid (b : OrderBook L) : Option ℕ × OrderBook L := b.bestPrice .buy

/-- `best_ask`. -/
def bestAsk (b : OrderBook L) : Option ℕ × OrderBook L := b.bestPrice .sell

/-- `cache.invalidate()`. -/
def invalidateCache (b : OrderBook L) : OrderBook L := { b with cache := b.cache.invalidate }

end OrderBook

/-- An order on this side at `limit` can trade with an opposite level at `price`. -/
def Side.crosses : Side → ℕ → ℕ → Bool
  | .buy, limit, price => price ≤ limit
  | .sell, limit, price => limit ≤ price

namespace OrderBook

variable {L : Type}

/-- `will_cross_market`. -/
def willCrossMarket (b : OrderBook L) (price : ℕ) (side : Side) : Bool × OrderBook L :=
  let best := b.bestPrice side.opposite
  (best.1.any (side.crosses price), best.2)

/-- `last_trade_price`. -/
def lastTrade (b : OrderBook L) : Option ℕ := if b.hasTraded then some b.lastTradePrice else none

/-- `resolve_reference_price`. -/
def resolveReferencePrice (b : OrderBook L) : ReferencePriceSource → Option ℕ × OrderBook L
  | .lastTrade => (b.lastTrade, b)
  | .mid =>
    let bid := b.bestBid
    let ask := bid.2.bestAsk
    match bid.1, ask.1 with
    | some bid, some best => (some ((bid + best) / 2), ask.2)
    | _, _ => (b.lastTrade, ask.2)
  | .fixedPrice price => (some price, b)

/-- `market_close_for_expiry`. -/
def marketCloseForExpiry (b : OrderBook L) : Option ℕ :=
  if b.hasMarketClose then some b.marketCloseTimestamp else none

/-! ### Outbound streams -/

/-- The best-price queries a callback makes, one after the other. -/
def answer (b : OrderBook L) (queries : List Side) : OrderBook L :=
  queries.foldl (fun b side => (b.bestPrice side).2) b

/-- The events handed to a listener. -/
def delivered (b : OrderBook L) : List OutboundEvent := b.stamped.filter OutboundEvent.heard

/-- Stamp a level change with the next sequence number and hand it to the listener, if there is
one. The counter is an atomic `u64` and wraps around. -/
def deliverLevelChange (b : OrderBook L) (side : Side) (price quantity : ℕ) : OrderBook L :=
  match b.priceLevelChangedListener with
  | none => b
  | some listener =>
    let event : PriceLevelChangedEvent := ⟨side, price, quantity, b.engineSeq⟩
    let b' : OrderBook L :=
      { b with engineSeq := b.engineSeq + 1, stamped := b.stamped ++ [.level event] }
    b'.answer (listener.queries event)

/-- Stamp a trade result with the next sequence number and hand it to the listener, if there is
one; the number is taken either way. -/
def deliverTrade (b : OrderBook L) (result : MatchResult) : OrderBook L × TradeResult :=
  let tradeResult := TradeResult.withFees b.symbol result b.feeSchedule b.engineSeq
  let b := { b with engineSeq := b.engineSeq + 1 }
  match b.tradeListener with
  | none => ({ b with stamped := b.stamped ++ [.unheard tradeResult] }, tradeResult)
  | some listener =>
    let b' : OrderBook L := { b with stamped := b.stamped ++ [.trade tradeResult] }
    (b'.answer (listener.queries tradeResult), tradeResult)

/-- `track_state`. -/
def trackState (b : OrderBook L) (id : OrderId) (status : OrderStatus) : OrderBook L :=
  { b with orderStateTracker := b.orderStateTracker.map fun t => t.transition id status }

/-- `order_status`: the tracked status of an order. -/
def orderStatus (b : OrderBook L) (id : OrderId) : Option OrderStatus :=
  b.orderStateTracker.bind fun t => t.get id

/-- The filled quantity the tracker has on record, zero without one. -/
def trackedFilled (b : OrderBook L) (id : OrderId) : ℕ :=
  ((b.orderStateTracker.bind fun t => t.get id).map OrderStatus.filledQuantity).getD 0

/-! ### Orders -/

variable [PriceLevel L]

/-- `get_order`. -/
def getOrder (b : OrderBook L) (id : OrderId) : Option Order := do
  let (price, side) ← b.orderLocations.lookup id
  let l ← (b.levels side).get? price
  (orders l).find? fun o => o.id = id

/-- Order `o` rests on side `side` at price `price`. -/
def Rests (b : OrderBook L) (side : Side) (price : ℕ) (o : Order) : Prop :=
  ∃ l, (b.levels side).get? price = some l ∧ o ∈ orders l

/-- The levels a taker on `side` meets, best price first. -/
def sweepEntries (b : OrderBook L) (side : Side) : List (ℕ × L) :=
  match side with
  | .buy => b.asks.entries
  | .sell => b.bids.entries.reverse

end OrderBook

end OrderBookRs
