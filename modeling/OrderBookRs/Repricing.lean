import Mathlib.Data.Finset.Sort
import Mathlib.Data.String.Basic
import OrderBookRs.Operations

/-!
# Re-pricing

`repricing.rs` and the re-pricing methods of `book.rs`: a pegged order follows a reference price, a
trailing stop follows the market, and both are moved with an `UpdatePrice` request when the caller
asks for it.

The two loops differ in how the new price is found, in the registry they read and in the reason they
report; `repriceOrder` is the round they share.

## Main definitions

* `calculatePeggedPrice`, `calculateTrailingStopPrice`.
* `OrderBook.repricePeggedCollecting`, `OrderBook.repriceTrailingCollecting`.
* `Repricing`, `OrderBook.reprice`: the three public calls.
* `BookCall`: a trading call or a re-pricing; `OrderBook.callAll` makes a list of them.
* `OrderBook.ReachableByCalls`: the books that sessions with re-pricing end in.
-/

namespace OrderBookRs

open PriceLevel Fallible

/-! ### Prices -/

/-- `as f64` on an unsigned integer: round to 53 significant bits, ties to even. The doubles that
occur here are whole numbers below `2 ^ 130` and halves of such. -/
def toF64 (n : ℕ) : ℕ :=
  if n < 2 ^ 53 then n
  else
    let ulp := 2 ^ (n.log2 - 52)
    let significand := n / ulp
    let up : Bool := ulp < 2 * (n % ulp) ∨ 2 * (n % ulp) = ulp ∧ significand % 2 = 1
    (if up then significand + 1 else significand) * ulp

/-- The step prices move in: the tick size, or one without a tick. -/
def tickStep (tickSize : Option ℕ) : ℕ := (tickSize.filter fun t => 1 < t).getD 1

/-- `calculate_pegged_price`: the reference plus the offset, moved to the passive side of the touch
and onto the tick grid. The negation of an offset of `i64::MIN` is taken to be exact. -/
def calculatePeggedPrice (referenceType : PegReferenceType) (offset : ℤ) (side : Side)
    (bestBid bestAsk midPrice lastTrade tickSize : Option ℕ) : Option ℕ := do
  let referencePrice ←
    match referenceType with
    | .bestBid => bestBid
    | .bestAsk => bestAsk
    | .midPrice => midPrice
    | .lastTrade => lastTrade
  let newPrice :=
    if 0 ≤ offset then satAdd128 referencePrice offset.toNat else referencePrice - (-offset).toNat
  let step := tickStep tickSize
  -- one step inside the touch
  let newPrice :=
    match side with
    | .buy => bestAsk.elim newPrice fun ask => min newPrice (ask - step)
    | .sell => bestBid.elim newPrice fun bid => max newPrice (satAdd128 bid step)
  let newPrice :=
    if 1 < step then
      match side with
      | .buy => newPrice / step * step
      | .sell => satMul128 ((newPrice + step - 1) / step) step
    else newPrice
  let minPrice := if 1 < step then step else 1
  let priced := max newPrice minPrice
  -- the floor may have moved the price back across the touch
  let crosses : Bool :=
    match side with
    | .buy => bestAsk.any fun ask => ask ≤ priced
    | .sell => bestBid.any fun bid => priced ≤ bid
  if crosses then none else some priced

/-- `calculate_trailing_stop_price`: the new stop and the new reference, if the market made a new
extreme that moves the stop. -/
def calculateTrailingStopPrice (side : Side)
    (currentStopPrice trailAmount lastReferencePrice currentMarketPrice : ℕ) : Option (ℕ × ℕ) :=
  match side with
  | .sell =>
    let newStopPrice := currentMarketPrice - trailAmount
    if lastReferencePrice < currentMarketPrice ∧ currentStopPrice < newStopPrice then
      some (newStopPrice, currentMarketPrice)
    else none
  | .buy =>
    let newStopPrice := satAdd128 currentMarketPrice trailAmount
    if currentMarketPrice < lastReferencePrice ∧ newStopPrice < currentStopPrice then
      some (newStopPrice, currentMarketPrice)
    else none

/-! ### The registry -/

/-- `Display` of an order id, which tells ids apart. -/
class DisplayId where
  display : OrderId → String
  display_injective : Function.Injective display

/-- Order ids shown as tally marks. -/
abbrev tallyIds : DisplayId where
  display n := String.ofList (List.replicate n 'I')
  display_injective m n h := by simpa using congrArg String.length h

namespace SpecialOrderTracker

/-- The order of the ids' texts. -/
def displayLE [DisplayId] (i j : OrderId) : Prop := DisplayId.display i ≤ DisplayId.display j

instance [DisplayId] : DecidableRel displayLE := fun i j =>
  inferInstanceAs (Decidable (DisplayId.display i ≤ DisplayId.display j))

instance [DisplayId] : IsTrans OrderId displayLE :=
  ⟨fun i _ _ => le_trans (a := DisplayId.display i)⟩

instance [DisplayId] : Std.Antisymm displayLE :=
  ⟨fun i _ h h' => DisplayId.display_injective (le_antisymm (a := DisplayId.display i) h h')⟩

instance [DisplayId] : Std.Total displayLE :=
  ⟨fun i j => le_total (DisplayId.display i) (DisplayId.display j)⟩

/-- `pegged_order_ids`. -/
def peggedOrderIds [DisplayId] (t : SpecialOrderTracker) : List OrderId :=
  t.peggedOrders.sort displayLE

/-- `trailing_stop_ids`. -/
def trailingStopIds [DisplayId] (t : SpecialOrderTracker) : List OrderId :=
  t.trailingStopOrders.sort displayLE

/-- `unregister_pegged_order`. -/
def unregisterPeggedOrder (t : SpecialOrderTracker) (id : OrderId) : SpecialOrderTracker :=
  { t with peggedOrders := t.peggedOrders.erase id }

/-- `unregister_trailing_stop`. -/
def unregisterTrailingStop (t : SpecialOrderTracker) (id : OrderId) : SpecialOrderTracker :=
  { t with trailingStopOrders := t.trailingStopOrders.erase id }

end SpecialOrderTracker

/-! ### The loops -/

/-- The reason a re-price was rejected: the loop, the price asked for and the error. The source
formats it as a text. -/
inductive RepriceReason
  | pegged (newPrice : ℕ) (e : OrderBookError)
  | trailingStop (newPrice : ℕ) (e : OrderBookError)

/-- What a loop has counted and collected so far. -/
structure RepriceTally where
  repricedCount : ℕ := 0
  failures : List (OrderId × RepriceReason) := []

/-- `RepricingResult`. -/
structure RepricingResult where
  peggedOrdersRepriced : ℕ
  trailingStopsRepriced : ℕ
  failedOrders : List (OrderId × RepriceReason)

/-- What tells the two loops apart: the new price of an order, which may read the best prices; how
an id that no longer rests is dropped from the registry; and the reason reported. -/
structure RepriceLoop (L : Type) where
  newPrice : Order → OrderBook L → Option ℕ × OrderBook L
  unregister : SpecialOrderTracker → OrderId → SpecialOrderTracker
  reason : ℕ → OrderBookError → RepriceReason

namespace OrderBook

variable {L : Type} [PriceLevel L]

/-- One round of a loop. -/
def repriceOrder (loop : RepriceLoop L) (s : RepriceTally × OrderBook L) (id : OrderId) :
    RepriceTally × OrderBook L :=
  match s.2.getOrder id with
  | some order =>
    match loop.newPrice order s.2 with
    | (none, b) => (s.1, b)
    | (some newPrice, b) =>
      match updateOrder (.updatePrice id newPrice) b with
      | (.ok _, b) => ({ s.1 with repricedCount := s.1.repricedCount + 1 }, b)
      | (.error e, b) =>
        ({ s.1 with failures := s.1.failures ++ [(id, loop.reason newPrice e)] }, b)
  | none =>
    -- the order no longer exists
    (s.1, { s.2 with specialOrderTracker := loop.unregister s.2.specialOrderTracker id })

/-- `mid_price() as u128`: the halved sum of two doubles, cut off and saturated. -/
def midPrice (b : OrderBook L) : Option ℕ × OrderBook L :=
  let bid := b.bestBid
  let ask := bid.2.bestAsk
  match bid.1, ask.1 with
  | some bid, some best => (some (min (toF64 (toF64 bid + toF64 best) / 2) u128Max), ask.2)
  | _, _ => (none, ask.2)

/-- The loop over the pegged orders, with the reference prices it reads once. -/
def peggedLoop (bestBid bestAsk midPrice lastTrade : Option ℕ) : RepriceLoop L where
  newPrice order b :=
    match order.kind with
    | .pegged offset referenceType =>
      ((calculatePeggedPrice referenceType offset order.side bestBid bestAsk midPrice lastTrade
        b.tickSize).filter (· ≠ order.price), b)
    | _ => (none, b)
  unregister := SpecialOrderTracker.unregisterPeggedOrder
  reason := .pegged

/-- The loop over the trailing stops, which reads the market price of each. -/
def trailingLoop : RepriceLoop L where
  newPrice order b :=
    match order.kind with
    | .trailingStop trailAmount lastReferencePrice =>
      let market := b.bestPrice order.side.opposite
      (market.1.bind fun marketPrice => (calculateTrailingStopPrice order.side order.price
        trailAmount lastReferencePrice marketPrice).map Prod.fst, market.2)
    | _ => (none, b)
  unregister := SpecialOrderTracker.unregisterTrailingStop
  reason := .trailingStop

variable [DisplayId]

/-- `reprice_pegged_collecting`. -/
def repricePeggedCollecting (failures : List (OrderId × RepriceReason)) (b : OrderBook L) :
    RepriceTally × OrderBook L :=
  let peggedIds := b.specialOrderTracker.peggedOrderIds
  if peggedIds = [] then ({ failures := failures }, b)
  else
    let bestBid := b.bestBid
    let bestAsk := bestBid.2.bestAsk
    let midPrice := bestAsk.2.midPrice
    peggedIds.foldl (repriceOrder (peggedLoop bestBid.1 bestAsk.1 midPrice.1 b.lastTrade))
      ({ failures := failures }, midPrice.2)

/-- `reprice_trailing_collecting`. -/
def repriceTrailingCollecting (failures : List (OrderId × RepriceReason)) (b : OrderBook L) :
    RepriceTally × OrderBook L :=
  b.specialOrderTracker.trailingStopIds.foldl (repriceOrder trailingLoop)
    ({ failures := failures }, b)

/-- `reprice_pegged_orders`. -/
def repricePeggedOrders (b : OrderBook L) : ℕ × OrderBook L :=
  let s := b.repricePeggedCollecting []
  (s.1.repricedCount, s.2)

/-- `reprice_trailing_stops`. -/
def repriceTrailingStops (b : OrderBook L) : ℕ × OrderBook L :=
  let s := b.repriceTrailingCollecting []
  (s.1.repricedCount, s.2)

/-- `reprice_special_orders`. -/
def repriceSpecialOrders (b : OrderBook L) : RepricingResult × OrderBook L :=
  let pegged := b.repricePeggedCollecting []
  let trailing := pegged.2.repriceTrailingCollecting pegged.1.failures
  (⟨pegged.1.repricedCount, trailing.1.repricedCount, trailing.1.failures⟩, trailing.2)

end OrderBook

/-! ### Calls -/

/-- A re-pricing call. -/
inductive Repricing
  | peggedOrders
  | trailingStops
  | specialOrders
  deriving DecidableEq, Repr

/-- A trading call or a re-pricing. -/
inductive BookCall
  | command (c : Command)
  | reprice (r : Repricing)
  deriving DecidableEq, Repr

/-- What a call returns. -/
inductive CallReply
  | command (r : Reply)
  | repricedCount (n : ℕ)
  | repricingResult (r : RepricingResult)

/-- The call returned an error; a re-pricing never does. -/
def CallReply.isError : CallReply → Bool
  | .command r => r.isError
  | _ => false

namespace OrderBook

variable {L : Type} [PriceLevel L] [DisplayId]

/-- A re-pricing. -/
def reprice (b : OrderBook L) : Repricing → CallReply × OrderBook L
  | .peggedOrders => (.repricedCount b.repricePeggedOrders.1, b.repricePeggedOrders.2)
  | .trailingStops => (.repricedCount b.repriceTrailingStops.1, b.repriceTrailingStops.2)
  | .specialOrders => (.repricingResult b.repriceSpecialOrders.1, b.repriceSpecialOrders.2)

/-- A call of either kind: its reply and the book after it. -/
def call (b : OrderBook L) : BookCall → CallReply × OrderBook L
  | .command c => (.command (b.reply c), b.execute c)
  | .reprice r => b.reprice r

/-- The replies to a sequence of calls, and the book after it. -/
def callAll (b : OrderBook L) : List BookCall → List CallReply × OrderBook L
  | [] => ([], b)
  | c :: calls => ((b.call c).1 :: ((b.call c).2.callAll calls).1, ((b.call c).2.callAll calls).2)

end OrderBook

/-! ### Sessions -/

/-- A public call of any kind, re-pricing included. -/
inductive PublicCall
  | op (op : Op)
  | reprice (r : Repricing)

namespace Session

variable {L : Type} [PriceLevel L] [SnapshotChecksum] [DisplayId]

/-- The session after a public call. -/
def call (s : Session L) : PublicCall → Session L
  | .op op => s.step op
  | .reprice r => { s with book := (s.book.reprice r).2 }

end Session

/-- A book that some sequence of public calls, re-pricing included, on an empty book ends in. -/
def OrderBook.ReachableByCalls {L : Type} [PriceLevel L] [SnapshotChecksum] [DisplayId]
    (b : OrderBook L) : Prop :=
  ∃ symbol clock, ∃ calls : List PublicCall,
    b = (calls.foldl Session.call { book := OrderBook.withClock symbol clock }).book

end OrderBookRs
