import OrderBookRs.Book

/-!
# The matching engine

`stp.rs` and `matching.rs`: the self-trade check at one level, the sweep of a taker over the
opposite side, and the fill-or-kill dry run of that sweep.

The loop over the levels is `sweepLoop`, one iteration of it `sweepLevel`. Everything the loop of
the source keeps in local variables is in `Sweep`, next to the book it mutates. Levels are shared
between the loop variable and the map in the source; here the loop writes the level back.

## Main definitions

* `checkStpAtLevel`: what self-trade prevention asks for at a level.
* `StopCondition`: the budget of a sweep, in base quantity or in quote notional.
* `sweepLevel`, `sweepLoop`, `finishSweep`, `OrderBook.matchOrderInner`: the sweep.
* `OrderBook.fokFillableQuantity`: its dry run.
-/

namespace OrderBookRs

open PriceLevel

/-! ### Self-trade prevention at one level -/

/-- `STPAction`. -/
inductive STPAction
  | noConflict
  | cancelTaker (safeQuantity : ℕ)
  | cancelMaker
  | cancelBoth (safeQuantity : ℕ) (makerOrderId : OrderId)
  deriving DecidableEq, Repr

/-- The first order of `user` in the queue, with the displayed quantity ahead of it. -/
def firstOwn (user : Hash32) : List Order → ℕ → Option (ℕ × OrderId)
  | [], _ => none
  | o :: rest, safe =>
    if o.userId = user then some (safe, o.id)
    else firstOwn user rest (satAdd64 safe o.visibleQuantity)

/-- `check_stp_at_level`. -/
def checkStpAtLevel (queue : List Order) (user : Hash32) (mode : STPMode) : STPAction :=
  if mode = .none ∨ user = 0 then .noConflict
  else
    match mode with
    | .none => .noConflict
    | .cancelTaker =>
      match firstOwn user queue 0 with
      | some (safe, _) => .cancelTaker safe
      | none => .noConflict
    | .cancelMaker => if queue.any fun o => o.userId = user then .cancelMaker else .noConflict
    | .cancelBoth =>
      match firstOwn user queue 0 with
      | some (safe, id) => .cancelBoth safe id
      | none => .noConflict

/-! ### Budgets -/

/-- `MatchMode`: how the sweep measures its budget. -/
inductive MatchMode
  | baseQty (quantity : ℕ) (limitPrice : Option ℕ)
  | quoteAmount (amount : ℕ)
  deriving DecidableEq, Repr

namespace MatchMode

/-- `limit_price`. -/
def limitPrice : MatchMode → Option ℕ
  | baseQty _ limit => limit
  | quoteAmount _ => none

/-- `initial_match_quantity`: a quote sweep starts from `u64::MAX` as a working bound. -/
def initialMatchQuantity : MatchMode → ℕ
  | baseQty quantity _ => quantity
  | quoteAmount _ => u64Max

end MatchMode

/-- Round down to whole lots; lots of at most one do not round. -/
def lotFloor (lot raw : ℕ) : ℕ := if lot ≤ 1 then raw else raw - raw % lot

theorem lotFloor_le (lot raw : ℕ) : lotFloor lot raw ≤ raw := by
  unfold lotFloor
  split_ifs
  · exact le_rfl
  · exact Nat.sub_le ..

/-- `StopCondition`: the remaining budget. -/
inductive StopCondition
  | baseQty (remaining : ℕ)
  | quoteAmount (remaining : ℕ)
  deriving DecidableEq, Repr

namespace StopCondition

/-- `from_mode`. -/
def ofMode : MatchMode → StopCondition
  | .baseQty quantity _ => baseQty quantity
  | .quoteAmount amount => quoteAmount amount

/-- `level_qty_cap`: what the budget buys at a level, in whole lots. -/
def levelQtyCap (stop : StopCondition) (price lot : ℕ) : ℕ :=
  match stop with
  | baseQty remaining => lotFloor lot remaining
  | quoteAmount remaining =>
    if price = 0 ∨ remaining < price then 0 else lotFloor lot (min (remaining / price) u64Max)

/-- `consume`. -/
def consume (stop : StopCondition) (executed price : ℕ) : StopCondition :=
  match stop with
  | baseQty remaining => baseQty (remaining - executed)
  | quoteAmount remaining => quoteAmount (remaining - satMul128 price executed)

/-- `is_done`. -/
def isDone : StopCondition → Bool
  | baseQty remaining => remaining = 0
  | quoteAmount remaining => remaining = 0

end StopCondition

/-! ### The sweep -/

/-- What a sweep fixes before its loop. -/
structure Taker where
  orderId : OrderId
  side : Side
  userId : Hash32
  kind : TakerKind
  limitPrice : Option ℕ
  lot : ℕ
  stpMode : STPMode
  deriving DecidableEq, Repr

namespace Taker

/-- Self-trade prevention applies: the mode is on and the taker is not anonymous. -/
def stpActive (t : Taker) : Bool := t.stpMode.isEnabled ∧ t.userId ≠ 0

/-- The limit allows trading at `price`. -/
def allows (t : Taker) (price : ℕ) : Bool :=
  t.limitPrice.all fun limit => t.side.crosses limit price

end Taker

/-- The local variables of the sweep loop, and the book. -/
structure Sweep (L : Type) where
  book : OrderBook L
  result : MatchResult
  stop : StopCondition
  filledOrders : List (OrderId × ℕ) := []
  emptyPriceLevels : List ℕ := []
  stpTakerCancelled : Bool := false
  postOnlyRejected : Bool := false

variable {L : Type} [PriceLevel L]

/-- `let _ = match_result.add_trade(trade)`: a refused trade is not recorded. -/
def recordTrade (L : Type) [PriceLevel L] (r : MatchResult) (t : Trade) : MatchResult :=
  match addTrade L r t with
  | .ok r' => r'
  | .error _ => r

namespace OrderBook

/-- The effects of fills on the book: last trade, risk counters, level-change event. -/
def applyFills (b : OrderBook L) (side : Side) (price : ℕ) (level : L) (trades : List Trade) :
    OrderBook L :=
  let b : OrderBook L :=
    { b with
      lastTradePrice := price
      hasTraded := true
      riskState := trades.foldl (fun r t => r.onFill t.makerOrderId t.quantity) b.riskState
      fills := b.fills ++ trades }
  b.deliverLevelChange side (PriceLevel.price level) (visibleQuantity level)

/-- What both cancel paths do once the order is off its level: record the cancel with the fills seen
so far, drop the location, release the risk contribution, untrack user and special order. -/
def releaseCancelled (b : OrderBook L) (id : OrderId) (user : Hash32) (reason : CancelReason) :
    OrderBook L :=
  let b := b.trackState id (.cancelled (b.trackedFilled id) reason)
  { b with
    orderLocations := b.orderLocations.erase id
    riskState := b.riskState.onCancel id
    userOrders := b.userOrders.untrackUser user id
    specialOrderTracker := b.specialOrderTracker.unregister id }

/-- `cancel_resting_maker_on_level`: cancel on a level the sweep holds; the level stays in the
map. -/
def cancelRestingMakerOnLevel (b : OrderBook L) (side : Side) (price : ℕ) (level : L)
    (id : OrderId) (reason : CancelReason) : OrderBook L × L :=
  match updateOrder level (.cancel id) with
  | (.ok (some cancelled), level') =>
    let b := (b.setLevel side price level').invalidateCache
    let b := b.deliverLevelChange side (PriceLevel.price level') (visibleQuantity level')
    (b.releaseCancelled id cancelled.userId reason, level')
  | (_, level') => (b.setLevel side price level', level')

end OrderBook

/-- `process_level_match`: fold one level's match into the sweep. -/
def processLevelMatch (sw : Sweep L) (t : Taker) (price : ℕ) (level : L) (r : MatchResult) :
    Sweep L :=
  let book :=
    if r.trades.isEmpty then sw.book
    else sw.book.applyFills t.side.opposite price level r.trades
  { sw with
    book := book
    result := r.filledOrderIds.foldl MatchResult.addFilledOrderId
      (r.trades.foldl (recordTrade L) sw.result)
    filledOrders := sw.filledOrders ++
      r.filledOrderIds.map fun id => (id, tradedQuantity (tradesOf id r.trades))
    emptyPriceLevels :=
      if orderCount level = 0 then sw.emptyPriceLevels ++ [price] else sw.emptyPriceLevels }

/-- Match up to `qty` at a level, process the outcome and pay for it. -/
def matchAtLevel (t : Taker) (sw : Sweep L) (price : ℕ) (level : L) (qty : ℕ) : Sweep L × L :=
  let m := matchOrder level qty t.orderId t.kind
  let sw := { sw with book := sw.book.setLevel t.side.opposite price m.2 }
  let sw := processLevelMatch sw t price m.2 m.1
  ({ sw with stop := sw.stop.consume (qty - m.1.remainingQuantity) price }, m.2)

/-- Match the displayed quantity ahead of the taker's own order, if there is any. -/
def matchSafely (t : Taker) (sw : Sweep L) (price : ℕ) (level : L) (qtyCap safe : ℕ) :
    Sweep L × L :=
  if 0 < safe ∧ 0 < min qtyCap safe then matchAtLevel t sw price level (min qtyCap safe)
  else (sw, level)

/-- Cancel each of the listed makers on the held level. -/
def cancelMakers (t : Taker) (price : ℕ) (makers : List Order) (sw : Sweep L) (level : L) :
    Sweep L × L :=
  makers.foldl
    (fun st o =>
      let c := st.1.book.cancelRestingMakerOnLevel t.side.opposite price st.2 o.id
        .selfTradePrevention
      ({ st.1 with book := c.1 }, c.2))
    (sw, level)

/-- Mark a level for removal when it has no orders left. -/
def markEmpty (sw : Sweep L) (price : ℕ) (level : L) : Sweep L :=
  if orderCount level = 0 then { sw with emptyPriceLevels := sw.emptyPriceLevels ++ [price] }
  else sw

/-- The ordinary match at a level; the loop goes on while budget is left. -/
def matchNormally (t : Taker) (sw : Sweep L) (price : ℕ) (level : L) (qtyCap : ℕ) :
    Sweep L × Bool :=
  let m := matchAtLevel t sw price level qtyCap
  (m.1, !m.1.stop.isDone)

/-- The self-trade arms of an iteration. -/
def sweepConflict (t : Taker) (sw : Sweep L) (price : ℕ) (level : L) (qtyCap : ℕ) :
    Sweep L × Bool :=
  match checkStpAtLevel (orders level) t.userId t.stpMode with
  | .noConflict => matchNormally t sw price level qtyCap
  | .cancelTaker safe =>
    let m := matchSafely t sw price level qtyCap safe
    ({ m.1 with stpTakerCancelled := true }, false)
  | .cancelMaker =>
    let c := cancelMakers t price ((orders level).filter fun o => o.userId = t.userId) sw level
    if orderCount c.2 = 0 then (markEmpty c.1 price c.2, true)
    else matchNormally t c.1 price c.2 qtyCap
  | .cancelBoth safe makerId =>
    let m := matchSafely t sw price level qtyCap safe
    let c := m.1.book.cancelRestingMakerOnLevel t.side.opposite price m.2 makerId
      .selfTradePrevention
    ({ markEmpty { m.1 with book := c.1 } price c.2 with stpTakerCancelled := true }, false)

/-- The post-only probe: a dry run that stops the walk at matchable depth. -/
def probePostOnly (t : Taker) (sw : Sweep L) (price : ℕ) (level : L) (qtyCap : ℕ) :
    Sweep L × Bool :=
  let probe := matchOrder level qtyCap t.orderId t.kind
  let sw := { sw with book := sw.book.setLevel t.side.opposite price probe.2 }
  if probe.1.wasRejected then ({ sw with postOnlyRejected := true }, false) else (sw, true)

/-- One iteration of the sweep loop; the flag says whether the loop goes on. -/
def sweepLevel (t : Taker) (sw : Sweep L) (price : ℕ) (level : L) : Sweep L × Bool :=
  if !t.allows price then (sw, false)
  else
    let qtyCap := sw.stop.levelQtyCap price t.lot
    if qtyCap = 0 then (sw, false)
    else if t.kind.isPostOnly then probePostOnly t sw price level qtyCap
    else if t.stpActive then sweepConflict t sw price level qtyCap
    else matchNormally t sw price level qtyCap

/-- The loop over the opposite levels, best price first. -/
def sweepLoop (t : Taker) : List (ℕ × L) → Sweep L → Sweep L
  | [], sw => sw
  | (price, level) :: rest, sw =>
    let it := sweepLevel t sw price level
    if it.2 then sweepLoop t rest it.1 else it.1

/-- What a fully consumed maker leaves behind in the indices. -/
def OrderBook.forgetFilled (b : OrderBook L) (filled : OrderId × ℕ) : OrderBook L :=
  let b := b.trackState filled.1 (.filled filled.2)
  { b with
    orderLocations := b.orderLocations.erase filled.1
    userOrders := b.userOrders.untrackById filled.1 }

/-- After the loop: drop the emptied levels, then the consumed makers. -/
def finishSweep (t : Taker) (sw : Sweep L) : OrderBook L :=
  let b := sw.emptyPriceLevels.foldl (fun b price => b.removeLevel t.side.opposite price) sw.book
  sw.filledOrders.foldl OrderBook.forgetFilled b

/-- `MatchOutcome`. -/
structure MatchOutcome where
  result : MatchResult
  takerStpCancelled : Bool := false
  takerPostOnlyRejected : Bool := false
  deriving DecidableEq, Repr

/-- The error of a market sweep that found nothing; a limit sweep has none. -/
def insufficientLiquidity (side : Side) : MatchMode → Option OrderBookError
  | .baseQty quantity none => some (.insufficientLiquidity side quantity 0)
  | .baseQty _ (some _) => none
  | .quoteAmount amount => some (.insufficientLiquidityNotional side amount 0)

/-- `empty_book_result`. -/
def emptyBookResult (side : Side) (mode : MatchMode) (result : MatchResult) :
    Except OrderBookError MatchOutcome :=
  match insufficientLiquidity side mode with
  | some e => .error e
  | none => .ok { result := result }

/-- `normalize_notional_match_result`: rebuild the result with nothing remaining. -/
def normalizeNotionalMatchResult (L : Type) [PriceLevel L] (orderId : OrderId) (src : MatchResult) :
    MatchResult :=
  let executed := src.trades.foldl (fun sum t => satAdd64 sum t.quantity) 0
  match src.trades.foldlM (addTrade L) (MatchResult.new orderId executed) with
  | .error _ => src
  | .ok rebuilt => src.filledOrderIds.foldl MatchResult.addFilledOrderId rebuilt

/-- The result a finished sweep returns. -/
def sweepOutcome (t : Taker) (mode : MatchMode) (sw : Sweep L) :
    Except OrderBookError MatchOutcome :=
  if sw.stpTakerCancelled ∧ sw.result.trades.isEmpty then
    .error (.selfTradePrevented t.stpMode t.orderId t.userId)
  else
    match if sw.result.trades.isEmpty then insufficientLiquidity t.side mode else none with
    | some e => .error e
    | none =>
      .ok
        { result :=
            match mode with
            | .quoteAmount _ => normalizeNotionalMatchResult L t.orderId sw.result
            | .baseQty .. => sw.result
          takerStpCancelled := sw.stpTakerCancelled
          takerPostOnlyRejected := sw.postOnlyRejected }

namespace OrderBook

/-- The parameters a sweep of this book takes from the call and from the configuration. -/
def taker (b : OrderBook L) (orderId : OrderId) (side : Side) (limitPrice : Option ℕ)
    (userId : Hash32) (kind : TakerKind) : Taker :=
  { orderId := orderId
    side := side
    userId := userId
    kind := kind
    limitPrice := limitPrice
    lot := b.lotSize.getD 1
    stpMode := b.stpMode }

/-- The sweep loop, run to its end. -/
def sweep (b : OrderBook L) (t : Taker) (mode : MatchMode) : Sweep L :=
  sweepLoop t (b.sweepEntries t.side)
    { book := b
      result := .new t.orderId mode.initialMatchQuantity
      stop := .ofMode mode }

/-- `match_order_inner`. -/
def matchOrderInner (orderId : OrderId) (side : Side) (mode : MatchMode) (userId : Hash32)
    (kind : TakerKind) : BookM L MatchOutcome := fun b =>
  -- the cache is dropped and the taker timestamp read before anything else
  let b : OrderBook L := { b with cache := b.cache.invalidate, clock := b.clock.tick }
  if (b.levels side.opposite).isEmpty then
    (emptyBookResult side mode (.new orderId mode.initialMatchQuantity), b)
  else
    let t := b.taker orderId side mode.limitPrice userId kind
    let sw := b.sweep t mode
    let b' := finishSweep t sw
    if sw.stpTakerCancelled ∧ sw.result.trades.isEmpty then
      (sweepOutcome t mode sw, b'.trackState orderId (.cancelled 0 .selfTradePrevention))
    else (sweepOutcome t mode sw, b')

/-! ### The fill-or-kill dry run -/

/-- The depth the dry run counts at a level, and whether the walk ends there. -/
def fokReachable (t : Taker) (level : L) (cap : ℕ) : ℕ × Bool :=
  if t.stpActive then
    match checkStpAtLevel (orders level) t.userId t.stpMode with
    | .noConflict => (matchableQuantity level cap t.orderId, false)
    | .cancelMaker =>
      ((((orders level).filter fun o => o.userId ≠ t.userId).map Order.matchableQty).sum, false)
    | .cancelTaker safe => (safe, true)
    | .cancelBoth safe _ => (safe, true)
  else (matchableQuantity level cap t.orderId, false)

/-- The walk of `fok_fillable_quantity`. -/
def fokWalk (t : Taker) (quantity : ℕ) : List (ℕ × L) → ℕ → ℕ
  | [], matched => matched
  | (price, level) :: rest, matched =>
    if quantity ≤ matched then matched
    else if !t.allows price then matched
    else
      let cap := lotFloor t.lot (quantity - matched)
      if cap = 0 then matched
      else
        let reach := fokReachable t level cap
        let matched := satAdd64 matched (min cap reach.1)
        if reach.2 then matched else fokWalk t quantity rest matched

/-- `fok_fillable_quantity`. -/
def fokFillableQuantity (b : OrderBook L) (side : Side) (quantity : ℕ) (limitPrice : Option ℕ)
    (userId : Hash32) (orderId : OrderId) : ℕ :=
  if quantity = 0 ∨ (b.levels side.opposite).isEmpty then 0
  else
    fokWalk (b.taker orderId side limitPrice userId .standard) quantity (b.sweepEntries side) 0

end OrderBook

end OrderBookRs
