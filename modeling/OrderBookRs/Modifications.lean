import OrderBookRs.Matching

/-!
# Admission, modification and cancellation

`modifications.rs`: the checks an order passes before it may match (`validateOrderShape`, the risk
gates, the headroom check), `add_order` with everything it does after the sweep, the cancel path,
and `update_order` with its five requests.

Methods that return a `Result` are `BookM` programs: a failure keeps what was done before it, as in
the source.

## Main definitions

* `OrderBook.validateOrderShape`, `OrderBook.checkModifyStpSelfCross`: the checks.
* `OrderBook.admission`, `OrderBook.addOrderInner`: admission and matching of a new order.
* `OrderBook.cancelOrderWithReason`: cancellation by id.
* `OrderBook.modifyOrder`, `OrderBook.updateOrder`: the modify path.
-/

namespace OrderBookRs

open PriceLevel Fallible

namespace OrderBook

variable {L : Type} [PriceLevel L]

/-! ### Kill switch and risk gates -/

/-- `check_kill_switch_or_reject`. -/
def checkKillSwitchOrReject (id : OrderId) : BookM L Unit := fun b =>
  if b.killSwitch then
    (.error .killSwitchActive, b.trackState id (.rejected .killSwitchActive))
  else (.ok (), b)

/-- `check_kill_switch`. -/
def checkKillSwitch : BookM L Unit := fun b =>
  if b.killSwitch then (.error .killSwitchActive, b) else (.ok (), b)

/-- The reference price of the price band, resolved when one is configured. -/
def riskReference (b : OrderBook L) : Option ℕ × OrderBook L :=
  match b.riskState.config.bind RiskConfig.referencePrice with
  | none => (none, b)
  | some source => b.resolveReferencePrice source

/-- `check_risk_limit_admission`. -/
def checkRiskLimitAdmission (account : Hash32) (price quantity : ℕ) : BookM L Unit := fun b =>
  let reference := b.riskReference
  (b.riskState.checkLimitAdmission account price quantity reference.1, reference.2)

/-- `check_risk_modify_admission`. -/
def checkRiskModifyAdmission (id : OrderId) (account : Hash32) (newPrice newQty : ℕ) :
    BookM L Unit := fun b =>
  let reference := b.riskReference
  (b.riskState.checkModifyAdmission id account newPrice newQty reference.1, reference.2)

/-! ### Shape -/

/-- Refuse with `e` when `c` holds. -/
def refuse (c : Bool) (e : OrderBookError) : Except OrderBookError Unit :=
  if c then .error e else .ok ()

/-- Both tranches together must fit in a `u64`. -/
def checkRepresentable (o : Order) : Except OrderBookError Unit :=
  refuse o.checkedTotalQuantity.isNone (.quantityOverflow o.visibleQuantity o.hiddenQuantity)

/-- The lot-size rule: an iceberg's tranches are checked one by one. -/
def checkLot (lot : ℕ) (o : Order) : Except OrderBookError Unit :=
  match o.kind with
  | .iceberg hidden => do
    refuse (o.visibleQuantity % lot ≠ 0) (.invalidLotSize o.visibleQuantity lot)
    refuse (hidden % lot ≠ 0) (.invalidLotSize hidden lot)
  | _ => refuse (o.totalQuantity % lot ≠ 0) (.invalidLotSize o.totalQuantity lot)

/-- The checks of `validate_order_shape` that read the order and the configuration only. -/
def checkShape (b : OrderBook L) (o : Order) : Except OrderBookError Unit := do
  checkRepresentable o
  refuse (b.stpMode ≠ .none ∧ o.userId = 0) (.missingUserId o.id)
  refuse (b.tickSize.any fun tick => 0 < tick ∧ o.price % tick ≠ 0)
    (.invalidTickSize o.price (b.tickSize.getD 0))
  match b.lotSize with
  | some lot => if 0 < lot then checkLot lot o else .ok ()
  | none => .ok ()
  refuse (b.minOrderSize.any fun min => o.totalQuantity < min)
    (.orderSizeOutOfRange o.totalQuantity b.minOrderSize b.maxOrderSize)
  refuse (b.maxOrderSize.any fun max => max < o.totalQuantity)
    (.orderSizeOutOfRange o.totalQuantity b.minOrderSize b.maxOrderSize)

/-- `has_expired`: the time in force against the next clock reading. -/
def hasExpired (o : Order) : BookM L Bool := fun b =>
  (.ok (isExpired L o.timeInForce b.clock.nowMillis b.marketCloseForExpiry),
    { b with clock := b.clock.tick })

/-- A post-only order must not cross. -/
def checkPostOnly (o : Order) : BookM L Unit :=
  if o.isPostOnly then do
    let crosses ← ofState fun b => b.willCrossMarket o.price o.side
    let best ← ofState fun b => if crosses then b.bestPrice o.side.opposite else (none, b)
    check crosses (.priceCrossing o.price o.side (best.getD 0))
  else pure ()

/-- A fill-or-kill order must be fillable in full. -/
def checkFillOrKill (o : Order) : BookM L Unit := do
  let b ← get
  let potential :=
    b.fokFillableQuantity o.side o.totalQuantity (some o.price) o.userId o.id
  check (o.isFillOrKill ∧ potential < o.totalQuantity)
    (.insufficientLiquidity o.side o.totalQuantity potential)

/-- `validate_order_shape`. -/
def validateOrderShape (o : Order) : BookM L Unit := do
  let b ← get
  lift (b.checkShape o)
  let expired ← hasExpired o
  check expired (.invalidOperation "Order has already expired")
  checkPostOnly o
  checkFillOrKill o

/-- `record_shape_rejection`: the transition each shape error leaves in the tracker. -/
def recordShapeRejection (o : Order) (e : OrderBookError) (b : OrderBook L) : OrderBook L :=
  match e with
  | .missingUserId _ => b.trackState o.id (.rejected .missingUserId)
  | .quantityOverflow .. => b.trackState o.id (.rejected .invalidQuantity)
  | .invalidTickSize .. => b.trackState o.id (.rejected .invalidPrice)
  | .invalidLotSize .. => b.trackState o.id (.rejected .invalidQuantity)
  | .orderSizeOutOfRange .. => b.trackState o.id (.rejected .orderSizeOutOfRange)
  | .priceCrossing .. => b.trackState o.id (.rejected .postOnlyWouldCross)
  | .insufficientLiquidity .. => b.trackState o.id (.cancelled 0 .insufficientLiquidity)
  | _ => b

/-- The walk of `check_modify_stp_self_cross`: the taker still has quantity when it meets a level
that holds an order of its own user. -/
def selfCrossWalk (o : Order) : List (ℕ × L) → ℕ → Bool
  | [], _ => false
  | (price, level) :: rest, remaining =>
    if remaining = 0 then false
    else if !o.side.crosses o.price price then false
    else if (orders level).any fun x => x.userId = o.userId then true
    else selfCrossWalk o rest (remaining - matchableQuantity level remaining o.id)

/-- `check_modify_stp_self_cross`. -/
def checkModifyStpSelfCross (b : OrderBook L) (o : Order) : Except OrderBookError Unit :=
  refuse
    ((b.stpMode = .cancelTaker ∨ b.stpMode = .cancelBoth) ∧ o.userId ≠ 0 ∧
      selfCrossWalk o (b.sweepEntries o.side) o.totalQuantity)
    (.selfTradePrevented b.stpMode o.id o.userId)

/-! ### Adding an order -/

/-- The residual-admission headroom check: a crossing order that may rest must fit on its level as a
whole before it trades. -/
def checkHeadroom (o : Order) : BookM L Unit :=
  if o.isImmediate then pure ()
  else do
    let crosses ← ofState fun b => b.willCrossMarket o.price o.side
    let b ← get
    match if crosses then (b.levels o.side).get? o.price else none with
    | none => pure ()
    | some level =>
      let reject := fun (b : OrderBook L) => b.trackState o.id (.rejected .invalidQuantity)
      match totalQuantity level with
      | .error e => do
        modify reject
        fail (.priceLevelError e)
      | .ok total =>
        if (checkedAdd64 total o.totalQuantity).isNone then do
          modify reject
          fail (.invalidOperation (s!"resting order {o.id} would overflow " ++
            s!"the aggregate capacity of level {o.price}"))
        else pure ()

/-- Everything `add_order_inner` checks before it matches. -/
def admission (o : Order) : BookM L Unit := do
  checkKillSwitchOrReject o.id
  onError (lift (checkRepresentable o)) (recordShapeRejection o)
  onError (checkRiskLimitAdmission o.userId o.price o.totalQuantity)
    fun e b => b.trackState o.id (.rejected (.ofError e))
  let b ← get
  check (b.orderLocations.lookup o.id).isSome (.duplicateOrderId o.id)
  onError (validateOrderShape o) (recordShapeRejection o)
  checkHeadroom o

/-- Report the trades of a sweep, if there are any and someone consumes them. -/
def emitTrades (wantResult : Bool) (r : MatchResult) : BookM L (Option TradeResult) := fun b =>
  if r.trades.isEmpty then (.ok none, b)
  else if wantResult ∨ b.tradeListener.isSome then
    let d := b.deliverTrade r
    (.ok (some d.2), d.1)
  else (.ok none, b)

/-- The order a taker rests as, given what was not matched. -/
def residual (o : Order) (remaining : ℕ) : Order :=
  if remaining < o.totalQuantity then o.setTotalRemaining remaining else o

/-- The bookkeeping of an order that was admitted to its level. -/
def registerResting (b : OrderBook L) (o : Order) (resting : Order) (level : L) (remaining : ℕ) :
    OrderBook L :=
  let b := b.setLevel o.side o.price level
  let b := b.deliverLevelChange o.side (PriceLevel.price level) (visibleQuantity level)
  let b : OrderBook L :=
    { b with
      orderLocations := b.orderLocations.insert o.id (o.price, o.side)
      riskState := b.riskState.onAdmission o.id o.userId o.price remaining
      userOrders := b.userOrders.track o.userId o.id
      specialOrderTracker := b.specialOrderTracker.register resting }
  let filled := o.totalQuantity - remaining
  b.trackState o.id (if 0 < filled then .partiallyFilled o.totalQuantity filled else .open)

/-- Rest what was not matched. A level that refuses the order is removed again if it is empty. -/
def restResidual (o : Order) (remaining : ℕ) : BookM L Order := fun b =>
  let resting := residual o remaining
  let level := ((b.levels o.side).get? o.price).getD (new o.price)
  match addOrder level resting with
  | .error e =>
    let b := b.setLevel o.side o.price level
    let b := if orderCount level = 0 then b.removeLevel o.side o.price else b
    (.error (.priceLevelError e), b.invalidateCache)
  | .ok level' => (.ok resting, b.registerResting o resting level' remaining)

/-- Everything `add_order_inner` does after the sweep. -/
def settle (o : Order) (wantResult : Bool) (outcome : MatchOutcome) :
    BookM L (Order × Option TradeResult) :=
  let remaining := outcome.result.remainingQuantity
  let filled := o.totalQuantity - remaining
  if outcome.takerPostOnlyRejected then do
    modify fun b => b.trackState o.id (.rejected .postOnlyWouldCross)
    let best ← ofState fun b => b.bestPrice o.side.opposite
    fail (.priceCrossing o.price o.side (best.getD 0))
  else do
    -- fills reach the trade listener before any of the early returns below
    let tradeResult ← emitTrades wantResult outcome.result
    if outcome.takerStpCancelled then do
      modify fun b => b.trackState o.id (.cancelled filled .selfTradePrevention)
      let b ← get
      fail (.selfTradePrevented b.stpMode o.id o.userId)
    else if remaining = 0 then do
      modify fun b => b.trackState o.id (.filled o.totalQuantity)
      pure (o, tradeResult)
    else if o.isImmediate then do
      modify fun b => b.trackState o.id (.cancelled filled .insufficientLiquidity)
      fail (.insufficientLiquidity o.side o.quantity (o.quantity - remaining))
    else do
      let resting ← restResidual o remaining
      pure (resting, tradeResult)

/-- The kind a new order sweeps as. -/
def takerKind (o : Order) : TakerKind := if o.isPostOnly then .postOnly else .standard

/-- `add_order_inner`. -/
def addOrderInner (o : Order) (wantResult : Bool) : BookM L (Order × Option TradeResult) := do
  admission o
  modify invalidateCache
  let outcome ← matchOrderInner o.id o.side (.baseQty o.totalQuantity (some o.price)) o.userId
    (takerKind o)
  settle o wantResult outcome

/-- `add_order`. -/
def addOrder (o : Order) : BookM L Order := do
  let r ← addOrderInner o false
  pure r.1

/-- `add_order_with_result`. -/
def addOrderWithResult (o : Order) : BookM L (Order × Option TradeResult) := addOrderInner o true

/-! ### Cancelling an order -/

/-- `cancel_order_with_reason`. -/
def cancelOrderWithReason (b : OrderBook L) (id : OrderId) (reason : CancelReason) :
    OrderBook L × Option Order :=
  let b := b.invalidateCache
  match b.orderLocations.lookup id with
  | none => (b, none)
  | some (price, side) =>
    match (b.levels side).get? price with
    | none => (b.invalidateCache, none)
    | some level =>
      match updateOrder level (.cancel id) with
      | (.ok (some cancelled), level') =>
        let b := b.setLevel side price level'
        let b := b.deliverLevelChange side (PriceLevel.price level') (visibleQuantity level')
        let b := b.invalidateCache.releaseCancelled id cancelled.userId reason
        (if orderCount level' = 0 then b.removeLevel side price else b, some cancelled)
      | (_, level') => ((b.setLevel side price level').invalidateCache, none)

/-- `cancel_order`. -/
def cancelOrder (b : OrderBook L) (id : OrderId) : OrderBook L × Option Order :=
  b.cancelOrderWithReason id .userRequested

/-! ### Updating an order -/

/-- The common part of the three requests that move an order: check the new order, then cancel the
original and add the new one. -/
def modifyOrder (id : OrderId) (newOrder : Order) : BookM L (Option Order) := do
  validateOrderShape newOrder
  checkRiskModifyAdmission id newOrder.userId newOrder.price newOrder.totalQuantity
  let b ← get
  lift (b.checkModifyStpSelfCross newOrder)
  modify fun b => (b.cancelOrderWithReason id .userRequested).1
  let r ← addOrderInner newOrder false
  pure (some r.1)

/-- `UpdatePrice`. -/
def updatePrice (id : OrderId) (newPrice : ℕ) : BookM L (Option Order) := do
  let b ← get
  match b.orderLocations.lookup id with
  | none => pure none
  | some (oldPrice, _) =>
    if oldPrice = newPrice then fail (.invalidOperation "Cannot update price to the same value")
    else
      match b.getOrder id with
      | none => pure none
      | some original => modifyOrder id { original with price := newPrice }

/-- `UpdatePriceAndQuantity`. -/
def updatePriceAndQuantity (id : OrderId) (newPrice newQuantity : ℕ) : BookM L (Option Order) := do
  let b ← get
  match b.orderLocations.lookup id with
  | none => pure none
  | some _ =>
    match b.getOrder id with
    | none => pure none
    | some original => modifyOrder id ({ original with price := newPrice }.setQuantity newQuantity)

/-- `Replace`. -/
def replace (id : OrderId) (price quantity : ℕ) (side : Side) : BookM L (Option Order) := do
  let b ← get
  match b.getOrder id with
  | none => pure none
  | some original => modifyOrder id (original.replaceWith id price quantity side)

/-- The in-place resize of an order on its level. -/
def applyResize (id : OrderId) (price : ℕ) (side : Side) (level : L) (newQuantity : ℕ) :
    BookM L (Option Order) := fun b =>
  let u := updateOrder level (.updateQuantity id newQuantity)
  let b := b.setLevel side price u.2
  match u.1 with
  | .error e => (.error (.priceLevelError e), b)
  | .ok result =>
    let b :=
      match result with
      | none => b
      | some o =>
        { b with riskState := b.riskState.onQuantityUpdate id o.totalQuantity }.deliverLevelChange
          side (PriceLevel.price u.2) (visibleQuantity u.2)
    let b :=
      if orderCount u.2 = 0 then
        { b.removeLevel side price with
          orderLocations := b.orderLocations.erase id
          userOrders := b.userOrders.untrackById id }
      else b
    (.ok result, b.invalidateCache)

/-- `UpdateQuantity`: check the order the level would store, then resize in place. -/
def updateQuantity (id : OrderId) (newQuantity : ℕ) : BookM L (Option Order) := do
  let b ← get
  match b.orderLocations.lookup id with
  | none => pure none
  | some (price, side) =>
    match (b.levels side).get? price with
    | none => do
      modify invalidateCache
      pure none
    | some level =>
      match (orders level).find? fun o => o.id = id with
      | none => pure none
      | some current => do
        let projected := withReducedQuantity L current newQuantity
        validateOrderShape projected
        checkRiskModifyAdmission id projected.userId price projected.totalQuantity
        applyResize id price side level newQuantity

/-- The level part of a `Cancel` request, and whether the level is empty afterwards. -/
def cancelOnLevel (b : OrderBook L) (id : OrderId) (price : ℕ) (side : Side) :
    OrderBook L × Bool :=
  match (b.levels side).get? price with
  | none => (b, false)
  | some level =>
    match updateOrder level (.cancel id) with
    | (.ok (some _), level') =>
      ((b.setLevel side price level').deliverLevelChange side (PriceLevel.price level')
        (visibleQuantity level'), orderCount level' = 0)
    | (_, level') => (b.setLevel side price level', orderCount level' = 0)

/-- `Cancel`: unlike `cancel_order` it leaves the risk state, the tracker and the special orders
alone. -/
def cancelByUpdate (id : OrderId) : BookM L (Option Order) := fun b =>
  match b.orderLocations.lookup id with
  | none => (.ok none, b)
  | some (price, side) =>
    match b.getOrder id with
    | none => (.ok none, b)
    | some current =>
      let c := b.cancelOnLevel id price side
      let b : OrderBook L :=
        { c.1 with
          orderLocations := c.1.orderLocations.erase id
          userOrders := c.1.userOrders.untrackById id }
      (.ok (some current), if c.2 then b.removeLevel side price else b)

/-- The requests the kill switch halts. -/
def isModify : OrderUpdate → Bool
  | .cancel _ => false
  | _ => true

/-- The requests of `update_order`, after the gate. -/
def applyUpdate : OrderUpdate → BookM L (Option Order)
  | .updatePrice id newPrice => updatePrice id newPrice
  | .updateQuantity id newQuantity => updateQuantity id newQuantity
  | .updatePriceAndQuantity id newPrice newQuantity =>
    updatePriceAndQuantity id newPrice newQuantity
  | .cancel id => cancelByUpdate id
  | .replace id price quantity side => replace id price quantity side

/-- `update_order`. -/
def updateOrder (u : OrderUpdate) : BookM L (Option Order) := do
  if isModify u then checkKillSwitch else pure ()
  modify invalidateCache
  applyUpdate u

end OrderBook

end OrderBookRs
