import OrderBookRs.Collections.AssocMap
import OrderBookRs.Order

/-!
# The pre-trade risk layer

`risk.rs`: the operator's limits, the per-account counters and the per-order entries the counters
are maintained from. Checks read counters only; hooks keep the counters in step with the book.

## Main definitions

* `RiskConfig`, `RiskState`.
* `RiskState.checkLimitAdmission`, `RiskState.checkModifyAdmission`: the two gates.
* `RiskState.onAdmission`, `RiskState.onFill`, `RiskState.onQuantityUpdate`, `RiskState.onCancel`:
  the hooks.
-/

namespace OrderBookRs

/-- `ReferencePriceSource`. -/
inductive ReferencePriceSource
  | lastTrade
  | mid
  | fixedPrice (price : ℕ)
  deriving DecidableEq, Repr

/-- `RiskConfig`. -/
structure RiskConfig where
  maxOpenOrdersPerAccount : Option ℕ := none
  maxNotionalPerAccount : Option ℕ := none
  priceBandBps : Option ℕ := none
  referencePrice : Option ReferencePriceSource := none
  deriving DecidableEq, Repr

/-- A price band is set around the last trade, or around the mid, which falls back to it. -/
def RiskConfig.readsLastTrade (cfg : RiskConfig) : Bool :=
  cfg.priceBandBps.isSome ∧
    (cfg.referencePrice = some .lastTrade ∨ cfg.referencePrice = some .mid)

/-- `RiskCounters`: what an account has resting, as the risk layer counts it. -/
structure RiskCounters where
  openCount : ℕ := 0
  restingNotional : ℕ := 0
  deriving DecidableEq, Repr

/-- `RiskEntry`: one resting order, as the risk layer tracks it. -/
structure RiskEntry where
  account : Hash32
  price : ℕ
  remainingQty : ℕ
  deriving DecidableEq, Repr

/-- The notional an entry stands for: `(remaining_qty as u128).saturating_mul(price)`. -/
def RiskEntry.notional (e : RiskEntry) : ℕ := satMul128 e.remainingQty e.price

/-- `RiskState`, without the latch that limits a warning to once. -/
structure RiskState where
  config : Option RiskConfig := none
  counters : AssocMap Hash32 RiskCounters := ∅
  orders : AssocMap OrderId RiskEntry := ∅

namespace RiskState

/-- An account's open-order counter, zero when it has none. -/
def openCount (r : RiskState) (account : Hash32) : ℕ :=
  (r.counters.lookup account).elim 0 RiskCounters.openCount

/-- An account's notional counter, zero when it has none. -/
def restingNotional (r : RiskState) (account : Hash32) : ℕ :=
  (r.counters.lookup account).elim 0 RiskCounters.restingNotional

/-! ### Checks -/

/-- `check_price_band`: refuse a price further from the reference than the band allows. A missing or
zero reference skips the check. -/
def checkPriceBand (cfg : RiskConfig) (price : ℕ) (reference : Option ℕ) :
    Except OrderBookError Unit :=
  match cfg.priceBandBps, reference with
  | some bpsLimit, some reference =>
    if 0 < reference then
      let diff := (price - reference) + (reference - price)
      let scaledDiff := satMul128 diff 10000
      let band := satMul128 bpsLimit reference
      if band < scaledDiff then
        .error (.riskPriceBand price reference (min (scaledDiff / reference) (2 ^ 32 - 1)) bpsLimit)
      else .ok ()
    else .ok ()
  | _, _ => .ok ()

/-- The open-order gate of `check_limit_admission`. -/
def checkOpenOrders (r : RiskState) (cfg : RiskConfig) (account : Hash32) :
    Except OrderBookError Unit :=
  match cfg.maxOpenOrdersPerAccount with
  | some limit =>
    if limit ≤ r.openCount account then
      .error (.riskMaxOpenOrders account (r.openCount account) limit)
    else .ok ()
  | none => .ok ()

/-- The notional gate shared by both checks: `base` is the notional counted against the account
before `attempted` is added, `current` what the error reports. -/
def checkNotional (cfg : RiskConfig) (account : Hash32) (current base attempted : ℕ) :
    Except OrderBookError Unit :=
  match cfg.maxNotionalPerAccount with
  | some limit =>
    if limit < satAdd128 base attempted then
      .error (.riskMaxNotional account current attempted limit)
    else .ok ()
  | none => .ok ()

/-- `check_limit_admission`: open orders, then notional, then the price band. -/
def checkLimitAdmission (r : RiskState) (account : Hash32) (price quantity : ℕ)
    (reference : Option ℕ) : Except OrderBookError Unit :=
  match r.config with
  | none => .ok ()
  | some cfg => do
    r.checkOpenOrders cfg account
    checkNotional cfg account (r.restingNotional account) (r.restingNotional account)
      (satMul128 quantity price)
    checkPriceBand cfg price reference

/-- `check_modify_admission`: for a tracked order swap its contribution for the new one and skip the
open-order gate; an untracked order is a new admission. -/
def checkModifyAdmission (r : RiskState) (orderId : OrderId) (account : Hash32)
    (newPrice newQty : ℕ) (reference : Option ℕ) : Except OrderBookError Unit :=
  match r.config with
  | none => .ok ()
  | some cfg =>
    match r.orders.lookup orderId with
    | none => r.checkLimitAdmission account newPrice newQty reference
    | some entry => do
      let current := r.restingNotional account
      checkNotional cfg account current (current - entry.notional) (satMul128 newQty newPrice)
      checkPriceBand cfg newPrice reference

/-! ### Hooks -/

/-- `evict_if_zeroed`: drop an account's counters once both are zero. -/
def evictIfZeroed (r : RiskState) (account : Hash32) : RiskState :=
  match r.counters.lookup account with
  | some ⟨0, 0⟩ => { r with counters := r.counters.erase account }
  | _ => r

/-- `on_admission`: track an order that came to rest. -/
def onAdmission (r : RiskState) (orderId : OrderId) (account : Hash32) (price remainingQty : ℕ) :
    RiskState :=
  match r.config with
  | none => r
  | some _ =>
    let entry : RiskEntry := ⟨account, price, remainingQty⟩
    { r with
      orders := r.orders.insert orderId entry
      counters := r.counters.insert account
        { openCount := r.openCount account + 1
          restingNotional := (r.restingNotional account + entry.notional) % 2 ^ 128 } }

/-- Release notional and, for an order that is gone, its open-order slot. -/
def release (r : RiskState) (account : Hash32) (notional : ℕ) (gone : Bool) : RiskState :=
  match r.counters.lookup account with
  | none => r
  | some c =>
    { r with
      counters := r.counters.insert account
        { openCount := if gone then c.openCount - 1 else c.openCount
          restingNotional := c.restingNotional - notional } }

/-- `on_fill`: release what a maker traded, at the price it was admitted at. -/
def onFill (r : RiskState) (makerId : OrderId) (filledQty : ℕ) : RiskState :=
  match r.config with
  | none => r
  | some _ =>
    match r.orders.lookup makerId with
    | none => r
    | some entry =>
      let newRemaining := entry.remainingQty - filledQty
      let r := { r with
        orders := r.orders.insert makerId { entry with remainingQty := newRemaining } }
      let r := r.release entry.account (satMul128 filledQty entry.price) (newRemaining = 0)
      if newRemaining = 0 then
        { r with orders := r.orders.erase makerId }.evictIfZeroed entry.account
      else r

/-- `on_quantity_update`: move an entry to a new remaining quantity. -/
def onQuantityUpdate (r : RiskState) (orderId : OrderId) (newRemaining : ℕ) : RiskState :=
  match r.config with
  | none => r
  | some _ =>
    match r.orders.lookup orderId with
    | none => r
    | some entry =>
      let r := { r with
        orders := r.orders.insert orderId { entry with remainingQty := newRemaining } }
      match r.counters.lookup entry.account with
      | none => r
      | some c =>
        let notional :=
          if entry.remainingQty ≤ newRemaining then
            (c.restingNotional +
              satMul128 (newRemaining - entry.remainingQty) entry.price) % 2 ^ 128
          else c.restingNotional - satMul128 (entry.remainingQty - newRemaining) entry.price
        { r with
          counters := r.counters.insert entry.account { c with restingNotional := notional } }

/-- `on_cancel`: release an order's whole contribution. -/
def onCancel (r : RiskState) (orderId : OrderId) : RiskState :=
  match r.config with
  | none => r
  | some _ =>
    match r.orders.lookup orderId with
    | none => r
    | some entry =>
      let r := { r with orders := r.orders.erase orderId }
      (r.release entry.account entry.notional true).evictIfZeroed entry.account

/-- `clear`: forget all entries and counters. -/
def clear (r : RiskState) : RiskState := { r with orders := ∅, counters := ∅ }

/-! ### The hooks leave the configuration alone -/

variable (r : RiskState)

@[simp] theorem config_evictIfZeroed (account : Hash32) :
    (r.evictIfZeroed account).config = r.config := by
  rw [evictIfZeroed]
  split <;> rfl

@[simp] theorem config_release (account : Hash32) (notional : ℕ) (gone : Bool) :
    (r.release account notional gone).config = r.config := by
  rw [release]
  split <;> rfl

@[simp] theorem config_onAdmission (orderId : OrderId) (account : Hash32) (price q : ℕ) :
    (r.onAdmission orderId account price q).config = r.config := by
  rw [onAdmission]
  split <;> rfl

@[simp] theorem config_onFill (makerId : OrderId) (q : ℕ) :
    (r.onFill makerId q).config = r.config := by
  rw [onFill]
  split
  · rfl
  split
  · rfl
  dsimp only
  split_ifs <;> simp

@[simp] theorem config_onQuantityUpdate (orderId : OrderId) (q : ℕ) :
    (r.onQuantityUpdate orderId q).config = r.config := by
  rw [onQuantityUpdate]
  split
  · rfl
  split
  · rfl
  dsimp only
  split <;> rfl

@[simp] theorem config_onCancel (orderId : OrderId) : (r.onCancel orderId).config = r.config := by
  rw [onCancel]
  split
  · rfl
  split
  · rfl
  · simp

@[simp] theorem config_foldl_onFill (trades : List Trade) :
    (trades.foldl (fun r t => r.onFill t.makerOrderId t.quantity) r).config = r.config := by
  induction trades generalizing r with
  | nil => rfl
  | cons t trades ih => rw [List.foldl_cons, ih, config_onFill]

end RiskState

end OrderBookRs
