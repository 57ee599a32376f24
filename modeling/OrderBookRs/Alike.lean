import OrderBookRs.Congruence
import OrderBookRs.BestPrices

/-!
# Books that behave alike

Two books with the same levels and the same configuration answer every call alike, whatever their
caches hold as long as the cached prices are right, whatever their status trackers recorded, and
however their indices and counters came about as long as every lookup gives the same.

What else the compared books may differ in depends on the comparison: their clocks, the order in
which a user's ids are listed, and the trades made before.

## Main definitions

* `RiskState.Alike`: risk states that decide and count alike.
* `Comparison`: how the clocks, the user lists and the trades so far are compared.
* `OrderBook.Alike`: the relation; `OrderBook.Cold` and `OrderBook.Warm` add what is known of the
  caches.

## Main results

* `OrderBook.Warm.addOrderInner`, `OrderBook.Warm.updateOrder`, `OrderBook.Warm.submitMarket`: the
  calls return the same and leave books that are alike.
* `OrderBook.Warm.execute`: so does every trading call.
-/

namespace OrderBookRs

open PriceLevel Fallible OrderBook

variable {o : Order} {reference reference' : Option ℕ}

/-! ### Risk states -/

namespace RiskState

/-- Without a price band the reference does not matter. -/
theorem checkPriceBand_eq {cfg : RiskConfig} {price : ℕ}
    (h : cfg.priceBandBps ≠ none → reference' = reference) :
    checkPriceBand cfg price reference' = checkPriceBand cfg price reference := by
  cases hband : cfg.priceBandBps with
  | none => simp only [checkPriceBand, hband]
  | some => rw [h (by simp [hband])]

/-- The same limits; and if there are any, the same entries and counters. -/
structure Alike (r r' : RiskState) : Prop where
  config_eq : r'.config = r.config
  orders : r.config ≠ none → AssocMap.Alike r.orders r'.orders
  counters : r.config ≠ none → AssocMap.Alike r.counters r'.counters

namespace Alike

variable {r r' : RiskState} (h : r.Alike r')

include h

theorem openCount_eq (hon : r.config ≠ none) (account : Hash32) :
    r'.openCount account = r.openCount account := by
  rw [openCount, openCount, h.counters hon]

theorem restingNotional_eq (hon : r.config ≠ none) (account : Hash32) :
    r'.restingNotional account = r.restingNotional account := by
  rw [restingNotional, restingNotional, h.counters hon]

theorem checkLimitAdmission_eq (account : Hash32) (price quantity : ℕ)
    (hreference : ∀ cfg, r.config = some cfg → cfg.priceBandBps ≠ none → reference' = reference) :
    r'.checkLimitAdmission account price quantity reference' =
      r.checkLimitAdmission account price quantity reference := by
  rw [checkLimitAdmission, checkLimitAdmission, h.config_eq]
  cases hcfg : r.config with
  | none => rfl
  | some cfg =>
    have hon : r.config ≠ none := by simp [hcfg]
    simp only [checkOpenOrders, h.openCount_eq hon, h.restingNotional_eq hon,
      checkPriceBand_eq (hreference cfg hcfg)]

theorem checkModifyAdmission_eq (id : OrderId) (account : Hash32) (price quantity : ℕ)
    (hreference : ∀ cfg, r.config = some cfg → cfg.priceBandBps ≠ none → reference' = reference) :
    r'.checkModifyAdmission id account price quantity reference' =
      r.checkModifyAdmission id account price quantity reference := by
  rw [checkModifyAdmission, checkModifyAdmission, h.config_eq]
  cases hcfg : r.config with
  | none => rfl
  | some cfg =>
    have hon : r.config ≠ none := by simp [hcfg]
    simp only [h.orders hon id, h.restingNotional_eq hon,
      h.checkLimitAdmission_eq account price quantity hreference,
      checkPriceBand_eq (hreference cfg hcfg)]

/-- Both states change their entries and counters the same way. -/
theorem update {s s' : RiskState} (hconfig : s.config = r.config) (hconfig' : s'.config = r'.config)
    (horders : r.config ≠ none → AssocMap.Alike s.orders s'.orders)
    (hcounters : r.config ≠ none → AssocMap.Alike s.counters s'.counters) : s.Alike s' where
  config_eq := by rw [hconfig', h.config_eq, hconfig]
  orders hon := horders (hconfig ▸ hon)
  counters hon := hcounters (hconfig ▸ hon)

theorem evictIfZeroed (account : Hash32) :
    (r.evictIfZeroed account).Alike (r'.evictIfZeroed account) := by
  by_cases hon : r.config = none
  · exact h.update (config_evictIfZeroed ..) (config_evictIfZeroed ..) (absurd hon) (absurd hon)
  rw [RiskState.evictIfZeroed, RiskState.evictIfZeroed, h.counters hon]
  split
  · exact ⟨h.config_eq, h.orders, fun hon => (h.counters hon).erase account⟩
  · exact h

theorem eraseOrder (id : OrderId) :
    Alike { r with orders := r.orders.erase id } { r' with orders := r'.orders.erase id } :=
  ⟨h.config_eq, fun hon => (h.orders hon).erase id, h.counters⟩

theorem release (account : Hash32) (notional : ℕ) (gone : Bool) :
    (r.release account notional gone).Alike (r'.release account notional gone) := by
  by_cases hon : r.config = none
  · exact h.update (config_release ..) (config_release ..) (absurd hon) (absurd hon)
  rw [RiskState.release, RiskState.release, h.counters hon]
  split
  · exact h
  · exact ⟨h.config_eq, h.orders, fun hon => (h.counters hon).insert account _⟩

/-- Either risk control is off in both, or they have the same limits and alike tables. -/
theorem exists_eq :
    (∃ counters entries counters' entries', r = ⟨none, counters, entries⟩ ∧
        r' = ⟨none, counters', entries'⟩) ∨
      ∃ cfg counters entries counters' entries', r = ⟨some cfg, counters, entries⟩ ∧
        r' = ⟨some cfg, counters', entries'⟩ ∧ AssocMap.Alike counters counters' ∧
        AssocMap.Alike entries entries' := by
  obtain ⟨config, counters, entries⟩ := r
  obtain ⟨config', counters', entries'⟩ := r'
  obtain rfl : config' = config := h.config_eq
  cases config' with
  | none => exact Or.inl ⟨_, _, _, _, rfl, rfl⟩
  | some cfg =>
    exact Or.inr ⟨cfg, _, _, _, _, rfl, rfl, h.counters (Option.some_ne_none cfg),
      h.orders (Option.some_ne_none cfg)⟩

theorem onAdmission (id : OrderId) (account : Hash32) (price quantity : ℕ) :
    (r.onAdmission id account price quantity).Alike (r'.onAdmission id account price quantity) := by
  rcases h.exists_eq with ⟨_, _, _, _, rfl, rfl⟩ |
    ⟨cfg, counters, entries, counters', entries', rfl, rfl, hcounters, horders⟩
  · exact h
  · have hopen := h.openCount_eq (Option.some_ne_none cfg) account
    have hnotional := h.restingNotional_eq (Option.some_ne_none cfg) account
    simp only [RiskState.onAdmission, hopen, hnotional]
    exact ⟨rfl, fun _ => horders.insert id _, fun _ => hcounters.insert account _⟩

theorem onFill (id : OrderId) (quantity : ℕ) :
    (r.onFill id quantity).Alike (r'.onFill id quantity) := by
  rcases h.exists_eq with ⟨_, _, _, _, rfl, rfl⟩ |
    ⟨cfg, counters, entries, counters', entries', rfl, rfl, hcounters, horders⟩
  · exact h
  · simp only [RiskState.onFill]
    rw [horders id]
    split
    · exact h
    · next entry _ =>
      have hentry : Alike ⟨some cfg, counters, entries.insert id { entry with
            remainingQty := entry.remainingQty - quantity }⟩
          ⟨some cfg, counters', entries'.insert id { entry with
            remainingQty := entry.remainingQty - quantity }⟩ :=
        ⟨rfl, fun _ => horders.insert id _, fun _ => hcounters⟩
      have hreleased := hentry.release entry.account (satMul128 quantity entry.price)
        (entry.remainingQty - quantity = 0)
      split_ifs
      · exact (hreleased.eraseOrder id).evictIfZeroed _
      · exact hreleased

theorem foldl_onFill (trades : List Trade) :
    (trades.foldl (fun r t => r.onFill t.makerOrderId t.quantity) r).Alike
      (trades.foldl (fun r t => r.onFill t.makerOrderId t.quantity) r') := by
  induction trades generalizing r r' with
  | nil => exact h
  | cons t trades ih => exact ih (h.onFill t.makerOrderId t.quantity)

theorem onQuantityUpdate (id : OrderId) (quantity : ℕ) :
    (r.onQuantityUpdate id quantity).Alike (r'.onQuantityUpdate id quantity) := by
  rcases h.exists_eq with ⟨_, _, _, _, rfl, rfl⟩ |
    ⟨cfg, counters, entries, counters', entries', rfl, rfl, hcounters, horders⟩
  · exact h
  · simp only [RiskState.onQuantityUpdate]
    rw [horders id]
    split
    · exact h
    · next entry _ =>
      rw [hcounters entry.account]
      split
      · exact ⟨rfl, fun _ => horders.insert id _, fun _ => hcounters⟩
      · exact ⟨rfl, fun _ => horders.insert id _, fun _ => hcounters.insert _ _⟩

theorem onCancel (id : OrderId) : (r.onCancel id).Alike (r'.onCancel id) := by
  rcases h.exists_eq with ⟨_, _, _, _, rfl, rfl⟩ |
    ⟨cfg, counters, entries, counters', entries', rfl, rfl, hcounters, horders⟩
  · exact h
  · simp only [RiskState.onCancel]
    rw [horders id]
    split
    · exact h
    · next entry _ =>
      exact ((h.eraseOrder id).release _ _ _).evictIfZeroed _

theorem clear : r.clear.Alike r'.clear :=
  ⟨h.config_eq, fun _ => .refl _, fun _ => .refl _⟩

end Alike

end RiskState

/-! ### Books -/

/-- How the clocks of two books, their user lists and the trades they have made are compared. What
the calls do to both books has to respect the comparison. -/
structure Comparison where
  /-- The market close both books have. -/
  close : Option ℕ
  /-- The last trades have to be the same. -/
  lastTrade : Prop
  clocks : Clock → Clock → Prop
  users : UserOrders → UserOrders → Prop
  trades : List Trade → List Trade → Prop
  noUsers : users ∅ ∅
  tick : ∀ {k k'}, clocks k k' → clocks k.tick k'.tick
  track : ∀ {m m'}, users m m' → ∀ user id, users (m.track user id) (m'.track user id)
  untrackUser : ∀ {m m'}, users m m' → ∀ user id,
    users (m.untrackUser user id) (m'.untrackUser user id)
  untrackById : ∀ {m m'}, users m m' → ∀ id, users (m.untrackById id) (m'.untrackById id)
  append : ∀ {ts ts'}, trades ts ts' → ∀ more, trades (ts ++ more) (ts' ++ more)

/-- The compared clocks agree on when an order with this time in force expires. -/
def Comparison.Judges (c : Comparison) (L : Type) [PriceLevel L]
    (timeInForce : TimeInForce) : Prop :=
  ∀ ⦃k k'⦄, c.clocks k k' →
    isExpired L timeInForce k'.nowMillis c.close = isExpired L timeInForce k.nowMillis c.close

variable {L : Type} {c : Comparison} {b b' b₁ b₁' : OrderBook L}

namespace OrderBook

/-- The same levels, configuration and sequence number; the same location for every id; risk states
that decide alike; the same last trade, unless neither the comparison nor the price band asks for
it; and no listeners. -/
structure Alike (c : Comparison) (b b' : OrderBook L) : Prop where
  frame : ∃ locations users risk special lastTradePrice hasTraded cache clock tracker stamped fills,
    b' = { b with
      orderLocations := locations, userOrders := users, riskState := risk
      specialOrderTracker := special, lastTradePrice := lastTradePrice, hasTraded := hasTraded
      cache := cache, clock := clock, orderStateTracker := tracker, stamped := stamped
      fills := fills }
  locations : AssocMap.Alike b.orderLocations b'.orderLocations
  risk : b.riskState.Alike b'.riskState
  lastTrades : b'.lastTrade = b.lastTrade ∨
    ¬ c.lastTrade ∧ ∀ cfg, b.riskState.config = some cfg → cfg.readsLastTrade = false
  users : c.users b.userOrders b'.userOrders
  clocks : c.clocks b.clock b'.clock
  trades : c.trades b.fills b'.fills
  close_eq : b.marketCloseForExpiry = c.close
  noLevelListener : b.priceLevelChangedListener = none
  noTradeListener : b.tradeListener = none

namespace Alike

variable {b b' : OrderBook L} (h : b.Alike c b')

include h

theorem levels_eq : b'.levels = b.levels := by
  obtain ⟨_, _, _, _, _, _, _, _, _, _, _, rfl⟩ := h.frame
  rfl

theorem killSwitch_eq : b'.killSwitch = b.killSwitch := by
  obtain ⟨_, _, _, _, _, _, _, _, _, _, _, rfl⟩ := h.frame
  rfl

theorem stpMode_eq : b'.stpMode = b.stpMode := by
  obtain ⟨_, _, _, _, _, _, _, _, _, _, _, rfl⟩ := h.frame
  rfl

theorem close_eq' : b'.marketCloseForExpiry = c.close := by
  obtain ⟨_, _, _, _, _, _, _, _, _, _, _, hb'⟩ := h.frame
  rw [hb']
  exact h.close_eq

theorem noLevelListener' : b'.priceLevelChangedListener = none := by
  obtain ⟨_, _, _, _, _, _, _, _, _, _, _, hb'⟩ := h.frame
  rw [hb']
  exact h.noLevelListener

theorem noTradeListener' : b'.tradeListener = none := by
  obtain ⟨_, _, _, _, _, _, _, _, _, _, _, hb'⟩ := h.frame
  rw [hb']
  exact h.noTradeListener

/-- Neither the last trades nor the limits change. -/
theorem keepLastTrades (hlast : b₁.lastTrade = b.lastTrade) (hlast' : b₁'.lastTrade = b'.lastTrade)
    (hconfig : b₁.riskState.config = b.riskState.config) :
    b₁'.lastTrade = b₁.lastTrade ∨
      ¬ c.lastTrade ∧ ∀ cfg, b₁.riskState.config = some cfg → cfg.readsLastTrade = false := by
  rw [hlast, hlast', hconfig]
  exact h.lastTrades

theorem deliverLevelChange_eq (side : Side) (price quantity : ℕ) :
    b.deliverLevelChange side price quantity = b ∧
      b'.deliverLevelChange side price quantity = b' := by
  rw [OrderBook.deliverLevelChange, OrderBook.deliverLevelChange, h.noLevelListener,
    h.noLevelListener']
  exact ⟨rfl, rfl⟩

/-- Neither cache, clock nor tracker is part of the relation, apart from how the clocks compare. -/
theorem restate (hb : b.SameState b₁) (hb' : b'.SameState b₁')
    (hclocks : c.clocks b₁.clock b₁'.clock) : b₁.Alike c b₁' := by
  obtain ⟨_, _, _, _, _, _, _, _, _, _, _, rfl⟩ := h.frame
  obtain ⟨_, _, _, rfl⟩ := hb
  obtain ⟨_, _, _, rfl⟩ := hb'
  exact { h with frame := ⟨_, _, _, _, _, _, _, _, _, _, _, rfl⟩, clocks := hclocks }

theorem setLevels (side : Side) (m : SkipMap L) :
    (b.setLevels side m).Alike c (b'.setLevels side m) := by
  obtain ⟨_, _, _, _, _, _, _, _, _, _, _, rfl⟩ := h.frame
  exact { h with frame := ⟨_, _, _, _, _, _, _, _, _, _, _, rfl⟩ }

theorem setLevel (side : Side) (price : ℕ) (l : L) :
    (b.setLevel side price l).Alike c (b'.setLevel side price l) := by
  rw [OrderBook.setLevel, OrderBook.setLevel, h.levels_eq]
  exact h.setLevels side _

theorem removeLevel (side : Side) (price : ℕ) :
    (b.removeLevel side price).Alike c (b'.removeLevel side price) := by
  rw [OrderBook.removeLevel, OrderBook.removeLevel, h.levels_eq]
  exact h.setLevels side _

theorem releaseCancelled (id : OrderId) (user : Hash32) (reason : CancelReason) :
    (b.releaseCancelled id user reason).Alike c (b'.releaseCancelled id user reason) := by
  obtain ⟨_, _, _, _, _, _, _, _, _, _, _, rfl⟩ := h.frame
  exact { h with
    frame := ⟨_, _, _, _, _, _, _, _, _, _, _, rfl⟩
    locations := h.locations.erase id
    risk := h.risk.onCancel id
    lastTrades := h.keepLastTrades rfl rfl (RiskState.config_onCancel ..)
    users := c.untrackUser h.users user id }

theorem forgetFilled (filled : OrderId × ℕ) :
    (b.forgetFilled filled).Alike c (b'.forgetFilled filled) := by
  obtain ⟨_, _, _, _, _, _, _, _, _, _, _, rfl⟩ := h.frame
  exact { h with
    frame := ⟨_, _, _, _, _, _, _, _, _, _, _, rfl⟩
    locations := h.locations.erase filled.1
    users := c.untrackById h.users filled.1 }

theorem unindexed (id : OrderId) :
    Alike c
      { b with
        orderLocations := b.orderLocations.erase id, userOrders := b.userOrders.untrackById id }
      { b' with
        orderLocations := b'.orderLocations.erase id
        userOrders := b'.userOrders.untrackById id } := by
  obtain ⟨_, _, _, _, _, _, _, _, _, _, _, rfl⟩ := h.frame
  exact { h with
    frame := ⟨_, _, _, _, _, _, _, _, _, _, _, rfl⟩
    locations := h.locations.erase id
    users := c.untrackById h.users id }

theorem resized (id : OrderId) (quantity : ℕ) :
    Alike c { b with riskState := b.riskState.onQuantityUpdate id quantity }
      { b' with riskState := b'.riskState.onQuantityUpdate id quantity } := by
  obtain ⟨_, _, _, _, _, _, _, _, _, _, _, rfl⟩ := h.frame
  exact { h with
    frame := ⟨_, _, _, _, _, _, _, _, _, _, _, rfl⟩
    risk := h.risk.onQuantityUpdate id quantity
    lastTrades := h.keepLastTrades rfl rfl (RiskState.config_onQuantityUpdate ..) }

theorem trackState (id : OrderId) (status : OrderStatus) :
    (b.trackState id status).Alike c (b'.trackState id status) :=
  h.restate ⟨_, _, _, rfl⟩ ⟨_, _, _, rfl⟩ h.clocks

theorem invalidateCache : b.invalidateCache.Alike c b'.invalidateCache :=
  h.restate ⟨_, _, _, rfl⟩ ⟨_, _, _, rfl⟩ h.clocks

theorem openSweep : b.openSweep.Alike c b'.openSweep :=
  h.restate ⟨_, _, _, rfl⟩ ⟨_, _, _, rfl⟩ (c.tick h.clocks)

variable [PriceLevel L]

omit h in
/-- Without a listener, fills change the last trade, the risk counters and the list of trades. -/
theorem applyFills_eq (hquiet : b.priceLevelChangedListener = none) (side : Side) (price : ℕ)
    (l : L) (trades : List Trade) :
    b.applyFills side price l trades =
      { b with
        lastTradePrice := price
        hasTraded := true
        riskState := trades.foldl (fun r t => r.onFill t.makerOrderId t.quantity) b.riskState
        fills := b.fills ++ trades } := by
  rw [OrderBook.applyFills, OrderBook.deliverLevelChange]
  simp only [hquiet]

theorem applyFills (side : Side) (price : ℕ) (l : L) (trades : List Trade) :
    (b.applyFills side price l trades).Alike c (b'.applyFills side price l trades) := by
  rw [applyFills_eq h.noLevelListener, applyFills_eq h.noLevelListener']
  obtain ⟨_, _, _, _, _, _, _, _, _, _, _, rfl⟩ := h.frame
  exact { h with
    frame := ⟨_, _, _, _, _, _, _, _, _, _, _, rfl⟩
    risk := h.risk.foldl_onFill trades
    lastTrades := Or.inl rfl
    trades := c.append h.trades trades }

theorem registerResting (o resting : Order) (l : L) (remaining : ℕ) :
    (b.registerResting o resting l remaining).Alike c
      (b'.registerResting o resting l remaining) := by
  have hset := h.setLevel o.side o.price l
  obtain ⟨hquiet, hquiet'⟩ :=
    hset.deliverLevelChange_eq o.side (PriceLevel.price l) (visibleQuantity l)
  rw [OrderBook.registerResting, OrderBook.registerResting, hquiet, hquiet']
  generalize b.setLevel o.side o.price l = b at hset
  generalize b'.setLevel o.side o.price l = b' at hset
  refine trackState (c := c) ?_ _ _
  obtain ⟨_, _, _, _, _, _, _, _, _, _, _, rfl⟩ := hset.frame
  exact ⟨⟨_, _, _, _, _, _, _, _, _, _, _, rfl⟩, hset.locations.insert o.id _,
    hset.risk.onAdmission o.id o.userId o.price remaining,
    hset.keepLastTrades rfl rfl (RiskState.config_onAdmission ..),
    c.track hset.users o.userId o.id, hset.clocks, hset.trades, hset.close_eq,
    hset.noLevelListener, hset.noTradeListener⟩

end Alike

/-! ### Caches -/

/-- The books are alike and nothing is cached. -/
structure Cold (c : Comparison) (b b' : OrderBook L) : Prop extends Alike c b b' where
  unread : ∀ side, b.Unread side
  unread' : ∀ side, b'.Unread side

/-- The books are alike and what is cached is right. -/
structure Warm (c : Comparison) (b b' : OrderBook L) : Prop extends Alike c b b' where
  truthful : b.Truthful
  truthful' : b'.Truthful

theorem Cold.warm (h : b.Cold c b') : b.Warm c b' :=
  ⟨h.toAlike, .of_unread h.unread, .of_unread h.unread'⟩

theorem Alike.cold (h : b.Alike c b') : b.invalidateCache.Cold c b'.invalidateCache :=
  ⟨h.invalidateCache, b.unread_invalidateCache, b'.unread_invalidateCache⟩

theorem Alike.coldSweep (h : b.Alike c b') : b.openSweep.Cold c b'.openSweep :=
  ⟨h.openSweep, b.unread_invalidateCache, b'.unread_invalidateCache⟩

namespace Cold

variable {b b' : OrderBook L} (h : b.Cold c b')

include h

theorem setLevel (side : Side) (price : ℕ) (l : L) :
    (b.setLevel side price l).Cold c (b'.setLevel side price l) :=
  ⟨h.toAlike.setLevel side price l, h.unread, h.unread'⟩

theorem removeLevel (side : Side) (price : ℕ) :
    (b.removeLevel side price).Cold c (b'.removeLevel side price) :=
  ⟨h.toAlike.removeLevel side price, h.unread, h.unread'⟩

theorem releaseCancelled (id : OrderId) (user : Hash32) (reason : CancelReason) :
    (b.releaseCancelled id user reason).Cold c (b'.releaseCancelled id user reason) :=
  ⟨h.toAlike.releaseCancelled id user reason, h.unread, h.unread'⟩

theorem trackState (id : OrderId) (status : OrderStatus) :
    (b.trackState id status).Cold c (b'.trackState id status) :=
  ⟨h.toAlike.trackState id status, h.unread, h.unread'⟩

end Cold

/-- What a sweep does to a book keeps cold books alike. -/
theorem Cold.sweepCongruence [PriceLevel L] : SweepCongruence (Cold (L := L) c) where
  levels_eq h := h.levels_eq
  taker_eq h _ _ _ _ _ := by
    obtain ⟨_, _, _, _, _, _, _, _, _, _, _, rfl⟩ := h.frame
    rfl
  setLevel h := h.setLevel
  removeLevel h := h.removeLevel
  applyFills {b b'} h side price l trades := by
    refine ⟨h.toAlike.applyFills side price l trades, ?_, ?_⟩
    · rw [Alike.applyFills_eq h.noLevelListener]
      exact h.unread
    · rw [Alike.applyFills_eq h.noLevelListener']
      exact h.unread'
  cancelMaker h side price quantity id user reason := by
    obtain ⟨hquiet, hquiet'⟩ := h.invalidateCache.deliverLevelChange_eq side price quantity
    rw [hquiet, hquiet']
    exact h.toAlike.cold.releaseCancelled id user reason
  forgetFilled h filled := ⟨h.toAlike.forgetFilled filled, h.unread, h.unread'⟩
  trackState h := h.trackState

/-! ### Checks -/

namespace Warm

variable {b b' : OrderBook L} (h : b.Warm c b')

include h

/-- Both books were only read, or only their trackers written. -/
theorem seen (hb : b.SameView b₁) (hb' : b'.SameView b₁') (hclocks : c.clocks b₁.clock b₁'.clock) :
    b₁.Warm c b₁' :=
  ⟨h.toAlike.restate hb.sameState hb'.sameState hclocks, h.truthful.sameView hb,
    h.truthful'.sameView hb'⟩

theorem trackState (id : OrderId) (status : OrderStatus) :
    (b.trackState id status).Warm c (b'.trackState id status) :=
  h.seen (sameView_trackState b id status) (sameView_trackState b' id status) h.clocks

theorem bestPrice_fst_eq (side : Side) : (b'.bestPrice side).1 = (b.bestPrice side).1 := by
  rw [h.truthful side, h.truthful' side, h.levels_eq]

theorem bestPrice (side : Side) : (b.bestPrice side).2.Warm c (b'.bestPrice side).2 := by
  refine h.seen (sameView_bestPrice b side) (sameView_bestPrice b' side) ?_
  obtain ⟨_, heq⟩ := bestPrice_cache b side
  obtain ⟨_, heq'⟩ := bestPrice_cache b' side
  rw [heq, heq']
  exact h.clocks

theorem willCrossMarket_fst_eq (price : ℕ) (side : Side) :
    (b'.willCrossMarket price side).1 = (b.willCrossMarket price side).1 := by
  simp only [OrderBook.willCrossMarket, h.bestPrice_fst_eq]

theorem resolveReferencePrice (source : ReferencePriceSource) :
    (b.resolveReferencePrice source).2.Warm c (b'.resolveReferencePrice source).2 := by
  cases source with
  | lastTrade | fixedPrice => exact h
  | mid =>
    have hbid := h.bestPrice .buy
    have hbidPrice := h.bestPrice_fst_eq .buy
    have haskPrice := hbid.bestPrice_fst_eq .sell
    simp only [OrderBook.resolveReferencePrice, OrderBook.bestBid, OrderBook.bestAsk, hbidPrice,
      haskPrice]
    split
    · exact hbid.bestPrice .sell
    · exact hbid.bestPrice .sell

/-- Books with the same last trade have the same reference price; else only a fixed price is the
same. -/
theorem resolveReferencePrice_fst_eq (source : ReferencePriceSource)
    (hsource : b'.lastTrade = b.lastTrade ∨ source ≠ .lastTrade ∧ source ≠ .mid) :
    (b'.resolveReferencePrice source).1 = (b.resolveReferencePrice source).1 := by
  cases source with
  | fixedPrice => rfl
  | lastTrade => exact hsource.resolve_right fun hboth => hboth.1 rfl
  | mid =>
    have hlast := hsource.resolve_right fun hboth => hboth.2 rfl
    have hbidPrice := h.bestPrice_fst_eq .buy
    have haskPrice := (h.bestPrice .buy).bestPrice_fst_eq .sell
    simp only [OrderBook.resolveReferencePrice, OrderBook.bestBid, OrderBook.bestAsk, hbidPrice,
      haskPrice, hlast]
    split <;> rfl

theorem riskReference : b.riskReference.2.Warm c b'.riskReference.2 := by
  rw [OrderBook.riskReference, OrderBook.riskReference, h.risk.config_eq]
  split
  · exact h
  · exact h.resolveReferencePrice _

/-- Under a price band the reference price is the same. -/
theorem riskReference_fst_eq {cfg : RiskConfig} (hcfg : b.riskState.config = some cfg)
    (hband : cfg.priceBandBps ≠ none) : b'.riskReference.1 = b.riskReference.1 := by
  rw [OrderBook.riskReference, OrderBook.riskReference, h.risk.config_eq, hcfg, Option.bind_some]
  cases hsource : cfg.referencePrice with
  | none => rfl
  | some source =>
    refine h.resolveReferencePrice_fst_eq source (h.lastTrades.imp_right fun hfixed => ?_)
    have hreads := hfixed.2 cfg hcfg
    simpa [RiskConfig.readsLastTrade, hsource, Option.isSome_iff_ne_none, hband] using hreads

theorem checkKillSwitchOrReject (id : OrderId) :
    Agree (Warm c) (checkKillSwitchOrReject id b) (checkKillSwitchOrReject id b') := by
  rw [OrderBook.checkKillSwitchOrReject, OrderBook.checkKillSwitchOrReject, h.killSwitch_eq]
  split_ifs
  · exact ⟨rfl, h.trackState id _⟩
  · exact ⟨rfl, h⟩

theorem checkKillSwitch : Agree (Warm c) (checkKillSwitch b) (checkKillSwitch b') := by
  rw [OrderBook.checkKillSwitch, OrderBook.checkKillSwitch, h.killSwitch_eq]
  split_ifs
  · exact ⟨rfl, h⟩
  · exact ⟨rfl, h⟩

theorem checkRiskLimitAdmission (account : Hash32) (price quantity : ℕ) :
    Agree (Warm c) (checkRiskLimitAdmission account price quantity b)
      (checkRiskLimitAdmission account price quantity b') := by
  rw [OrderBook.checkRiskLimitAdmission, OrderBook.checkRiskLimitAdmission]
  exact ⟨h.risk.checkLimitAdmission_eq account price quantity fun _ => h.riskReference_fst_eq,
    h.riskReference⟩

theorem checkRiskModifyAdmission (id : OrderId) (account : Hash32) (price quantity : ℕ) :
    Agree (Warm c) (checkRiskModifyAdmission id account price quantity b)
      (checkRiskModifyAdmission id account price quantity b') := by
  rw [OrderBook.checkRiskModifyAdmission, OrderBook.checkRiskModifyAdmission]
  exact ⟨h.risk.checkModifyAdmission_eq id account price quantity fun _ => h.riskReference_fst_eq,
    h.riskReference⟩

theorem recordShapeRejection (o : Order) (e : OrderBookError) :
    (recordShapeRejection o e b).Warm c (recordShapeRejection o e b') := by
  rw [OrderBook.recordShapeRejection.eq_def, OrderBook.recordShapeRejection.eq_def]
  split
  all_goals first | exact h.trackState _ _ | exact h

theorem checkPostOnly (o : Order) : Agree (Warm c) (checkPostOnly o b) (checkPostOnly o b') := by
  rw [OrderBook.checkPostOnly]
  split_ifs
  · refine .bind (.ofState (h.willCrossMarket_fst_eq o.price o.side) (h.bestPrice o.side.opposite))
      (fun h => h) fun crosses _ _ h => ?_
    refine .bind (R := Warm c) (.ofState ?_ ?_) (fun h => h) fun best _ _ h => .check h rfl rfl
    · split_ifs
      · exact h.bestPrice_fst_eq _
      · rfl
    · split_ifs
      · exact h.bestPrice _
      · exact h
  · exact .pure h ()

variable [PriceLevel L]

theorem hasExpired (ho : c.Judges L o.timeInForce) :
    Agree (Warm c) (hasExpired o b) (hasExpired o b') := by
  refine ⟨?_, h.seen ⟨⟨_, _, _, rfl⟩, bestPrice_congr rfl rfl⟩
    ⟨⟨_, _, _, rfl⟩, bestPrice_congr rfl rfl⟩ (c.tick h.clocks)⟩
  rw [OrderBook.hasExpired, OrderBook.hasExpired, h.close_eq, h.close_eq']
  exact congrArg Except.ok (ho h.clocks)

theorem checkFillOrKill (o : Order) :
    Agree (Warm c) (checkFillOrKill o b) (checkFillOrKill o b') := by
  have hdepth : b'.fokFillableQuantity o.side o.totalQuantity (some o.price) o.userId o.id =
      b.fokFillableQuantity o.side o.totalQuantity (some o.price) o.userId o.id := by
    obtain ⟨_, _, _, _, _, _, _, _, _, _, _, rfl⟩ := h.frame
    rfl
  refine .get_bind (.check h ?_ ?_)
  · rw [hdepth]
  · rw [hdepth]

theorem validateOrderShape (ho : c.Judges L o.timeInForce) :
    Agree (Warm c) (validateOrderShape o b) (validateOrderShape o b') := by
  have hshape : b'.checkShape o = b.checkShape o := by
    obtain ⟨_, _, _, _, _, _, _, _, _, _, _, rfl⟩ := h.frame
    rfl
  rw [OrderBook.validateOrderShape]
  refine .get_bind ?_
  have hlift : Agree (fun b₁ b₁' => b₁ = b ∧ b₁' = b')
      ((lift (b.checkShape o) : BookM L Unit) b) ((lift (b'.checkShape o) : BookM L Unit) b') :=
    ⟨hshape, rfl, rfl⟩
  refine .bind hlift (fun heq => heq.1 ▸ heq.2 ▸ h) ?_
  rintro ⟨⟩ _ _ ⟨rfl, rfl⟩
  refine .bind (h.hasExpired ho) (fun h => h) fun expired _ _ h => ?_
  refine .bind (.check h rfl rfl) (fun h => h) fun _ _ _ h => ?_
  exact .bind (h.checkPostOnly o) (fun h => h) fun _ _ _ h => h.checkFillOrKill o

theorem checkHeadroom (o : Order) : Agree (Warm c) (checkHeadroom o b) (checkHeadroom o b') := by
  rw [OrderBook.checkHeadroom]
  split_ifs
  · exact .pure h ()
  refine .bind (.ofState (h.willCrossMarket_fst_eq o.price o.side) (h.bestPrice o.side.opposite))
    (fun h => h) fun crosses b b' h => .get_bind ?_
  rw [h.levels_eq]
  generalize (if crosses then (b.levels o.side).get? o.price else none) = found
  cases found with
  | none => exact .pure h ()
  | some level =>
    dsimp only
    cases totalQuantity level with
    | error => exact ⟨rfl, h.trackState o.id _⟩
    | ok =>
      dsimp only
      split_ifs
      · exact ⟨rfl, h.trackState o.id _⟩
      · exact .pure h ()

/-- **The checks before a new order is matched.** -/
theorem admission (ho : c.Judges L o.timeInForce) :
    Agree (Warm c) (admission o b) (admission o b') := by
  rw [OrderBook.admission]
  refine .bind (h.checkKillSwitchOrReject o.id) (fun h => h) fun _ _ _ h => ?_
  refine .bind (.onError (.lift h rfl) fun e _ _ h => h.recordShapeRejection o e) (fun h => h)
    fun _ _ _ h => ?_
  refine .bind (.onError (h.checkRiskLimitAdmission o.userId o.price o.totalQuantity)
    fun e _ _ h => h.trackState o.id _) (fun h => h) fun _ b b' h => .get_bind ?_
  refine .bind (.check h (by rw [h.locations o.id]) rfl) (fun h => h) fun _ _ _ h => ?_
  exact .bind (.onError (h.validateOrderShape ho) fun e _ _ h => h.recordShapeRejection o e)
    (fun h => h) fun _ _ _ h => h.checkHeadroom o

end Warm

/-! ### Adding an order -/

namespace Cold

variable {b b' : OrderBook L} (h : b.Cold c b')

include h

theorem emitTrades (wantResult : Bool) (r : MatchResult) :
    Agree (Cold c) (emitTrades wantResult r b) (emitTrades wantResult r b') := by
  have hquiet := h.noTradeListener
  have hstamped : (b.deliverTrade r).1.Cold c (b'.deliverTrade r).1 ∧
      (b'.deliverTrade r).2 = (b.deliverTrade r).2 := by
    obtain ⟨_, _, _, _, _, _, _, _, _, _, _, rfl⟩ := h.frame
    simp only [OrderBook.deliverTrade, hquiet]
    exact ⟨⟨⟨⟨_, _, _, _, _, _, _, _, _, _, _, rfl⟩, h.locations, h.risk, h.lastTrades, h.users,
      h.clocks, h.trades, h.close_eq, h.noLevelListener, rfl⟩, h.unread, h.unread'⟩, trivial⟩
  rw [OrderBook.emitTrades, OrderBook.emitTrades, hquiet, h.noTradeListener']
  split_ifs
  · exact ⟨rfl, h⟩
  · exact ⟨congrArg (fun t => Except.ok (some t)) hstamped.2, hstamped.1⟩
  · exact ⟨rfl, h⟩

variable [PriceLevel L]

theorem registerResting (o resting : Order) (l : L) (remaining : ℕ) :
    (b.registerResting o resting l remaining).Cold c
      (b'.registerResting o resting l remaining) := by
  have hset := h.toAlike.setLevel o.side o.price l
  obtain ⟨hquiet, hquiet'⟩ :=
    hset.deliverLevelChange_eq o.side (PriceLevel.price l) (visibleQuantity l)
  refine ⟨h.toAlike.registerResting o resting l remaining, ?_, ?_⟩
  · rw [OrderBook.registerResting, hquiet]
    exact h.unread
  · rw [OrderBook.registerResting, hquiet']
    exact h.unread'

theorem restResidual (o : Order) (remaining : ℕ) :
    Agree (Cold c) (restResidual o remaining b) (restResidual o remaining b') := by
  rw [OrderBook.restResidual, OrderBook.restResidual, h.levels_eq]
  generalize ((b.levels o.side).get? o.price).getD (new o.price) = level
  cases PriceLevel.addOrder level (residual o remaining) with
  | error =>
    have hset := h.toAlike.setLevel o.side o.price level
    split_ifs
    · exact ⟨rfl, (hset.removeLevel o.side o.price).cold⟩
    · exact ⟨rfl, hset.cold⟩
  | ok level' => exact ⟨rfl, h.registerResting o _ level' remaining⟩

theorem settle (o : Order) (wantResult : Bool) (outcome : MatchOutcome) :
    Agree (Warm c) (settle o wantResult outcome b) (settle o wantResult outcome b') := by
  rw [OrderBook.settle]
  by_cases hrejected : outcome.takerPostOnlyRejected
  · rw [if_pos hrejected]
    have htracked := (h.trackState o.id (.rejected .postOnlyWouldCross)).warm
    refine .bind (R := Warm c) ⟨rfl, htracked⟩ (fun h => h) fun _ _ _ h => ?_
    exact .bind (.ofState (h.bestPrice_fst_eq _) (h.bestPrice _)) (fun h => h)
      fun best _ _ h => .fail h _
  rw [if_neg hrejected]
  refine .bind (h.emitTrades wantResult outcome.result) Cold.warm fun tradeResult b b' h => ?_
  split_ifs
  · refine ⟨?_, (h.trackState o.id _).warm⟩
    have hmode :=
      congrArg (fun mode => OrderBookError.selfTradePrevented mode o.id o.userId) h.stpMode_eq
    exact congrArg Except.error hmode
  · exact ⟨rfl, (h.trackState o.id _).warm⟩
  · exact ⟨rfl, (h.trackState o.id _).warm⟩
  · exact .bind (h.restResidual o _) Cold.warm fun resting _ _ h => .pure h.warm _

end Cold

namespace Warm

variable [PriceLevel L] {b b' : OrderBook L} (h : b.Warm c b')

include h

/-- **Adding an order** returns the same and leaves books that are alike. -/
theorem addOrderInner (ho : c.Judges L o.timeInForce) (wantResult : Bool) :
    Agree (Warm c) (addOrderInner o wantResult b) (addOrderInner o wantResult b') := by
  rw [OrderBook.addOrderInner]
  refine .bind (h.admission ho) (fun h => h) fun _ _ _ h => ?_
  refine .bind (R := Cold c) ⟨rfl, h.cold⟩ Cold.warm fun _ _ _ h => ?_
  exact .bind (Cold.sweepCongruence.matchOrderInner h.coldSweep _ _ _ _ _) Cold.warm
    fun outcome _ _ h => h.settle o wantResult outcome

/-- **A market order.** -/
theorem matchMarket (id : OrderId) (side : Side) (mode : MatchMode) (user : Hash32) :
    Agree (Warm c) (matchMarket id side mode user b) (matchMarket id side mode user b') := by
  rw [OrderBook.matchMarket]
  refine .bind (Cold.sweepCongruence.matchOrderInner h.coldSweep _ _ _ _ _) Cold.warm
    fun outcome _ _ h => ?_
  exact .bind (h.emitTrades false outcome.result) Cold.warm fun _ _ _ h => .pure h.warm _

theorem submitMarket (id : OrderId) (side : Side) (mode : MatchMode) (user : Hash32) :
    Agree (Warm c)
      ((do
        OrderBook.checkKillSwitchOrReject id
        OrderBook.matchMarket id side mode user : BookM L MatchResult) b)
      ((do
        OrderBook.checkKillSwitchOrReject id
        OrderBook.matchMarket id side mode user : BookM L MatchResult) b') :=
  .bind (h.checkKillSwitchOrReject id) (fun h => h) fun _ _ _ h => h.matchMarket id side mode user

end Warm

/-! ### Cancelling -/

namespace Alike

variable [PriceLevel L] {b b' : OrderBook L} (h : b.Alike c b')

include h

theorem getOrder_eq (id : OrderId) : b'.getOrder id = b.getOrder id := by
  rw [OrderBook.getOrder, OrderBook.getOrder, h.locations id, h.levels_eq]

/-- **A cancel by id.** -/
theorem cancelOrderWithReason (id : OrderId) (reason : CancelReason) :
    (b'.cancelOrderWithReason id reason).2 = (b.cancelOrderWithReason id reason).2 ∧
      (b.cancelOrderWithReason id reason).1.Cold c (b'.cancelOrderWithReason id reason).1 := by
  have hcold := h.cold
  rw [OrderBook.cancelOrderWithReason, OrderBook.cancelOrderWithReason]
  rw [hcold.locations id, hcold.levels_eq]
  generalize b.invalidateCache = b at hcold
  generalize b'.invalidateCache = b' at hcold
  cases b.orderLocations.lookup id with
  | none => exact ⟨rfl, hcold⟩
  | some place =>
    obtain ⟨price, side⟩ := place
    dsimp only
    cases (b.levels side).get? price with
    | none => exact ⟨rfl, hcold.cold⟩
    | some level =>
      dsimp only
      rcases PriceLevel.updateOrder level (.cancel id) with ⟨e | cancelled, level'⟩
      · exact ⟨rfl, (hcold.toAlike.setLevel side price level').cold⟩
      · have hset := hcold.toAlike.setLevel side price level'
        cases cancelled with
        | none => exact ⟨rfl, hset.cold⟩
        | some o =>
          obtain ⟨hquiet, hquiet'⟩ := hset.deliverLevelChange_eq side (PriceLevel.price level')
            (visibleQuantity level')
          have hreleased := hset.cold.releaseCancelled id o.userId reason
          dsimp only
          rw [hquiet, hquiet']
          split_ifs
          · exact ⟨rfl, hreleased.removeLevel side price⟩
          · exact ⟨rfl, hreleased⟩

end Alike

/-! ### Updating -/

namespace Warm

variable [PriceLevel L] {b b' : OrderBook L} (h : b.Warm c b')

include h

/-- The two passes of a request that moves an order. -/
theorem modifyOrder (id : OrderId) {newOrder : Order} (ho : c.Judges L newOrder.timeInForce) :
    Agree (Warm c) (modifyOrder id newOrder b) (modifyOrder id newOrder b') := by
  rw [OrderBook.modifyOrder]
  refine .bind (h.validateOrderShape ho) (fun h => h) fun _ _ _ h => ?_
  refine .bind (h.checkRiskModifyAdmission id _ _ _) (fun h => h) fun _ b b' h => .get_bind ?_
  have hcross : b'.checkModifyStpSelfCross newOrder = b.checkModifyStpSelfCross newOrder := by
    obtain ⟨_, _, _, _, _, _, _, _, _, _, _, rfl⟩ := h.frame
    rfl
  refine .bind (.lift h hcross) (fun h => h) fun _ _ _ h => ?_
  have hcancelled := (h.toAlike.cancelOrderWithReason id .userRequested).2
  refine .bind (R := Cold c) ⟨rfl, hcancelled⟩ Cold.warm fun _ _ _ h => ?_
  exact .bind (h.warm.addOrderInner ho false) (fun h => h) fun _ _ _ h => .pure h _

theorem updatePrice (id : OrderId) (newPrice : ℕ)
    (hrest : ∀ {o}, b.getOrder id = some o → c.Judges L o.timeInForce) :
    Agree (Warm c) (updatePrice id newPrice b) (updatePrice id newPrice b') := by
  rw [OrderBook.updatePrice]
  refine .get_bind ?_
  rw [h.locations id, h.getOrder_eq]
  cases b.orderLocations.lookup id with
  | none => exact .pure h none
  | some =>
    dsimp only
    split_ifs
    · exact .fail h _
    cases hget : b.getOrder id with
    | none => exact .pure h none
    | some =>
      have hjudges := hrest hget
      exact h.modifyOrder id hjudges

theorem updatePriceAndQuantity (id : OrderId) (newPrice newQuantity : ℕ)
    (hrest : ∀ {o}, b.getOrder id = some o → c.Judges L o.timeInForce) :
    Agree (Warm c) (updatePriceAndQuantity id newPrice newQuantity b)
      (updatePriceAndQuantity id newPrice newQuantity b') := by
  rw [OrderBook.updatePriceAndQuantity]
  refine .get_bind ?_
  rw [h.locations id, h.getOrder_eq]
  cases b.orderLocations.lookup id with
  | none => exact .pure h none
  | some =>
    cases hget : b.getOrder id with
    | none => exact .pure h none
    | some original =>
      obtain ⟨v, k, hset⟩ :=
        { original with price := newPrice }.setQuantity_eq_setTranches newQuantity
      have hjudges := hrest hget
      dsimp only
      rw [hset]
      exact h.modifyOrder id hjudges

theorem replace (id : OrderId) (price quantity : ℕ) (side : Side)
    (hrest : ∀ {o}, b.getOrder id = some o → c.Judges L o.timeInForce) :
    Agree (Warm c) (replace id price quantity side b) (replace id price quantity side b') := by
  rw [OrderBook.replace]
  refine .get_bind ?_
  rw [h.getOrder_eq]
  cases hget : b.getOrder id with
  | none => exact .pure h none
  | some =>
    have hjudges := hrest hget
    exact h.modifyOrder id hjudges

/-- A resize in place, with the level at its price. -/
theorem applyResize (id : OrderId) {price : ℕ} {side : Side} {level : L} (newQuantity : ℕ)
    (hl : (b.levels side).get? price = some level) :
    Agree (Warm c) (applyResize id price side level newQuantity b)
      (applyResize id price side level newQuantity b') := by
  rw [OrderBook.applyResize, OrderBook.applyResize]
  rcases PriceLevel.updateOrder level (.updateQuantity id newQuantity) with ⟨e | result, level'⟩
  · have hl' : (b'.levels side).get? price = some level := by rw [h.levels_eq, hl]
    exact ⟨rfl, h.toAlike.setLevel side price level', h.truthful.setLevel hl level',
      h.truthful'.setLevel hl' level'⟩
  have hset := h.toAlike.setLevel side price level'
  -- the level is written, then dropped if the resize emptied it
  have hfinish : ∀ {b b' : OrderBook L}, b.Alike c b' →
      Cold c (if orderCount level' = 0 then
          { b.removeLevel side price with
            orderLocations := b.orderLocations.erase id, userOrders := b.userOrders.untrackById id }
        else b).invalidateCache
        (if orderCount level' = 0 then
          { b'.removeLevel side price with
            orderLocations := b'.orderLocations.erase id
            userOrders := b'.userOrders.untrackById id }
        else b').invalidateCache := by
    intro b b' h
    split_ifs
    · exact ((h.removeLevel side price).unindexed id).cold
    · exact h.cold
  cases result with
  | none => exact ⟨rfl, (hfinish hset).warm⟩
  | some o =>
    have hresized := hset.resized id o.totalQuantity
    obtain ⟨hquiet, hquiet'⟩ := hresized.deliverLevelChange_eq side (PriceLevel.price level')
      (visibleQuantity level')
    dsimp only
    rw [hquiet, hquiet']
    exact ⟨rfl, (hfinish hresized).warm⟩

theorem updateQuantity [LevelResize L] (id : OrderId) (newQuantity : ℕ)
    (hrest : ∀ {side price o}, b.Rests side price o → c.Judges L o.timeInForce) :
    Agree (Warm c) (updateQuantity id newQuantity b) (updateQuantity id newQuantity b') := by
  rw [OrderBook.updateQuantity]
  refine .get_bind ?_
  rw [h.locations id, h.levels_eq]
  cases b.orderLocations.lookup id with
  | none => exact .pure h none
  | some place =>
    obtain ⟨price, side⟩ := place
    dsimp only
    cases hl : (b.levels side).get? price with
    | none => exact ⟨rfl, h.cold.warm⟩
    | some level =>
      dsimp only
      cases hfind : (orders level).find? fun o => o.id = id with
      | none => exact .pure h none
      | some current =>
        have hcurrent := hrest ⟨level, hl, List.mem_of_find?_eq_some hfind⟩
        obtain ⟨v, k, hset⟩ := LevelResize.withReducedQuantity_eq (L := L) current newQuantity
        have hjudges : c.Judges L (withReducedQuantity L current newQuantity).timeInForce := by
          rw [hset]
          exact hcurrent
        -- the checks leave the levels alone
        have hshape := (h.validateOrderShape hjudges).keeping
          (checks_validateOrderShape (withReducedQuantity L current newQuantity) b)
        refine .bind hshape And.left fun _ b₁ b₁' h₁ => ?_
        have hrisk := (h₁.1.checkRiskModifyAdmission id _ price _).keeping
          (h₁.2.trans (checks_checkRiskModifyAdmission id
            (withReducedQuantity L current newQuantity).userId price
            (withReducedQuantity L current newQuantity).totalQuantity b₁))
        refine .bind hrisk And.left fun _ b₂ b₂' h₂ => h₂.1.applyResize id newQuantity ?_
        rw [h₂.2.sameState.levels_eq, hl]

end Warm

theorem Cold.cancelByUpdate [PriceLevel L] (h : b.Cold c b') (id : OrderId) :
    Agree (Cold c) (cancelByUpdate id b) (cancelByUpdate id b') := by
  rw [OrderBook.cancelByUpdate, OrderBook.cancelByUpdate, h.locations id, h.getOrder_eq]
  cases b.orderLocations.lookup id with
  | none => exact ⟨rfl, h⟩
  | some place =>
    obtain ⟨price, side⟩ := place
    cases b.getOrder id with
    | none => exact ⟨rfl, h⟩
    | some =>
      have hlevel : (b'.cancelOnLevel id price side).2 = (b.cancelOnLevel id price side).2 ∧
          (b.cancelOnLevel id price side).1.Cold c (b'.cancelOnLevel id price side).1 := by
        rw [OrderBook.cancelOnLevel, OrderBook.cancelOnLevel, h.levels_eq]
        cases (b.levels side).get? price with
        | none => exact ⟨rfl, h⟩
        | some level =>
          dsimp only
          rcases PriceLevel.updateOrder level (.cancel id) with ⟨e | cancelled, level'⟩
          · exact ⟨rfl, h.setLevel side price level'⟩
          · have hset := h.setLevel side price level'
            obtain ⟨hquiet, hquiet'⟩ := hset.deliverLevelChange_eq side (PriceLevel.price level')
              (visibleQuantity level')
            cases cancelled with
            | none => exact ⟨rfl, hset⟩
            | some =>
              dsimp only
              rw [hquiet, hquiet']
              exact ⟨rfl, hset⟩
      obtain ⟨hempty, hcold⟩ := hlevel
      have hunindexed := hcold.toAlike.unindexed id
      dsimp only
      rw [hempty]
      split_ifs
      · exact ⟨rfl, hunindexed.removeLevel side price, hcold.unread, hcold.unread'⟩
      · exact ⟨rfl, hunindexed, hcold.unread, hcold.unread'⟩

theorem Cold.applyUpdate [PriceLevel L] [LevelResize L] (h : b.Cold c b')
    (hrest : ∀ {side price o}, b.Rests side price o → c.Judges L o.timeInForce) (u : OrderUpdate) :
    Agree (Warm c) (applyUpdate u b) (applyUpdate u b') := by
  have hget : ∀ {id o}, b.getOrder id = some o → c.Judges L o.timeInForce := by
    intro id o hget
    obtain ⟨_, _, l, -, hl, ho, -⟩ := getOrder_eq_some hget
    exact hrest ⟨l, hl, ho⟩
  cases u with
  | updatePrice id newPrice => exact h.warm.updatePrice id newPrice hget
  | updateQuantity id newQuantity => exact h.warm.updateQuantity id newQuantity hrest
  | updatePriceAndQuantity id newPrice newQuantity =>
    exact h.warm.updatePriceAndQuantity id newPrice newQuantity hget
  | cancel id => exact (h.cancelByUpdate id).mono Cold.warm
  | replace id price quantity side => exact h.warm.replace id price quantity side hget

/-- **An update of any kind.** -/
theorem Warm.updateOrder [PriceLevel L] [LevelResize L] (h : b.Warm c b')
    (hrest : ∀ {side price o}, b.Rests side price o → c.Judges L o.timeInForce) (u : OrderUpdate) :
    Agree (Warm c) (updateOrder u b) (updateOrder u b') := by
  have happly : ∀ {b₁ b₁' : OrderBook L}, b₁.Warm c b₁' → b.SameState b₁ →
      Agree (Warm c)
        ((modify invalidateCache >>= fun _ => applyUpdate u : BookM L (Option Order)) b₁)
        ((modify invalidateCache >>= fun _ => applyUpdate u : BookM L (Option Order)) b₁') := by
    intro b₁ b₁' h₁ hsame
    have hcold : Agree (fun b₂ b₂' => Cold c b₂ b₂' ∧ b.SameState b₂)
        ((modify invalidateCache : BookM L Unit) b₁)
          ((modify invalidateCache : BookM L Unit) b₁') :=
      ⟨rfl, h₁.cold, hsame.trans b₁.sameState_invalidateCache⟩
    exact .bind hcold (fun h => h.1.warm) fun _ b₂ b₂' h₂ => h₂.1.applyUpdate
      (fun ho => hrest (h₂.2.sameOrders.sameRests.rests_iff.mp ho)) u
  rw [OrderBook.updateOrder]
  split_ifs
  · exact .bind (h.checkKillSwitch.keeping (checks_checkKillSwitch b).sameState) And.left
      fun _ _ _ h₁ => happly h₁.1 h₁.2
  · exact happly h (.refl b)

/-! ### Mass cancels -/

/-- What a command asks of the comparison: it judges the time in force of the orders on the book and
of the new one, and a user's orders are cancelled only if the user lists are compared by equality.
-/
structure Suits [PriceLevel L] (c : Comparison) (b : OrderBook L) (cmd : Command) : Prop where
  resting : ∀ {side price o}, b.Rests side price o → c.Judges L o.timeInForce
  added : ∀ o, cmd = .addOrder o ∨ cmd = .addOrderWithResult o → c.Judges L o.timeInForce
  byUser : ∀ user, cmd = .cancelOrdersByUser user → ∀ {m m'}, c.users m m' ↔ m' = m

namespace Warm

variable [PriceLevel L] {b b' : OrderBook L} (h : b.Warm c b')

include h

theorem cancelOrderBatchWithReason (ids : List OrderId) (reason : CancelReason) :
    (b'.cancelOrderBatchWithReason ids reason).2 = (b.cancelOrderBatchWithReason ids reason).2 ∧
      (b.cancelOrderBatchWithReason ids reason).1.Warm c
        (b'.cancelOrderBatchWithReason ids reason).1 := by
  let step := fun (st : OrderBook L × List (OrderId × Order)) id =>
    ((st.1.cancelOrderWithReason id reason).1,
      st.2 ++ (st.1.cancelOrderWithReason id reason).2.toList.map fun o => (id, o))
  have hfold : ∀ (ids : List OrderId) (found : List (OrderId × Order)) {b b' : OrderBook L},
      b.Warm c b' → (ids.foldl step (b', found)).2 = (ids.foldl step (b, found)).2 ∧
        Warm c (ids.foldl step (b, found)).1 (ids.foldl step (b', found)).1 := by
    intro ids
    induction ids with
    | nil => exact fun found b b' h => ⟨rfl, h⟩
    | cons id ids ih =>
      intro found b b' h
      obtain ⟨hanswer, hcold⟩ := h.toAlike.cancelOrderWithReason id reason
      rw [List.foldl_cons, List.foldl_cons]
      simp only [step, hanswer]
      exact ih _ hcold.warm
  exact hfold ids [] h

theorem cancelOrdersBySide (side : Side) :
    (b'.cancelOrdersBySide side).2 = (b.cancelOrdersBySide side).2 ∧
      (b.cancelOrdersBySide side).1.Warm c (b'.cancelOrdersBySide side).1 := by
  rw [OrderBook.cancelOrdersBySide, OrderBook.cancelOrdersBySide, h.levels_eq]
  obtain ⟨hanswer, hbook⟩ := h.cancelOrderBatchWithReason
    ((queuedOrders (b.levels side).entries).map Order.id) .massCancelBySide
  exact ⟨congrArg (List.map Prod.fst) hanswer, hbook⟩

theorem cancelOrdersByPriceRange (side : Side) (minPrice maxPrice : ℕ) :
    (b'.cancelOrdersByPriceRange side minPrice maxPrice).2 =
        (b.cancelOrdersByPriceRange side minPrice maxPrice).2 ∧
      (b.cancelOrdersByPriceRange side minPrice maxPrice).1.Warm c
        (b'.cancelOrdersByPriceRange side minPrice maxPrice).1 := by
  rw [OrderBook.cancelOrdersByPriceRange, OrderBook.cancelOrdersByPriceRange, h.levels_eq]
  split_ifs
  · exact ⟨rfl, h⟩
  obtain ⟨hanswer, hbook⟩ := h.cancelOrderBatchWithReason
    ((queuedOrders ((b.levels side).entries.filter fun e => minPrice ≤ e.1 ∧ e.1 ≤ maxPrice)).map
      Order.id) .massCancelByPriceRange
  exact ⟨congrArg (List.map Prod.fst) hanswer, hbook⟩

theorem restingOrders_eq : b'.restingOrders = b.restingOrders := by
  obtain ⟨_, _, _, _, _, _, _, _, _, _, _, rfl⟩ := h.frame
  rfl

theorem evictExpiredOrders (now : ℕ) :
    (b'.evictExpiredOrders now).2 = (b.evictExpiredOrders now).2 ∧
      (b.evictExpiredOrders now).1.Warm c (b'.evictExpiredOrders now).1 := by
  rw [OrderBook.evictExpiredOrders, OrderBook.evictExpiredOrders, h.restingOrders_eq, h.close_eq,
    h.close_eq']
  split_ifs
  · exact ⟨rfl, h⟩
  obtain ⟨hanswer, hbook⟩ := h.cancelOrderBatchWithReason
    ((b.restingOrders.filter fun o => isExpired L o.timeInForce now c.close).map Order.id)
    .timeInForceExpired
  exact ⟨congrArg (List.map Prod.snd) hanswer, hbook⟩

/-- Where the user lists are compared by equality, a user's orders are cancelled alike. -/
theorem cancelOrdersByUser (husers : ∀ {m m'}, c.users m m' ↔ m' = m) (user : Hash32) :
    (b'.cancelOrdersByUser user).2 = (b.cancelOrdersByUser user).2 ∧
      (b.cancelOrdersByUser user).1.Warm c (b'.cancelOrdersByUser user).1 := by
  have hsame := husers.mp h.users
  have herased : Warm c { b with userOrders := b.userOrders.erase user }
      { b' with userOrders := b'.userOrders.erase user } := by
    have herase : ∀ {b : OrderBook L}, b.Truthful →
        ({ b with userOrders := b.userOrders.erase user } : OrderBook L).Truthful :=
      fun htruthful => htruthful.congr rfl fun _ => Or.inr fun _ => Iff.rfl
    refine ⟨?_, herase h.truthful, herase h.truthful'⟩
    obtain ⟨_, _, _, _, _, _, _, _, _, _, _, rfl⟩ := h.frame
    exact { h.toAlike with
      frame := ⟨_, _, _, _, _, _, _, _, _, _, _, rfl⟩
      users := husers.mpr (congrArg (AList.erase user) hsame) }
  rw [OrderBook.cancelOrdersByUser, OrderBook.cancelOrdersByUser]
  obtain ⟨hanswer, hbook⟩ := herased.cancelOrderBatchWithReason ((b.userOrders.lookup user).getD [])
    .massCancelByUser
  rw [hsame] at hanswer hbook ⊢
  exact ⟨congrArg (List.map Prod.fst) hanswer, hbook⟩

omit h [PriceLevel L] in
/-- Without a listener no level change is announced. -/
theorem deliverCleared_eq (hquiet : b.priceLevelChangedListener = none) (side : Side) :
    b.deliverCleared side = b := by
  rw [deliverCleared]
  generalize (b.levels side).entries = entries
  induction entries with
  | nil => rfl
  | cons e entries ih =>
    have hdeliver : b.deliverLevelChange side e.1 0 = b := by
      rw [OrderBook.deliverLevelChange, hquiet]
    rw [List.foldl_cons, hdeliver, ih]

theorem cancelAllOrders :
    b'.cancelAllOrders.2 = b.cancelAllOrders.2 ∧
      b.cancelAllOrders.1.Warm c b'.cancelAllOrders.1 := by
  have hcold := h.cold
  rw [OrderBook.cancelAllOrders, OrderBook.cancelAllOrders]
  dsimp only
  rw [hcold.warm.restingOrders_eq]
  generalize b.invalidateCache = b at hcold
  generalize b'.invalidateCache = b' at hcold
  split_ifs
  · exact ⟨rfl, hcold.warm⟩
  rw [deliverCleared_eq hcold.noLevelListener, deliverCleared_eq hcold.noLevelListener',
    deliverCleared_eq hcold.noLevelListener, deliverCleared_eq hcold.noLevelListener']
  obtain ⟨_, htracked⟩ := b.foldl_trackState_eq
    (fun b id => .cancelled (b.trackedFilled id) .massCancelAll) (b.restingOrders.map Order.id)
  obtain ⟨_, htracked'⟩ := b'.foldl_trackState_eq
    (fun b id => .cancelled (b.trackedFilled id) .massCancelAll) (b.restingOrders.map Order.id)
  rw [htracked, htracked']
  refine ⟨rfl, (Cold.warm ⟨?_, unread_invalidateCache _, unread_invalidateCache _⟩)⟩
  obtain ⟨_, _, _, _, _, _, _, _, _, _, _, rfl⟩ := hcold.frame
  exact ⟨⟨_, _, _, _, _, _, _, _, _, _, _, rfl⟩, .refl _, hcold.risk.clear, hcold.lastTrades,
    c.noUsers, hcold.clocks, hcold.trades, hcold.close_eq, hcold.noLevelListener,
    hcold.noTradeListener⟩

/-- **Books that are alike answer every trading call alike.** -/
theorem execute [LevelResize L] {cmd : Command} (hsuits : Suits c b cmd) :
    b'.reply cmd = b.reply cmd ∧ (b.execute cmd).Warm c (b'.execute cmd) := by
  cases cmd with
  | addOrder o =>
    have hagree : Agree (Warm c) (OrderBook.addOrder o b) (OrderBook.addOrder o b') :=
      .bind (h.addOrderInner (hsuits.added o (Or.inl rfl)) false) id
        fun _ _ _ hwarm => .pure hwarm _
    exact ⟨congrArg Reply.order hagree.result_eq, hagree.state⟩
  | addOrderWithResult o =>
    have hagree := h.addOrderInner (hsuits.added o (Or.inr rfl)) true
    exact ⟨congrArg Reply.orderWithResult hagree.result_eq, hagree.state⟩
  | submitMarketOrder id quantity side user =>
    have hagree := h.submitMarket id side (.baseQty quantity none) user
    exact ⟨congrArg Reply.matched hagree.result_eq, hagree.state⟩
  | submitMarketOrderByAmount id amount side user =>
    have hagree := h.submitMarket id side (.quoteAmount amount) user
    exact ⟨congrArg Reply.matched hagree.result_eq, hagree.state⟩
  | updateOrder u =>
    have hagree := h.updateOrder hsuits.resting u
    exact ⟨congrArg Reply.updated hagree.result_eq, hagree.state⟩
  | cancelOrder id =>
    have hcancel := h.toAlike.cancelOrderWithReason id .userRequested
    exact ⟨congrArg Reply.cancelled hcancel.1, hcancel.2.warm⟩
  | cancelAllOrders =>
    exact ⟨congrArg Reply.massCancelled h.cancelAllOrders.1, h.cancelAllOrders.2⟩
  | cancelOrdersBySide side =>
    have hcancel := h.cancelOrdersBySide side
    exact ⟨congrArg Reply.massCancelled hcancel.1, hcancel.2⟩
  | cancelOrdersByUser user =>
    have hcancel := h.cancelOrdersByUser (hsuits.byUser user rfl) user
    exact ⟨congrArg Reply.massCancelled hcancel.1, hcancel.2⟩
  | cancelOrdersByPriceRange side minPrice maxPrice =>
    have hcancel := h.cancelOrdersByPriceRange side minPrice maxPrice
    exact ⟨congrArg Reply.massCancelled hcancel.1, hcancel.2⟩
  | evictExpiredOrders now =>
    have hevict := h.evictExpiredOrders now
    exact ⟨congrArg Reply.evicted hevict.1, hevict.2⟩

end Warm

end OrderBook

end OrderBookRs
