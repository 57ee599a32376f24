import OrderBookRs.FifoLevel
import OrderBookRs.RiskTracking
import OrderBookRs.Settings

/-!
# The risk limits hold on the book

The gates of the risk layer read counters, not the book. Since the counters never stand for less
than what rests, the limits nevertheless hold for the orders that rest, after every run of calls.

## Main definitions

* `OrderBook.ordersOf`: the resting orders of an account.

## Main results

* `risk_limits_hold`: after every run of calls on a book whose limits were installed while it was
  empty, no account has more orders or more notional resting than its limits allow.
-/

namespace OrderBookRs

open PriceLevel Fallible OrderBook

/-! ### The resting orders of an account -/

namespace OrderBook

variable {L : Type} [PriceLevel L] {b : OrderBook L} {account : Hash32}

/-- The resting orders of an account. -/
def ordersOf (b : OrderBook L) (account : Hash32) : List Order :=
  b.restingOrders.filter fun o => o.userId = account

theorem mem_ordersOf {o : Order} :
    o ∈ b.ordersOf account ↔ (∃ side price, b.Rests side price o) ∧ o.userId = account := by
  rw [ordersOf, List.mem_filter, mem_restingOrders, decide_eq_true_eq]

/-- What the orders of an account weigh is at most what its entries weigh. -/
theorem RiskTracked.sum_le_tally [LevelQueue L] {cfg : RiskConfig} {slack : Hash32 → ℕ × ℕ}
    (h : b.RiskTracked cfg slack) (hsound : b.Sound) (account : Hash32) (weight : RiskEntry → ℕ) :
    ((b.ordersOf account).map fun x => weight ⟨x.userId, x.price, x.size⟩).sum ≤
      tally account weight b.riskState.orders := by
  have hnodup : ((b.ordersOf account).map Order.id).Nodup :=
    hsound.nodup_restingOrders.sublist (List.filter_sublist.map _)
  have hle := AssocMap.sum_le_total (f := fun _ => RiskEntry.share account weight) hnodup
    (fun x hx => by
      obtain ⟨⟨side, price, hrests⟩, -⟩ := mem_ordersOf.mp hx
      obtain ⟨rfl, hentry⟩ := h.entry hrests
      exact hentry)
  refine le_of_eq_of_le (congrArg List.sum (List.map_congr_left fun x hx => ?_)) hle
  exact (if_pos (mem_ordersOf.mp hx).2).symm

/-- The notional of a resting order does not saturate. -/
theorem RiskTracked.notional_eq {cfg : RiskConfig} {slack : Hash32 → ℕ × ℕ}
    (h : b.RiskTracked cfg slack) (hcfg : cfg.LimitsNotional) {x : Order}
    (hx : x ∈ b.ordersOf account) :
    RiskEntry.notional ⟨x.userId, x.price, x.size⟩ = x.price * x.size := by
  obtain ⟨⟨side, price, hrests⟩, -⟩ := mem_ordersOf.mp hx
  obtain ⟨rfl, hentry⟩ := h.entry hrests
  have hbelow := (h.balanced.notional_le hentry).trans_lt (h.within.restingNotional_lt hcfg _)
  rw [RiskEntry.notional] at hbelow ⊢
  rw [satMul128_eq hbelow, Nat.mul_comm]

/-- What the orders of an account add up to is within the limits. -/
theorem RiskTracked.within_limits [LevelQueue L] {cfg : RiskConfig} {slack : Hash32 → ℕ × ℕ}
    (h : b.RiskTracked cfg slack) (hsound : b.Sound) {maxOpen maxNotional : ℕ}
    (hopen : cfg.maxOpenOrdersPerAccount = some maxOpen)
    (hnotional : cfg.maxNotionalPerAccount = some maxNotional) (hlt : maxNotional < u128Max)
    (account : Hash32) :
    (b.ordersOf account).length ≤ maxOpen ∧
      ((b.ordersOf account).map fun x => x.price * x.size).sum ≤ maxNotional := by
  constructor
  · calc (b.ordersOf account).length
        = ((b.ordersOf account).map fun _ => 1).sum := by simp
      _ ≤ b.riskState.counted account := h.sum_le_tally hsound account fun _ => 1
      _ ≤ b.riskState.openCount account := by
        rw [h.balanced.count]
        exact Nat.le_add_right ..
      _ ≤ maxOpen := h.within.count hopen account
  · calc ((b.ordersOf account).map fun x => x.price * x.size).sum
        = ((b.ordersOf account).map fun x =>
            RiskEntry.notional ⟨x.userId, x.price, x.size⟩).sum :=
          congrArg List.sum (List.map_congr_left fun x hx =>
            (h.notional_eq ⟨maxNotional, hnotional, hlt⟩ hx).symm)
      _ ≤ b.riskState.booked account := h.sum_le_tally hsound account RiskEntry.notional
      _ ≤ b.riskState.restingNotional account := by
        rw [h.balanced.notional]
        exact Nat.le_add_right ..
      _ ≤ maxNotional := h.within.notional hnotional account

end OrderBook

/-! ### Runs -/

section Runs

variable {L : Type} [PriceLevel L] {cfg : RiskConfig} {b : OrderBook L}

/-- The book is sound and the risk layer tracks its orders, up to some slack. -/
def OrderBook.RiskSound (cfg : RiskConfig) (b : OrderBook L) : Prop :=
  b.Sound ∧ ∃ slack, b.RiskTracked cfg slack

theorem OrderBook.RiskSound.sameState {b' : OrderBook L} (hsame : b.SameState b')
    (h : b.RiskSound cfg) : b'.RiskSound cfg := by
  obtain ⟨hsound, slack, htracked⟩ := h
  exact ⟨hsound.sameState hsame, slack, htracked.sameOrders hsame.sameOrders⟩

theorem OrderBook.RiskSound.cancelAllOrders (h : b.RiskSound cfg) :
    b.cancelAllOrders.1.RiskSound cfg := by
  obtain ⟨hsound, slack, htracked⟩ := h
  refine ⟨hsound.cancelAllOrders, ?_⟩
  rcases b.cancelAllOrders_eq with hrun | ⟨b', hsame, -, hrun⟩
  · rw [hrun]
    exact ⟨slack, htracked.sameOrders b.sameState_invalidateCache.sameOrders⟩
  · rw [hrun]
    refine ⟨_, RiskTracked.of_empty ?_ ?_ rfl rfl⟩
    · rintro s p x ⟨l, hl, -⟩
      cases s <;> cases hl
    · exact (htracked.sameOrders hsame).config

variable [LevelQueue L] [LevelMatch L] [LevelResize L] [MatchAccounting L] [MatchBalance L]

/-- **Every call keeps the resting orders tracked.** -/
theorem riskSound_steps (hcfg : cfg.LimitsNotional) :
    StepInvariant (OrderBook.RiskSound (L := L) cfg) fun _ => True where
  same hsame h := h.sameState hsame
  emit wantResult r := fun ⟨hsound, slack, h⟩ =>
    ⟨hsound.sameOrders (sameOrders_emitTrades wantResult r _), slack,
      h.sameOrders (sameOrders_emitTrades wantResult r _)⟩
  sweep id side mode user kind := fun ⟨hsound, slack, h⟩ =>
    ⟨hsound.matchOrderInner id side mode user kind, slack,
      h.matchOrderInner hcfg id side mode user kind hsound⟩
  rest hswept hstart hl _ horders hfresh himm _ := fun ⟨hsound, slack, h⟩ => by
    obtain ⟨-, _, hstart⟩ := hstart
    exact ⟨hsound.restAt hl horders hfresh himm, _,
      h.restAt hcfg hswept hstart.config hl horders hfresh hsound⟩
  tidy hl hnil := fun ⟨hsound, _⟩ => absurd hnil (hsound.nonempty hl)
  cancel hout := fun ⟨hsound, slack, h⟩ =>
    ⟨hsound.cancelAt hout.off, slack, h.cancelAt hsound hout.off⟩
  drop hout := fun ⟨hsound, slack, h⟩ =>
    ⟨hsound.dropAt hout.off, slack, h.dropAt hsound hout.off⟩
  resize _ hres := fun ⟨hsound, slack, h⟩ => by
    obtain ⟨reference, hgate⟩ := hres.risk
    exact ⟨hsound.resizeAt hres.resized, slack,
      h.resizeAt hcfg hsound hres.resized hres.shape hgate⟩
  clear h := h.cancelAllOrders
  byUser user h := by
    refine cancelOrdersByUser_keeps (fun hsame h => h.sameState hsame)
      (fun hout ⟨hsound, slack, h⟩ =>
        ⟨hsound.cancelAt hout.off, slack, h.cancelAt hsound hout.off⟩) user ?_
    obtain ⟨hsound, slack, h⟩ := h
    exact ⟨⟨fun ho => hsound.located ho, fun ho => hsound.standing ho,
      fun hl => hsound.nonempty hl⟩, slack, h.shrink rfl fun hx => hx⟩

/-- **The risk limits hold on the book.** Let limits on the open orders and on the notional of an
account be installed while the book is empty and the risk layer fresh. After every run of calls no
account has more orders resting than the first allows, nor more notional than the second. -/
theorem risk_limits_hold {maxOpen maxNotional : ℕ}
    (hopen : cfg.maxOpenOrdersPerAccount = some maxOpen)
    (hnotional : cfg.maxNotionalPerAccount = some maxNotional) (hlt : maxNotional < u128Max)
    {b : OrderBook L} (hbids : b.bids = ∅) (hasks : b.asks = ∅)
    (hrisk : b.riskState = { config := some cfg }) (commands : List Command) (account : Hash32) :
    ((b.run commands).ordersOf account).length ≤ maxOpen ∧
      (((b.run commands).ordersOf account).map fun x => x.price * x.size).sum ≤ maxNotional := by
  have hlevels : ∀ side price, (b.levels side).get? price = none :=
    get?_levels_of_empty hbids hasks
  have hstart : b.RiskSound cfg := by
    refine ⟨.of_no_levels hlevels, _, RiskTracked.of_empty ?_ ?_ ?_ ?_⟩
    · rintro s p x ⟨l, hl, -⟩
      rw [hlevels] at hl
      cases hl
    all_goals rw [hrisk]
  have hend : (b.run commands).RiskSound cfg :=
    (riskSound_steps ⟨maxNotional, hnotional, hlt⟩).calls.run (fun _ _ _ _ _ => trivial) hstart
  obtain ⟨hsound, slack, htracked⟩ := hend
  exact htracked.within_limits hsound hopen hnotional hlt account

end Runs

/-- An account with room for two orders quotes an offer and a bid, is refused a third order, is
filled in part and resizes the bid. It then drops the bid through `update_order`, and the entry left
behind keeps it from quoting again. -/
def limitedRun : List Command :=
  [.addOrder ⟨1, 110, .sell, 7, 0, .gtc, 5, .standard⟩,
    .addOrder ⟨2, 100, .buy, 7, 0, .gtc, 3, .standard⟩,
    .addOrder ⟨3, 90, .buy, 7, 0, .gtc, 1, .standard⟩,
    .submitMarketOrder 4 3 .buy 8,
    .updateOrder (.updateQuantity 2 5),
    .updateOrder (.cancel 2),
    .addOrder ⟨2, 100, .buy, 7, 0, .gtc, 4, .standard⟩]

theorem limitedRun_risk_limits_hold :
    let b : OrderBook FifoLevel := (withClock "BTC" ⟨fun n => n, 0⟩ : OrderBook FifoLevel).configure
      (.riskConfig (some { maxOpenOrdersPerAccount := some 2, maxNotionalPerAccount := some 900 }))
    ((b.run limitedRun).ordersOf 7).map Order.id = [1] ∧
      ((b.run limitedRun).ordersOf 7).length ≤ 2 ∧
      (((b.run limitedRun).ordersOf 7).map fun x => x.price * x.size).sum ≤ 900 :=
  ⟨by decide, risk_limits_hold rfl rfl (by decide) rfl rfl rfl limitedRun 7⟩

end OrderBookRs
