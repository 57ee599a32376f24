import OrderBookRs.Calls

/-!
# The accounts of a sweep

A sweep keeps its budget in three places: the stop condition of the loop, the match result it
returns, and the trades it applied to makers. `let _ = match_result.add_trade(trade)` throws a
refused trade away, so that the three agree is a fact to prove: for a sweep measured in base
quantity no trade is ever refused.

## Main definitions

* `BaseAccounts`: budget, result and applied trades of a sweep agree.

## Main results

* `OrderBook.sweepOf_cases`: what the sweep of a new order returns.
* `OrderBook.sweepOf_accounts`: its traded and remaining quantity add up to the order's.
-/

namespace OrderBookRs

open PriceLevel OrderBook

variable {L : Type} [PriceLevel L] {b b' : OrderBook L} {o : Order} {q : ℕ} {outcome : MatchOutcome}
  {t : Taker} {sw : Sweep L}

theorem foldl_addFilledOrderId (ids : List OrderId) (r : MatchResult) :
    ids.foldl MatchResult.addFilledOrderId r =
      { r with filledOrderIds := r.filledOrderIds ++ ids } := by
  induction ids generalizing r with
  | nil => simp
  | cons id ids ih => simp [ih, MatchResult.addFilledOrderId]

/-- Trades that fit into what remains are all recorded. -/
theorem foldl_recordTrade [MatchAccounting L] (ts : List Trade) (r : MatchResult)
    (h : tradedQuantity ts ≤ r.remainingQuantity) :
    ts.foldl (recordTrade L) r =
      { r with
        trades := r.trades ++ ts
        remainingQuantity := r.remainingQuantity - tradedQuantity ts } := by
  induction ts generalizing r with
  | nil => simp
  | cons t ts ih =>
    rw [tradedQuantity_cons] at h
    have hrecord : recordTrade L r t = { r with
        trades := r.trades ++ [t], remainingQuantity := r.remainingQuantity - t.quantity } := by
      rw [recordTrade, MatchAccounting.addTrade_eq r t (by omega)]
    rw [List.foldl_cons, hrecord, ih _ (by dsimp only; omega)]
    simp [Nat.sub_sub]

/-- A match with the whole budget leaves the budget with what the level left of it. -/
theorem fillLevel_stop [MatchAccounting L] {price : ℕ} {l l' : L} {r : MatchResult}
    (hstop : sw.stop = .baseQty q) (hrun : matchOrder l q t.orderId .standard = (r, l')) :
    (fillLevel t sw price q r l').stop = .baseQty r.remainingQuantity := by
  have haccount := MatchAccounting.traded_add_remaining hrun
  show sw.stop.consume _ price = _
  rw [hstop, StopCondition.consume]
  congr 1
  omega

/-! ### Trades applied so far -/

@[simp] theorem fillLevel_fills (t : Taker) (sw : Sweep L) (price q : ℕ) (r : MatchResult) (l : L) :
    (fillLevel t sw price q r l).book.fills = sw.book.fills ++ r.trades := by
  obtain ⟨_, _, _, _, _, _, _, h⟩ := fillLevel_book t sw price q r l
  rw [h]

@[simp] theorem stpCancel_fills (b : OrderBook L) (side : Side) (price : ℕ) (l : L) (o : Order) :
    (b.stpCancel side price l o).fills = b.fills := by
  obtain ⟨_, _, _, _, _, h⟩ := stpCancel_sameOrders b side price l o
  rw [h]
  rfl

omit [PriceLevel L] in
@[simp] theorem finishSweep_fills (t : Taker) (sw : Sweep L) :
    (finishSweep t sw).fills = sw.book.fills := by
  obtain ⟨_, _, _, h⟩ := finishSweep_frame t sw
  rw [h]

omit [PriceLevel L] in
theorem OrderBook.SameState.fills_eq (h : b.SameState b') : b'.fills = b.fills := by
  obtain ⟨_, _, _, rfl⟩ := h
  rfl

omit [PriceLevel L] in
theorem emitTrades_fills (wantResult : Bool) (r : MatchResult) (b : OrderBook L) :
    (emitTrades wantResult r b).2.fills = b.fills := by
  obtain ⟨_, _, _, _, _, h⟩ := sameOrders_emitTrades wantResult r b
  rw [h]

theorem cancelAt_fills (b : OrderBook L) (side : Side) (price : ℕ) (l : L) (o : Order) :
    (b.cancelAt side price l o).fills = b.fills := by
  rw [cancelAt]
  split_ifs
  · exact stpCancel_fills b side price l o
  · exact stpCancel_fills b side price l o

theorem dropAt_fills (b : OrderBook L) (side : Side) (price : ℕ) (l : L) (id : OrderId) :
    (b.dropAt side price l id).fills = b.fills := by
  obtain ⟨_, _, _, _, _, h⟩ := b.dropAt_sameOrders side price l id
  rw [h]
  split_ifs <;> rfl

theorem resizeAt_fills (b : OrderBook L) (side : Side) (price : ℕ) (l : L) (o : Order) :
    (b.resizeAt side price l o).fills = b.fills := by
  obtain ⟨_, _, _, _, _, h⟩ := b.resizeAt_sameOrders side price l o
  rw [h]
  split_ifs <;> rfl

theorem restAt_fills (b : OrderBook L) (o resting : Order) (l : L) (remaining : ℕ) :
    (b.restAt o resting l remaining).fills = b.fills := by
  obtain ⟨_, _, _, _, _, h⟩ := b.restAt_sameOrders o resting l remaining
  rw [h]
  rfl

section Queue

variable [LevelQueue L]

theorem restResidual_fills (o : Order) (remaining : ℕ) (b : OrderBook L) :
    (restResidual o remaining b).2.fills = b.fills := by
  rcases restResidual_cases o remaining b with
    ⟨l, l', -, -, -, -, hstate⟩ | ⟨e, -, -, hstate | ⟨-, hstate⟩⟩
  · rw [hstate.fills_eq, restAt_fills]
  · exact hstate.fills_eq
  · exact (hstate.fills_eq).trans rfl

theorem cancelOrderWithReason_fills (b : OrderBook L) (id : OrderId) (reason : CancelReason) :
    (b.cancelOrderWithReason id reason).1.fills = b.fills := by
  rcases cancelOrderWithReason_cases b id reason with
    ⟨hstate, -, -⟩ | ⟨side, price, l, l', o, -, -, -, hstate⟩
  · exact hstate.fills_eq
  · exact (hstate.fills_eq).trans (cancelAt_fills b side price l' o)

end Queue

/-- Only makers of the level trade. -/
theorem tradesOf_eq_nil [MatchAccounting L] {l l' : L} {taker i : OrderId} {r : MatchResult}
    (hrun : matchOrder l q taker .standard = (r, l')) (hi : i ∉ orderIds l) :
    tradesOf i r.trades = [] := by
  refine List.filter_eq_nil_iff.mpr fun x hx hmaker => hi ?_
  rw [← of_decide_eq_true hmaker]
  exact (MatchAccounting.trade_mem hrun hx).1

/-! ### Budget, result and applied trades -/

/-- A sweep that started with the budget `q` and the trade history `fills` has `remaining` left, in
the stop condition and in the result, and its result lists exactly the trades it applied. -/
structure BaseAccounts (q : ℕ) (fills : List Trade) (sw : Sweep L) (remaining : ℕ) : Prop where
  stop : sw.stop = .baseQty remaining
  result : sw.result.remainingQuantity = remaining
  traded : tradedQuantity sw.result.trades + remaining = q
  applied : sw.book.fills = fills ++ sw.result.trades

omit [PriceLevel L] in
theorem BaseAccounts.start (b : OrderBook L) (t : Taker) (q : ℕ) (limit : Option ℕ) :
    BaseAccounts q b.fills (b.startSweep t (.baseQty q limit)) q :=
  ⟨rfl, rfl, by simp [startSweep, MatchResult.new], by simp [startSweep, MatchResult.new]⟩

/-- A step only spends budget. -/
theorem BaseAccounts.step [MatchAccounting L] {price remaining : ℕ} {fills : List Trade}
    {sw' : Sweep L} (hs : SweepStep t price sw sw') (h : BaseAccounts q fills sw remaining) :
    ∃ remaining' ≤ remaining, BaseAccounts q fills sw' remaining' := by
  cases hs with
  | @fill q' l l' r level kind allows pos cap safe run =>
    have hcap : q' ≤ remaining := by
      rw [h.stop] at cap
      exact cap.trans (lotFloor_le ..)
    have htraded : tradedQuantity r.trades + r.remainingQuantity = q' :=
      MatchAccounting.traded_add_remaining run
    have hresult : (fillLevel t sw price q' r l').result =
        { sw.result with
          trades := sw.result.trades ++ r.trades
          remainingQuantity := sw.result.remainingQuantity - tradedQuantity r.trades
          filledOrderIds := sw.result.filledOrderIds ++ r.filledOrderIds } := by
      rw [fillLevel, processLevelMatch]
      rw [foldl_recordTrade r.trades sw.result (by rw [h.result]; omega), foldl_addFilledOrderId]
    refine ⟨remaining - tradedQuantity r.trades, Nat.sub_le .., ?_, ?_, ?_, ?_⟩
    · have hstop : (fillLevel t sw price q' r l').stop =
          sw.stop.consume (q' - r.remainingQuantity) price := rfl
      have hexecuted : q' - r.remainingQuantity = tradedQuantity r.trades := by omega
      rw [hstop, hexecuted, h.stop]
      rfl
    · rw [hresult, h.result]
    · have := h.traded
      rw [hresult, tradedQuantity_append]
      omega
    · rw [fillLevel_fills, hresult, h.applied, List.append_assoc]
  | cancel =>
    exact ⟨remaining, le_rfl, h.stop, h.result, h.traded, (stpCancel_fills ..).trans h.applied⟩
  | markEmpty | flag =>
    exact ⟨remaining, le_rfl, h.stop, h.result, h.traded, h.applied⟩

theorem BaseAccounts.run [MatchAccounting L] {remaining : ℕ} {fills : List Trade} {sw' : Sweep L}
    (hrun : SweepRun t sw sw') (h : BaseAccounts q fills sw remaining) :
    ∃ remaining' ≤ remaining, BaseAccounts q fills sw' remaining' :=
  hrun.invariant (J := fun sw' => ∃ remaining' ≤ remaining, BaseAccounts q fills sw' remaining')
    (fun hs ⟨r, hr, hJ⟩ => by
      obtain ⟨r', hr', hJ'⟩ := hJ.step hs
      exact ⟨r', hr'.trans hr, hJ'⟩)
    ⟨remaining, le_rfl, h⟩

namespace OrderBook

/-! ### The sweep of a new order -/

/-- What the sweep of a new order fixes before its loop. -/
def takerOf (b : OrderBook L) (o : Order) : Taker :=
  b.taker o.id o.side (some o.price) o.userId (takerKind o)

/-- The sweep of a new order, run to the end of its loop. -/
def sweepFor (b : OrderBook L) (o : Order) : Sweep L :=
  b.openSweep.sweep (b.takerOf o) (.baseQty o.totalQuantity (some o.price))

/-- The dry run of that sweep. -/
def dryRunOf (b : OrderBook L) (o : Order) : Plan L :=
  b.dryRun (b.takerOf o) (.baseQty o.totalQuantity (some o.price))

/-- No level on the other side is within the limit of the order. -/
def OutOfReach (b : OrderBook L) (o : Order) : Prop :=
  ∀ price l, (b.levels o.side.opposite).get? price = some l → o.side.crosses o.price price = false

theorem dryRunOf_of_outOfReach (h : b.OutOfReach o) :
    b.dryRunOf o = { stop := .baseQty o.totalQuantity } :=
  Plan.loop_of_not_allows fun e he => h e.1 e.2 (mem_sweepEntries.mp he)

/-- **What the sweep of a new order returns**: nothing traded on an empty side; else the loop's
result, or an error if self-trade prevention stopped the taker before it traded. -/
theorem sweepOf_cases (o : Order) (b : OrderBook L) :
    ((b.levels o.side.opposite).isEmpty ∧
        sweepOf o b = (.ok { result := .new o.id o.totalQuantity }, b.openSweep)) ∨
      ∃ tracker, sweepOf o b =
        (if (b.sweepFor o).stpTakerCancelled ∧ (b.sweepFor o).result.trades.isEmpty then
            .error (.selfTradePrevented b.stpMode o.id o.userId)
          else .ok ⟨(b.sweepFor o).result, (b.sweepFor o).stpTakerCancelled,
            (b.sweepFor o).postOnlyRejected⟩,
          { finishSweep (b.takerOf o) (b.sweepFor o) with orderStateTracker := tracker }) := by
  rcases matchOrderInner_cases o.id o.side (.baseQty o.totalQuantity (some o.price)) o.userId
      (takerKind o) b with h | ⟨tracker, h⟩
  · exact Or.inl h
  · have ht : b.taker o.id o.side (MatchMode.baseQty o.totalQuantity (some o.price)).limitPrice
        o.userId (takerKind o) = b.takerOf o := rfl
    refine Or.inr ⟨tracker, h.trans ?_⟩
    rw [ht, ← sweepFor, sweepOutcome]
    split_ifs
    · rfl
    · rfl
    · rfl

/-- A sweep that returns an outcome. -/
theorem sweepOf_eq_ok (h : sweepOf o b = (.ok outcome, b')) :
    ((b.levels o.side.opposite).isEmpty ∧ outcome = { result := .new o.id o.totalQuantity } ∧
        b' = b.openSweep) ∨
      ∃ tracker, outcome = ⟨(b.sweepFor o).result, (b.sweepFor o).stpTakerCancelled,
          (b.sweepFor o).postOnlyRejected⟩ ∧
        b' = { finishSweep (b.takerOf o) (b.sweepFor o) with orderStateTracker := tracker } := by
  rcases sweepOf_cases o b with ⟨hempty, hrun⟩ | ⟨tracker, hrun⟩
  · rw [hrun] at h
    cases h
    exact Or.inl ⟨hempty, rfl, rfl⟩
  · rw [hrun] at h
    obtain ⟨hout, rfl⟩ := Prod.mk.inj h
    split_ifs at hout
    cases hout
    exact Or.inr ⟨tracker, rfl, rfl⟩

theorem sweepFor_follows (b : OrderBook L) (o : Order) : Follows (b.dryRunOf o) (b.sweepFor o) :=
  sweep_follows b.openSweep (b.takerOf o) (.baseQty o.totalQuantity (some o.price))

theorem sweepFor_run [LevelQueue L] [LevelMatch L] (b : OrderBook L) (o : Order) :
    SweepRun (b.takerOf o) (b.openSweep.startSweep (b.takerOf o)
      (.baseQty o.totalQuantity (some o.price))) (b.sweepFor o) := sweep_run ..

/-! ### Post-only orders -/

/-- A post-only order trades with no one. -/
theorem sameState_sweepOf_of_postOnly [LevelQueue L] [LevelMatch L] (hpost : o.isPostOnly) :
    b.SameState (sweepOf o b).2 := by
  refine matchOrderInner_idle _ _ _ _ _ ?_
  exact Plan.Idle.loop_of_postOnly (by simp [taker, takerKind, hpost]) ⟨rfl, rfl⟩ _

/-- Only a post-only order is rejected by the probe. -/
theorem isPostOnly_of_rejected (h : sweepOf o b = (.ok outcome, b'))
    (hflag : outcome.takerPostOnlyRejected) : o.isPostOnly := by
  by_contra hpost
  rcases sweepOf_eq_ok h with ⟨-, rfl, -⟩ | ⟨tracker, rfl, -⟩
  · cases hflag
  · have hplan : (b.dryRunOf o).postOnlyRejected = false :=
      Plan.rejected_loop (by simp [takerOf, taker, takerKind, hpost]) _
    rw [← (b.sweepFor_follows o).rejected_eq] at hplan
    exact absurd (hflag.symm.trans hplan) (by decide)

/-! ### The accounts at the end -/

variable [LevelQueue L] [LevelMatch L] [MatchAccounting L]

theorem sweep_accounts (b : OrderBook L) (t : Taker) (q : ℕ) (limit : Option ℕ) :
    ∃ remaining ≤ q, BaseAccounts q b.fills (b.sweep t (.baseQty q limit)) remaining :=
  (BaseAccounts.start b t q limit).run (b.sweep_run t (.baseQty q limit))

theorem sweepFor_accounts (b : OrderBook L) (o : Order) : ∃ remaining ≤ o.totalQuantity,
    BaseAccounts o.totalQuantity b.fills (b.sweepFor o) remaining :=
  b.openSweep.sweep_accounts (b.takerOf o) o.totalQuantity (some o.price)

/-- **The sweep of a new order** reports exactly the trades it applied, and traded and remaining
quantity add up to the order's. -/
theorem sweepOf_accounts (h : sweepOf o b = (.ok outcome, b')) :
    tradedQuantity outcome.result.trades + outcome.result.remainingQuantity = o.totalQuantity ∧
      b'.fills = b.fills ++ outcome.result.trades := by
  rcases sweepOf_eq_ok h with ⟨-, rfl, rfl⟩ | ⟨tracker, rfl, rfl⟩
  · exact ⟨by simp [MatchResult.new], by simp [MatchResult.new, openSweep]⟩
  · obtain ⟨remaining, -, hacc⟩ := b.sweepFor_accounts o
    rw [hacc.result]
    refine ⟨hacc.traded, ?_⟩
    rw [finishSweep_fills, hacc.applied]

/-- A sweep that ends in a post-only rejection made no trade. -/
theorem trades_of_rejected (h : sweepOf o b = (.ok outcome, b'))
    (hflag : outcome.takerPostOnlyRejected) : outcome.result.trades = [] := by
  have hsame := sameState_sweepOf_of_postOnly (b := b) (isPostOnly_of_rejected h hflag)
  rw [h] at hsame
  have hfills : b.fills ++ outcome.result.trades = b.fills ++ [] := by
    rw [← (sweepOf_accounts h).2, List.append_nil]
    exact hsame.sameOrders.sameRests.fills_eq
  exact List.append_cancel_left hfills

/-- A sweep that fails made no trade. -/
theorem fills_of_sweepOf_error {e : OrderBookError} (h : sweepOf o b = (.error e, b')) :
    b'.fills = b.fills := by
  rcases sweepOf_cases o b with ⟨-, hrun⟩ | ⟨tracker, hrun⟩
  · rw [hrun] at h
    cases h
  · obtain ⟨remaining, -, hacc⟩ := b.sweepFor_accounts o
    rw [hrun] at h
    obtain ⟨hout, rfl⟩ := Prod.mk.inj h
    split_ifs at hout with hfail
    rw [finishSweep_fills, hacc.applied, List.isEmpty_iff.mp hfail.2, List.append_nil]

end OrderBook

end OrderBookRs
