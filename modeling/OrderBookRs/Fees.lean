import Mathlib.Algebra.Order.BigOperators.Group.List
import Mathlib.Data.Int.Order.Basic
import OrderBookRs.Book

/-!
# Fees

`fees.rs` and the fee fields of `trade.rs`: the fallible fee, the clamped one the book charges, and
the two views of the fees of a match, the totals of `TradeResult` and the list of `TradeInfo`.

The totals are kept with `checked_add`, and a term that would overflow is dropped. All terms of a
leg have the sign of its rate, so the partial sums lie between zero and the total and nothing is
dropped while the total fits.

## Main definitions

* `FeeSchedule.tryCalculateFee`, `TradeInfo.fromTradeResult`.

## Main results

* `fee_totals_exact`.
-/

namespace OrderBookRs

namespace FeeSchedule

variable {f : FeeSchedule} {notional : ℕ} {isMaker : Bool}

/-- The rate of a leg. -/
def bps (f : FeeSchedule) (isMaker : Bool) : ℤ := if isMaker then f.makerFeeBps else f.takerFeeBps

/-- `FeeOverflow`: the notional and the rate whose product does not fit. -/
structure FeeOverflow where
  notional : ℕ
  bps : ℤ
  deriving DecidableEq, Repr

/-- `try_calculate_fee`. -/
def tryCalculateFee (f : FeeSchedule) (notional : ℕ) (isMaker : Bool) : Except FeeOverflow ℤ :=
  let bps := f.bps isMaker
  if notional * bps.natAbs ≤ u128Max then
    let magnitude := notional * bps.natAbs / 10000
    -- the conversion to `i128`
    if magnitude < 2 ^ 127 then .ok (if bps < 0 then -magnitude else magnitude)
    else .error ⟨notional, bps⟩
  else .error ⟨notional, bps⟩

theorem signed_eq {bps : ℤ} {m : ℕ} (h : bps = 0 → m = 0) :
    (if bps < 0 then -(m : ℤ) else m) = bps.sign * m := by
  rcases lt_trichotomy bps 0 with hneg | rfl | hpos
  · rw [if_pos hneg, Int.sign_eq_neg_one_of_neg hneg, neg_one_mul]
  · simp [h rfl]
  · rw [if_neg (not_lt.mpr hpos.le), Int.sign_eq_one_of_pos hpos, one_mul]

/-- The conversion to `i128` never fails, so only the product does. -/
theorem tryCalculateFee_eq : f.tryCalculateFee notional isMaker =
    if notional * (f.bps isMaker).natAbs ≤ u128Max then
      .ok ((f.bps isMaker).sign * (notional * (f.bps isMaker).natAbs / 10000 : ℕ))
    else .error ⟨notional, f.bps isMaker⟩ := by
  rw [tryCalculateFee]
  by_cases hfits : notional * (f.bps isMaker).natAbs ≤ u128Max
  · have hconv : notional * (f.bps isMaker).natAbs / 10000 < 2 ^ 127 := by
      rw [u128Max] at hfits
      omega
    rw [if_pos hfits, if_pos hfits, if_pos hconv, signed_eq fun h => by simp [h]]
  · rw [if_neg hfits, if_neg hfits]

/-- `calculate_fee` is the fallible fee with a clamp in place of the failure. -/
theorem calculateFee_eq : f.calculateFee notional isMaker =
    match f.tryCalculateFee notional isMaker with
    | .ok fee => fee
    | .error overflow =>
      if overflow.bps < 0 then -(u128Max / 10000 : ℕ) else (u128Max / 10000 : ℕ) := by
  rw [tryCalculateFee_eq, calculateFee, satMul128, ← bps]
  by_cases hfits : notional * (f.bps isMaker).natAbs ≤ u128Max
  · rw [if_pos hfits, min_eq_left hfits, signed_eq fun h => by simp [h]]
  · rw [if_neg hfits, min_eq_right (not_le.mp hfits).le]

theorem natAbs_calculateFee :
    (f.calculateFee notional isMaker).natAbs =
      satMul128 notional (f.bps isMaker).natAbs / 10000 := by
  rw [calculateFee, ← bps]
  split_ifs <;> omega

/-- The fees of a leg have one sign. -/
theorem calculateFee_sign (f : FeeSchedule) (isMaker : Bool) :
    (∀ notional, 0 ≤ f.calculateFee notional isMaker) ∨
      ∀ notional, f.calculateFee notional isMaker ≤ 0 := by
  rcases lt_or_ge (f.bps isMaker) 0 with h | h
  · refine .inr fun notional => ?_
    rw [calculateFee, ← bps, if_pos h]
    omega
  · refine .inl fun notional => ?_
    rw [calculateFee, ← bps, if_neg (not_lt.mpr h)]
    omega

end FeeSchedule

/-- `TransactionInfo`, without the trade's id. -/
structure TransactionInfo where
  price : ℕ
  quantity : ℕ
  makerOrderId : OrderId
  takerOrderId : OrderId
  makerFee : ℤ
  takerFee : ℤ
  deriving DecidableEq, Repr

/-- `TradeInfo`, without what only repeats the match result. -/
structure TradeInfo where
  symbol : String
  orderId : OrderId
  remainingQuantity : ℕ
  transactionCount : ℕ
  transactions : List TransactionInfo
  deriving DecidableEq, Repr

/-- `TradeInfo::from_trade_result`. -/
def TradeInfo.fromTradeResult (result : TradeResult) (feeSchedule : Option FeeSchedule) :
    TradeInfo :=
  let schedule := feeSchedule.filter fun s => !s.isZeroFee
  let fee (t : Trade) (isMaker : Bool) : ℤ :=
    schedule.elim 0 fun s => s.calculateFee (satMul128 t.price t.quantity) isMaker
  { symbol := result.symbol
    orderId := result.matchResult.orderId
    remainingQuantity := result.matchResult.remainingQuantity
    transactionCount := result.matchResult.trades.length
    transactions := result.matchResult.trades.map fun t =>
      ⟨t.price, t.quantity, t.makerOrderId, t.takerOrderId, fee t true, fee t false⟩ }

/-- The range of `i128`. -/
abbrev FitsI128 (n : ℤ) : Prop := -2 ^ 127 ≤ n ∧ n < 2 ^ 127

/-- Terms of one sign are all added as long as the total fits: the partial sums lie between. -/
theorem foldl_addFee {fees : List ℤ} {sum : ℤ} (hsign : (∀ x ∈ fees, 0 ≤ x) ∨ ∀ x ∈ fees, x ≤ 0)
    (hsum : FitsI128 sum) (htotal : FitsI128 (sum + fees.sum)) :
    fees.foldl TradeResult.addFee sum = sum + fees.sum := by
  induction fees generalizing sum with
  | nil => simp
  | cons x fees ih =>
    rw [List.sum_cons] at htotal ⊢
    have hbetween : 0 ≤ x ∧ 0 ≤ fees.sum ∨ x ≤ 0 ∧ fees.sum ≤ 0 := by
      simp only [List.forall_mem_cons] at hsign
      exact hsign.imp (fun h => ⟨h.1, List.sum_nonneg h.2⟩) fun h =>
        ⟨h.1, List.sum_induction (· ≤ 0) (fun _ _ => add_nonpos) le_rfl h.2⟩
    have hfits : FitsI128 (sum + x) := by
      simp only [FitsI128] at hsum htotal ⊢
      omega
    have hrest : (∀ y ∈ fees, 0 ≤ y) ∨ ∀ y ∈ fees, y ≤ 0 :=
      hsign.imp (fun h => (List.forall_mem_cons.mp h).2) fun h => (List.forall_mem_cons.mp h).2
    rw [← add_assoc] at htotal ⊢
    rw [List.foldl_cons, TradeResult.addFee, if_pos hfits, ih hrest hfits htotal]

/-- The total of one leg is the sum of the fees of its trades, if that fits. -/
theorem feeTotal_eq_sum (f : FeeSchedule) (isMaker : Bool) (trades : List Trade)
    (h : FitsI128 (trades.map fun t =>
      f.calculateFee (satMul128 t.price t.quantity) isMaker).sum) :
    TradeResult.feeTotal f isMaker trades =
      (trades.map fun t => f.calculateFee (satMul128 t.price t.quantity) isMaker).sum := by
  rw [TradeResult.feeTotal, ← List.foldl_map (g := TradeResult.addFee),
    foldl_addFee ?_ (by decide) (by rwa [zero_add]), zero_add]
  exact (f.calculateFee_sign isMaker).imp (fun hs => List.forall_mem_map.mpr fun _ _ => hs _)
    fun hs => List.forall_mem_map.mpr fun _ _ => hs _

/-- **Fee totals are exact**: the fallible fee fails exactly where the product does not fit and is
otherwise exact, the clamped fee agrees with it and its magnitude grows with the notional, and the
totals of a match are the sums of the listed fees. -/
theorem fee_totals_exact (f : FeeSchedule) :
    (∀ notional isMaker,
      ((∃ fee, f.tryCalculateFee notional isMaker = .ok fee) ↔
        notional * (f.bps isMaker).natAbs ≤ u128Max) ∧
      ∀ fee, f.tryCalculateFee notional isMaker = .ok fee →
        fee = (f.bps isMaker).sign * (notional * (f.bps isMaker).natAbs / 10000 : ℕ) ∧
          f.calculateFee notional isMaker = fee) ∧
    (∀ isMaker notional notional', notional ≤ notional' →
      (f.calculateFee notional isMaker).natAbs ≤ (f.calculateFee notional' isMaker).natAbs) ∧
    ∀ symbol r engineSeq (schedule : Option FeeSchedule),
      let result := TradeResult.withFees symbol r schedule engineSeq
      let listed := (TradeInfo.fromTradeResult result schedule).transactions
      (FitsI128 (listed.map (·.makerFee)).sum →
        result.totalMakerFees = (listed.map (·.makerFee)).sum) ∧
      (FitsI128 (listed.map (·.takerFee)).sum →
        result.totalTakerFees = (listed.map (·.takerFee)).sum) := by
  refine ⟨fun notional isMaker => ?_, fun isMaker notional notional' hle => ?_,
    fun symbol r engineSeq schedule => ?_⟩
  · rw [FeeSchedule.calculateFee_eq, FeeSchedule.tryCalculateFee_eq]
    split_ifs with hfits
    · simp [hfits]
    · simp [hfits]
  · simp only [FeeSchedule.natAbs_calculateFee]
    exact Nat.div_le_div_right (min_le_min_right _ (Nat.mul_le_mul_right _ hle))
  · simp only [TradeInfo.fromTradeResult, TradeResult.withFees, List.map_map, Function.comp_def]
    cases schedule with
    | none => simp
    | some s =>
      by_cases hzero : s.isZeroFee
      · simp [hzero, Option.filter]
      · simp only [hzero, Option.filter]
        exact ⟨feeTotal_eq_sum s true r.trades, feeTotal_eq_sum s false r.trades⟩

/-- A taker fee of five basis points on two trades, of which only the larger is charged. -/
theorem fee_totals_exact_two_trades :
    let trades : List Trade := [⟨9, 1, 100, 150⟩, ⟨9, 2, 100, 1⟩]
    let f : FeeSchedule := ⟨-2, 5⟩
    (f.tryCalculateFee 15000 false = .ok 7 ∧
      (7 : ℤ) = (f.bps false).sign * (15000 * (f.bps false).natAbs / 10000 : ℕ) ∧
        f.calculateFee 15000 false = 7) ∧
      (f.calculateFee 100 false).natAbs ≤ (f.calculateFee 15000 false).natAbs ∧
      (TradeResult.withFees "BTC/USD" ⟨9, trades, 0, [], false⟩ (some f) 0).totalTakerFees = 7 :=
  ⟨⟨rfl, ((fee_totals_exact ⟨-2, 5⟩).1 15000 false).2 7 rfl⟩,
    (fee_totals_exact ⟨-2, 5⟩).2.1 false 100 15000 (by decide),
    ((fee_totals_exact ⟨-2, 5⟩).2.2 "BTC/USD"
      ⟨9, [⟨9, 1, 100, 150⟩, ⟨9, 2, 100, 1⟩], 0, [], false⟩ 0 (some ⟨-2, 5⟩)).2 (by decide)⟩

end OrderBookRs
