import Mathlib.Algebra.Order.Group.Abs
import Mathlib.Data.Int.Order.Basic
import OrderBookRs.RiskCounters

/-!
# What the pre-trade checks decide

`check_limit_admission` and `check_modify_admission` run their gates in order and stop at the first
that refuses, so each accepts exactly when all of its gates do. The gates compare saturating
products and sums. For the notional the two checks then agree as they must: a validated modify is
admitted once its original is cancelled. For the price band saturation hides a deviation: where the
band itself is as wide as `u128` can say, nothing is outside.

## Main results

* `RiskState.checkLimitAdmission_eq_ok_iff`, `RiskState.checkModifyAdmission_eq_ok_iff`.
* `modify_check_predicts_admission`.
* `price_band_exact_iff`.
-/

namespace OrderBookRs

namespace RiskState

variable {r : RiskState} {cfg : RiskConfig} {account : Hash32} {price q : ℕ}
  {reference : Option ℕ}

/-! ### The gates -/

theorem checkOpenOrders_eq_ok_iff :
    r.checkOpenOrders cfg account = .ok () ↔
      ∀ limit, cfg.maxOpenOrdersPerAccount = some limit → r.openCount account < limit := by
  rw [checkOpenOrders]
  cases cfg.maxOpenOrdersPerAccount with
  | none => simp
  | some => simp [ite_eq_right_iff]

/-- The notional gate does not decide by what its error reports. -/
theorem checkNotional_eq_ok_iff {current base attempted : ℕ} :
    checkNotional cfg account current base attempted = .ok () ↔
      ∀ limit, cfg.maxNotionalPerAccount = some limit → satAdd128 base attempted ≤ limit := by
  rw [checkNotional]
  cases cfg.maxNotionalPerAccount with
  | none => simp
  | some => simp [ite_eq_right_iff]

/-- The gates of a check run in order. -/
theorem gates_eq_ok_iff {ε : Type} {first second : Except ε Unit} :
    (do first; second) = .ok () ↔ first = .ok () ∧ second = .ok () := by
  cases first with
  | error | ok => simp [bind, Except.bind]

theorem checkLimitAdmission_of_none (hconfig : r.config = none) :
    r.checkLimitAdmission account price q reference = .ok () := by
  rw [checkLimitAdmission, hconfig]

theorem checkModifyAdmission_of_none (hconfig : r.config = none) (i : OrderId) :
    r.checkModifyAdmission i account price q reference = .ok () := by
  rw [checkModifyAdmission, hconfig]

theorem checkLimitAdmission_eq_ok_iff (hconfig : r.config = some cfg) :
    r.checkLimitAdmission account price q reference = .ok () ↔
      r.checkOpenOrders cfg account = .ok () ∧
        checkNotional cfg account (r.restingNotional account) (r.restingNotional account)
          (satMul128 q price) = .ok () ∧
        checkPriceBand cfg price reference = .ok () := by
  rw [checkLimitAdmission, hconfig]
  dsimp only
  rw [gates_eq_ok_iff, gates_eq_ok_iff]

theorem checkModifyAdmission_eq_ok_iff {i : OrderId} {e : RiskEntry} (hconfig : r.config = some cfg)
    (hi : r.orders.lookup i = some e) :
    r.checkModifyAdmission i account price q reference = .ok () ↔
      checkNotional cfg account (r.restingNotional account)
          (r.restingNotional account - e.notional) (satMul128 q price) = .ok () ∧
        checkPriceBand cfg price reference = .ok () := by
  rw [checkModifyAdmission, hconfig]
  dsimp only
  rw [hi]
  exact gates_eq_ok_iff

end RiskState

/-! ### The modify check -/

open RiskState

/-- **The modify check predicts the later admission.** On a risk state whose open-order counters
are the counts of its entries, with no account above the configured number of orders, swapping a
tracked order's contribution in the check accepts exactly what releasing it and running the full
admission accepts. The notional counters may hold anything: both checks subtract and add the same
saturating amounts. -/
theorem modify_check_predicts_admission {r : RiskState} {i : OrderId} {e : RiskEntry}
    (hcount : ∀ a, r.openCount a = tally a (fun _ => 1) r.orders)
    (hwithin : ∀ cfg limit, r.config = some cfg → cfg.maxOpenOrdersPerAccount = some limit →
      ∀ a, r.openCount a ≤ limit)
    (hi : r.orders.lookup i = some e) (price q : ℕ) (reference : Option ℕ) :
    r.checkModifyAdmission i e.account price q reference = .ok () ↔
      (r.onCancel i).checkLimitAdmission e.account price q reference = .ok () := by
  cases hconfig : r.config with
  | none =>
    have hconfig' : (r.onCancel i).config = none := by rw [config_onCancel, hconfig]
    exact iff_of_true (checkModifyAdmission_of_none hconfig i)
      (checkLimitAdmission_of_none hconfig')
  | some cfg =>
    have hreads := (held_onCancel hconfig hi e.account).trans (if_pos rfl)
    have hconfig' : (r.onCancel i).config = some cfg := by rw [config_onCancel, hconfig]
    -- the order that is cancelled makes room for the one that is admitted
    have hopen : (r.onCancel i).checkOpenOrders cfg e.account = .ok () := by
      refine checkOpenOrders_eq_ok_iff.mpr fun limit hlimit => ?_
      have hone : 1 ≤ tally e.account (fun _ => 1) r.orders := by
        simpa only [RiskEntry.share_self] using share_le_tally e.account (fun _ => 1) hi
      have hle := hwithin cfg limit hconfig hlimit e.account
      have hheld := hcount e.account
      rw [openCount_of_held hreads]
      dsimp only
      omega
    rw [checkModifyAdmission_eq_ok_iff hconfig hi, checkLimitAdmission_eq_ok_iff hconfig',
      checkNotional_eq_ok_iff, checkNotional_eq_ok_iff, restingNotional_of_held hreads]
    exact ⟨fun h => ⟨hopen, h⟩, fun h => h.2⟩

/-- Limits of one order and a notional of 1000, and a band of five percent. -/
def oneOrderLimits : RiskState :=
  { config := some ⟨some 1, some 1000, some 500, some (.fixedPrice 100)⟩ }

/-- The account has as many orders as it may have; one more is refused, a change of that one is
not. -/
theorem oneOrderLimits_predicts_admission :
    (∃ e, (oneOrderLimits.onAdmission 1 7 100 5).checkLimitAdmission 7 102 6 (some 100) =
        .error e) ∧
      (oneOrderLimits.onAdmission 1 7 100 5).checkModifyAdmission 1 7 102 6 (some 100) = .ok () ∧
      ((oneOrderLimits.onAdmission 1 7 100 5).onCancel 1).checkLimitAdmission 7 102 6 (some 100) =
        .ok () := by
  have hempty : oneOrderLimits.Balanced fun _ => (0, 0) := ⟨fun _ => rfl, fun _ => rfl⟩
  have hfits : oneOrderLimits.restingNotional 7 + satMul128 5 100 < 2 ^ 128 := by decide +kernel
  have hbalanced := hempty.onAdmission rfl 1 hfits
  have haccepted : (oneOrderLimits.onAdmission 1 7 100 5).checkModifyAdmission 1 7 102 6
      (some 100) = .ok () := by decide +kernel
  refine ⟨⟨_, rfl⟩, haccepted, (modify_check_predicts_admission (e := ⟨7, 100, 5⟩)
    hbalanced.count ?_ rfl 102 6 (some 100)).mp haccepted⟩
  intro cfg limit hcfg hlimit a
  cases hcfg
  cases hlimit
  rw [openCount_of_held ((onAdmission_spec rfl 1 7 100 5).1 a)]
  split_ifs
  · exact le_rfl
  · exact Nat.zero_le 1

/-! ### The price band -/

/-- What the band check refuses: a price outside the band, unless the band is as wide as `u128` can
say. -/
theorem checkPriceBand_refuses_iff {cfg : RiskConfig} {bps price reference : ℕ}
    (hband : cfg.priceBandBps = some bps) (hreference : 0 < reference) :
    (∃ e, checkPriceBand cfg price (some reference) = .error e) ↔
      bps * reference < ((price - reference) + (reference - price)) * 10000 ∧
        bps * reference < u128Max := by
  have hrefuses : (∃ e, checkPriceBand cfg price (some reference) = .error e) ↔
      satMul128 bps reference < satMul128 ((price - reference) + (reference - price)) 10000 := by
    simp only [checkPriceBand, hband, if_pos hreference]
    split_ifs with hover
    · exact iff_of_true ⟨_, rfl⟩ hover
    · exact iff_of_false (by simp) hover
  rw [hrefuses, satMul128, satMul128, lt_min_iff, min_lt_iff, min_lt_iff]
  omega

/-- **The price band is exact unless it saturates.** For a positive reference, refusing a price is
the same as its deviation being more than the band over the unbounded integers, exactly when the
band times the reference is below `u128::MAX` or the price is not outside. -/
theorem price_band_exact_iff {cfg : RiskConfig} {bps price reference : ℕ}
    (hband : cfg.priceBandBps = some bps) (hreference : 0 < reference) :
    ((∃ e, checkPriceBand cfg price (some reference) = .error e) ↔
        (bps : ℤ) * reference < |(price : ℤ) - reference| * 10000) ↔
      bps * reference < u128Max ∨ |(price : ℤ) - reference| * 10000 ≤ (bps : ℤ) * reference := by
  have hdeviation : |(price : ℤ) - reference| =
      (((price - reference) + (reference - price) : ℕ) : ℤ) := by
    rcases le_total price reference with hle | hle
    · rw [abs_of_nonpos (by omega)]
      omega
    · rw [abs_of_nonneg (by omega)]
      omega
  rw [checkPriceBand_refuses_iff hband hreference, hdeviation]
  norm_cast
  generalize bps * reference = band
  generalize (price - reference + (reference - price)) * 10000 = scaled
  omega

/-- A band of five percent. -/
def fivePercent : RiskConfig := { priceBandBps := some 500 }

/-- At 105 a price is on the band around 100, at 106 outside. -/
theorem fivePercent_exact :
    ((∃ e, checkPriceBand fivePercent 105 (some 100) = .error e) ↔
        ((500 : ℕ) : ℤ) * (100 : ℕ) < |((105 : ℕ) : ℤ) - (100 : ℕ)| * 10000) ∧
      ((∃ e, checkPriceBand fivePercent 106 (some 100) = .error e) ↔
        ((500 : ℕ) : ℤ) * (100 : ℕ) < |((106 : ℕ) : ℤ) - (100 : ℕ)| * 10000) :=
  ⟨(price_band_exact_iff rfl (by decide)).mpr (Or.inl (by decide)),
    (price_band_exact_iff rfl (by decide)).mpr (Or.inl (by decide))⟩

/-- **A band that saturates refuses nothing.** Around a reference of `u128::MAX` a band of one basis
point lets a price of zero through, although it is off by ten thousand. -/
theorem saturated_band_admits :
    checkPriceBand { priceBandBps := some 1 } 0 (some u128Max) = .ok () ∧
      ((1 : ℕ) : ℤ) * (u128Max : ℕ) < |((0 : ℕ) : ℤ) - (u128Max : ℕ)| * 10000 :=
  ⟨by decide +kernel, by decide +kernel⟩

end OrderBookRs
