import Mathlib.Order.Bounds.Basic
import Mathlib.Tactic.Linarith
import OrderBookRs.Repricing

/-!
# The prices re-pricing asks for

What the two price computations of `repricing.rs` are for. A pegged order is given the best price on
the tick grid that keeps it passive. A trailing stop follows the extreme of the market since its
reference, and it makes no difference that the book never stores the reference the computation
returns.

## Main definitions

* `PassiveTick`: a price on the grid that does not reach the opposite touch.
* `trailReturned`, `trailKept`: a trailing stop through a list of market prices, with the reference
  the computation returns and with the one it started from.

## Main results

* `calculatePeggedPrice_best_passive_tick`: the pegged price is the optimum over the passive ticks.
* `trailing_stop_follows_extreme`: the stop is the extreme over the prices seen.
-/

namespace OrderBookRs

/-! ### Pegged prices -/

/-- The price a peg refers to. -/
def pegReference (referenceType : PegReferenceType)
    (bestBid bestAsk midPrice lastTrade : Option ℕ) : Option ℕ :=
  match referenceType with
  | .bestBid => bestBid
  | .bestAsk => bestAsk
  | .midPrice => midPrice
  | .lastTrade => lastTrade

/-- A positive multiple of the step on the passive side of the touch. -/
def PassiveTick (side : Side) (step : ℕ) (bestBid bestAsk : Option ℕ) (p : ℕ) : Prop :=
  0 < p ∧ step ∣ p ∧
    match side with
    | .buy => ∀ ask ∈ bestAsk, p < ask
    | .sell => ∀ bid ∈ bestBid, bid < p

/-- The best passive tick for a target: for a buy the greatest up to it, or one step if the passive
ticks are all above it; for a sell the least from it on. -/
def BestPassiveTick (side : Side) (step : ℕ) (bestBid bestAsk : Option ℕ) (target : ℤ) (p : ℕ) :
    Prop :=
  match side with
  | .buy =>
    IsGreatest {q : ℕ | PassiveTick .buy step bestBid bestAsk q ∧ q ≤ target} p ∨
      (¬ ∃ q : ℕ, PassiveTick .buy step bestBid bestAsk q ∧ q ≤ target) ∧ p = step ∧
        PassiveTick .buy step bestBid bestAsk p
  | .sell => IsLeast {q : ℕ | PassiveTick .sell step bestBid bestAsk q ∧ target ≤ q} p

theorem BestPassiveTick.passive {side : Side} {step p : ℕ} {bestBid bestAsk : Option ℕ}
    {target : ℤ} (h : BestPassiveTick side step bestBid bestAsk target p) :
    PassiveTick side step bestBid bestAsk p := by
  cases side with
  | buy => exact h.elim (fun h => h.1.1) fun h => h.2.2
  | sell => exact h.1.1

theorem tickStep_some (t : ℕ) : tickStep (some t) = if 1 < t then t else 1 := by
  by_cases ht : 1 < t <;> simp [tickStep, Option.filter, ht]

theorem tickStep_pos (tickSize : Option ℕ) : 0 < tickStep tickSize := by
  cases tickSize with
  | none => exact Nat.one_pos
  | some t =>
    rw [tickStep_some]
    split_ifs <;> omega

theorem tickStep_le {tickSize : Option ℕ} {c : ℕ} (hc : 1 ≤ c) (h : ∀ t ∈ tickSize, t ≤ c) :
    tickStep tickSize ≤ c := by
  cases tickSize with
  | none => exact hc
  | some t =>
    rw [tickStep_some]
    split_ifs
    · exact h t rfl
    · exact hc

section Pegged

variable {step n p q touch : ℕ}

/-- Two multiples of a step are a step apart. -/
theorem add_step_le_of_lt (hp : step ∣ p) (hq : step ∣ q) (h : p < q) : p + step ≤ q := by
  obtain ⟨k, rfl⟩ := hp
  obtain ⟨l, rfl⟩ := hq
  have hkl : k < l := Nat.lt_of_mul_lt_mul_left h
  calc step * k + step = step * (k + 1) := (Nat.mul_succ ..).symm
    _ ≤ step * l := Nat.mul_le_mul_left _ hkl

/-- Rounding down gives the greatest multiple below. -/
theorem le_floor_mul (hstep : 0 < step) (hp : step ∣ p) (h : p ≤ n) : p ≤ n / step * step := by
  obtain ⟨k, rfl⟩ := hp
  rw [Nat.mul_comm] at h ⊢
  exact Nat.mul_le_mul_right _ ((Nat.le_div_iff_mul_le hstep).mpr h)

/-- Rounding up gives the least multiple above. -/
theorem ceil_mul_le (hstep : 0 < step) (hp : step ∣ p) (h : n ≤ p) :
    (n + step - 1) / step * step ≤ p := by
  obtain ⟨k, rfl⟩ := hp
  rw [Nat.mul_comm step k] at h ⊢
  refine Nat.mul_le_mul_right _ (Nat.le_of_lt_succ ((Nat.div_lt_iff_lt_mul hstep).mpr ?_))
  rw [Nat.succ_mul]
  omega

theorem le_ceil_mul (hstep : 0 < step) : n ≤ (n + step - 1) / step * step := by
  have hlt := Nat.lt_div_mul_add (a := n + step - 1) hstep
  omega

theorem ceil_mul_lt (n step : ℕ) : (n + step - 1) / step * step ≤ n + step - 1 :=
  Nat.div_mul_le_self ..

variable {bestBid bestAsk : Option ℕ} {target : ℤ}

/-- A buy peg: the target is cut one step below the ask, rounded down and floored at one step. -/
def buyPrice (step target : ℕ) (bestAsk : Option ℕ) : ℕ :=
  max ((bestAsk.elim target fun ask => min target (ask - step)) / step * step) step

/-- A sell peg: the target is raised one step above the bid and rounded up. -/
def sellPrice (step target : ℕ) (bestBid : Option ℕ) : ℕ :=
  max ((bestBid.elim target (fun bid => max target (bid + step)) + step - 1) / step * step) step

/-- Rounding to the grid and flooring at one step stays on the grid. -/
theorem step_dvd_max (k step : ℕ) : step ∣ max (k * step) step := by
  rcases max_choice (k * step) step with h | h <;> rw [h]
  exact Nat.dvd_mul_left ..

/-- Every passive tick up to the target is at most the buy price. -/
theorem le_buyPrice (hstep : 0 < step) (hgrid : ∀ ask ∈ bestAsk, step ∣ ask)
    (hq : PassiveTick .buy step bestBid bestAsk q) (hle : q ≤ target) :
    q ≤ buyPrice step target.toNat bestAsk := by
  obtain ⟨-, hdvd, hask⟩ := hq
  refine le_max_of_le_left (le_floor_mul hstep hdvd ?_)
  cases bestAsk with
  | none => exact Int.toNat_le_toNat hle
  | some ask =>
    have hroom := add_step_le_of_lt hdvd (hgrid ask rfl) (hask ask rfl)
    exact le_min (by omega) (by omega)

theorem buyPrice_cases (step target : ℕ) (bestAsk : Option ℕ) :
    buyPrice step target bestAsk ≤ target ∨ buyPrice step target bestAsk = step := by
  rw [buyPrice]
  refine (max_choice _ step).imp (fun h => ?_) id
  rw [h]
  refine (Nat.div_mul_le_self ..).trans ?_
  cases bestAsk with
  | none => exact le_rfl
  | some ask => exact min_le_left ..

/-- A buy price that does not reach the ask is the best passive tick. -/
theorem buyPrice_best (hstep : 0 < step) (hgrid : ∀ ask ∈ bestAsk, step ∣ ask)
    (hfree : ∀ ask ∈ bestAsk, buyPrice step target.toNat bestAsk < ask) :
    BestPassiveTick .buy step bestBid bestAsk target (buyPrice step target.toNat bestAsk) := by
  have hpos : 0 < buyPrice step target.toNat bestAsk := hstep.trans_le (le_max_right ..)
  have hpassive : PassiveTick .buy step bestBid bestAsk (buyPrice step target.toNat bestAsk) :=
    ⟨hpos, step_dvd_max .., hfree⟩
  by_cases hle : buyPrice step target.toNat bestAsk ≤ target.toNat
  · exact .inl ⟨⟨hpassive, by omega⟩, fun q hq => le_buyPrice hstep hgrid hq.1 hq.2⟩
  · have heq := (buyPrice_cases step target.toNat bestAsk).resolve_left hle
    refine .inr ⟨fun ⟨q, hq, hqt⟩ => ?_, heq, hpassive⟩
    have hmin := Nat.le_of_dvd hq.1 hq.2.1
    omega

/-- A buy price that reaches the ask leaves no passive tick. -/
theorem not_passiveTick_of_crosses (hstep : 0 < step) {ask : ℕ} (hdvd : step ∣ ask)
    (h : ask ≤ buyPrice step n (some ask)) : ¬ PassiveTick .buy step bestBid (some ask) q := by
  rintro ⟨hpos, hq, hask⟩
  have hroom := add_step_le_of_lt hq hdvd (hask ask rfl)
  have hmin := Nat.le_of_dvd hpos hq
  have hfloor : min n (ask - step) / step * step ≤ ask - step :=
    (Nat.div_mul_le_self ..).trans (min_le_right ..)
  have hlow : buyPrice step n (some ask) ≤ ask - step := max_le hfloor (by omega)
  omega

theorem bid_lt_sellPrice (hstep : 0 < step) {bid : ℕ} (h : bid ∈ bestBid) :
    bid < sellPrice step n bestBid := by
  cases h
  have hceil := le_ceil_mul (n := max n (bid + step)) hstep
  have hraised := le_max_right n (bid + step)
  exact lt_max_of_lt_left (by simp only [Option.elim]; omega)

/-- A sell price is the best passive tick. -/
theorem sellPrice_best (hstep : 0 < step) (hgrid : ∀ bid ∈ bestBid, step ∣ bid) :
    BestPassiveTick .sell step bestBid bestAsk target (sellPrice step target.toNat bestBid) := by
  constructor
  · refine ⟨⟨hstep.trans_le (le_max_right ..), step_dvd_max ..,
      fun bid => bid_lt_sellPrice hstep⟩, ?_⟩
    refine Int.toNat_le.mp (le_max_of_le_left (le_trans ?_ (le_ceil_mul hstep)))
    cases bestBid with
    | none => exact le_rfl
    | some bid => exact le_max_left ..
  · rintro q ⟨⟨hpos, hdvd, hbid⟩, hle⟩
    refine max_le (ceil_mul_le hstep hdvd ?_) (Nat.le_of_dvd hpos hdvd)
    cases bestBid with
    | none => exact Int.toNat_le.mpr hle
    | some bid =>
      exact max_le (Int.toNat_le.mpr hle)
        (add_step_le_of_lt (hgrid bid rfl) hdvd (hbid bid rfl))

end Pegged

variable {referenceType : PegReferenceType} {offset : ℤ}
  {bestBid bestAsk midPrice lastTrade tickSize : Option ℕ}

/-- What the saturating operations compute within the bounds, where none of them saturates. -/
theorem calculatePeggedPrice_eq (side : Side) (hoffset : -2 ^ 63 < offset ∧ offset < 2 ^ 63)
    (hprices : ∀ p, p ∈ bestBid ∨ p ∈ bestAsk ∨ p ∈ midPrice ∨ p ∈ lastTrade ∨ p ∈ tickSize →
      p ≤ 2 ^ 126) :
    calculatePeggedPrice referenceType offset side bestBid bestAsk midPrice lastTrade tickSize =
      (pegReference referenceType bestBid bestAsk midPrice lastTrade).bind fun r =>
        match side with
        | .buy =>
          if bestAsk.any fun ask => ask ≤ buyPrice (tickStep tickSize) (r + offset).toNat bestAsk
          then none else some (buyPrice (tickStep tickSize) (r + offset).toNat bestAsk)
        | .sell => some (sellPrice (tickStep tickSize) (r + offset).toNat bestBid) := by
  have hstep := tickStep_pos tickSize
  have hsmall : tickStep tickSize ≤ 2 ^ 126 :=
    tickStep_le (by norm_num) fun t ht => hprices t (by tauto)
  have hbind : ∀ r ∈ pegReference referenceType bestBid bestAsk midPrice lastTrade, r ≤ 2 ^ 126 :=
    fun r hr => hprices r (by cases referenceType <;> tauto)
  cases referenceType
  all_goals
    refine Option.bind_congr fun r hr => ?_
    have hr := hbind r hr
    have htarget : (if 0 ≤ offset then satAdd128 r offset.toNat else r - (-offset).toNat) =
        (r + offset).toNat := by
      rw [satAdd128, u128Max]
      split_ifs <;> omega
    have hfloor : (if 1 < tickStep tickSize then tickStep tickSize else 1) = tickStep tickSize := by
      split_ifs <;> omega
    simp only [htarget, hfloor]
    generalize tickStep tickSize = step at *
    cases side with
    | buy =>
      have hsnap (n : ℕ) : (if 1 < step then n / step * step else n) = n / step * step := by
        split_ifs with h
        · rfl
        · rw [show step = 1 by omega, Nat.div_one, Nat.mul_one]
      simp only [hsnap, buyPrice]
      rfl
    | sell =>
      have hraised : (bestBid.elim (r + offset).toNat fun bid =>
          max (r + offset).toNat (satAdd128 bid step)) =
          bestBid.elim (r + offset).toNat fun bid => max (r + offset).toNat (bid + step) := by
        cases bestBid with
        | none => rfl
        | some bid =>
          have hbid := hprices bid (.inl rfl)
          simp only [Option.elim, satAdd128, u128Max]
          omega
      have hsnap (n : ℕ) (hn : n ≤ 2 ^ 127) :
          (if 1 < step then satMul128 ((n + step - 1) / step) step else n) =
            (n + step - 1) / step * step := by
        split_ifs with h
        · have hle := ceil_mul_lt n step
          rw [satMul128, u128Max]
          omega
        · rw [show step = 1 by omega, Nat.div_one, Nat.mul_one, Nat.add_sub_cancel]
      have hbound : (bestBid.elim (r + offset).toNat fun bid =>
          max (r + offset).toNat (bid + step)) ≤ 2 ^ 127 := by
        cases bestBid with
        | none => simp only [Option.elim]; omega
        | some bid =>
          have hbid := hprices bid (.inl rfl)
          simp only [Option.elim]
          omega
      have hfree : ¬ bestBid.any fun bid => sellPrice step (r + offset).toNat bestBid ≤ bid := by
        simp only [Option.any_eq_true, decide_eq_true_eq, not_exists, not_and, not_le]
        exact fun bid => bid_lt_sellPrice hstep
      simp only [hraised, hsnap _ hbound]
      exact if_neg hfree

/-- **A pegged price is the best passive tick** for the reference plus the offset, and there is no
price exactly when the reference is missing or no tick is passive. -/
theorem calculatePeggedPrice_best_passive_tick (side : Side)
    (hoffset : -2 ^ 63 < offset ∧ offset < 2 ^ 63)
    (hprices : ∀ p, p ∈ bestBid ∨ p ∈ bestAsk ∨ p ∈ midPrice ∨ p ∈ lastTrade ∨ p ∈ tickSize →
      p ≤ 2 ^ 126)
    (hgrid : ∀ p, p ∈ bestBid ∨ p ∈ bestAsk → tickStep tickSize ∣ p) :
    (calculatePeggedPrice referenceType offset side bestBid bestAsk midPrice lastTrade tickSize =
        none ↔
      pegReference referenceType bestBid bestAsk midPrice lastTrade = none ∨
        ¬ ∃ p, PassiveTick side (tickStep tickSize) bestBid bestAsk p) ∧
    ∀ r ∈ pegReference referenceType bestBid bestAsk midPrice lastTrade,
      ∀ p ∈ calculatePeggedPrice referenceType offset side bestBid bestAsk midPrice lastTrade
        tickSize,
        BestPassiveTick side (tickStep tickSize) bestBid bestAsk (r + offset) p := by
  have hstep := tickStep_pos tickSize
  rw [calculatePeggedPrice_eq side hoffset hprices]
  cases pegReference referenceType bestBid bestAsk midPrice lastTrade with
  | none => simp
  | some r =>
    have hsome {p : ℕ} (hbest : BestPassiveTick side (tickStep tickSize) bestBid bestAsk
        (r + offset) p) :
        (some p = none ↔ ¬ ∃ p, PassiveTick side (tickStep tickSize) bestBid bestAsk p) ∧
          ∀ q ∈ some p,
            BestPassiveTick side (tickStep tickSize) bestBid bestAsk (r + offset) q :=
      ⟨iff_of_false nofun (not_not.mpr ⟨p, hbest.passive⟩), fun q hq => Option.some.inj hq ▸ hbest⟩
    simp only [Option.bind_some, reduceCtorEq, false_or, Option.mem_some_iff, forall_eq']
    cases side with
    | buy =>
      by_cases hcross : bestAsk.any fun ask =>
          ask ≤ buyPrice (tickStep tickSize) (r + offset).toNat bestAsk
      · obtain ⟨ask, rfl, hle⟩ := (Option.any_eq_true ..).mp hcross
        have hnone : ¬ ∃ p, PassiveTick .buy (tickStep tickSize) bestBid (some ask) p :=
          fun ⟨p, hp⟩ => not_passiveTick_of_crosses hstep (hgrid ask (.inr rfl))
            (of_decide_eq_true hle) hp
        rw [if_pos hcross]
        exact ⟨iff_of_true rfl hnone, nofun⟩
      · rw [if_neg hcross]
        exact hsome (buyPrice_best hstep (fun ask h => hgrid ask (.inr h)) fun ask hask =>
          not_le.mp fun hle =>
            hcross ((Option.any_eq_true ..).mpr ⟨ask, hask, decide_eq_true hle⟩))
    | sell => exact hsome (sellPrice_best hstep fun bid h => hgrid bid (.inl h))

/-- On a grid of five the buy peg three above a bid of 100 stays there. -/
theorem calculatePeggedPrice_best_passive_tick_offset :
    100 ∈ calculatePeggedPrice .bestBid 3 .buy (some 100) (some 110) none none (some 5) ∧
      BestPassiveTick .buy (tickStep (some 5)) (some 100) (some 110) ((100 : ℕ) + 3) 100 :=
  have hprice : 100 ∈ calculatePeggedPrice .bestBid 3 .buy (some 100) (some 110) none none
      (some 5) := by decide
  ⟨hprice, (calculatePeggedPrice_best_passive_tick .buy (by decide)
    (by simp; omega) (by simp [tickStep_some]; omega)).2 100 rfl 100 hprice⟩

/-! ### Trailing stops -/

/-- Further in the direction a stop trails: up for a sell, down for a buy. -/
def Beyond (side : Side) (a b : ℕ) : Prop :=
  match side with
  | .sell => a < b
  | .buy => b < a

/-- The stop a market price asks for. -/
def askedStop (side : Side) (trailAmount market : ℕ) : ℕ :=
  match side with
  | .sell => market - trailAmount
  | .buy => satAdd128 market trailAmount

/-- `calculate_trailing_stop_price` through a list of market prices, with the stop and the reference
it returns each time. -/
def trailReturned (side : Side) (trailAmount : ℕ) (start : ℕ × ℕ) (markets : List ℕ) : ℕ × ℕ :=
  markets.foldl (fun now market =>
    (calculateTrailingStopPrice side now.1 trailAmount now.2 market).getD now) start

/-- The same with the reference never replaced, as in `reprice_trailing_collecting`. -/
def trailKept (side : Side) (trailAmount reference stop : ℕ) (markets : List ℕ) : ℕ :=
  markets.foldl (fun now market =>
    ((calculateTrailingStopPrice side now trailAmount reference market).map Prod.fst).getD now) stop

/-- The extreme of the first stop and of those that prices beyond the reference ask for: the maximum
for a sell, the minimum for a buy. -/
def IsExtreme (side : Side) (trailAmount reference stop : ℕ) (markets : List ℕ) (s : ℕ) : Prop :=
  (s = stop ∨ ∃ m ∈ markets, Beyond side reference m ∧ s = askedStop side trailAmount m) ∧
    ¬ Beyond side s stop ∧
      ∀ m ∈ markets, Beyond side reference m → ¬ Beyond side s (askedStop side trailAmount m)

section Trailing

variable {side : Side} {trailAmount reference ref stop m : ℕ} {markets : List ℕ}

instance : Decidable (Beyond side ref m) := by
  cases side <;> exact Nat.decLt ..

theorem calculateTrailingStopPrice_eq :
    calculateTrailingStopPrice side stop trailAmount ref m =
      if Beyond side ref m ∧ Beyond side stop (askedStop side trailAmount m) then
        some (askedStop side trailAmount m, m) else none := by
  cases side <;> rfl

theorem not_beyond_trans {a b c : ℕ} (h : ¬ Beyond side a b) (h' : ¬ Beyond side b c) :
    ¬ Beyond side a c := by
  cases side <;> simp only [Beyond] at * <;> omega

theorem askedStop_mono {n : ℕ} (h : ¬ Beyond side m n) :
    ¬ Beyond side (askedStop side trailAmount m) (askedStop side trailAmount n) := by
  cases side <;> simp only [Beyond, askedStop, satAdd128] at * <;> omega

theorem not_beyond_of_beyond (h : Beyond side m ref) : ¬ Beyond side ref m := by
  cases side <;> exact Nat.lt_asymm h

theorem trailKept_cons :
    trailKept side trailAmount reference stop (m :: markets) =
      trailKept side trailAmount reference
        (if Beyond side reference m ∧ Beyond side stop (askedStop side trailAmount m) then
          askedStop side trailAmount m else stop) markets := by
  simp only [trailKept, List.foldl_cons, calculateTrailingStopPrice_eq]
  split_ifs <;> rfl

theorem trailKept_isExtreme :
    IsExtreme side trailAmount reference stop markets
      (trailKept side trailAmount reference stop markets) := by
  induction markets generalizing stop with
  | nil => exact ⟨.inl rfl, by cases side <;> exact Nat.lt_irrefl _, nofun⟩
  | cons m markets ih =>
    rw [trailKept_cons]
    split_ifs with hmove
    · obtain ⟨hreached, htight, hall⟩ := @ih (askedStop side trailAmount m)
      refine ⟨.inr ?_, not_beyond_trans htight (not_beyond_of_beyond hmove.2),
        List.forall_mem_cons.mpr ⟨fun _ => htight, hall⟩⟩
      rcases hreached with h | ⟨m', hm', h⟩
      · exact ⟨m, List.mem_cons_self, hmove.1, h⟩
      · exact ⟨m', List.mem_cons_of_mem _ hm', h⟩
    · obtain ⟨hreached, htight, hall⟩ := @ih stop
      refine ⟨hreached.imp_right fun ⟨m', hm', h⟩ => ⟨m', List.mem_cons_of_mem _ hm', h⟩, htight,
        List.forall_mem_cons.mpr ⟨fun hbeyond => ?_, hall⟩⟩
      exact not_beyond_trans htight fun hstop => hmove ⟨hbeyond, hstop⟩

/-- A reference that has moved asks for no more than the stop it moved to. -/
theorem trailReturned_eq_trailKept (h : ref = reference ∨ ¬ Beyond side ref reference ∧
      ¬ Beyond side stop (askedStop side trailAmount ref)) :
    (trailReturned side trailAmount (stop, ref) markets).1 =
      trailKept side trailAmount reference stop markets := by
  induction markets generalizing stop ref with
  | nil => rfl
  | cons m markets ih =>
    have hsame (hstop : Beyond side stop (askedStop side trailAmount m)) :
        Beyond side ref m ↔ Beyond side reference m := by
      rcases h with rfl | ⟨hpast, hasked⟩
      · exact Iff.rfl
      · refine iff_of_true (not_not.mp fun hm => ?_) (not_not.mp fun hm => ?_)
        · exact not_beyond_trans hasked (askedStop_mono hm) hstop
        · exact not_beyond_trans hasked (askedStop_mono (not_beyond_trans hpast hm)) hstop
    rw [trailKept_cons, trailReturned, List.foldl_cons, calculateTrailingStopPrice_eq]
    simp only [and_congr_left_iff.mpr hsame]
    split_ifs with hmove
    · exact ih (.inr ⟨not_beyond_of_beyond hmove.1, by cases side <;> exact Nat.lt_irrefl _⟩)
    · exact ih h

end Trailing

/-- **A trailing stop follows the running extreme**, it never moves against its direction, and
whether the reference is replaced makes no difference. -/
theorem trailing_stop_follows_extreme (side : Side) (trailAmount reference stop : ℕ)
    (markets : List ℕ) :
    IsExtreme side trailAmount reference stop markets
        (trailKept side trailAmount reference stop markets) ∧
      (trailReturned side trailAmount (stop, reference) markets).1 =
        trailKept side trailAmount reference stop markets ∧
      ∀ n, ¬ Beyond side (trailKept side trailAmount reference stop markets)
        (trailKept side trailAmount reference stop (markets.take n)) := by
  refine ⟨trailKept_isExtreme, trailReturned_eq_trailKept (.inl rfl), fun n => ?_⟩
  have hsplit : trailKept side trailAmount reference stop markets =
      trailKept side trailAmount reference
        (trailKept side trailAmount reference stop (markets.take n)) (markets.drop n) := by
    rw [trailKept, trailKept, trailKept, ← List.foldl_append, List.take_append_drop]
  rw [hsplit]
  exact trailKept_isExtreme.2.1

end OrderBookRs
