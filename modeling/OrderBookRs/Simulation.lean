import OrderBookRs.FillOrKill
import OrderBookRs.PricePriority
import OrderBookRs.SpecialOrders
import Mathlib.Data.Rat.Defs

/-!
# Simulated market orders

Three methods walk the opposite side without touching it to say what a market order would do:
`simulate_market_order`, `peek_match` and `fok_fillable_quantity`. The first two take the total
quantity of a level for what a match executes there, the third asks the level for a dry run. On a
book without lots, outside self-trade prevention and without reserve orders that keep their hidden
tranche, all of them draw the same quantities from the levels as the sweep, with one exception: the
total of a level whose visible and hidden quantities exceed a `u64` together is an error, which the
first two read as zero.

## Main definitions

* `OrderSimulation`, `OrderBook.simulateMarketOrder`, `OrderBook.peekMatch`.
* `draw`: a quantity taken from levels in order.
* `Countable`: the total of every level the quantity reaches fits in a `u64`.
* `summedByPrice`: the trades of each price, in the order of the prices.

## Main results

* `draw_counted_iff`: reading the other totals as zero shows exactly where one is reached.
* `simulation_predicts_iff`.
-/

namespace OrderBookRs

open PriceLevel Fallible OrderBook

/-! ### The methods -/

/-- `OrderSimulation`. The average price is the quotient before it is rounded to an `f64`. -/
structure OrderSimulation where
  fills : List (ℕ × ℕ)
  avgPrice : ℚ
  totalFilled : ℕ
  remainingQuantity : ℕ
  deriving DecidableEq, Repr

/-- `OrderSimulation::empty`. -/
def OrderSimulation.empty : OrderSimulation := ⟨[], 0, 0, 0⟩

/-- The simulation that the local variables of the walk make. -/
def OrderSimulation.ofWalk (remaining totalCost totalFilled : ℕ) (fills : List (ℕ × ℕ)) :
    OrderSimulation :=
  ⟨fills, if 0 < totalFilled then (totalCost : ℚ) / totalFilled else 0, totalFilled, remaining⟩

variable {L : Type} [PriceLevel L] {entries : List (ℕ × L)} {q : ℕ}

/-- The walk of `simulate_market_order`. There is no result when a product of price and quantity is
beyond `u128`, where a debug build panics and a release build wraps around. -/
def simulateWalk : List (ℕ × L) → ℕ → ℕ → ℕ → List (ℕ × ℕ) → Option OrderSimulation
  | [], remaining, totalCost, totalFilled, fills =>
    some (.ofWalk remaining totalCost totalFilled fills)
  | (price, level) :: rest, remaining, totalCost, totalFilled, fills =>
    if remaining = 0 then some (.ofWalk remaining totalCost totalFilled fills)
    else if levelTotal level = 0 then simulateWalk rest remaining totalCost totalFilled fills
    else
      let fillQty := min remaining (levelTotal level)
      if u128Max < price * fillQty then none
      else
        simulateWalk rest (remaining - fillQty) (satAdd128 totalCost (price * fillQty))
          (satAdd64 totalFilled fillQty) (fills ++ [(price, fillQty)])

/-- The walk of `peek_match`. -/
def peekWalk (side : Side) (priceLimit : Option ℕ) (quantity : ℕ) : List (ℕ × L) → ℕ → ℕ
  | [], matched => matched
  | (price, level) :: rest, matched =>
    if quantity ≤ matched then matched
    else if !(priceLimit.all fun limit => side.crosses limit price) then matched
    else
      peekWalk side priceLimit quantity rest
        (satAdd64 matched (min (quantity - matched) (levelTotal level)))

namespace OrderBook

/-- `simulate_market_order`. -/
def simulateMarketOrder (b : OrderBook L) (quantity : ℕ) (side : Side) : Option OrderSimulation :=
  if quantity = 0 then some .empty
  else if (b.levels side.opposite).isEmpty then
    some { OrderSimulation.empty with remainingQuantity := quantity }
  else simulateWalk (b.sweepEntries side) quantity 0 0 []

/-- `peek_match`. -/
def peekMatch (b : OrderBook L) (side : Side) (quantity : ℕ) (priceLimit : Option ℕ) : ℕ :=
  if (b.levels side.opposite).isEmpty then 0
  else peekWalk side priceLimit quantity (b.sweepEntries side) 0

end OrderBook

/-! ### Drawing from levels in order -/

/-- What each of the levels, given by price and depth, contributes to a quantity. -/
def draw : ℕ → List (ℕ × ℕ) → List (ℕ × ℕ)
  | _, [] => []
  | q, (price, depth) :: rest =>
    if min q depth = 0 then draw q rest else (price, min q depth) :: draw (q - min q depth) rest

/-- What they contribute together. -/
def drawTotal (q : ℕ) (levels : List (ℕ × ℕ)) : ℕ := ((draw q levels).map Prod.snd).sum

theorem drawTotal_cons (q price depth : ℕ) (rest : List (ℕ × ℕ)) :
    drawTotal q ((price, depth) :: rest) = min q depth + drawTotal (q - min q depth) rest := by
  rw [drawTotal, draw]
  split_ifs with h
  · rw [h, Nat.sub_zero, Nat.zero_add, drawTotal]
  · rw [List.map_cons, List.sum_cons, drawTotal]

theorem draw_zero (levels : List (ℕ × ℕ)) : draw 0 levels = [] := by
  induction levels with
  | nil => rfl
  | cons e rest ih => rw [draw, if_pos (Nat.zero_min _), ih]

theorem drawTotal_zero (levels : List (ℕ × ℕ)) : drawTotal 0 levels = 0 := by
  rw [drawTotal, draw_zero]
  rfl

theorem fst_mem_of_draw {e : ℕ × ℕ} {levels : List (ℕ × ℕ)} (h : e ∈ draw q levels) :
    e.1 ∈ levels.map Prod.fst := by
  induction levels generalizing q with
  | nil => cases h
  | cons x rest ih =>
    obtain ⟨price, depth⟩ := x
    rw [draw] at h
    split_ifs at h
    · exact List.mem_cons_of_mem _ (ih h)
    · rcases List.mem_cons.mp h with rfl | h
      · exact List.mem_cons_self ..
      · exact List.mem_cons_of_mem _ (ih h)

/-! ### Totals beyond a `u64` -/

/-- `total_quantity().unwrap_or(0)` of a level of the given size. -/
def counted (size : ℕ) : ℕ := if size ≤ u64Max then size else 0

/-- Every level the quantity reaches, given by price and size, has a size that fits in a `u64`. -/
def Countable : ℕ → List (ℕ × ℕ) → Prop
  | _, [] => True
  | q, (_, size) :: rest => q = 0 ∨ size ≤ u64Max ∧ Countable (q - min q size) rest

instance decidableCountable : ∀ q levels, Decidable (Countable q levels)
  | _, [] => isTrue trivial
  | q, (_, size) :: rest =>
    have := decidableCountable (q - min q size) rest
    inferInstanceAs (Decidable (_ ∨ _ ∧ Countable ..))

/-- **What is drawn shows whether a level beyond a `u64` was reached**: it would give all that is
left of the quantity, and counts as empty. -/
theorem draw_counted_iff {levels : List (ℕ × ℕ)} (hq : q ≤ u64Max)
    (hnodup : (levels.map Prod.fst).Nodup) :
    draw q (levels.map fun e => (e.1, counted e.2)) = draw q levels ↔ Countable q levels := by
  induction levels generalizing q with
  | nil => exact iff_of_true rfl trivial
  | cons x rest ih =>
    obtain ⟨price, size⟩ := x
    obtain ⟨hnot, hnodup⟩ := List.nodup_cons.mp hnodup
    have hrest := ih (q := q - min q size) (by omega) hnodup
    rw [List.map_cons, Countable, draw, draw]
    by_cases hzero : q = 0
    · subst hzero
      rw [Nat.zero_min, Nat.zero_min, if_pos rfl, if_pos rfl, draw_zero, draw_zero]
      exact iff_of_true rfl (Or.inl rfl)
    by_cases hfits : size ≤ u64Max
    · -- the level counts for what it is
      rw [counted, if_pos hfits, or_iff_right hzero, and_iff_right hfits, ← hrest]
      split_ifs with hnone
      · rw [hnone, Nat.sub_zero]
      · rw [List.cons.injEq, and_iff_right rfl]
    · -- the level gives everything and counts as empty
      have hall : min q size = q := by omega
      rw [counted, if_neg hfits, Nat.min_zero, if_pos rfl, hall, if_neg hzero]
      refine iff_of_false (fun heq => hnot ?_) fun h => hfits (h.resolve_left hzero).1
      have hmem : (price, q) ∈ draw q (rest.map fun e => (e.1, counted e.2)) :=
        heq ▸ List.mem_cons_self ..
      simpa [Function.comp_def] using fst_mem_of_draw hmem

/-! ### Trades of a price -/

/-- The quantity traded at each price, in the order in which the prices were met. -/
def summedByPrice (trades : List Trade) : List (ℕ × ℕ) :=
  (trades.map Trade.price).eraseDups.map fun price =>
    (price, tradedQuantity (trades.filter fun x => x.price = price))

/-- Trades of one price are one item. -/
theorem summedByPrice_append {price : ℕ} {trades rest : List Trade} (hne : trades ≠ [])
    (hprice : ∀ x ∈ trades, x.price = price) (hother : ∀ x ∈ rest, x.price ≠ price) :
    summedByPrice (trades ++ rest) = (price, tradedQuantity trades) :: summedByPrice rest := by
  have hown : trades.filter (fun x => x.price = price) = trades :=
    List.filter_eq_self.mpr fun x hx => decide_eq_true (hprice x hx)
  have hnone : rest.filter (fun x => x.price = price) = [] :=
    List.filter_eq_nil_iff.mpr fun x hx h => hother x hx (of_decide_eq_true h)
  obtain ⟨x, xs, rfl⟩ := List.exists_cons_of_ne_nil hne
  have hx : x.price = price := hprice x List.mem_cons_self
  have hdups : ((x :: xs ++ rest).map Trade.price).eraseDups =
      price :: (rest.map Trade.price).eraseDups := by
    rw [List.cons_append, List.map_cons, List.eraseDups_cons, hx, List.map_append,
      List.filter_append]
    have hxs : (xs.map Trade.price).filter (fun p => !p == price) = [] := by
      refine List.filter_eq_nil_iff.mpr fun p hp => ?_
      obtain ⟨y, hy, rfl⟩ := List.mem_map.mp hp
      rw [hprice y (List.mem_cons_of_mem _ hy)]
      simp
    have hrest : (rest.map Trade.price).filter (fun p => !p == price) = rest.map Trade.price := by
      refine List.filter_eq_self.mpr fun p hp => ?_
      obtain ⟨y, hy, rfl⟩ := List.mem_map.mp hp
      simpa using hother y hy
    rw [hxs, hrest, List.nil_append]
  rw [summedByPrice, hdups, List.map_cons, List.filter_append, hown, hnone, List.append_nil,
    summedByPrice]
  refine congrArg _ (List.map_congr_left fun p hp => ?_)
  have hp' : p ≠ price := by
    obtain ⟨y, hy, rfl⟩ := List.mem_map.mp (List.mem_eraseDups.mp hp)
    exact hother y hy
  rw [List.filter_append, List.filter_eq_nil_iff.mpr fun y hy h => hp' (by
    rw [← of_decide_eq_true h, hprice y hy]), List.nil_append]

/-! ### The walks draw from the levels -/

/-- Prices and total quantities of levels. -/
def totalsOf (entries : List (ℕ × L)) : List (ℕ × ℕ) :=
  entries.map fun e => (e.1, levelTotal e.2)

theorem totalsOf_cons (price : ℕ) (l : L) (rest : List (ℕ × L)) :
    totalsOf ((price, l) :: rest) = (price, levelTotal l) :: totalsOf rest := rfl

theorem simulateWalk_eq {remaining totalFilled : ℕ} (totalCost : ℕ) (fills : List (ℕ × ℕ))
    (hfits : totalFilled + remaining ≤ u64Max)
    (hproducts : ∀ e ∈ entries, e.1 * min remaining (levelTotal e.2) ≤ u128Max) :
    ∃ cost, simulateWalk entries remaining totalCost totalFilled fills =
      some (.ofWalk (remaining - drawTotal remaining (totalsOf entries)) cost
        (totalFilled + drawTotal remaining (totalsOf entries))
        (fills ++ draw remaining (totalsOf entries))) := by
  induction entries generalizing remaining totalFilled totalCost fills with
  | nil => exact ⟨totalCost, by rw [totalsOf, List.map_nil, draw, List.append_nil]; rfl⟩
  | cons e rest ih =>
    obtain ⟨price, l⟩ := e
    have hhead := hproducts (price, l) List.mem_cons_self
    have htail : ∀ q ≤ remaining, ∀ e ∈ rest, e.1 * min q (levelTotal e.2) ≤ u128Max :=
      fun q hq e he => (Nat.mul_le_mul_left _ (min_le_min_right _ hq)).trans
        (hproducts e (List.mem_cons_of_mem _ he))
    rw [simulateWalk]
    by_cases hdone : remaining = 0
    · rw [if_pos hdone, hdone, drawTotal_zero, draw_zero, List.append_nil]
      exact ⟨totalCost, rfl⟩
    rw [if_neg hdone]
    by_cases hempty : levelTotal l = 0
    · have hnone : min remaining (levelTotal l) = 0 := by rw [hempty, Nat.min_zero]
      rw [if_pos hempty, totalsOf_cons, drawTotal_cons, draw, if_pos hnone, hnone, Nat.zero_add,
        Nat.sub_zero]
      exact ih totalCost fills hfits (htail remaining le_rfl)
    · have hsome : min remaining (levelTotal l) ≠ 0 := by omega
      rw [if_neg hempty]
      dsimp only
      rw [if_neg (not_lt.mpr hhead), totalsOf_cons, drawTotal_cons, draw, if_neg hsome,
        satAdd64_eq (by omega)]
      have hfits' : totalFilled + min remaining (levelTotal l) +
          (remaining - min remaining (levelTotal l)) ≤ u64Max := by omega
      obtain ⟨cost, hrun⟩ := ih (satAdd128 totalCost (price * min remaining (levelTotal l)))
        (fills ++ [(price, min remaining (levelTotal l))]) hfits' (htail _ (Nat.sub_le ..))
      refine ⟨cost, hrun.trans ?_⟩
      rw [List.append_assoc, List.singleton_append, Nat.add_assoc, Nat.sub_sub]

theorem peekWalk_eq {side : Side} {quantity matched : ℕ} (hle : matched ≤ quantity)
    (hq : quantity ≤ u64Max) (entries : List (ℕ × L)) :
    peekWalk side none quantity entries matched =
      matched + drawTotal (quantity - matched) (totalsOf entries) := by
  induction entries generalizing matched with
  | nil => rfl
  | cons e rest ih =>
    obtain ⟨price, l⟩ := e
    rw [peekWalk]
    by_cases hdone : quantity ≤ matched
    · rw [if_pos hdone, Nat.sub_eq_zero_of_le hdone, drawTotal_zero, Nat.add_zero]
    · rw [if_neg hdone, if_neg (by rw [Option.all_none]; exact Bool.noConfusion),
        satAdd64_eq (by omega), ih (by omega), totalsOf_cons, drawTotal_cons, Nat.add_assoc,
        Nat.sub_sub]

/-- What the orders of a level add up to. -/
def levelSize (l : L) : ℕ := ((orders l).map Order.size).sum

/-- Prices and sizes of levels. -/
def sizesOf (entries : List (ℕ × L)) : List (ℕ × ℕ) := entries.map fun e => (e.1, levelSize e.2)

theorem sizesOf_cons (price : ℕ) (l : L) (rest : List (ℕ × L)) :
    sizesOf ((price, l) :: rest) = (price, levelSize l) :: sizesOf rest := rfl

theorem totalsOf_eq [LevelTotals L] (entries : List (ℕ × L)) :
    totalsOf entries = (sizesOf entries).map fun e => (e.1, counted e.2) := by
  rw [totalsOf, sizesOf, List.map_map]
  refine List.map_congr_left fun e _ => Prod.ext rfl ?_
  show levelTotal e.2 = counted (levelSize e.2)
  rw [levelTotal, counted]
  split_ifs with hfits
  · rw [LevelTotals.totalQuantity_eq hfits]
    rfl
  · obtain ⟨error, herror⟩ := LevelTotals.totalQuantity_error (not_le.mp hfits)
    rw [herror]
    rfl

/-- A match of the taker executes what it is asked for up to the total quantity of the level. -/
structure FillsToTotal (i : OrderId) (l : L) : Prop where
  traded : ∀ {q r l'}, matchOrder l q i .standard = (r, l') →
    tradedQuantity r.trades = min q (levelSize l)

section Laws

variable [MatchAccounting L] [MatchableDryRun L]

/-- A taker whose id does not rest on the level fills to the total if no order keeps its hidden
tranche. -/
theorem fillsToTotal_of_notMem [LevelCapacity L] {i : OrderId} {l : L} (hi : i ∉ orderIds l)
    (hreserve : ∀ o ∈ orders l, o.keepsHidden = false) : FillsToTotal i l := by
  refine ⟨fun {q r l'} hrun => ?_⟩
  have haccount := MatchAccounting.traded_add_remaining hrun
  have hremaining := MatchableDryRun.remaining_eq hrun
  have hsum : ((orders l).map Order.matchableQty).sum = levelSize l := by
    refine congrArg List.sum (List.map_congr_left fun o ho => ?_)
    rw [Order.matchableQty_eq (LevelCapacity.size_le ho), hreserve o ho]
    rfl
  rw [MatchableDryRun.matchableQuantity_eq hi, hsum] at hremaining
  omega

/-- Where a match fills to the total, the dry run sees the total. -/
theorem FillsToTotal.min_matchableQuantity {i : OrderId} {l : L} (h : FillsToTotal i l) (q : ℕ) :
    min q (matchableQuantity l q i) = min q (levelSize l) := by
  rcases hrun : matchOrder l q i .standard with ⟨r, l'⟩
  have htraded := h.traded hrun
  have haccount := MatchAccounting.traded_add_remaining hrun
  have hremaining := MatchableDryRun.remaining_eq hrun
  omega

theorem fokWalk_eq_draw {t : Taker} {quantity matched : ℕ} (hle : matched ≤ quantity)
    (hq : quantity ≤ u64Max) (hlimit : t.limitPrice = none) (hlot : t.lot ≤ 1)
    (hstp : t.stpActive = false) (hfills : ∀ e ∈ entries, FillsToTotal t.orderId e.2) :
    fokWalk t quantity entries matched =
      matched + drawTotal (quantity - matched) (sizesOf entries) := by
  induction entries generalizing matched with
  | nil => rfl
  | cons e rest ih =>
    obtain ⟨price, l⟩ := e
    have hallows : t.allows price = true := by rw [Taker.allows, hlimit, Option.all_none]
    have hdepth := (hfills (price, l) List.mem_cons_self).min_matchableQuantity
      (quantity - matched)
    rw [fokWalk]
    by_cases hdone : quantity ≤ matched
    · rw [if_pos hdone, Nat.sub_eq_zero_of_le hdone, drawTotal_zero, Nat.add_zero]
    · have hcap : lotFloor t.lot (quantity - matched) = quantity - matched := by
        rw [lotFloor, if_pos hlot]
      rw [if_neg hdone, hallows, if_neg (by decide)]
      dsimp only
      rw [hcap, if_neg (by omega), fokReachable, hstp, if_neg Bool.false_ne_true,
        if_neg Bool.false_ne_true]
      dsimp only
      rw [hdepth, satAdd64_eq (by omega), ih (by omega) fun e he =>
        hfills e (List.mem_cons_of_mem _ he), sizesOf_cons, drawTotal_cons, Nat.add_assoc,
        Nat.sub_sub]

end Laws

/-! ### The sweep draws from the levels -/

/-- The trades a sweep adds are what the levels contribute, price by price. -/
structure DrawsFrom (entries : List (ℕ × L)) (q : ℕ) (new : List Trade) (sw sw' : Sweep L) :
    Prop where
  fills : sw'.book.fills = sw.book.fills ++ new
  summed : summedByPrice new = draw q (sizesOf entries)
  traded : tradedQuantity new = drawTotal q (sizesOf entries)
  met : ∀ x ∈ new, x.price ∈ entries.map Prod.fst

section Sweeps

variable [MatchAccounting L] [MatchDepth L] {t : Taker} {q price : ℕ} {sw : Sweep L} {l l' : L}
  {r : MatchResult}

omit [MatchAccounting L] [MatchDepth L] in
theorem DrawsFrom.none (h : q = 0) (entries : List (ℕ × L)) : DrawsFrom entries q [] sw sw := by
  subst h
  exact ⟨(List.append_nil _).symm, (draw_zero _).symm, (drawTotal_zero _).symm,
    fun x hx => absurd hx List.not_mem_nil⟩

/-- One level, and what is drawn from the levels behind it. -/
theorem DrawsFrom.cons {new : List Trade} {sw' : Sweep L}
    (hfills : FillsToTotal t.orderId l) (hkeyed : PriceLevel.price l = price)
    (hnew : price ∉ entries.map Prod.fst) (hrun : matchOrder l q t.orderId .standard = (r, l'))
    (h : DrawsFrom entries r.remainingQuantity new (fillLevel t sw price q r l') sw') :
    DrawsFrom ((price, l) :: entries) q (r.trades ++ new) sw sw' := by
  have htraded := hfills.traded hrun
  have hleft : r.remainingQuantity = q - min q (levelSize l) := by
    have haccount := MatchAccounting.traded_add_remaining hrun
    omega
  have hprice : ∀ x ∈ r.trades, x.price = price := fun x hx => price_of_mem_match hkeyed hrun hx
  refine ⟨?_, ?_, ?_, fun x hx => ?_⟩
  · rw [h.fills, fillLevel_fills, List.append_assoc]
  · have hrest := h.summed
    rw [sizesOf_cons, draw, ← htraded]
    rw [hleft, ← htraded] at hrest
    by_cases hnone : r.trades = []
    · rw [hnone, tradedQuantity_nil, Nat.sub_zero] at hrest
      rw [hnone, tradedQuantity_nil, if_pos rfl, List.nil_append, hrest]
    · have hpos : tradedQuantity r.trades ≠ 0 := by
        obtain ⟨x, xs, hx⟩ := List.exists_cons_of_ne_nil hnone
        have hquantity := (MatchAccounting.trade_mem hrun (hx ▸ List.mem_cons_self)).2
        rw [hx, tradedQuantity_cons]
        omega
      rw [if_neg hpos, summedByPrice_append hnone hprice fun x hx hxp =>
        hnew (hxp ▸ h.met x hx), hrest]
  · have hrest := h.traded
    rw [tradedQuantity_append, htraded, hrest, hleft, sizesOf_cons, drawTotal_cons]
  · rcases List.mem_append.mp hx with hx | hx
    · rw [hprice x hx]
      exact List.mem_cons_self
    · exact List.mem_cons_of_mem _ (h.met x hx)

/-- **The matching loop draws from the levels in order.** -/
theorem sweepLoop_draws (hkind : t.kind = .standard) (hstp : t.stpActive = false) (hlot : t.lot ≤ 1)
    (hlimit : t.limitPrice = none) (hnodup : (entries.map Prod.fst).Nodup)
    (hkeyed : ∀ e ∈ entries, PriceLevel.price e.2 = e.1)
    (hfills : ∀ e ∈ entries, FillsToTotal t.orderId e.2)
    (hstop : sw.stop = .baseQty q) :
    ∃ new, DrawsFrom entries q new sw (sweepLoop t entries sw) := by
  induction entries generalizing sw q with
  | nil => exact ⟨[], (List.append_nil _).symm, rfl, rfl, fun x hx => absurd hx List.not_mem_nil⟩
  | cons e entries ih =>
    obtain ⟨price, l⟩ := e
    obtain ⟨hnew, hnodup⟩ := List.nodup_cons.mp hnodup
    have hprice := hkeyed (price, l) List.mem_cons_self
    have hallows : t.allows price = true := by rw [Taker.allows, hlimit, Option.all_none]
    have hcap : sw.stop.levelQtyCap price t.lot = q := by
      rw [hstop, StopCondition.levelQtyCap, lotFloor, if_pos hlot]
    by_cases hzero : q = 0
    · have hlevel : sweepLevel t sw price l = (sw, false) := by
        rw [sweepLevel, hallows, if_neg (by decide)]
        dsimp only
        rw [hcap, if_pos hzero]
      rw [sweepLoop, hlevel]
      exact ⟨[], .none hzero _⟩
    rcases hrun : matchOrder l q t.orderId .standard with ⟨r, l'⟩
    have hstop' : (fillLevel t sw price q r l').stop = .baseQty r.remainingQuantity :=
      fillLevel_stop hstop hrun
    rw [sweepLoop, sweepLevel_eq_fillLevel hkind hstp hallows hcap hzero hrun, hstop']
    dsimp only
    have hhead := hfills (price, l) List.mem_cons_self
    by_cases hleft : r.remainingQuantity = 0
    · rw [hleft, if_neg (by decide)]
      exact ⟨r.trades ++ [], .cons hhead hprice hnew hrun (.none hleft _)⟩
    · rw [if_pos (by simpa [StopCondition.isDone] using hleft)]
      obtain ⟨new, h⟩ := ih hnodup (List.forall_mem_cons.mp hkeyed).2
        (List.forall_mem_cons.mp hfills).2 hstop'
      exact ⟨r.trades ++ new, .cons hhead hprice hnew hrun h⟩

end Sweeps

/-! ### Agreement -/

theorem OrderBook.peekMatch_eq (b : OrderBook L) (side : Side) (hq : q ≤ u64Max) :
    b.peekMatch side q none = drawTotal q (totalsOf (b.sweepEntries side)) := by
  rw [peekMatch]
  split_ifs with hempty
  · rw [sweepEntries_of_isEmpty hempty]
    rfl
  · rw [peekWalk_eq (Nat.zero_le q) hq, Nat.zero_add, Nat.sub_zero]

theorem OrderBook.simulateMarketOrder_eq (b : OrderBook L) (side : Side) (hq : q ≤ u64Max)
    (hproducts : ∀ e ∈ b.sweepEntries side, e.1 * min q (levelTotal e.2) ≤ u128Max) :
    ∃ cost, b.simulateMarketOrder q side =
      some (.ofWalk (q - drawTotal q (totalsOf (b.sweepEntries side))) cost
        (drawTotal q (totalsOf (b.sweepEntries side)))
        (draw q (totalsOf (b.sweepEntries side)))) := by
  rw [simulateMarketOrder]
  split_ifs with hzero hempty
  · rw [hzero, drawTotal_zero, draw_zero]
    exact ⟨0, rfl⟩
  · rw [sweepEntries_of_isEmpty hempty]
    exact ⟨0, rfl⟩
  · obtain ⟨cost, hrun⟩ := simulateWalk_eq 0 [] (Nat.zero_add q ▸ hq) hproducts
    rw [Nat.zero_add, List.nil_append] at hrun
    exact ⟨cost, hrun⟩

/-- **The simulation predicts the execution** of a market order: `simulate_market_order`,
`peek_match` and `fok_fillable_quantity` tell the quantity that is executed, and the simulated fills
are the trades summed by price. -/
def OrderBook.Predicts (b : OrderBook L) (id : OrderId) (q : ℕ) (side : Side) (user : Hash32) :
    Prop :=
  ∃ simulation trades, b.simulateMarketOrder q side = some simulation ∧
    (matchMarketOrder id q side user b).2.fills = b.fills ++ trades ∧
    b.peekMatch side q none = tradedQuantity trades ∧
    simulation.totalFilled = tradedQuantity trades ∧
    b.fokFillableQuantity side q none user id = tradedQuantity trades ∧
    simulation.fills = summedByPrice trades ∧
    simulation.remainingQuantity = q - tradedQuantity trades

section Agreement

variable [MatchAccounting L] [MatchDepth L]

/-- What a market order of the quantity executes. -/
theorem OrderBook.Keyed.matchMarketOrder_draws {b : OrderBook L} (hkeyed : b.Keyed)
    (hlot : b.lotSize = none) {id : OrderId} {side : Side} {user : Hash32}
    (hstp : (b.taker id side none user .standard).stpActive = false)
    (hfills : ∀ e ∈ b.sweepEntries side, FillsToTotal id e.2) :
    ∃ trades, (matchMarketOrder id q side user b).2.fills = b.fills ++ trades ∧
      summedByPrice trades = draw q (sizesOf (b.sweepEntries side)) ∧
      tradedQuantity trades = drawTotal q (sizesOf (b.sweepEntries side)) := by
  obtain ⟨r, -, hemit⟩ := matchMarket_snd id side (.baseQty q none) user b
  rw [matchMarketOrder, hemit, emitTrades_fills]
  rcases matchOrderInner_cases id side (.baseQty q none) user .standard b with
    ⟨hempty, hrun⟩ | ⟨tracker, hrun⟩
  · rw [hrun, sweepEntries_of_isEmpty hempty]
    exact ⟨[], (List.append_nil _).symm, rfl, rfl⟩
  · obtain ⟨trades, h⟩ : ∃ trades, DrawsFrom (b.sweepEntries side) q trades
        (b.openSweep.startSweep (b.taker id side none user .standard) (.baseQty q none))
        (b.openSweep.sweep (b.taker id side none user .standard) (.baseQty q none)) :=
      sweepLoop_draws rfl hstp (by rw [taker, hlot]; rfl) rfl (b.nodup_sweepEntries side)
        (fun e he => hkeyed (mem_sweepEntries.mp he)) hfills rfl
    rw [hrun]
    exact ⟨trades, (finishSweep_fills ..).trans h.fills, h.summed, h.traded⟩

/-- **The simulation predicts the execution unless a total is beyond a `u64`.** On a reachable book
without lots and without reserve orders that keep their hidden tranche, whose levels fill to their
totals, for a market order outside self-trade prevention whose products fit in a `u128`: the
prediction is right exactly if every level the quantity reaches has a total that fits in a `u64`. -/
theorem simulation_predicts_iff [SnapshotChecksum] [DisplayId] [LevelSnapshot L] [LevelQueue L]
    [LevelMatch L] [LevelResize L] [LevelDisplay L] [LevelTotals L] [MatchableDryRun L]
    {b : OrderBook L} (hreach : b.ReachableByCalls) (hlot : b.lotSize = none) {id : OrderId}
    {side : Side} {q : ℕ} {user : Hash32}
    (hreserve : ∀ o ∈ b.restingOrders, o.keepsHidden = false)
    (hfills : ∀ e ∈ b.sweepEntries side, (∀ o ∈ orders e.2, o.keepsHidden = false) →
      FillsToTotal id e.2) (hstp : b.stpMode = .none ∨ user = 0) (hq : q ≤ u64Max)
    (hproducts : ∀ e ∈ b.sweepEntries side, e.1 * min q (levelTotal e.2) ≤ u128Max) :
    b.Predicts id q side user ↔ Countable q (sizesOf (b.sweepEntries side)) := by
  have hactive : (b.taker id side none user .standard).stpActive = false := by
    rw [Taker.stpActive, decide_eq_false_iff_not]
    rintro ⟨henabled, huser⟩
    rcases hstp with hmode | hzero
    · rw [taker, hmode] at henabled
      cases henabled
    · exact huser hzero
  have hlevels : ∀ e ∈ b.sweepEntries side, FillsToTotal id e.2 := fun e he =>
    hfills e he fun o ho => hreserve o
      (mem_restingOrders.mpr ⟨side.opposite, e.1, e.2, mem_sweepEntries.mp he, ho⟩)
  have hnodup : ((sizesOf (b.sweepEntries side)).map Prod.fst).Nodup := by
    rw [sizesOf, List.map_map]
    exact b.nodup_sweepEntries side
  obtain ⟨trades, hfills, hsummed, htraded⟩ :=
    hreach.keyed.matchMarketOrder_draws (q := q) hlot hactive hlevels
  obtain ⟨cost, hsimulation⟩ := b.simulateMarketOrder_eq side hq hproducts
  rw [totalsOf_eq] at hsimulation
  rw [← draw_counted_iff hq hnodup]
  constructor
  · rintro ⟨simulation, trades', hrun, hfills', -, -, -, hprices, -⟩
    obtain rfl : trades' = trades := List.append_cancel_left (hfills'.symm.trans hfills)
    cases Option.some.inj (hrun.symm.trans hsimulation)
    exact hprices.trans hsummed
  · intro hsame
    have htotal : drawTotal q ((sizesOf (b.sweepEntries side)).map fun e => (e.1, counted e.2)) =
        tradedQuantity trades := by rw [htraded, drawTotal, hsame, drawTotal]
    refine ⟨_, trades, hsimulation, hfills, ?_, htotal, ?_, hsame.trans hsummed.symm, ?_⟩
    · rw [b.peekMatch_eq side hq, totalsOf_eq, htotal]
    · rw [fokFillableQuantity_eq, fokWalk_eq_draw (Nat.zero_le q) hq rfl (by rw [taker, hlot]; rfl)
        hactive hlevels, htraded, Nat.zero_add, Nat.sub_zero]
    · rw [← htotal]
      rfl

end Agreement

/-- Two levels, the first with two orders. -/
def askSteps : List Command :=
  [.addOrder ⟨1, 100, .sell, 7, 0, .gtc, 5, .standard⟩,
    .addOrder ⟨2, 100, .sell, 8, 0, .gtc, 4, .standard⟩,
    .addOrder ⟨3, 101, .sell, 7, 0, .gtc, 6, .standard⟩]

/-- A book after the given calls. -/
def steppedBook (commands : List Command) : OrderBook FifoLevel :=
  (OrderBook.withClock "BTC" ⟨fun n => n, 0⟩).run commands

/-- A market order that reaches into the second level. -/
theorem askSteps_predicted : (steppedBook askSteps).Predicts 9 11 .buy 0 := by
  let _ := noDigest
  let _ := tallyIds
  have hfresh : ∀ e ∈ (steppedBook askSteps).sweepEntries .buy, 9 ∉ orderIds e.2 := by decide
  exact (simulation_predicts_iff (OrderBook.reachableByCalls_run ..) rfl (by decide)
    (fun e he => fillsToTotal_of_notMem (hfresh e he)) (Or.inr rfl) (by decide) (by decide)).mpr
    (by decide)

/-- A bid close to the bound of the visible counter, and an iceberg that takes the total beyond a
`u64`. -/
def hugeBids : List Command :=
  [.addOrder ⟨1, 100, .buy, 7, 0, .gtc, u64Max - 5, .standard⟩,
    .addOrder ⟨2, 100, .buy, 8, 0, .gtc, 1, .iceberg 100⟩]

/-- **A level beyond a `u64` is taken for an empty one.** A market sell of seven is executed; the
simulation and `peek_match` say that nothing would be. -/
theorem hugeBids_not_predicted :
    letI := noDigest
    letI := tallyIds
    (steppedBook hugeBids).ReachableByCalls ∧
      (∀ e ∈ (steppedBook hugeBids).sweepEntries .sell, FillsToTotal 9 e.2) ∧
      (matchMarketOrder 9 7 .sell 0 (steppedBook hugeBids)).2.fills = [⟨9, 1, 100, 7⟩] ∧
      (steppedBook hugeBids).peekMatch .sell 7 none = 0 ∧
      ((steppedBook hugeBids).simulateMarketOrder 7 .sell).map OrderSimulation.totalFilled =
        some 0 ∧
      ¬ (steppedBook hugeBids).Predicts 9 7 .sell 0 := by
  let _ := noDigest
  let _ := tallyIds
  have hfresh : ∀ e ∈ (steppedBook hugeBids).sweepEntries .sell,
      9 ∉ orderIds e.2 ∧ ∀ o ∈ orders e.2, o.keepsHidden = false := by decide
  refine ⟨OrderBook.reachableByCalls_run .., fun e he =>
    fillsToTotal_of_notMem (hfresh e he).1 (hfresh e he).2, by decide, by decide, by decide, ?_⟩
  rintro ⟨_, trades, -, hfills, hpeek, -⟩
  have htrades : trades = [⟨9, 1, 100, 7⟩] :=
    List.append_cancel_left (hfills.symm.trans (by decide))
  rw [htrades] at hpeek
  exact absurd hpeek (by decide)

end OrderBookRs
