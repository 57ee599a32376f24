import OrderBookRs.PricePriority
import OrderBookRs.SpecialOrders

/-!
# Spending an amount

A market order by amount walks the opposite levels best price first. At each it turns the rest of
its amount into whole lots, takes what the level has of them and pays for it. `spend` is that walk
over prices and depths alone; the matching loop carries it out. It never spends more than the
amount, and as a rule it ends for a reason: the best level that still has depth is too dear for
another lot. There are two exceptions (`StopsShort`). The walk ends at the first level where no lot
is affordable, even if that level has nothing to match and a cheaper one behind it has. And it asks
no level for more than the whole lots in a `u64`, even if a deeper level is affordable.

## Main definitions

* `spend`: the walk of an amount over prices and depths.
* `openDepth`: what a level lets a taker match.
* `StopsShort`: the two ways in which the walk ends without a reason.
* `OrderBook.BestDeep`: the best opposite level with matchable depth.
* `WellSpent`: the specification of the call.

## Main results

* `spend_reason_iff`: a walk that does not stop short ends for a reason.
* `openDepth_left`: a match takes what it trades off the depth.
* `sweepLoop_spends`: the matching loop carries out the walk.
* `market_by_amount_wellSpent_iff`.
-/

namespace OrderBookRs

open PriceLevel Fallible OrderBook

variable {side : Side} {amount depth price : ℕ}

/-! ### Whole lots -/

theorem lotFloor_eq (lot raw : ℕ) : lotFloor lot raw = raw - raw % max 1 lot := by
  rw [lotFloor]
  split_ifs with h
  · rw [max_eq_left h, Nat.mod_one, Nat.sub_zero]
  · rw [max_eq_right (by omega)]

/-- Rounding down gives up less than a lot. -/
theorem lt_lotFloor_add (lot raw : ℕ) : raw < lotFloor lot raw + max 1 lot := by
  have hlt : raw % max 1 lot < max 1 lot := Nat.mod_lt _ (by omega)
  rw [lotFloor_eq]
  omega

theorem lotFloor_eq_zero_iff {lot raw : ℕ} : lotFloor lot raw = 0 ↔ raw < max 1 lot := by
  constructor
  · intro h
    have hlt := lt_lotFloor_add lot raw
    omega
  · intro h
    rw [lotFloor_eq, Nat.mod_eq_of_lt h]
    exact Nat.sub_self raw

section Cap

variable {lot budget price : ℕ}

/-- What the rest of an amount buys at a price is paid by it. -/
theorem mul_levelQtyCap_le :
    price * (StopCondition.quoteAmount budget).levelQtyCap price lot ≤ budget := by
  rw [StopCondition.levelQtyCap]
  split_ifs
  · exact Nat.zero_le _
  · calc price * lotFloor lot (min (budget / price) u64Max)
        ≤ price * (budget / price) :=
          Nat.mul_le_mul_left _ ((lotFloor_le ..).trans (min_le_left ..))
      _ ≤ budget := Nat.mul_div_le ..

/-- An amount buys nothing at a price where it does not pay for a lot. -/
theorem levelQtyCap_eq_zero_iff (hprice : 0 < price) (hlot : lot ≤ u64Max) :
    (StopCondition.quoteAmount budget).levelQtyCap price lot = 0 ↔ budget < max 1 lot * price := by
  have hunit : max 1 lot ≤ u64Max := max_le (by decide) hlot
  rw [StopCondition.levelQtyCap]
  split_ifs with h
  · have hlt : budget < price := by omega
    have hle : price ≤ max 1 lot * price := Nat.le_mul_of_pos_left _ (by omega)
    exact iff_of_true rfl (by omega)
  · rw [lotFloor_eq_zero_iff, ← Nat.div_lt_iff_lt_mul hprice]
    omega

/-- Unless the working bound caps it, the rest of an amount buys so much that less than the price of
a lot is left. -/
theorem lt_of_levelQtyCap (hprice : 0 < price) (hbound : budget / price ≤ u64Max) :
    budget - price * (StopCondition.quoteAmount budget).levelQtyCap price lot <
      max 1 lot * price := by
  have hpos : 0 < max 1 lot * price := Nat.mul_pos (by omega) hprice
  rw [StopCondition.levelQtyCap]
  split_ifs with hnone
  · have hlt : budget < price := by omega
    have hle : price ≤ max 1 lot * price := Nat.le_mul_of_pos_left _ (by omega)
    omega
  · rw [min_eq_left hbound]
    have hbudget := Nat.lt_mul_div_succ budget hprice
    have hround := lt_lotFloor_add lot (budget / price)
    have hstep : price * (budget / price + 1) ≤
        price * (lotFloor lot (budget / price) + max 1 lot) := Nat.mul_le_mul_left _ hround
    rw [Nat.mul_add price (lotFloor lot (budget / price)), mul_comm price (max 1 lot)] at hstep
    omega

end Cap

/-! ### The walk -/

/-- What is left of an amount and of the depths after a walk over prices and depths. -/
def spend (lot : ℕ) : ℕ → List (ℕ × ℕ) → ℕ × List (ℕ × ℕ)
  | budget, [] => (budget, [])
  | budget, (price, depth) :: rest =>
    let cap := (StopCondition.quoteAmount budget).levelQtyCap price lot
    if cap = 0 then (budget, (price, depth) :: rest)
    else
      let s := spend lot (budget - price * min cap depth) rest
      (s.1, (price, depth - cap) :: s.2)

/-- The first level with depth. -/
def firstDeep (levels : List (ℕ × ℕ)) : Option (ℕ × ℕ) := levels.find? fun e => 0 < e.2

/-- The walk buys out level after level until it ends without a reason. Either the rest of the
amount does not pay for a lot at a level without depth, while it does at the next level with depth.
Or a level is deeper than what the walk asks of it because the `u64` bound caps that, and what the
walk leaves in the end still pays for a lot there. -/
def StopsShort (lot : ℕ) : ℕ → List (ℕ × ℕ) → Prop
  | _, [] => False
  | budget, (price, depth) :: rest =>
    let cap := (StopCondition.quoteAmount budget).levelQtyCap price lot
    if cap = 0 then depth = 0 ∧ (firstDeep rest).any fun e => max 1 lot * e.1 ≤ budget
    else if depth ≤ cap then StopsShort lot (budget - price * depth) rest
    else u64Max < budget / price ∧ max 1 lot * price ≤ (spend lot (budget - price * cap) rest).1

instance decidableStopsShort (lot : ℕ) :
    ∀ budget levels, Decidable (StopsShort lot budget levels)
  | _, [] => isFalse id
  | budget, (price, depth) :: rest =>
    have := decidableStopsShort lot (budget - price * depth) rest
    inferInstanceAs (Decidable (ite (_ = 0) (_ ∧ _) (ite (_ ≤ _) (StopsShort ..) (_ ∧ _))))

section Walk

variable {lot budget : ℕ} {levels : List (ℕ × ℕ)}

theorem firstDeep_cons_of_pos (h : 0 < depth) (rest : List (ℕ × ℕ)) :
    firstDeep ((price, depth) :: rest) = some (price, depth) := by
  rw [firstDeep, List.find?_cons_of_pos (by simpa using h)]

theorem firstDeep_cons_zero (price : ℕ) (rest : List (ℕ × ℕ)) :
    firstDeep ((price, 0) :: rest) = firstDeep rest := by
  rw [firstDeep, List.find?_cons_of_neg (by simp), firstDeep]

theorem spend_le (lot budget : ℕ) (levels : List (ℕ × ℕ)) :
    (spend lot budget levels).1 ≤ budget := by
  induction levels generalizing budget with
  | nil => exact le_rfl
  | cons e rest ih =>
    obtain ⟨price, depth⟩ := e
    rw [spend]
    split_ifs
    · exact le_rfl
    · exact (ih _).trans (Nat.sub_le ..)

/-- A walk without an amount ends where it starts. -/
theorem spend_zero (lot : ℕ) (levels : List (ℕ × ℕ)) : spend lot 0 levels = (0, levels) := by
  cases levels with
  | nil => rfl
  | cons e rest =>
    have hcap : (StopCondition.quoteAmount 0).levelQtyCap e.1 lot = 0 := by
      rw [StopCondition.levelQtyCap, if_pos (by omega)]
    rw [spend, hcap]
    rfl

/-- **A walk that does not stop short ends for a reason**, and only then: what is left of the amount
does not pay for a lot at the first level that still has depth. -/
theorem spend_reason_iff (hlot : lot ≤ u64Max) (hprices : ∀ e ∈ levels, 0 < e.1) :
    (∀ e, firstDeep (spend lot budget levels).2 = some e →
        (spend lot budget levels).1 < max 1 lot * e.1) ↔ ¬ StopsShort lot budget levels := by
  induction levels generalizing budget with
  | nil => exact iff_of_true (fun e he => nomatch he) id
  | cons x rest ih =>
    obtain ⟨price, depth⟩ := x
    obtain ⟨hprice, hrest⟩ := List.forall_mem_cons.mp hprices
    rw [StopsShort, spend]
    dsimp only
    by_cases hzero : (StopCondition.quoteAmount budget).levelQtyCap price lot = 0
    · -- the walk ends here
      rw [if_pos hzero, if_pos hzero]
      rcases Nat.eq_zero_or_pos depth with rfl | hdeep
      · rw [firstDeep_cons_zero]
        simp only [true_and, Option.any_eq_true, decide_eq_true_eq, not_exists, not_and, not_le]
      · rw [firstDeep_cons_of_pos hdeep]
        refine iff_of_true (fun e he => ?_) fun h => hdeep.ne' h.1
        cases he
        exact (levelQtyCap_eq_zero_iff hprice hlot).mp hzero
    rw [if_neg hzero, if_neg hzero]
    by_cases hout : depth ≤ (StopCondition.quoteAmount budget).levelQtyCap price lot
    · -- the level is bought out
      rw [if_pos hout, min_eq_right hout, Nat.sub_eq_zero_of_le hout, firstDeep_cons_zero]
      exact ih hrest
    · -- the level keeps some depth, and the walk goes on behind it
      rw [if_neg hout, min_eq_left (not_le.mp hout).le,
        firstDeep_cons_of_pos (Nat.sub_pos_of_lt (not_le.mp hout)), not_and, not_le]
      constructor
      · exact fun h _ => h _ rfl
      · intro h e he
        cases he
        rcases lt_or_ge u64Max (budget / price) with hbig | hbound
        · exact h hbig
        · exact (spend_le ..).trans_lt (lt_of_levelQtyCap hprice hbound)

end Walk

/-! ### The loop -/

/-- What trades cost. -/
def notional (trades : List Trade) : ℕ := (trades.map fun x => x.price * x.quantity).sum

@[simp] theorem notional_nil : notional [] = 0 := rfl

theorem notional_append (xs ys : List Trade) : notional (xs ++ ys) = notional xs + notional ys := by
  simp [notional]

theorem notional_of_price {trades : List Trade} (h : ∀ x ∈ trades, x.price = price) :
    notional trades = price * tradedQuantity trades := by
  induction trades with
  | nil => rfl
  | cons x rest ih =>
    have hrest := ih (List.forall_mem_cons.mp h).2
    simp only [notional, tradedQuantity, List.map_cons, List.sum_cons, Nat.mul_add] at hrest ⊢
    rw [hrest, h x (List.mem_cons_self ..)]

variable {L : Type} [PriceLevel L]

/-- What a level lets a taker match: what its orders other than the taker's own let a sweep draw. -/
def openDepth (id : OrderId) (l : L) : ℕ :=
  (((orders l).filter fun o => o.id ≠ id).map Order.matchableQty).sum

section Depth

variable {id : OrderId} {l l' : L} {q : ℕ} {r : MatchResult} {o o' : Order}

/-- A match executes as much as was asked for and the level lets the taker match. -/
theorem tradedQuantity_eq_min [MatchAccounting L] [MatchableDryRun L] [MatchReach L]
    (hrun : matchOrder l q id .standard = (r, l')) :
    tradedQuantity r.trades = min q (openDepth id l) := by
  have haccount := MatchAccounting.traded_add_remaining hrun
  have hremaining := MatchableDryRun.remaining_eq hrun
  rw [MatchReach.matchableQuantity_others] at hremaining
  rw [openDepth]
  omega

variable [LevelQueue L] [LevelMatch L] [MatchBalance L] [LevelCapacity L]

/-- A maker that stays lets a sweep draw less by what it traded. -/
theorem matchableQty_stays (hrun : matchOrder l q id .standard = (r, l')) (ho : o ∈ orders l)
    (ho' : o' ∈ orders l') (hid : o'.id = o.id) :
    o'.matchableQty + tradedQuantity (tradesOf o.id r.trades) = o.matchableQty := by
  obtain ⟨hsize, -⟩ := MatchBalance.stays hrun ho ho' hid
  have hkept := MatchBalance.hidden_kept hrun ho ho' hid
  obtain ⟨x, hx, v, k, rfl⟩ := LevelMatch.orders_match hrun ho'
  obtain rfl : x = o := eq_of_mem_orders hx ho (by rwa [Order.setTranches_id] at hid)
  rw [Order.matchableQty_eq (LevelCapacity.size_le ho'),
    Order.matchableQty_eq (LevelCapacity.size_le ho), Order.setTranches_keepsHidden]
  split_ifs with hkeeps
  · have hhidden := hkept hkeeps
    rw [Order.size, Order.size] at hsize
    omega
  · exact hsize

omit [LevelQueue L] [LevelMatch L] in
/-- A maker that leaves has traded all it let a sweep draw. -/
theorem matchableQty_leaves [MatchReach L] (hrun : matchOrder l q id .standard = (r, l'))
    (ho : o ∈ orders l) (hgone : o.id ∉ orderIds l') :
    tradedQuantity (tradesOf o.id r.trades) = o.matchableQty := by
  have hreach := MatchReach.traded_le hrun ho
  rw [Order.matchableQty_eq (LevelCapacity.size_le ho)] at hreach ⊢
  rcases MatchBalance.leaves hrun ho hgone with hall | ⟨hkeeps, hdisplay⟩
  · split_ifs at hreach ⊢
    · rw [Order.size] at hall
      omega
    · exact hall
  · rw [if_pos hkeeps]
    exact hdisplay

/-- **A match takes what it trades off the depth.** -/
theorem openDepth_left [MatchAccounting L] [SelfMatchSkip L] [MatchReach L]
    (hrun : matchOrder l q id .standard = (r, l')) :
    openDepth id l' + tradedQuantity r.trades = openDepth id l := by
  have hnodup (l : L) : (((orders l).filter fun o => o.id ≠ id).map Order.id).Nodup :=
    (LevelQueue.nodup_orderIds l).sublist (List.filter_sublist.map _)
  have hids (l : L) (i : OrderId) :
      i ∈ ((orders l).filter fun o => o.id ≠ id).map Order.id ↔ i ∈ orderIds l ∧ i ≠ id := by
    simp only [List.mem_map, List.mem_filter, decide_eq_true_eq, mem_orderIds]
    constructor
    · rintro ⟨o, ⟨ho, hne⟩, rfl⟩
      exact ⟨⟨o, ho, rfl⟩, hne⟩
    · rintro ⟨⟨o, ho, rfl⟩, hne⟩
      exact ⟨o, ⟨ho, hne⟩, rfl⟩
  have hothers : r.trades.filter
      (fun x => x.makerOrderId ∉ ((orders l).filter fun o => o.id ≠ id).map Order.id) = [] := by
    refine List.filter_eq_nil_iff.mpr fun x hx hnot => of_decide_eq_true hnot ((hids ..).mpr
      ⟨(MatchAccounting.trade_mem hrun hx).1, fun hown => ?_⟩)
    have hmem : x ∈ tradesOf id r.trades := List.mem_filter.mpr ⟨hx, decide_eq_true hown⟩
    rw [SelfMatchSkip.own_untraded hrun] at hmem
    cases hmem
  have htraded := sum_tradesOf_add (hnodup l) r.trades
  rw [hothers, tradedQuantity_nil, Nat.add_zero, List.map_map] at htraded
  rw [← htraded]
  have hsub : ((orders l').filter fun o => o.id ≠ id).map Order.id ⊆
      ((orders l).filter fun o => o.id ≠ id).map Order.id := by
    intro i hi
    obtain ⟨hold, hne⟩ := (hids ..).mp hi
    obtain ⟨o', ho', rfl⟩ := mem_orderIds.mp hold
    obtain ⟨o, ho, v, k, rfl⟩ := LevelMatch.orders_match hrun ho'
    exact (hids ..).mpr ⟨mem_orderIds.mpr ⟨o, ho, (Order.setTranches_id ..).symm⟩, hne⟩
  refine sum_add_sum_of_keys (hnodup l) (hnodup l') hsub ?_ ?_
  · exact fun o ho o' ho' hid => matchableQty_stays hrun (List.mem_of_mem_filter ho)
      (List.mem_of_mem_filter ho') hid
  · intro o ho hgone
    obtain ⟨ho, hne⟩ := List.mem_filter.mp ho
    refine matchableQty_leaves hrun ho fun hstays => hgone ((hids ..).mpr ⟨hstays, ?_⟩)
    exact of_decide_eq_true hne

end Depth

/-- Prices and depths of the given levels. -/
def depthsOf (id : OrderId) (entries : List (ℕ × L)) : List (ℕ × ℕ) :=
  entries.map fun e => (e.1, openDepth id e.2)

/-- What the book lets the taker match at a price of the opposite side. -/
def OrderBook.depthAt (b : OrderBook L) (id : OrderId) (side : Side) (price : ℕ) : ℕ :=
  ((b.levels side.opposite).get? price).elim 0 (openDepth id)

theorem OrderBook.depthAt_of_get? {b : OrderBook L} {id : OrderId} {l : L}
    (h : (b.levels side.opposite).get? price = some l) :
    b.depthAt id side price = openDepth id l := by
  rw [depthAt, h]
  rfl

/-- What a walk over `entries` with the given amount does: it applies `new` and leaves what `spend`
says of the amount and of the depths. -/
structure Spends (t : Taker) (entries : List (ℕ × L)) (budget : ℕ) (new : List Trade)
    (sw sw' : Sweep L) : Prop where
  fills : sw'.book.fills = sw.book.fills ++ new
  paid : notional new + (spend t.lot budget (depthsOf t.orderId entries)).1 = budget
  left : (entries.map fun e => (e.1, sw'.book.depthAt t.orderId t.side e.1)) =
    (spend t.lot budget (depthsOf t.orderId entries)).2

section Loop

variable {t : Taker} {budget price : ℕ} {sw sw' : Sweep L} {l l' : L} {r : MatchResult}
  {entries : List (ℕ × L)} {new : List Trade}

/-- A walk that does not get past its first level. -/
theorem Spends.none
    (hlevels : ∀ e ∈ entries, (sw.book.levels t.side.opposite).get? e.1 = some e.2)
    (h : spend t.lot budget (depthsOf t.orderId entries) = (budget, depthsOf t.orderId entries)) :
    Spends t entries budget [] sw sw := by
  refine ⟨(List.append_nil _).symm, by rw [h, notional_nil, Nat.zero_add], ?_⟩
  rw [h, depthsOf]
  exact List.map_congr_left fun e he => by rw [depthAt_of_get? (hlevels e he)]

variable {cap : ℕ}

/-- A match is paid at the price of its level; the product does not saturate. -/
theorem fillLevel_stop_quote [MatchAccounting L] [MatchableDryRun L] [MatchReach L]
    (hbudget : budget ≤ u128Max) (hstop : sw.stop = .quoteAmount budget)
    (hcap : (StopCondition.quoteAmount budget).levelQtyCap price t.lot = cap)
    (hrun : matchOrder l cap t.orderId .standard = (r, l')) :
    (fillLevel t sw price cap r l').stop =
      .quoteAmount (budget - price * min cap (openDepth t.orderId l)) := by
  have haccount := MatchAccounting.traded_add_remaining hrun
  have htraded := tradedQuantity_eq_min hrun
  have hexecuted : cap - r.remainingQuantity = min cap (openDepth t.orderId l) := by omega
  have hpaid : price * min cap (openDepth t.orderId l) ≤ budget := by
    refine (Nat.mul_le_mul_left _ (min_le_left ..)).trans ?_
    rw [← hcap]
    exact mul_levelQtyCap_le
  show sw.stop.consume _ price = _
  rw [hstop, StopCondition.consume, hexecuted, satMul128, min_eq_left (hpaid.trans hbudget)]

variable [LevelQueue L] [LevelMatch L] [MatchAccounting L] [MatchBalance L] [MatchableDryRun L]
  [MatchDepth L] [MatchReach L] [SelfMatchSkip L] [LevelCapacity L]

/-- A match at the first level and a walk over the others with what it left of the amount. -/
theorem Spends.cons (hkeyed : PriceLevel.price l = price)
    (hcap : (StopCondition.quoteAmount budget).levelQtyCap price t.lot = cap) (hpos : cap ≠ 0)
    (hrun : matchOrder l cap t.orderId .standard = (r, l'))
    (hkept : (sw'.book.levels t.side.opposite).get? price = some l')
    (h : Spends t entries (budget - price * min cap (openDepth t.orderId l)) new
      (fillLevel t sw price cap r l') sw') :
    Spends t ((price, l) :: entries) budget (r.trades ++ new) sw sw' := by
  have htraded := tradedQuantity_eq_min hrun
  have hcost : notional r.trades = price * min cap (openDepth t.orderId l) := by
    rw [notional_of_price fun x hx => price_of_mem_match hkeyed hrun hx, htraded]
  have hpaid : price * cap ≤ budget := hcap ▸ mul_levelQtyCap_le
  have hstep : spend t.lot budget (depthsOf t.orderId ((price, l) :: entries)) =
      ((spend t.lot (budget - price * min cap (openDepth t.orderId l))
          (depthsOf t.orderId entries)).1,
        (price, openDepth t.orderId l - cap) ::
          (spend t.lot (budget - price * min cap (openDepth t.orderId l))
            (depthsOf t.orderId entries)).2) := by
    rw [depthsOf, List.map_cons, spend]
    rw [hcap, if_neg hpos]
    rfl
  refine ⟨?_, ?_, ?_⟩
  · rw [h.fills, fillLevel_fills, List.append_assoc]
  · have hrest := h.paid
    have hle : price * min cap (openDepth t.orderId l) ≤ price * cap :=
      Nat.mul_le_mul_left _ (min_le_left ..)
    rw [hstep, notional_append, hcost]
    omega
  · have hdepth : openDepth t.orderId l' = openDepth t.orderId l - cap := by
      have hleft := openDepth_left hrun
      omega
    rw [hstep, List.map_cons, depthAt_of_get? hkept, hdepth, h.left]

/-- **The matching loop carries out the walk.** The induction is over the levels still to visit; the
amount is what the levels before them left. -/
theorem sweepLoop_spends (hkind : t.kind = .standard)
    (hstp : t.stpActive = false) (hlimit : t.limitPrice = none)
    (hnodup : (entries.map Prod.fst).Nodup)
    (hlevels : ∀ e ∈ entries, (sw.book.levels t.side.opposite).get? e.1 = some e.2)
    (hkeyed : ∀ e ∈ entries, PriceLevel.price e.2 = e.1) (hbudget : budget ≤ u128Max)
    (hstop : sw.stop = .quoteAmount budget) :
    ∃ new, Spends t entries budget new sw (sweepLoop t entries sw) := by
  induction entries generalizing sw budget with
  | nil => exact ⟨[], .none hlevels rfl⟩
  | cons e entries ih =>
    obtain ⟨price, l⟩ := e
    obtain ⟨hnot, hnodup'⟩ := List.nodup_cons.mp hnodup
    have hallows : t.allows price := by rw [Taker.allows, hlimit]; rfl
    obtain ⟨cap, hcap⟩ : ∃ cap,
        (StopCondition.quoteAmount budget).levelQtyCap price t.lot = cap := ⟨_, rfl⟩
    by_cases hzero : cap = 0
    · -- no lot is affordable: the walk ends
      have hlevel : sweepLevel t sw price l = (sw, false) := by
        rw [sweepLevel, if_neg (by simpa using hallows), hstop]
        rw [hcap, if_pos hzero]
      rw [sweepLoop, hlevel]
      refine ⟨[], .none hlevels ?_⟩
      rw [depthsOf, List.map_cons, spend]
      rw [hcap, if_pos hzero]
    rcases hrun : matchOrder l cap t.orderId .standard with ⟨r, l'⟩
    have hstop' := fillLevel_stop_quote hbudget hstop hcap hrun
    have hlevels' : ∀ e ∈ entries, ((fillLevel t sw price cap r l').book.levels
        t.side.opposite).get? e.1 = some e.2 := fun e he => by
      rw [fillLevel_get?, if_neg]
      · exact hlevels e (List.mem_cons_of_mem _ he)
      · rintro ⟨-, heq⟩
        exact hnot (List.mem_map.mpr ⟨e, he, heq⟩)
    have hhere : ((fillLevel t sw price cap r l').book.levels t.side.opposite).get? price =
        some l' := by rw [fillLevel_get?, if_pos ⟨rfl, rfl⟩]
    have hprice := hkeyed (price, l) (List.mem_cons_self ..)
    rw [sweepLoop, sweepLevel_eq_fillLevel hkind hstp hallows (hstop ▸ hcap) hzero hrun, hstop']
    by_cases hdone : budget - price * min cap (openDepth t.orderId l) = 0
    · rw [if_neg (by simp [StopCondition.isDone, hdone])]
      refine ⟨r.trades ++ [], .cons hprice hcap hzero hrun hhere (.none hlevels' ?_)⟩
      rw [hdone, spend_zero]
    · rw [if_pos (by simpa [StopCondition.isDone] using hdone)]
      obtain ⟨new, hnew⟩ := ih hnodup' hlevels'
        (List.forall_mem_cons.mp hkeyed).2 (by omega) hstop'
      refine ⟨r.trades ++ new, .cons hprice hcap hzero hrun ?_ hnew⟩
      -- the walk does not come back to a level it went past
      rw [sweepLoop_get?_of_notMem hnodup' hlevels' hnot, hhere]

end Loop

/-! ### The call -/

/-- The best price at which the opposite side has matchable depth. -/
def OrderBook.BestDeep (b : OrderBook L) (id : OrderId) (side : Side) (price : ℕ) : Prop :=
  0 < b.depthAt id side price ∧
    ∀ other, 0 < b.depthAt id side other → side.better other price = false

/-- **A well spent amount.** The trades cost at most the amount, and what they leave of it does not
pay for a lot at the best price that still has matchable depth. -/
structure WellSpent (id : OrderId) (side : Side) (lot amount : ℕ) (trades : List Trade)
    (b' : OrderBook L) : Prop where
  within : notional trades ≤ amount
  reason : ∀ price, b'.BestDeep id side price → amount - notional trades < max 1 lot * price

omit [PriceLevel L] in
/-- Among levels best price first, the first with depth is the best with depth. -/
theorem firstDeep_iff {levels : List (ℕ × ℕ)}
    (hbest : levels.Pairwise fun x y => side.better x.1 y.1) {e : ℕ × ℕ} :
    firstDeep levels = some e ↔
      e ∈ levels ∧ 0 < e.2 ∧ ∀ x ∈ levels, 0 < x.2 → side.better x.1 e.1 = false := by
  induction levels with
  | nil => simp [firstDeep]
  | cons x rest ih =>
    obtain ⟨hfirst, hrest⟩ := List.pairwise_cons.mp hbest
    obtain ⟨price, depth⟩ := x
    rcases Nat.eq_zero_or_pos depth with rfl | hdeep
    · rw [firstDeep_cons_zero, ih hrest]
      constructor
      · rintro ⟨hmem, hpos, hall⟩
        refine ⟨List.mem_cons_of_mem _ hmem, hpos, fun y hy hypos => ?_⟩
        rcases List.mem_cons.mp hy with rfl | hy
        · cases hypos
        · exact hall y hy hypos
      · rintro ⟨hmem, hpos, hall⟩
        refine ⟨?_, hpos, fun y hy => hall y (List.mem_cons_of_mem _ hy)⟩
        rcases List.mem_cons.mp hmem with rfl | hmem
        · cases hpos
        · exact hmem
    · rw [firstDeep_cons_of_pos hdeep, Option.some.injEq]
      constructor
      · rintro rfl
        refine ⟨List.mem_cons_self .., hdeep, fun y hy _ => ?_⟩
        rcases List.mem_cons.mp hy with rfl | hy
        · exact side.better_irrefl _
        · exact Side.better_asymm (hfirst y hy)
      · rintro ⟨hmem, -, hall⟩
        rcases List.mem_cons.mp hmem with rfl | hmem
        · rfl
        · have hworse := hall _ (List.mem_cons_self ..) hdeep
          rw [hfirst e hmem] at hworse
          cases hworse

/-- The best price with depth, read off the levels in the order a taker meets them. -/
theorem OrderBook.bestDeep_iff {b : OrderBook L} {id : OrderId} {prices : List ℕ}
    (hbest : prices.Pairwise fun x y => side.better x y)
    (hall : ∀ price, 0 < b.depthAt id side price → price ∈ prices) :
    b.BestDeep id side price ↔
      ∃ depth, firstDeep (prices.map fun p => (p, b.depthAt id side p)) = some (price, depth) := by
  have hpairs : (prices.map fun p => (p, b.depthAt id side p)).Pairwise
      fun x y => side.better x.1 y.1 := List.pairwise_map.mpr hbest
  simp only [firstDeep_iff hpairs, List.mem_map, Prod.mk.injEq]
  constructor
  · rintro ⟨hdeep, hworse⟩
    refine ⟨_, ⟨price, hall price hdeep, rfl, rfl⟩, hdeep, ?_⟩
    rintro _ ⟨p, -, rfl⟩ hpos
    exact hworse p hpos
  · rintro ⟨_, ⟨_, -, rfl, rfl⟩, hdeep, hworse⟩
    exact ⟨hdeep, fun p hp => hworse _ ⟨p, hall p hp, rfl⟩ hp⟩

section Call

variable {b : OrderBook L} {user : Hash32}

theorem openDepth_of_nil {l : L} (id : OrderId) (h : orders l = []) : openDepth id l = 0 := by
  rw [openDepth, h]
  rfl

/-- Finishing a sweep removes levels without depth only. -/
theorem SweepSound.depthAt_finishSweep {t : Taker} {sw : Sweep L} (h : SweepSound t sw)
    (id : OrderId) (price : ℕ) :
    (finishSweep t sw).depthAt id t.side price = sw.book.depthAt id t.side price := by
  rw [depthAt, depthAt, finishSweep_get?]
  split_ifs with hgone
  · cases hl : (sw.book.levels t.side.opposite).get? price with
    | none => rfl
    | some => exact (openDepth_of_nil id (h.marked hgone.2 hl)).symm
  · rfl

/-- The fills a market order by amount applies. -/
def OrderBook.amountFills (b : OrderBook L) (id : OrderId) (amount : ℕ) (side : Side)
    (user : Hash32) : List Trade :=
  (matchMarketOrderByAmount id amount side user b).2.fills.drop b.fills.length

/-- The levels met before the call, and what a walk over them left. -/
structure WalkedOver (b : OrderBook L) (id : OrderId) (side : Side) (amount : ℕ)
    (new : List Trade) (b' : OrderBook L) : Prop where
  fills : b'.fills = b.fills ++ new
  paid : notional new +
    (spend (b.lotSize.getD 1) amount (depthsOf id (b.sweepEntries side))).1 = amount
  left : (((b.sweepEntries side).map Prod.fst).map fun p => (p, b'.depthAt id side p)) =
    (spend (b.lotSize.getD 1) amount (depthsOf id (b.sweepEntries side))).2
  met : ∀ price, 0 < b'.depthAt id side price → price ∈ (b.sweepEntries side).map Prod.fst

section Walked

variable [LevelQueue L] [LevelMatch L] [MatchAccounting L] [MatchBalance L] [MatchableDryRun L]
  [MatchDepth L] [MatchReach L] [SelfMatchSkip L] [LevelCapacity L]

/-- **A sweep with an amount carries out the walk.** -/
theorem matchOrderInner_spends (hb : b.Sound) (hkeyed : b.Keyed) {id : OrderId}
    (hamount : amount ≤ u128Max) (hstp : (b.taker id side none user .standard).stpActive = false) :
    ∃ new, WalkedOver b id side amount new
      (matchOrderInner id side (.quoteAmount amount) user .standard b).2 := by
  rcases matchOrderInner_cases id side (.quoteAmount amount) user .standard b with
    ⟨hempty, hrun⟩ | ⟨tracker, hrun⟩
  · have hnone := sweepEntries_of_isEmpty hempty
    rw [hrun]
    refine ⟨[], (List.append_nil _).symm, ?_, ?_, fun price hdeep => ?_⟩
    · rw [hnone]
      exact Nat.zero_add amount
    · rw [hnone]
      rfl
    · have hget : (b.levels side.opposite).get? price = none :=
        SortedMap.isEmpty_iff.mp hempty price
      have hzero : b.openSweep.depthAt id side price = 0 := by
        rw [depthAt, show (b.openSweep.levels side.opposite).get? price = none from hget]
        rfl
      rw [hzero] at hdeep
      cases hdeep
  · have hsound := (hb.sameState b.sameState_openSweep).sweepSound
      (b.taker id side none user .standard) (.quoteAmount amount)
    obtain ⟨new, h⟩ : ∃ new, Spends (b.taker id side none user .standard) (b.sweepEntries side)
        amount new _
        (b.openSweep.sweep (b.taker id side none user .standard) (.quoteAmount amount)) :=
      sweepLoop_spends rfl hstp rfl (nodup_sweepEntries _ _) (fun e he => mem_sweepEntries.mp he)
        (fun e he => hkeyed (mem_sweepEntries.mp he)) hamount rfl
    have hdepth (price : ℕ) :
        (matchOrderInner id side (.quoteAmount amount) user .standard b).2.depthAt id side price =
          (b.openSweep.sweep (b.taker id side none user .standard)
            (.quoteAmount amount)).book.depthAt id side price := by
      rw [hrun]
      exact hsound.depthAt_finishSweep id price
    refine ⟨new, ?_, h.paid, ?_, fun price hdeep => ?_⟩
    · rw [hrun]
      exact (finishSweep_fills ..).trans h.fills
    · rw [List.map_map]
      exact (List.map_congr_left fun e _ => by rw [Function.comp_apply, hdepth]; rfl).trans h.left
    · rw [hdepth, depthAt] at hdeep
      cases hl : ((b.openSweep.sweep (b.taker id side none user .standard)
          (.quoteAmount amount)).book.levels side.opposite).get? price with
      | none =>
        rw [hl] at hdeep
        cases hdeep
      | some => exact mem_prices_of_sweep hl

/-- **A market order by amount carries out the walk.** -/
theorem market_by_amount_spends (hb : b.Sound) (hkeyed : b.Keyed) {id : OrderId}
    (hamount : amount ≤ u128Max) (hstp : (b.taker id side none user .standard).stpActive = false) :
    WalkedOver b id side amount (b.amountFills id amount side user)
      (matchMarketOrderByAmount id amount side user b).2 := by
  obtain ⟨r, -, hemit⟩ := matchMarket_snd id side (.quoteAmount amount) user b
  obtain ⟨_, _, _, _, _, hsame⟩ := sameOrders_emitTrades false r
    (matchOrderInner id side (.quoteAmount amount) user .standard b).2
  obtain ⟨new, h⟩ := matchOrderInner_spends hb hkeyed hamount hstp
  have hend : (matchMarketOrderByAmount id amount side user b).2 = _ := hemit.trans hsame
  have hfills : b.amountFills id amount side user = new := by
    rw [amountFills, hend]
    rw [h.fills, List.drop_left]
  rw [hfills, hend]
  exact ⟨h.fills, h.paid, h.left, h.met⟩

end Walked

/-- **A walk that does not stop short spends well**, and only such a walk. -/
theorem WalkedOver.wellSpent_iff {id : OrderId} {new : List Trade} {b' : OrderBook L}
    (h : WalkedOver b id side amount new b') (hlot : b.lotSize.getD 1 ≤ u64Max)
    (hprices : ∀ e ∈ b.sweepEntries side, 0 < e.1) :
    WellSpent id side (b.lotSize.getD 1) amount new b' ↔
      ¬ StopsShort (b.lotSize.getD 1) amount (depthsOf id (b.sweepEntries side)) := by
  have hbest : ((b.sweepEntries side).map Prod.fst).Pairwise fun x y => side.better x y :=
    List.pairwise_map.mpr (b.pairwise_better side)
  have hlevels : ∀ x ∈ depthsOf id (b.sweepEntries side), 0 < x.1 := by
    intro x hx
    obtain ⟨e, he, rfl⟩ := List.mem_map.mp hx
    exact hprices e he
  have hpaid := h.paid
  have hunspent : amount - notional new =
      (spend (b.lotSize.getD 1) amount (depthsOf id (b.sweepEntries side))).1 := by omega
  rw [← spend_reason_iff hlot hlevels]
  constructor
  · intro hwell e he
    rw [← hunspent]
    refine hwell.reason e.1 ((bestDeep_iff hbest h.met).mpr ⟨e.2, ?_⟩)
    rw [h.left]
    exact he
  · intro hreason
    refine ⟨by omega, fun price hprice => ?_⟩
    obtain ⟨depth, hdeep⟩ := (bestDeep_iff hbest h.met).mp hprice
    rw [h.left] at hdeep
    rw [hunspent]
    exact hreason _ hdeep

/-- **An amount is well spent unless the walk stops short.** On every reachable book with positive
prices, outside self-trade prevention, a market order by amount spends at most its amount, and what
is left does not pay for a lot at the best price with matchable depth, exactly if the walk over the
levels as they are before the call does not stop short. -/
theorem market_by_amount_wellSpent_iff [LevelQueue L] [LevelMatch L] [LevelResize L]
    [LevelDisplay L] [LevelSnapshot L] [LevelCapacity L] [MatchAccounting L] [MatchBalance L]
    [MatchableDryRun L] [MatchDepth L] [MatchReach L] [SelfMatchSkip L] [SnapshotChecksum]
    [DisplayId] {id : OrderId} (hreach : b.ReachableByCalls) (hamount : amount ≤ u128Max)
    (hlot : b.lotSize.getD 1 ≤ u64Max)
    (hstp : (b.taker id side none user .standard).stpActive = false)
    (hprices : ∀ e ∈ b.sweepEntries side, 0 < e.1) :
    WellSpent id side (b.lotSize.getD 1) amount (b.amountFills id amount side user)
        (matchMarketOrderByAmount id amount side user b).2 ↔
      ¬ StopsShort (b.lotSize.getD 1) amount (depthsOf id (b.sweepEntries side)) :=
  (market_by_amount_spends hreach.registered.1 hreach.keyed hamount hstp).wellSpent_iff hlot hprices

end Call

/-- Bids for five at 100, with id 1, and at a lower price. -/
def bidPair (low : ℕ) : OrderBook FifoLevel :=
  ((withClock "BTC" ⟨fun n => n, 0⟩ : OrderBook FifoLevel).execute
    (.addOrder ⟨1, 100, .buy, 7, 0, .gtc, 5, .standard⟩)).execute
      (.addOrder ⟨2, low, .buy, 7, 0, .gtc, 5, .standard⟩)

theorem bidPair_reachable (low : ℕ) :
    letI := noDigest
    letI := tallyIds
    (bidPair low).ReachableByCalls := by
  let _ := noDigest
  let _ := tallyIds
  exact ⟨"BTC", ⟨fun n => n, 0⟩,
    [.op (.command (.addOrder ⟨1, 100, .buy, 7, 0, .gtc, 5, .standard⟩)),
      .op (.command (.addOrder ⟨2, low, .buy, 7, 0, .gtc, 5, .standard⟩))], rfl⟩

/-- A market sell for 700 buys out the bid at 100, then two at 90, and keeps 20. -/
theorem bidPair_wellSpent :
    (bidPair 90).amountFills 9 700 .sell 0 = [⟨9, 1, 100, 5⟩, ⟨9, 2, 90, 2⟩] ∧
      WellSpent 9 .sell 1 700 ((bidPair 90).amountFills 9 700 .sell 0)
        (matchMarketOrderByAmount 9 700 .sell 0 (bidPair 90)).2 := by
  let _ := noDigest
  let _ := tallyIds
  exact ⟨by decide, (market_by_amount_wellSpent_iff (bidPair_reachable 90) (by decide)
    (by decide) rfl (by decide)).mpr (by decide)⟩

/-- **A market sell can stop short.** The taker has the id of the better bid, which it therefore
cannot match and at which 50 does not pay for one; the call fails, although the bid at 10 is
affordable. -/
theorem bidPair_not_wellSpent :
    letI := noDigest
    letI := tallyIds
    (bidPair 10).ReachableByCalls ∧
      (matchMarketOrderByAmount 1 50 .sell 0 (bidPair 10)).1 =
        .error (.insufficientLiquidityNotional .sell 50 0) ∧
      (matchMarketOrderByAmount 1 50 .sell 0 (bidPair 10)).2.depthAt 1 .sell 10 = 5 ∧
      ¬ WellSpent 1 .sell 1 50 ((bidPair 10).amountFills 1 50 .sell 0)
        (matchMarketOrderByAmount 1 50 .sell 0 (bidPair 10)).2 := by
  let _ := noDigest
  let _ := tallyIds
  have hreach := bidPair_reachable 10
  refine ⟨hreach, by decide, by decide, fun h => ?_⟩
  have hspends : WalkedOver (bidPair 10) 1 .sell 50 ((bidPair 10).amountFills 1 50 .sell 0) _ :=
    market_by_amount_spends hreach.registered.1 hreach.keyed (by decide) rfl
  exact (hspends.wellSpent_iff (by decide) (by decide)).mp h (by decide)

end OrderBookRs
