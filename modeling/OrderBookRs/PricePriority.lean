import OrderBookRs.EveryLevel
import OrderBookRs.TradeReports

/-!
# Price priority and completeness of a sweep

A taker without a lot size and outside self-trade prevention meets the opposite levels best price
first and takes from each what its budget and the level allow. Its trades are therefore ordered from
best to worst, it executes as much as its quantity and the depth within its limit allow, and it
leaves no depth at a better price than one it traded at. The proof is one induction over the levels
still to visit.

## Main definitions

* `Side.better`: which of two prices a taker prefers.
* `depthFor`, `depthWithin`: the matchable depth of a level, and of the levels within a limit.
* `PricePriority`: the specification of a sweep.
* `OrderBook.Takes`: a limit order or a market order that reaches the sweep.

## Main results

* `sweepLoop_in_order`: the matching loop.
* `price_priority`: every limit and every market taker.
-/

namespace OrderBookRs

open PriceLevel Fallible OrderBook

variable {q : ℕ} {t : Taker}

/-! ### Prices a taker prefers -/

/-- A taker on this side prefers `price` to `other`. -/
def Side.better : Side → ℕ → ℕ → Bool
  | .buy, price, other => price < other
  | .sell, price, other => other < price

theorem Side.better_irrefl (side : Side) (p : ℕ) : side.better p p = false := by
  cases side <;> simp [Side.better]

theorem Side.better_asymm {side : Side} {p : ℕ} (h : side.better p q) :
    side.better q p = false := by
  cases side <;> simp [Side.better] at h ⊢ <;> omega

/-- A limit that allows a price allows every better one. -/
theorem Taker.allows_of_better {p : ℕ} (h : t.side.better p q) (hq : t.allows q) : t.allows p := by
  rw [Taker.allows] at hq ⊢
  cases hlimit : t.limitPrice with
  | none => rfl
  | some =>
    rw [hlimit] at hq
    cases hside : t.side <;>
      simp only [hside, Side.better, Side.crosses, Option.all_some, decide_eq_true_eq] at h hq ⊢ <;>
      omega

variable {L : Type}

/-- A taker meets the opposite levels best price first. -/
theorem OrderBook.pairwise_better (b : OrderBook L) (side : Side) :
    (b.sweepEntries side).Pairwise fun x y => side.better x.1 y.1 := by
  cases side with
  | buy => exact b.asks.sorted.imp fun {x y} hlt => by simpa [Side.better] using hlt
  | sell =>
    exact List.pairwise_reverse.mpr
      (b.bids.sorted.imp fun {x y} hlt => by simpa [Side.better] using hlt)

/-! ### Depth -/

variable [PriceLevel L] {entries : List (ℕ × L)}

/-- `matchable_quantity` without a cap: what a level lets the taker match. -/
def depthFor (id : OrderId) (l : L) : ℕ := matchableQuantity l u64Max id

/-- The matchable depth of the given levels within the taker's limit. -/
def depthWithin (t : Taker) (entries : List (ℕ × L)) : ℕ :=
  ((entries.filter fun e => t.allows e.1).map fun e => depthFor t.orderId e.2).sum

theorem depthWithin_cons_of_allows {price : ℕ} (h : t.allows price) (l : L) (entries : List
    (ℕ × L)) :
    depthWithin t ((price, l) :: entries) = depthFor t.orderId l + depthWithin t entries := by
  simp [depthWithin, h]

/-- Behind a price the limit does not allow there is no depth within it. -/
theorem depthWithin_eq_zero (h : ∀ e ∈ entries, ¬ t.allows e.1) : depthWithin t entries = 0 := by
  rw [depthWithin, List.filter_eq_nil_iff.mpr fun e he => h e he]
  rfl

/-- A match executes as much as was asked for and the level lets the taker match. -/
theorem tradedQuantity_match [MatchAccounting L] [MatchableDryRun L] [MatchDepth L] {l l' : L}
    {i : OrderId} {r : MatchResult} (hq : q ≤ u64Max) (hrun : matchOrder l q i .standard =
    (r, l')) : tradedQuantity r.trades = min q (depthFor i l) := by
  have haccount := MatchAccounting.traded_add_remaining hrun
  have hremaining := MatchableDryRun.remaining_eq hrun
  rw [MatchDepth.matchableQuantity_cap hq] at hremaining
  rw [depthFor]
  omega

/-! ### The loop -/

/-- What a walk over `entries` with budget `q` does: it applies `new`. -/
structure SweptInOrder (t : Taker) (entries : List (ℕ × L)) (q : ℕ) (new : List Trade)
    (sw sw' : Sweep L) : Prop where
  fills : sw'.book.fills = sw.book.fills ++ new
  traded : tradedQuantity new = min q (depthWithin t entries)
  met : ∀ x ∈ new, t.allows x.price ∧ x.price ∈ entries.map Prod.fst
  ordered : new.Pairwise fun x y => t.side.better y.price x.price = false
  used : ∀ x ∈ new, ∀ e ∈ entries, t.side.better e.1 x.price →
    ∀ l, (sw'.book.levels t.side.opposite).get? e.1 = some l → depthFor t.orderId l = 0

section Loop

variable [LevelQueue L] [LevelMatch L] [MatchAccounting L] [MatchableDryRun L] [MatchDepth L]
  {t : Taker} {q price : ℕ} {sw : Sweep L} {l l' : L} {r : MatchResult}

omit [LevelQueue L] [LevelMatch L] [MatchAccounting L] [MatchableDryRun L] [MatchDepth L] in
theorem SweptInOrder.none (h : min q (depthWithin t entries) = 0) :
    SweptInOrder t entries q [] sw sw :=
  ⟨(List.append_nil _).symm, h.symm, by simp, List.Pairwise.nil, by simp⟩

omit [LevelQueue L] [LevelMatch L] [MatchAccounting L] [MatchableDryRun L] [MatchDepth L] in
/-- An iteration at an allowed price, with budget, is one match with what the budget buys there. -/
theorem sweepLevel_eq_fillLevel (hkind : t.kind = .standard) (hstp : t.stpActive = false)
    (hallows : t.allows price) {cap : ℕ} (hcap : sw.stop.levelQtyCap price t.lot = cap)
    (hpos : cap ≠ 0) (hrun : matchOrder l cap t.orderId .standard = (r, l')) :
    sweepLevel t sw price l =
      (fillLevel t sw price cap r l', !(fillLevel t sw price cap r l').stop.isDone) := by
  rw [sweepLevel, if_neg (by simpa using hallows)]
  rw [hcap, if_neg hpos, if_neg (by rw [hkind]; decide), if_neg (by rw [hstp]; decide),
    matchNormally, matchAtLevel_eq t sw price l cap hkind, hrun]

omit [LevelQueue L] [LevelMatch L] [MatchAccounting L] [MatchableDryRun L] in
/-- The trades of one match, all at the price of the level. -/
theorem price_of_mem_match (hkeyed : PriceLevel.price l = price)
    (hrun : matchOrder l q t.orderId .standard = (r, l')) {x : Trade} (hx : x ∈ r.trades) :
    x.price = price := (MatchDepth.trade_price hrun hx).trans hkeyed

omit [LevelQueue L] [LevelMatch L] in
/-- A match at the first level and a walk over the others with what it left of the budget. -/
theorem SweptInOrder.cons {new : List Trade} {sw' : Sweep L} (hq : q ≤ u64Max)
    (hallows : t.allows price) (hkeyed : PriceLevel.price l = price)
    (hrun : matchOrder l q t.orderId .standard = (r, l'))
    (hbest : ∀ e ∈ entries, t.side.better price e.1)
    (hused : ∀ x ∈ new, ∀ l₀, (sw'.book.levels t.side.opposite).get? price = some l₀ →
      depthFor t.orderId l₀ = 0)
    (h : SweptInOrder t entries r.remainingQuantity new (fillLevel t sw price q r l') sw') :
    SweptInOrder t ((price, l) :: entries) q (r.trades ++ new) sw sw' := by
  have hprice : ∀ x ∈ r.trades, x.price = price := fun x hx => price_of_mem_match hkeyed hrun hx
  have hworse : ∀ x ∈ new, t.side.better price x.price := fun x hx => by
    obtain ⟨e, he, heq⟩ := List.mem_map.mp (h.met x hx).2
    rw [← heq]
    exact hbest e he
  refine ⟨?_, ?_, fun x hx => ?_, ?_, fun x hx e he hbetter l₀ hl₀ => ?_⟩
  · rw [h.fills, fillLevel_fills, List.append_assoc]
  · have htraded := tradedQuantity_match hq hrun
    have haccount := MatchAccounting.traded_add_remaining hrun
    have hnew := h.traded
    rw [tradedQuantity_append, depthWithin_cons_of_allows hallows]
    omega
  · rcases List.mem_append.mp hx with hx | hx
    · rw [hprice x hx]
      exact ⟨hallows, List.mem_cons_self ..⟩
    · exact ⟨(h.met x hx).1, List.mem_cons_of_mem _ (h.met x hx).2⟩
  · refine List.pairwise_append.mpr ⟨?_, h.ordered, fun x hx y hy => ?_⟩
    · refine List.Pairwise.imp_of_mem (fun {x y} hx hy _ => ?_)
        (List.pairwise_of_forall fun _ _ => trivial)
      rw [hprice x hx, hprice y hy, Side.better_irrefl]
    · rw [hprice x hx]
      exact Side.better_asymm (hworse y hy)
  · rcases List.mem_append.mp hx with hx | hx
    · rw [hprice x hx] at hbetter
      rcases List.mem_cons.mp he with rfl | he
      · rw [Side.better_irrefl] at hbetter
        cases hbetter
      · rw [Side.better_asymm (hbest e he)] at hbetter
        cases hbetter
    · rcases List.mem_cons.mp he with rfl | he
      · exact hused x hx l₀ hl₀
      · exact h.used x hx e he hbetter l₀ hl₀

/-- **The matching loop meets its specification.** The induction is over the levels still to visit,
best price first; the budget is what the levels before them left. -/
theorem sweepLoop_in_order (hkind : t.kind = .standard) (hstp : t.stpActive = false)
    (hlot : t.lot ≤ 1) (hbest : entries.Pairwise fun x y => t.side.better x.1 y.1)
    (hlevels : ∀ e ∈ entries, (sw.book.levels t.side.opposite).get? e.1 = some e.2)
    (hkeyed : ∀ e ∈ entries, PriceLevel.price e.2 = e.1) (hq : q ≤ u64Max)
    (hstop : sw.stop = .baseQty q) :
    ∃ new, SweptInOrder t entries q new sw (sweepLoop t entries sw) := by
  induction entries generalizing sw q with
  | nil => exact ⟨[], .none (by simp [depthWithin])⟩
  | cons e entries ih =>
    obtain ⟨p, l⟩ := e
    obtain ⟨hbest₁, hbest⟩ := List.pairwise_cons.mp hbest
    have hprice := hkeyed (p, l) (List.mem_cons_self ..)
    by_cases hallows : t.allows p
    swap
    · -- the limit ends the walk; what lies behind is worse
      have hdepth : depthWithin t ((p, l) :: entries) = 0 := by
        refine depthWithin_eq_zero fun e he => ?_
        rcases List.mem_cons.mp he with rfl | he
        · exact hallows
        · exact fun h => hallows (t.allows_of_better (hbest₁ e he) h)
      have hlevel : sweepLevel t sw p l = (sw, false) := by
        rw [sweepLevel, if_pos (by simpa using hallows)]
      rw [sweepLoop, hlevel]
      exact ⟨[], .none (by rw [hdepth]; exact Nat.min_zero _)⟩
    by_cases hzero : q = 0
    · have hlevel : sweepLevel t sw p l = (sw, false) := by
        rw [sweepLevel, if_neg (by simpa using hallows), hstop, hzero]
        rw [StopCondition.levelQtyCap, lotFloor, if_pos hlot, if_pos rfl]
      rw [sweepLoop, hlevel]
      exact ⟨[], .none (by rw [hzero]; exact Nat.zero_min _)⟩
    rcases hrun : matchOrder l q t.orderId .standard with ⟨r, l'⟩
    have hstop' : (fillLevel t sw p q r l').stop = .baseQty r.remainingQuantity :=
      fillLevel_stop hstop hrun
    have hcap : sw.stop.levelQtyCap p t.lot = q := by
      rw [hstop, StopCondition.levelQtyCap, lotFloor, if_pos hlot]
    rw [sweepLoop, sweepLevel_eq_fillLevel hkind hstp hallows hcap hzero hrun, hstop']
    dsimp only
    by_cases hleft : r.remainingQuantity = 0
    · rw [hleft, if_neg (by decide)]
      refine ⟨r.trades ++ [], .cons hq hallows hprice hrun hbest₁ (by simp) (.none ?_)⟩
      rw [hleft]
      exact Nat.zero_min _
    · rw [if_pos (by simpa [StopCondition.isDone] using hleft)]
      have hne : ∀ e ∈ entries, ¬ (t.side.opposite = t.side.opposite ∧ e.1 = p) := by
        rintro e he ⟨-, heq⟩
        have := hbest₁ e he
        rw [heq, Side.better_irrefl] at this
        cases this
      have hlevels' : ∀ e ∈ entries, ((fillLevel t sw p q r l').book.levels t.side.opposite).get?
          e.1 = some e.2 := fun e he => by
        rw [fillLevel_get?, if_neg (hne e he)]
        exact hlevels e (List.mem_cons_of_mem _ he)
      have hnodup : (entries.map Prod.fst).Nodup := List.pairwise_map.mpr
        (hbest.imp fun {x y} hlt heq => by rw [heq, Side.better_irrefl] at hlt; cases hlt)
      have haccount := MatchAccounting.traded_add_remaining hrun
      obtain ⟨new, hnew⟩ := ih hbest hlevels'
        (List.forall_mem_cons.mp hkeyed).2 (by omega) hstop'
      refine ⟨r.trades ++ new, hnew.cons hq hallows hprice hrun hbest₁ fun x hx l₀ hl₀ => ?_⟩
      have hnot : p ∉ entries.map Prod.fst := by
        intro hmem
        obtain ⟨e, he, heq⟩ := List.mem_map.mp hmem
        exact hne e he ⟨rfl, heq⟩
      -- the walk does not come back to a level it went past
      rw [sweepLoop_get?_of_notMem hnodup hlevels' hnot, fillLevel_get?, if_pos ⟨rfl, rfl⟩] at hl₀
      cases hl₀
      exact MatchDepth.exhausted hrun hleft

end Loop

/-! ### Calls -/

/-- **Price priority and completeness** for a taker of quantity `q` whose call led from `b` to `b'`
and applied `trades`. -/
structure PricePriority (t : Taker) (q : ℕ) (trades : List Trade) (b b' : OrderBook L) : Prop where
  fills : b'.fills = b.fills ++ trades
  /-- Trades come best price first. -/
  ordered : trades.Pairwise fun x y => t.side.better y.price x.price = false
  within : ∀ x ∈ trades, t.allows x.price
  executed : tradedQuantity trades = min q (depthWithin t (b.sweepEntries t.side))
  /-- No depth is left at a better price than one that traded. -/
  used : ∀ x ∈ trades, ∀ price l, t.side.better price x.price →
    (b'.levels t.side.opposite).get? price = some l → depthFor t.orderId l = 0

section Sweeps

variable [LevelQueue L] [LevelMatch L] [MatchAccounting L] [MatchableDryRun L] [MatchDepth L]
  {b : OrderBook L}

omit [MatchAccounting L] [MatchableDryRun L] [MatchDepth L] in
/-- A level the walk did not meet was not there before it either. -/
theorem SweptInOrder.used_everywhere {new : List Trade} {mode : MatchMode}
    (h : SweptInOrder t (b.sweepEntries t.side) q new (b.startSweep t mode) (b.sweep t mode))
    {x : Trade} (hx : x ∈ new) {price : ℕ} {l : L} (hbetter : t.side.better price x.price)
    (hl : ((b.sweep t mode).book.levels t.side.opposite).get? price = some l) :
    depthFor t.orderId l = 0 := by
  obtain ⟨e, he, rfl⟩ := List.mem_map.mp (mem_prices_of_sweep hl)
  exact h.used x hx e he hbetter l hl

/-- **A sweep with a base budget.** -/
theorem matchOrderInner_in_order (hkeyed : b.Keyed) (hlot : b.lotSize = none) {id : OrderId}
    {side : Side} (hq : q ≤ u64Max) {limit : Option ℕ} {user : Hash32}
    (ht : t = b.taker id side limit user .standard) (hstp : t.stpActive = false) :
    ∃ trades, PricePriority t q trades b
      (matchOrderInner id side (.baseQty q limit) user .standard b).2 := by
  subst ht
  rcases matchOrderInner_cases id side (.baseQty q limit) user .standard b with
    ⟨hempty, hrun⟩ | ⟨tracker, hrun⟩
  · have hnone : b.sweepEntries side = [] := sweepEntries_of_isEmpty hempty
    rw [hrun]
    refine ⟨[], (List.append_nil _).symm, .nil, by simp, ?_, by simp⟩
    rw [show (b.taker id side limit user .standard).side = side from rfl, hnone]
    exact (Nat.min_zero _).symm
  · obtain ⟨trades, h⟩ : ∃ trades, SweptInOrder (b.taker id side limit user .standard)
        (b.openSweep.sweepEntries side) q trades
        (b.openSweep.startSweep (b.taker id side limit user .standard) (.baseQty q limit))
        (b.openSweep.sweep (b.taker id side limit user .standard) (.baseQty q limit)) :=
      sweepLoop_in_order rfl hstp (by simp [taker, hlot]) (pairwise_better ..)
        (fun e he => mem_sweepEntries.mp he) (fun e he => hkeyed (mem_sweepEntries.mp he)) hq rfl
    rw [hrun]
    refine ⟨trades, (finishSweep_fills ..).trans h.fills, h.ordered, fun x hx => (h.met x hx).1,
      h.traded, fun x hx price l hbetter hl => ?_⟩
    have hget := finishSweep_get? (b.taker id side limit user .standard)
      (b.openSweep.sweep (b.taker id side limit user .standard) (.baseQty q limit))
        side.opposite price
    split_ifs at hget
    · exact absurd (hl.symm.trans hget) (by simp)
    · exact h.used_everywhere hx hbetter (hget.symm.trans hl)

omit [LevelQueue L] [LevelMatch L] [MatchAccounting L] [MatchableDryRun L] [MatchDepth L] in
/-- What comes before and after the sweep does not touch the levels it meets. -/
theorem PricePriority.around {trades : List Trade} {b₀ b₁ b' : OrderBook L}
    (h : PricePriority t q trades b₀ b₁) (hsame : b.SameState b₀) (hfills : b'.fills = b₁.fills)
    (hlevels : b'.levels t.side.opposite = b₁.levels t.side.opposite) :
    PricePriority t q trades b b' := by
  obtain ⟨_, _, _, rfl⟩ := hsame
  refine ⟨hfills.trans h.fills, h.ordered, h.within, h.executed, fun x hx price l hbetter hl => ?_⟩
  rw [hlevels] at hl
  exact h.used x hx price l hbetter hl

omit [LevelMatch L] [MatchAccounting L] [MatchableDryRun L] [MatchDepth L] in
/-- Coming to rest touches the order's own side only. -/
theorem restResidual_opposite (o : Order) (remaining : ℕ) (b : OrderBook L) :
    (restResidual o remaining b).2.levels o.side.opposite = b.levels o.side.opposite := by
  have hne : ∀ {p q : ℕ}, ¬ (o.side.opposite = o.side ∧ p = q) := by
    rintro p q ⟨h, -⟩
    cases hside : o.side <;> rw [hside] at h <;> cases h
  refine SortedMap.ext_get? fun price => ?_
  rcases restResidual_cases o remaining b with
    ⟨l, l', -, -, -, -, _, _, _, hstate⟩ | ⟨e, -, -, ⟨_, _, _, hstate⟩ | ⟨-, _, _, _, hstate⟩⟩
  · rw [hstate]
    exact (restAt_get? b l' o (residual o remaining) remaining _ price).trans (if_neg hne)
  · rw [hstate]
    rfl
  · rw [hstate]
    exact (get?_removeLevel ..).trans (if_neg hne)

omit [LevelMatch L] [MatchAccounting L] [MatchableDryRun L] [MatchDepth L] in
/-- After its sweep an accepted order leaves the levels it met alone. -/
theorem addOrderInner_opposite {o : Order} (hacc : b.Accepted o) (wantResult : Bool) :
    (addOrderInner o wantResult b).2.levels o.side.opposite =
      (sweepOf o b).2.levels o.side.opposite :=
  addOrderInner_after
    (R := fun b b' => b'.levels o.side.opposite = b.levels o.side.opposite)
    ⟨fun _ => rfl, fun h h' => h'.trans h⟩ (fun hsame => congrFun hsame.levels_eq _)
    (fun r b => congrFun (sameOrders_emitTrades wantResult r b).levels_eq _)
    (restResidual_opposite o) hacc

end Sweeps

/-! ### Takers -/

/-- A call whose taker reaches the sweep with the given quantity: a limit order that passes every
check and is not post-only, or a market order while the kill switch is off. Quantities are 64 bits
wide. -/
inductive OrderBook.Takes (b : OrderBook L) : Command → Taker → ℕ → Prop
  | limit {o : Order} (passes : Succeeds (admission o) b) (kind : o.isPostOnly = false)
      (width : o.totalQuantity ≤ u64Max) :
      Takes b (.addOrder o) (b.takerOf o) o.totalQuantity
  | limitWithResult {o : Order} (passes : Succeeds (admission o) b) (kind : o.isPostOnly = false)
      (width : o.totalQuantity ≤ u64Max) :
      Takes b (.addOrderWithResult o) (b.takerOf o) o.totalQuantity
  | market {id : OrderId} {q : ℕ} {side : Side} {user : Hash32} (running : b.killSwitch = false)
      (width : q ≤ u64Max) :
      Takes b (.submitMarketOrder id q side user) (b.taker id side none user .standard) q

section Takers

variable [LevelQueue L] [LevelMatch L] [MatchAccounting L] [MatchableDryRun L] [MatchDepth L]
  {b : OrderBook L}

theorem addOrderInner_in_order (hkeyed : b.Keyed) (hlot : b.lotSize = none) {o : Order}
    (hacc : b.Accepted o) (hkind : o.isPostOnly = false) (hwidth : o.totalQuantity ≤ u64Max)
    (hstp : (b.takerOf o).stpActive = false) (wantResult : Bool) :
    ∃ trades, PricePriority (b.takerOf o) o.totalQuantity trades b
      (addOrderInner o wantResult b).2 := by
  have htaker : takerKind o = .standard := by simp [takerKind, hkind]
  have ht : b.takerOf o = b.taker o.id o.side (some o.price) o.userId .standard := by
    rw [takerOf, htaker]
  obtain ⟨trades, h⟩ := matchOrderInner_in_order hkeyed hlot hwidth ht hstp
  refine ⟨trades, h.around (.refl b) ?_ ?_⟩
  · rw [(rests_after_sweep hacc wantResult).1, sweepOf, htaker]
  · have hopposite := addOrderInner_opposite hacc wantResult
    rwa [sweepOf, htaker] at hopposite

/-- **Price priority and completeness of a sweep.** On every reachable book without a lot size, for
every limit or market taker outside self-trade prevention: the trades come best price first and
within the limit, the executed quantity is the taker's quantity or the whole matchable depth within
the limit, and no depth is left at a better price than one that traded. -/
theorem price_priority [LevelResize L] [LevelDisplay L] [LevelSnapshot L] [SnapshotChecksum]
    (hreach : b.Reachable) (hlot : b.lotSize = none) {c : Command} {t : Taker} {q : ℕ}
    (htakes : b.Takes c t q) (hstp : t.stpActive = false) :
    PricePriority t q (b.newFills c) b (b.execute c) := by
  have hkeyed := hreach.keyed
  suffices h : ∃ trades, PricePriority t q trades b (b.execute c) by
    obtain ⟨trades, h⟩ := h
    rwa [newFills_eq h.fills]
  cases htakes with
  | limit passes kind width =>
    rw [OrderBook.execute, addOrder_snd]
    exact addOrderInner_in_order hkeyed hlot (succeeds_admission.mp passes) kind width hstp false
  | limitWithResult passes kind width =>
    exact addOrderInner_in_order hkeyed hlot (succeeds_admission.mp passes) kind width hstp true
  | @market id q side user running width =>
    have hrun : (b.execute (.submitMarketOrder id q side user)) =
        (matchMarket id side (.baseQty q none) user b).2 := by
      rw [OrderBook.execute, submitMarketOrder,
        bind_run_of_ok (show checkKillSwitchOrReject id b = (.ok (), b) by
        rw [checkKillSwitchOrReject, running]
        rfl)]
      rfl
    obtain ⟨r, -, hemit⟩ := matchMarket_snd id side (.baseQty q none) user b
    obtain ⟨trades, h⟩ := matchOrderInner_in_order hkeyed hlot width rfl hstp
    obtain ⟨_, _, _, _, _, hsame⟩ := sameOrders_emitTrades false r
      (matchOrderInner id side (.baseQty q none) user .standard b).2
    rw [hrun, hemit, hsame]
    exact ⟨trades, h.around (.refl b) rfl rfl⟩

end Takers

/-- Asks at three prices. -/
def askStairs : List Op :=
  [.command (.addOrder ⟨1, 101, .sell, 8, 0, .gtc, 4, .standard⟩),
    .command (.addOrder ⟨2, 100, .sell, 7, 0, .gtc, 5, .standard⟩),
    .command (.addOrder ⟨3, 102, .sell, 7, 0, .gtc, 6, .standard⟩)]

/-- A bid for twelve at 101 takes the best ask whole, then the ask at its limit, and rests. -/
theorem askStairs_price_priority :
    letI := noDigest
    let b := (Session.run { book := (withClock "BTC" ⟨fun n => n, 0⟩ : OrderBook FifoLevel) }
      askStairs).book
    let o : Order := ⟨4, 101, .buy, 9, 0, .gtc, 12, .standard⟩
    b.newFills (.addOrder o) = [⟨4, 2, 100, 5⟩, ⟨4, 1, 101, 4⟩] ∧
      depthWithin (b.takerOf o) (b.sweepEntries .buy) = 9 ∧
      PricePriority (b.takerOf o) 12 (b.newFills (.addOrder o)) b (b.execute (.addOrder o)) := by
  let _ := noDigest
  intro b o
  have hpasses : Succeeds (admission o) b := ⟨(), (admission o b).2, rfl⟩
  have hreach : b.Reachable := ⟨"BTC", ⟨fun n => n, 0⟩, askStairs, rfl⟩
  have hlot : b.lotSize = none := rfl
  have htakes : b.Takes (.addOrder o) (b.takerOf o) o.totalQuantity :=
    .limit hpasses rfl (by decide)
  have hstp : (b.takerOf o).stpActive = false := rfl
  exact ⟨by decide, by decide, price_priority hreach hlot htakes hstp⟩

end OrderBookRs
