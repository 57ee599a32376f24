import OrderBookRs.FillOrKill

/-!
# The read-only walks predict the sweep

Two checks walk the opposite side of the book without touching it, before anything is matched:
`fok_fillable_quantity` asks how much a taker would fill, `check_modify_stp_self_cross` whether
self-trade prevention would cancel it. Each is written independently of `match_order_inner`; here
each is shown to be right about it.

Both walks are compared with the dry run of the sweep (`OrderBook.dryRun`), level by level, and the
dry run with the sweep itself.

## Main results

* `fokFillableQuantity_eq_executed`: the fill-or-kill walk returns what the sweep executes.
* `selfCross_iff_takerCancelled`: the modify check refuses exactly the takers the sweep cancels.
-/

namespace OrderBookRs

open PriceLevel Fallible OrderBook

variable {L : Type} [PriceLevel L] {b : OrderBook L}

namespace OrderBook

/-- An id that rests nowhere is on no level a sweep meets. -/
theorem free_of_not_holds {i : OrderId} (h : ¬ b.Holds i) (side : Side) {e : ℕ × L}
    (he : e ∈ b.sweepEntries side) : i ∉ orderIds e.2 := by
  intro hmem
  obtain ⟨o, ho, hid⟩ := mem_orderIds.mp hmem
  exact h ⟨side.opposite, e.1, o, ⟨e.2, mem_sweepEntries.mp he, ho⟩, hid⟩

/-- A sweep that meets no level leaves its dry run as it started. -/
theorem dryRun_of_isEmpty {t : Taker} (mode : MatchMode)
    (hempty : (b.levels t.side.opposite).isEmpty) : b.dryRun t mode = { stop := .ofMode mode } := by
  refine Plan.loop_of_not_allows fun e he => ?_
  rw [SortedMap.isEmpty_iff] at hempty
  rw [mem_sweepEntries, hempty] at he
  cases he

end OrderBook

section Executed

variable [LevelQueue L] [LevelMatch L] [MatchAccounting L]

/-- **A match executes what its dry run takes off the budget.** -/
theorem traded_of_dryRun_stop {id : OrderId} {side : Side} {q left : ℕ} {limit : Option ℕ}
    {user : Hash32} {kind : TakerKind}
    (hstop : (b.dryRun (b.taker id side limit user kind) (.baseQty q limit)).stop = .baseQty left) :
    ∃ trades, (matchOrderInner id side (.baseQty q limit) user kind b).2.fills = b.fills ++ trades ∧
      tradedQuantity trades + left = q := by
  rcases matchOrderInner_cases id side (.baseQty q limit) user kind b with
    ⟨hempty, hrun⟩ | ⟨tracker, hrun⟩
  · have hnone := dryRun_of_isEmpty (.baseQty q limit) (t := b.taker id side limit user kind) hempty
    rw [hnone] at hstop
    rw [hrun]
    exact ⟨[], (List.append_nil _).symm, by
      rw [tradedQuantity_nil, ← StopCondition.baseQty.inj hstop, Nat.zero_add]⟩
  · obtain ⟨remaining, -, haccounts⟩ :=
      b.openSweep.sweep_accounts (b.taker id side limit user kind) q limit
    have hfollows : Follows (b.dryRun (b.taker id side limit user kind) (.baseQty q limit))
        (b.openSweep.sweep (b.taker id side limit user kind) (.baseQty q limit)) :=
      sweep_follows b.openSweep (b.taker id side limit user kind) (.baseQty q limit)
    have hleft := haccounts.stop
    rw [hfollows.stop_eq, hstop] at hleft
    rw [hrun]
    refine ⟨_, (finishSweep_fills ..).trans haccounts.applied, ?_⟩
    rw [StopCondition.baseQty.inj hleft]
    exact haccounts.traded

/-- **The fill-or-kill dry run equals the sweep**: for any taker id that does not rest, side,
quantity, limit, user, self-trade mode and lot size, `fok_fillable_quantity` is the quantity
`match_order_inner` executes. -/
theorem fokFillableQuantity_eq_executed [MatchableDryRun L] {b : OrderBook L} {id : OrderId}
    (hfresh : ¬ b.Holds id) (side : Side) {q : ℕ} (hq : q ≤ u64Max) (limit : Option ℕ)
    (user : Hash32) :
    ∃ trades, (matchOrderInner id side (.baseQty q limit) user .standard b).2.fills =
        b.fills ++ trades ∧
      tradedQuantity trades = b.fokFillableQuantity side q limit user id := by
  obtain ⟨left, hstop, hsum⟩ := Plan.fokWalk_eq (t := b.taker id side limit user .standard)
    (p := { stop := .baseQty q }) rfl (fun e he => free_of_not_holds hfresh side he) rfl
    (Nat.zero_add q) hq
  obtain ⟨trades, hfills, htraded⟩ := traded_of_dryRun_stop hstop
  refine ⟨trades, hfills, ?_⟩
  rw [fokFillableQuantity_eq]
  omega

end Executed

/-- Asks of two users on two levels. -/
def offersOfTwo : List Command :=
  [.addOrder ⟨1, 100, .sell, 8, 0, .gtc, 4, .standard⟩,
    .addOrder ⟨2, 100, .sell, 8, 0, .gtc, 8, .standard⟩,
    .addOrder ⟨3, 101, .sell, 7, 0, .gtc, 5, .standard⟩,
    .addOrder ⟨4, 101, .sell, 8, 0, .gtc, 5, .standard⟩]

/-- The book those asks leave, under a self-trade mode. -/
def offersOfTwoBook (mode : STPMode) : OrderBook FifoLevel :=
  (configured "BTC" ⟨fun n => n, 0⟩ [.stpMode mode] : OrderBook FifoLevel).run offersOfTwo

/-- User `7` would take both orders of the first level and, its own one cancelled, the last. -/
theorem offersOfTwo_executed :
    (offersOfTwoBook .cancelMaker).fokFillableQuantity .buy 20 (some 101) 7 9 = 17 ∧
      ∃ trades, (matchOrderInner 9 .buy (.baseQty 20 (some 101)) 7 .standard
          (offersOfTwoBook .cancelMaker)).2.fills = (offersOfTwoBook .cancelMaker).fills ++ trades ∧
        tradedQuantity trades =
          (offersOfTwoBook .cancelMaker).fokFillableQuantity .buy 20 (some 101) 7 9 := by
  have hfresh : ¬ (offersOfTwoBook .cancelMaker).Holds 9 := by
    rintro ⟨side, price, o, ho, hid⟩
    have hmem := mem_restingOrders.mpr ⟨side, price, ho⟩
    have hids : ∀ x ∈ (offersOfTwoBook .cancelMaker).restingOrders, x.id ≠ 9 := by decide
    exact hids o hmem hid
  exact ⟨by decide, fokFillableQuantity_eq_executed hfresh .buy (by decide) (some 101) 7⟩

/-- **The modify check predicts the engine**: without lots, under a mode that cancels the taker, and
for an order of a known user with an id that does not rest, `check_modify_stp_self_cross` refuses
the order iff its sweep on the same book sets the taker-cancelled flag. -/
theorem selfCross_iff_takerCancelled [MatchableDryRun L] {b : OrderBook L} {o : Order}
    (hlot : b.lotSize = none) (hmode : b.stpMode = .cancelTaker ∨ b.stpMode = .cancelBoth)
    (huser : o.userId ≠ 0) (hfresh : ¬ b.Holds o.id) (hkind : o.isPostOnly = false) :
    b.checkModifyStpSelfCross o = .error (.selfTradePrevented b.stpMode o.id o.userId) ↔
      (b.sweepFor o).stpTakerCancelled = true := by
  have hflag := Plan.stp_loop_eq (t := b.takerOf o) (o := o)
    (p := { stop := .baseQty o.totalQuantity }) (by simp [takerOf, taker, takerKind, hkind])
    (fun _ => rfl) rfl rfl (fun e he => free_of_not_holds hfresh o.side he) rfl hmode huser
    (Or.inl (by simp [takerOf, taker, hlot]))
  rw [Bool.false_or] at hflag
  have hrun : (b.sweepFor o).stpTakerCancelled =
      selfCrossWalk o (b.sweepEntries o.side) o.totalQuantity :=
    (b.sweepFor_follows o).stp_eq.trans hflag
  rw [hrun, checkModifyStpSelfCross, refuse]
  by_cases hwalk : selfCrossWalk o (b.sweepEntries o.side) o.totalQuantity
  · rw [if_pos (by simp [hmode, huser, hwalk])]
    exact iff_of_true rfl hwalk
  · rw [if_neg (by simp [hwalk])]
    exact iff_of_false (fun h => by cases h) hwalk

/-- User `7` reaches its own ask with `13` but not with `12`. -/
theorem offersOfTwo_takerCancelled :
    ((offersOfTwoBook .cancelTaker).checkModifyStpSelfCross
          ⟨9, 101, .buy, 7, 0, .gtc, 13, .standard⟩ =
        .error (.selfTradePrevented .cancelTaker 9 7)) ∧
      ((offersOfTwoBook .cancelTaker).sweepFor
        ⟨9, 101, .buy, 7, 0, .gtc, 13, .standard⟩).stpTakerCancelled = true := by
  have hfresh : ¬ (offersOfTwoBook .cancelTaker).Holds 9 := by
    rintro ⟨side, price, o, ho, hid⟩
    have hmem := mem_restingOrders.mpr ⟨side, price, ho⟩
    have hids : ∀ x ∈ (offersOfTwoBook .cancelTaker).restingOrders, x.id ≠ 9 := by decide
    exact hids o hmem hid
  have hrefused : (offersOfTwoBook .cancelTaker).checkModifyStpSelfCross
      ⟨9, 101, .buy, 7, 0, .gtc, 13, .standard⟩ =
        .error (.selfTradePrevented .cancelTaker 9 7) := by decide
  exact ⟨hrefused, (selfCross_iff_takerCancelled rfl (Or.inl rfl) (by decide) hfresh rfl).mp
    hrefused⟩

end OrderBookRs
