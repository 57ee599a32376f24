import OrderBookRs.AppliedPlan
import OrderBookRs.CleanFailure
import OrderBookRs.FilledQuantity

/-!
# Calls that fail without a trace

A call that returns an error may already have filled or cancelled makers. This module says when it
has not: a new order that fails leaves the book alone exactly as long as its sweep finds nothing to
match, and a market order without a user fails only if it traded nothing, in which case it may still
have dropped orders that display nothing.

## Main definitions

* `Plan.IdlesQuietly`: a plan without trades leaves its levels as they were.
* `OrderBook.Completes`: the plan of a new order runs through and its residual can rest.
* `OrderBook.FailsQuietly`: what a command needs so that it leaves no trace if it fails.

## Main results

* `OrderBook.sameState_of_matchOrderInner_error`: a failed sweep of an anonymous market order.
* `OrderBook.FailsQuietly.sameState`: a command that fails leaves the book as it was.
-/

namespace OrderBookRs

open PriceLevel Fallible OrderBook

variable {L : Type} [PriceLevel L] {b : OrderBook L} {e : OrderBookError}

/-- If no match of the plan trades, each leaves its level as it was: none comes to an order that
displays nothing, which it would drop. -/
def Plan.IdlesQuietly (taker : OrderId) (p : Plan L) : Prop :=
  (∀ e ∈ p.fills, (matchOrder e.1 e.2 taker .standard).1.trades = []) →
    ∀ e ∈ p.fills, (matchOrder e.1 e.2 taker .standard).2 = e.1

namespace OrderBook

variable {t : Taker} {sw : Sweep L} {id : OrderId} {side : Side} {mode : MatchMode}

/-! ### Sweeps that trade nothing -/

/-- The sweep of `b` has written nothing. -/
structure Untouched (b : OrderBook L) (sw : Sweep L) : Prop where
  book : sw.book = b
  empty : sw.emptyPriceLevels = []
  filled : sw.filledOrders = []

variable [LevelQueue L] [LevelMatch L]

/-- A step of a sweep without a user none of whose matches trades or changes its level. -/
theorem Untouched.step {price : ℕ} {sw' : Sweep L} {F : L → ℕ → Prop}
    (hne : ∀ {side price l}, (b.levels side).get? price = some l → orders l ≠ [])
    (huser : t.userId = 0)
    (hidle : ∀ {l q r l'}, F l q → matchOrder l q t.orderId .standard = (r, l') →
      r.trades = [] ∧ l' = l)
    (hs : PlannedStep t F price sw sw') (h : Untouched b sw) : Untouched b sw' := by
  obtain ⟨hbook, hempty, hfilled⟩ := h
  cases hs with
  | @fill q l l' r level kind allows pos cap safe run planned =>
    obtain ⟨htrades, rfl⟩ := hidle planned run
    have hids : r.filledOrderIds = [] := by
      refine List.eq_nil_iff_forall_not_mem.mpr fun j hj => ?_
      have hgone := LevelMatch.left_of_filled run hj
      exact hgone.2 hgone.1
    have hcount : orderCount l' ≠ 0 := by
      rw [LevelQueue.orderCount_eq]
      rw [hbook] at level
      exact fun hzero => hne level (List.eq_nil_of_length_eq_zero hzero)
    rw [fillLevel, processLevelMatch, setLevel_self level]
    simp only [htrades, hids, List.isEmpty_nil, if_true, if_neg hcount, List.map_nil,
      List.append_nil]
    exact ⟨hbook, hempty, hfilled⟩
  | cancel level mode user mem own orders_eq run => exact absurd huser user
  | markEmpty level nil =>
    rw [hbook] at level
    exact absurd nil (hne level)
  | flag => exact ⟨hbook, hempty, hfilled⟩

variable [MatchAccounting L] [TradeRecords L]

/-- **A market order without a user that fails leaves the book as it was**, if its plan idles
quietly: only a sweep that traded nothing fails, and without a user it cancels nothing. -/
theorem sameState_of_matchOrderInner_error
    (hne : ∀ {side price l}, (b.levels side).get? price = some l → orders l ≠ []) {kind : TakerKind}
    (hidles : (b.dryRun (b.taker id side mode.limitPrice 0 kind) mode).IdlesQuietly id)
    (hfails : (matchOrderInner id side mode 0 kind b).1 = .error e) :
    b.SameState (matchOrderInner id side mode 0 kind b).2 := by
  rcases matchOrderInner_cases id side mode 0 kind b with ⟨-, hrun⟩ | ⟨tracker, hrun⟩
  · rw [hrun]
    exact b.sameState_openSweep
  · rw [hrun] at hfails ⊢
    have hnone : (b.openSweep.sweep (b.taker id side mode.limitPrice 0 kind) mode).result.trades =
        [] := by
      by_contra hsome
      rw [sweepOutcome.eq_def] at hfails
      simp [hsome] at hfails
    have happlied := (sweep_applies b.openSweep (b.taker id side mode.limitPrice 0 kind) mode).1
    rw [fills_of_no_trades hnone] at happlied
    have hplan := List.flatMap_eq_nil_iff.mp (List.self_eq_append_right.mp happlied)
    have huntouched : Untouched b.openSweep
        (b.openSweep.sweep (b.taker id side mode.limitPrice 0 kind) mode) :=
      (b.openSweep.sweep_planned _ mode).invariant
        (fun hs hJ => hJ.step hne rfl (fun hplanned hmatch =>
          ⟨(congrArg (fun m => m.1.trades) hmatch).symm.trans (hplan _ hplanned),
            (congrArg Prod.snd hmatch).symm.trans (hidles hplan _ hplanned)⟩) hs)
        ⟨rfl, rfl, rfl⟩
    have hfinish : finishSweep (b.taker id side mode.limitPrice 0 kind)
        (b.openSweep.sweep (b.taker id side mode.limitPrice 0 kind) mode) = b.openSweep := by
      rw [OrderBookRs.finishSweep, huntouched.empty, huntouched.filled]
      exact huntouched.book
    rw [hfinish]
    exact ⟨_, _, tracker, rfl⟩

/-- A market order without a user that fails leaves the book as it was. -/
theorem sameState_of_submitMarket_error (hb : b.Sound)
    (hidles : b.killSwitch = false →
      (b.dryRun (b.taker id side mode.limitPrice 0 .standard) mode).IdlesQuietly id)
    (hfails : ((do
      checkKillSwitchOrReject id
      matchMarket id side mode 0 : BookM L MatchResult) b).1 = .error e) :
    b.SameState ((do
      checkKillSwitchOrReject id
      matchMarket id side mode 0 : BookM L MatchResult) b).2 := by
  by_cases hkill : b.killSwitch
  · have hstop : checkKillSwitchOrReject id b = (.error .killSwitchActive,
        b.trackState id (.rejected .killSwitchActive)) := if_pos hkill
    rw [bind_run_of_error hstop]
    exact (sameView_trackState ..).sameState
  · have hgo : checkKillSwitchOrReject id b = (.ok (), b) := if_neg hkill
    rw [bind_run_of_ok hgo, matchMarket] at hfails ⊢
    rcases hsweep : matchOrderInner id side mode 0 .standard b with ⟨e' | outcome, b₁⟩
    · have hstate := sameState_of_matchOrderInner_error hb.nonempty
        (hidles (Bool.eq_false_iff.mpr hkill)) (congrArg Prod.fst hsweep)
      rw [bind_run_of_error hsweep]
      rwa [hsweep] at hstate
    · obtain ⟨result, hemit⟩ := emitTrades_run false outcome.result b₁
      rw [bind_run_of_ok hsweep, bind_run_of_ok hemit] at hfails
      cases hfails

/-! ### New orders -/

omit [MatchAccounting L] [TradeRecords L] in
/-- **A new order that fails leaves the book as it was** if its sweep finds nothing to match. -/
theorem sameState_of_addOrderInner_error (hb : b.Sound) {o : Order} {wantResult : Bool}
    (hidle : (b.dryRunOf o).Idle) (hfails : (addOrderInner o wantResult b).1 = .error e) :
    b.SameState (addOrderInner o wantResult b).2 := by
  have hswept : ∀ {b₀ b₁ r}, b.SameState b₀ → sweepOf o b₀ = (r, b₁) → b.SameState b₁ ∧
      ∀ outcome, r = .ok outcome → (emitTrades wantResult outcome.result b₁).2 = b₁ := by
    intro b₀ b₁ r hsame hrun
    have hidle₀ : (b₀.dryRun (b₀.taker o.id o.side (some o.price) o.userId (takerKind o))
        (.baseQty o.totalQuantity (some o.price))).Idle := by
      obtain ⟨_, _, _, rfl⟩ := hsame
      exact hidle
    have hstate :=
      matchOrderInner_idle o.id o.side (.baseQty o.totalQuantity (some o.price)) o.userId
      (takerKind o) hidle₀
    rw [sweepOf] at hrun
    rw [hrun] at hstate
    refine ⟨hsame.trans hstate, fun outcome hok => ?_⟩
    have htrades := trades_of_idle o.id o.side (.baseQty o.totalQuantity (some o.price)) o.userId
      (takerKind o) hidle₀ (by rw [hrun, hok])
    rw [emitTrades, htrades]
    rfl
  have hstep := addOrderInner_step o wantResult b
  rw [hfails] at hstep
  generalize (addOrderInner o wantResult b).2 = b' at hstep ⊢
  cases hstep with
  | refused _ _ view => exact view.sameState
  | failed _ quiet run => exact (hswept quiet.sameState run).1
  | rejected _ quiet run _ recorded =>
    exact (hswept quiet.sameState run).1.trans (sameState_of_rejected recorded)
  | stpCancelled _ quiet run | dropped _ quiet run =>
    obtain ⟨hstate, hemit⟩ := hswept quiet.sameState run
    rw [hemit _ rfl]
    exact hstate.trans (sameView_trackState ..).sameState
  | @levelRefused _ _ b₁ _ outcome _ quiet run _ _ _ _ rest =>
    obtain ⟨hstate, hemit⟩ := hswept quiet.sameState run
    rw [hemit _ rfl] at rest
    have hrest := restResidual_cases o outcome.result.remainingQuantity b₁
    rw [rest] at hrest
    rcases hrest with ⟨_, _, -, -, -, hok, -⟩ | ⟨_, -, -, hstays | ⟨⟨l, hl, hnil⟩, -⟩⟩
    · cases hok
    · exact hstate.trans hstays
    · exact absurd hnil ((hb.sameState hstate).nonempty hl)

/-- The plan of a new order raises no flag, and what it leaves may rest and its level takes it. -/
def Completes (b : OrderBook L) (o : Order) : Prop :=
  ∃ left, b.PlansThrough o left ∧ (left ≠ 0 → o.isImmediate = false ∧
    ∃ l', PriceLevel.addOrder (((b.levels o.side).get? o.price).getD (new o.price))
      (residual o left) = .ok l')

/-- What a call needs so that it leaves no trace if it fails. An order that passes the checks finds
nothing to match or is added; a move that passes the checks made while the original rests is
readmitted to the book without it. A market order has to be anonymous and to idle quietly. -/
def FailsQuietly (b : OrderBook L) : Command → Prop
  | .addOrder o => b.Accepted o → (b.dryRunOf o).Idle ∨ b.Completes o
  | .addOrderWithResult o => b.Accepted o → (b.dryRunOf o).Idle ∨ b.Completes o
  | .submitMarketOrder id quantity side user => user = 0 ∧ (b.killSwitch = false →
      (b.dryRun (b.taker id side none 0 .standard) (.baseQty quantity none)).IdlesQuietly id)
  | .submitMarketOrderByAmount id amount side user => user = 0 ∧ (b.killSwitch = false →
      (b.dryRun (b.taker id side none 0 .standard) (.quoteAmount amount)).IdlesQuietly id)
  | .updateOrder u => ∀ newOrder, b.Moves u newOrder →
      b.invalidateCache.MoveAccepted (target u) newOrder →
        (b.withdrawn (target u)).Readmits newOrder
  | _ => True

theorem error_of_isOk {α : Type} {r : Except OrderBookError α} (h : (!r.isOk) = true) :
    ∃ e, r = .error e := by
  cases r with
  | error e => exact ⟨e, rfl⟩
  | ok => cases h

variable [LevelResize L] [MatchableDryRun L]

/-- **A call that fails leaves the book as it was**, if it needs no more than `FailsQuietly`. -/
theorem FailsQuietly.sameState {c : Command} (h : b.FailsQuietly c) (hb : b.Sound)
    (hfits : ∀ u newOrder, c = .updateOrder u → b.Moves u newOrder →
      newOrder.visibleQuantity ≤ u64Max) (hfails : (b.reply c).isError) :
    b.SameState (b.execute c) := by
  have hadd : ∀ {o wantResult e}, (b.Accepted o → (b.dryRunOf o).Idle ∨ b.Completes o) →
      (addOrderInner o wantResult b).1 = .error e →
      b.SameState (addOrderInner o wantResult b).2 := by
    intro o wantResult e hquiet hfails
    by_cases hacc : b.Accepted o
    · rcases hquiet hacc with hidle | ⟨left, hplan, hroom⟩
      · exact sameState_of_addOrderInner_error hb hidle hfails
      · obtain ⟨r, hr⟩ := (hplan.succeeds_iff hacc wantResult).mpr hroom
        rw [hfails] at hr
        cases hr
    · exact (addOrderInner_of_not_accepted hacc wantResult).2
  cases c with
  | addOrder o =>
    obtain ⟨e, hfails⟩ := error_of_isOk hfails
    have hinner : ∃ e, (addOrderInner o false b).1 = .error e := by
      rcases hrun : addOrderInner o false b with ⟨e | r, b'⟩
      · exact ⟨e, rfl⟩
      · rw [OrderBook.addOrder, bind_run_of_ok hrun] at hfails
        cases hfails
    obtain ⟨_, hinner⟩ := hinner
    have hstate := hadd h hinner
    rwa [← addOrder_snd] at hstate
  | addOrderWithResult =>
    obtain ⟨e, hfails⟩ := error_of_isOk hfails
    exact hadd h hfails
  | submitMarketOrder id quantity side user | submitMarketOrderByAmount id amount side user =>
    obtain ⟨rfl, hidles⟩ := h
    obtain ⟨e, hfails⟩ := error_of_isOk hfails
    exact sameState_of_submitMarket_error hb hidles hfails
  | updateOrder u =>
    obtain ⟨e, hfails⟩ := error_of_isOk hfails
    exact (quiet_of_fails hb (fun newOrder => hfits u newOrder rfl) h hfails).sameState
  | cancelOrder | cancelAllOrders | cancelOrdersBySide | cancelOrdersByUser
  | cancelOrdersByPriceRange | evictExpiredOrders => cases hfails

end OrderBook

end OrderBookRs
