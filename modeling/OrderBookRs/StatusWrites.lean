import OrderBookRs.Accounting
import OrderBookRs.Guarded
import OrderBookRs.Settings
import OrderBookRs.Sound

/-!
# Recorded statuses

The order state tracker is written from a dozen places. This module says once what each effect and
each call records, next to what the call does to the resting orders and to the trades: resting
orders retire, cancelled with what is on record for them or filled with what they traded in the
match they left in, and the order that is submitted gets at most one status of its own. The
invariants of the statuses are read off from that.

## Main definitions

* `OrderBook.recordAll`: statuses recorded one after the other.
* `OrderBook.Retires`: resting orders leave the book with a terminal status.
* `OrderBook.Submits`: a call that submits an order.
* `OrderBook.TakesWhole`: what the fills planned for a taker must do to the makers so that what is
  recorded for them is what they traded.

## Main results

* `matchOrderInner_retires`, `cancelOrderWithReason_cancels`, `cancelAllOrders_cancels`.
* `addOrderInner_submits`, `matchMarket_submits`.
-/

namespace OrderBookRs

open PriceLevel Fallible OrderBook

variable {L : Type} {b b' : OrderBook L} {l l' : L} {o : Order} {i id : OrderId} {t : Taker}
  {status : OrderStatus} {q quantity : ℕ}

namespace OrderBook

theorem orderStatus_congr (h : b'.orderStateTracker = b.orderStateTracker) (i : OrderId) :
    b'.orderStatus i = b.orderStatus i := by rw [orderStatus, h, orderStatus]

theorem active_congr (h : b'.orderStateTracker = b.orderStateTracker) :
    b'.Active i ↔ b.Active i := by
  rw [Active, orderStatus_congr h, Active]

theorem isSome_trackState (b : OrderBook L) (id : OrderId) (status : OrderStatus) :
    (b.trackState id status).orderStateTracker.isSome = b.orderStateTracker.isSome :=
  Option.isSome_map

/-! ### Statuses recorded in turn -/

/-- Record statuses one after the other. -/
def recordAll (b : OrderBook L) (ws : List (OrderId × OrderStatus)) : OrderBook L :=
  ws.foldl (fun b w => b.trackState w.1 w.2) b

theorem trackState_tracker_congr (h : b'.orderStateTracker = b.orderStateTracker) (id : OrderId)
    (status : OrderStatus) :
    (b'.trackState id status).orderStateTracker = (b.trackState id status).orderStateTracker := by
  simp only [trackState, h]

section RecordAll

variable {ws : List (OrderId × OrderStatus)}

theorem recordAll_append (b : OrderBook L) (ws ws' : List (OrderId × OrderStatus)) :
    b.recordAll (ws ++ ws') = (b.recordAll ws).recordAll ws' := List.foldl_append ..

theorem recordAll_tracker_congr (h : b'.orderStateTracker = b.orderStateTracker) :
    (b'.recordAll ws).orderStateTracker = (b.recordAll ws).orderStateTracker := by
  induction ws generalizing b b' with
  | nil => exact h
  | cons w ws ih => exact ih (trackState_tracker_congr h w.1 w.2)

theorem isSome_recordAll (b : OrderBook L) (ws : List (OrderId × OrderStatus)) :
    (b.recordAll ws).orderStateTracker.isSome = b.orderStateTracker.isSome := by
  induction ws generalizing b with
  | nil => rfl
  | cons w ws ih => exact (ih _).trans (isSome_trackState ..)

/-- Recording terminal statuses leaves the other active ids. -/
theorem active_recordAll (hst : ∀ w ∈ ws, w.2.isTerminal = true)
    (hinstalled : b.orderStateTracker.isSome) :
    (b.recordAll ws).Active i ↔ b.Active i ∧ i ∉ ws.map Prod.fst := by
  induction ws generalizing b with
  | nil => exact (and_iff_left List.not_mem_nil).symm
  | cons w ws ih =>
    have hinstalled' : (b.trackState w.1 w.2).orderStateTracker.isSome := by
      rwa [isSome_trackState]
    have hrest := ih (fun w' hw' => hst w' (List.mem_cons_of_mem w hw')) hinstalled'
    rw [recordAll, List.foldl_cons, ← recordAll, hrest, active_trackState hinstalled,
      List.map_cons, List.mem_cons, not_or, hst w List.mem_cons_self]
    split_ifs with hi
    · exact iff_of_false (fun h => h.1) fun h => h.2.1 hi
    · exact and_congr_right fun _ => (and_iff_right hi).symm

theorem orderStatus_of_recordAll {st : OrderStatus}
    (hst : (b.recordAll ws).orderStatus i = some st) :
    (i, st) ∈ ws ∨ i ∉ ws.map Prod.fst ∧ b.orderStatus i = some st := by
  induction ws generalizing b with
  | nil => exact Or.inr ⟨List.not_mem_nil, hst⟩
  | cons w ws ih =>
    rcases ih hst with hmem | ⟨hnot, hbefore⟩
    · exact Or.inl (List.mem_cons_of_mem w hmem)
    rcases orderStatus_of_trackState hbefore with ⟨rfl, rfl⟩ | ⟨hne, hbefore⟩
    · exact Or.inl List.mem_cons_self
    · refine Or.inr ⟨?_, hbefore⟩
      rw [List.map_cons, List.mem_cons, not_or]
      exact ⟨hne, hnot⟩

theorem orderStatus_recordAll_eq_none (hi : i ∉ ws.map Prod.fst) (h : b.orderStatus i = none) :
    (b.recordAll ws).orderStatus i = none := by
  refine Option.eq_none_iff_forall_ne_some.mpr fun st hst => ?_
  rcases orderStatus_of_recordAll hst with hmem | ⟨-, hst⟩
  · exact hi (List.mem_map_of_mem hmem)
  · cases h.symm.trans hst

/-- Only finished orders are forgotten when others are recorded. -/
theorem orderStatus_recordAll_of_notMem (hi : i ∉ ws.map Prod.fst)
    (hlive : ∀ st, b.orderStatus i = some st → st.isTerminal = false) :
    (b.recordAll ws).orderStatus i = b.orderStatus i := by
  induction ws generalizing b with
  | nil => rfl
  | cons w ws ih =>
    rw [List.map_cons, List.mem_cons, not_or] at hi
    have hkept : (b.trackState w.1 w.2).orderStatus i = b.orderStatus i := by
      cases hst : b.orderStatus i with
      | some st => exact orderStatus_trackState_of_ne hi.1 hst (hlive st hst)
      | none => exact orderStatus_trackState_eq_none hi.1 hst
    exact (ih hi.2 fun st hst => hlive st (hkept.symm.trans hst)).trans hkept

theorem trackedFilled_eq {st : OrderStatus} (hst : b.orderStatus i = some st) :
    b.trackedFilled i = st.filledQuantity := by
  have hread : b.trackedFilled i = ((b.orderStatus i).map OrderStatus.filledQuantity).getD 0 := rfl
  rw [hread, hst]
  rfl

theorem trackedFilled_congr (h : b'.orderStatus i = b.orderStatus i) :
    b'.trackedFilled i = b.trackedFilled i :=
  congrArg (fun st => (st.map OrderStatus.filledQuantity).getD 0) h

end RecordAll

/-! ### What each effect records -/

theorem deliverLevelChange_tracker (b : OrderBook L) (side : Side) (price quantity : ℕ) :
    (b.deliverLevelChange side price quantity).orderStateTracker = b.orderStateTracker := by
  obtain ⟨cache, h⟩ := b.deliverLevelChange_eq side price quantity
  rw [h]

theorem emitTrades_tracker (wantResult : Bool) (r : MatchResult) (b : OrderBook L) :
    (emitTrades wantResult r b).2.orderStateTracker = b.orderStateTracker := by
  rw [emitTrades]
  split_ifs
  · rfl
  · obtain ⟨cache, h⟩ := b.deliverTrade_eq r
    dsimp only
    rw [h]
  · rfl

variable [PriceLevel L]

theorem stpCancel_tracker (b : OrderBook L) (side : Side) (price : ℕ) (l : L) (o : Order) :
    (b.stpCancel side price l o).orderStateTracker =
      (b.trackState o.id
        (.cancelled (b.trackedFilled o.id) .selfTradePrevention)).orderStateTracker := by
  obtain ⟨cache, h⟩ := (b.setLevel side price l).invalidateCache.deliverLevelChange_eq side
    (PriceLevel.price l) (visibleQuantity l)
  rw [stpCancel, h]
  rfl

end OrderBook

variable [PriceLevel L]

theorem fillLevel_tracker (t : Taker) (sw : Sweep L) (price q : ℕ) (r : MatchResult) (l : L) :
    (fillLevel t sw price q r l).book.orderStateTracker = sw.book.orderStateTracker := by
  simp only [fillLevel, processLevelMatch]
  split_ifs
  · rfl
  · exact deliverLevelChange_tracker ..

omit [PriceLevel L] in
theorem finishSweep_tracker (t : Taker) (sw : Sweep L) :
    (finishSweep t sw).orderStateTracker =
      (sw.book.recordAll
        (sw.filledOrders.map fun f => (f.1, .filled f.2))).orderStateTracker := by
  have hremoved : ∀ (prices : List ℕ) (b : OrderBook L),
      (prices.foldl (fun b price => b.removeLevel t.side.opposite price) b).orderStateTracker =
        b.orderStateTracker := by
    intro prices
    induction prices with
    | nil => exact fun b => rfl
    | cons price prices ih => exact fun b => ih _
  have hfolded : ∀ (filled : List (OrderId × ℕ)) (b b' : OrderBook L),
      b'.orderStateTracker = b.orderStateTracker →
      (filled.foldl forgetFilled b').orderStateTracker =
        (b.recordAll (filled.map fun f => (f.1, .filled f.2))).orderStateTracker := by
    intro filled
    induction filled with
    | nil => exact fun b b' h => h
    | cons f filled ih => exact fun b b' h => ih _ _ (trackState_tracker_congr h f.1 (.filled f.2))
  exact hfolded _ _ _ (hremoved _ _)

namespace OrderBook

theorem resizeAt_tracker (b : OrderBook L) (side : Side) (price : ℕ) (l : L) (o : Order) :
    (b.resizeAt side price l o).orderStateTracker = b.orderStateTracker := by
  have h := deliverLevelChange_tracker { b.setLevel side price l with
    riskState := b.riskState.onQuantityUpdate o.id o.totalQuantity } side (PriceLevel.price l)
    (visibleQuantity l)
  simp only [resizeAt]
  split_ifs
  · exact h
  · exact h

/-- The status of an order that comes to rest. -/
def restingStatus (o : Order) (remaining : ℕ) : OrderStatus :=
  if 0 < o.totalQuantity - remaining then
    .partiallyFilled o.totalQuantity (o.totalQuantity - remaining)
  else .open

theorem isTerminal_restingStatus (o : Order) (remaining : ℕ) :
    (restingStatus o remaining).isTerminal = false := by
  rw [restingStatus]
  split_ifs <;> rfl

theorem restResidual_tracker (o : Order) (remaining : ℕ) (b : OrderBook L) :
    ((∃ r, (restResidual o remaining b).1 = .ok r) ∧
        (restResidual o remaining b).2.orderStateTracker =
          (b.trackState o.id (restingStatus o remaining)).orderStateTracker) ∨
      (∃ e, (restResidual o remaining b).1 = .error e) ∧
        (restResidual o remaining b).2.orderStateTracker = b.orderStateTracker := by
  rw [restResidual]
  dsimp only
  split
  · refine Or.inr ⟨⟨_, rfl⟩, ?_⟩
    split_ifs <;> rfl
  · next l' hadd =>
    have h := deliverLevelChange_tracker (b.setLevel o.side o.price l') o.side
      (PriceLevel.price l') (visibleQuantity l')
    refine Or.inl ⟨⟨_, rfl⟩, ?_⟩
    simp only [registerResting, trackState, h]
    rfl

omit [PriceLevel L] in
theorem deliverCleared_tracker (b : OrderBook L) (side : Side) :
    (b.deliverCleared side).orderStateTracker = b.orderStateTracker := by
  rw [deliverCleared]
  generalize (b.levels side).entries = entries
  induction entries generalizing b with
  | nil => rfl
  | cons e entries ih => exact (ih _).trans (deliverLevelChange_tracker ..)

end OrderBook

/-! ### What an order traded -/

/-- The quantity an order traded, as maker or as taker. -/
def tradedBy (i : OrderId) (trades : List Trade) : ℕ :=
  tradedQuantity (trades.filter fun t => t.makerOrderId = i ∨ t.takerOrderId = i)

theorem tradedBy_append (i : OrderId) (xs ys : List Trade) :
    tradedBy i (xs ++ ys) = tradedBy i xs + tradedBy i ys := by
  rw [tradedBy, List.filter_append, tradedQuantity_append, tradedBy, tradedBy]

/-- A taker takes part in all the trades of its own. -/
theorem tradedBy_taker {trades : List Trade} (h : ∀ t ∈ trades, t.takerOrderId = i) :
    tradedBy i trades = tradedQuantity trades := by
  have hall : (trades.filter fun t => t.makerOrderId = i ∨ t.takerOrderId = i) = trades :=
    List.filter_eq_self.mpr fun t ht => decide_eq_true (Or.inr (h t ht))
  rw [tradedBy, hall]

/-- Of the trades of another taker, an order takes part in those it is the maker of. -/
theorem tradedBy_maker {j : OrderId} {trades : List Trade} (h : ∀ t ∈ trades, t.takerOrderId = j)
    (hne : i ≠ j) : tradedBy i trades = tradedQuantity (tradesOf i trades) := by
  have hsame : (trades.filter fun t => t.makerOrderId = i ∨ t.takerOrderId = i) =
      tradesOf i trades := by
    refine List.filter_congr fun t ht => decide_eq_decide.mpr (or_iff_left ?_)
    rw [h t ht]
    exact hne.symm
  rw [tradedBy, hsame]

/-! ### Sweeps without trades -/

/-- The budget is at most the quantity the result started with. -/
def StopCondition.Within (quantity : ℕ) : StopCondition → Prop
  | .baseQty remaining => remaining ≤ quantity
  | .quoteAmount _ => u64Max ≤ quantity

theorem StopCondition.Within.levelQtyCap_le {stop : StopCondition} (h : stop.Within quantity)
    (price lot : ℕ) : stop.levelQtyCap price lot ≤ quantity := by
  have hfloor : ∀ raw, lotFloor lot raw ≤ raw := by
    intro raw
    rw [lotFloor]
    split_ifs <;> omega
  cases stop with
  | baseQty remaining => exact (hfloor remaining).trans h
  | quoteAmount =>
    rw [StopCondition.levelQtyCap]
    split_ifs
    · exact Nat.zero_le quantity
    · exact (hfloor _).trans ((min_le_right _ _).trans h)

theorem StopCondition.Within.consume {stop : StopCondition} (h : stop.Within quantity)
    (executed price : ℕ) : (stop.consume executed price).Within quantity := by
  cases stop with
  | baseQty remaining => exact (Nat.sub_le remaining executed).trans h
  | quoteAmount => exact h

section NoTrades

variable [MatchAccounting L] [TradeRecords L]

omit [MatchAccounting L] in
theorem foldl_recordTrade_ne_nil (trades : List Trade) {r : MatchResult} (h : r.trades ≠ []) :
    (trades.foldl (recordTrade L) r).trades ≠ [] := by
  induction trades generalizing r with
  | nil => exact h
  | cons x trades ih =>
    refine ih ?_
    rw [recordTrade]
    split
    · next r' hadd =>
      rw [TradeRecords.addTrade_trades hadd]
      exact List.append_ne_nil_of_left_ne_nil h _
    · exact h

/-- As long as no trade is listed, none was made. -/
structure NoTrades (fills : List Trade) (quantity : ℕ) (sw : Sweep L) : Prop where
  budget : sw.stop.Within quantity
  unlisted : sw.result.trades = [] →
    sw.book.fills = fills ∧ sw.result.remainingQuantity = quantity

theorem NoTrades.step {price : ℕ} {fills : List Trade} {sw sw' : Sweep L}
    (hs : SweepStep t price sw sw') (h : NoTrades fills quantity sw) :
    NoTrades fills quantity sw' := by
  cases hs with
  | @fill q l l' r level kind allows pos cap safe run =>
    refine ⟨h.budget.consume _ _, fun hnone => ?_⟩
    have hresult : (fillLevel t sw price q r l').result.trades =
        (r.trades.foldl (recordTrade L) sw.result).trades := by
      rw [fillLevel, processLevelMatch]
      rw [foldl_addFilledOrderId]
    rw [hresult] at hnone
    have hbefore : sw.result.trades = [] := by
      by_contra hne
      exact foldl_recordTrade_ne_nil r.trades hne hnone
    obtain ⟨hfills, hremaining⟩ := h.unlisted hbefore
    -- the first match fits into what the result still expects
    have hfits : tradedQuantity r.trades ≤ sw.result.remainingQuantity := by
      have htraded := MatchAccounting.traded_add_remaining run
      have hcap := cap.trans (h.budget.levelQtyCap_le price t.lot)
      omega
    have hnothing : r.trades = [] := by
      rw [foldl_recordTrade r.trades sw.result hfits] at hnone
      exact (List.append_eq_nil_iff.mp hnone).2
    refine ⟨by rw [fillLevel_fills, hnothing, List.append_nil, hfills], ?_⟩
    rw [fillLevel, processLevelMatch]
    rw [foldl_addFilledOrderId, hnothing]
    exact hremaining
  | cancel =>
    exact ⟨h.budget, fun hnone => ⟨(stpCancel_fills ..).trans (h.unlisted hnone).1,
      (h.unlisted hnone).2⟩⟩
  | markEmpty | flag => exact ⟨h.budget, h.unlisted⟩

theorem fills_of_no_trades [LevelQueue L] [LevelMatch L] {mode : MatchMode}
    (h : (b.sweep t mode).result.trades = []) : (b.sweep t mode).book.fills = b.fills := by
  have hJ : NoTrades b.fills mode.initialMatchQuantity (b.sweep t mode) := by
    refine (b.sweep_run t mode).invariant (fun hs hJ => hJ.step hs) ⟨?_, fun _ => ⟨rfl, rfl⟩⟩
    cases mode with
    | baseQty quantity limit => exact le_refl quantity
    | quoteAmount => exact le_refl u64Max
  exact (hJ.unlisted h).1

end NoTrades

/-! ### Orders that retire -/

namespace OrderBook

/-- No resting order is done. -/
def Live (b : OrderBook L) : Prop :=
  ∀ {i st}, b.Holds i → b.orderStatus i = some st → st.isTerminal = false

/-- Every maker that trades in a planned fill leaves its level with it, and a maker that leaves has
no fills on record. -/
def TakesWhole (b : OrderBook L) (taker : OrderId) (p : Plan L) : Prop :=
  ∀ e ∈ p.fills, ∀ o ∈ orders e.1,
    (tradesOf o.id (matchOrder e.1 e.2 taker .standard).1.trades ≠ [] →
      o.id ∉ orderIds (matchOrder e.1 e.2 taker .standard).2) ∧
    (o.id ∉ orderIds (matchOrder e.1 e.2 taker .standard).2 → b.trackedFilled o.id = 0)

instance (b : OrderBook L) (taker : OrderId) (p : Plan L) :
    Decidable (b.TakesWhole taker p) :=
  inferInstanceAs (Decidable (∀ e ∈ p.fills, ∀ o ∈ orders e.1, (_ ≠ [] → _ ∉ _) ∧ (_ ∉ _ → _ = 0)))

/-- Resting orders leave the book and are recorded as done: cancelled with what is on record for
them, or filled with what they traded in the planned match they left in. The new trades are those of
the taker. If it takes its makers whole, what is recorded for them is what they traded. -/
structure Retires (b : OrderBook L) (taker : OrderId) (p : Plan L)
    (ws : List (OrderId × OrderStatus)) (b' : OrderBook L) : Prop where
  tracker : b'.orderStateTracker = (b.recordAll ws).orderStateTracker
  holds : ∀ {i}, b'.Holds i ↔ b.Holds i ∧ i ∉ ws.map Prod.fst
  held : ∀ w ∈ ws, b.Holds w.1
  terminal : ∀ w ∈ ws, w.2.isTerminal = true
  source : ∀ w ∈ ws, w.2.filledQuantity = b.trackedFilled w.1 ∨
    ∃ e ∈ p.fills, ∃ o ∈ orders e.1, o.id = w.1 ∧
      o.id ∉ orderIds (matchOrder e.1 e.2 taker .standard).2 ∧ w.2.filledQuantity =
        tradedQuantity (tradesOf o.id (matchOrder e.1 e.2 taker .standard).1.trades)
  nodup : ∀ [MatchReportsOnce L], (ws.map Prod.fst).Nodup
  traded : ∀ [MatchAccounting L] [TradeRecords L], ∃ new, b'.fills = b.fills ++ new ∧
    (∀ x ∈ new, x.takerOrderId = taker) ∧ (b.TakesWhole taker p →
      (∀ i ≠ taker, i ∉ ws.map Prod.fst → tradedBy i new = 0) ∧
      ∀ w ∈ ws, w.2.filledQuantity = b.trackedFilled w.1 + tradedBy w.1 new)

namespace Retires

variable {b₀ b₁ : OrderBook L} {taker : OrderId} {p : Plan L} {ws : List (OrderId × OrderStatus)}

theorem quiet (hquiet : b.Quiet b₀) : b.Retires taker p [] b₀ where
  tracker := hquiet.tracker_eq
  holds := (holds_of_sameOrders hquiet.sameState.sameOrders).trans
    (and_iff_left List.not_mem_nil).symm
  held _ hw := absurd hw List.not_mem_nil
  terminal _ hw := absurd hw List.not_mem_nil
  source _ hw := absurd hw List.not_mem_nil
  nodup := List.nodup_nil
  traded := ⟨[], hquiet.sameState.fills_eq.trans (List.append_nil _).symm,
    fun _ hx => absurd hx List.not_mem_nil, fun _ => ⟨fun _ _ _ => rfl, fun _ hw =>
      absurd hw List.not_mem_nil⟩⟩

/-- Reading before the call changes nothing. -/
theorem of_quiet (hquiet : b.Quiet b₀) (h : b₀.Retires taker p ws b₁) :
    b.Retires taker p ws b₁ := by
  obtain ⟨cache, clock, rfl⟩ := hquiet
  exact ⟨h.tracker.trans (recordAll_tracker_congr rfl), h.holds, h.held, h.terminal, h.source,
    h.nodup, h.traded⟩

/-- Orders are cancelled with what is on record for them. -/
theorem cancelled (htracker : b'.orderStateTracker = (b.recordAll ws).orderStateTracker)
    (hholds : ∀ {i}, b'.Holds i ↔ b.Holds i ∧ i ∉ ws.map Prod.fst)
    (hws : ∀ w ∈ ws, b.Holds w.1 ∧
      ∃ reason, w.2 = .cancelled (b.trackedFilled w.1) reason)
    (hnodup : (ws.map Prod.fst).Nodup) (hfills : b'.fills = b.fills) :
    b.Retires taker p ws b' where
  tracker := htracker
  holds := hholds
  held w hw := (hws w hw).1
  terminal w hw := by
    obtain ⟨reason, heq⟩ := (hws w hw).2
    rw [heq]
    rfl
  source w hw := by
    obtain ⟨reason, heq⟩ := (hws w hw).2
    rw [heq]
    exact Or.inl rfl
  nodup := hnodup
  traded := by
    refine ⟨[], hfills.trans (List.append_nil _).symm, fun _ hx => absurd hx List.not_mem_nil,
      fun _ => ⟨fun _ _ _ => rfl, fun w hw => ?_⟩⟩
    obtain ⟨reason, heq⟩ := (hws w hw).2
    rw [heq]
    rfl

end Retires

/-- Resting orders are cancelled. Nothing is matched. -/
def Cancels (b b' : OrderBook L) : Prop :=
  b'.fills = b.fills ∧ ∃ ws, b.Retires 0 { stop := .baseQty 0 } ws b'

end OrderBook

/-! ### One sweep -/

section Sweeping

variable {price : ℕ} {sw sw' : Sweep L} {r : MatchResult} {p : Plan L}
  {ws : List (OrderId × OrderStatus)}

/-- The matches of a plan list every maker that leaves its level as filled. -/
def Plan.Lists (taker : OrderId) (p : Plan L) : Prop :=
  ∀ e ∈ p.fills, ∀ j ∈ orderIds e.1, j ∉ orderIds (matchOrder e.1 e.2 taker .standard).2 →
    j ∈ (matchOrder e.1 e.2 taker .standard).1.filledOrderIds

theorem Plan.lists [LevelReports L] {taker : OrderId} : p.Lists taker :=
  fun _ _ _ hold hgone => LevelReports.filled_of_gone rfl hold hgone

/-- Where the makers that display nothing stay, those that leave are listed. -/
theorem Plan.Keeps.lists [LevelMatch L] {taker : OrderId}
    (h : p.Keeps taker Order.undisplayed) : p.Lists taker := by
  intro e he j hold hgone
  obtain ⟨o, ho, rfl⟩ := mem_orderIds.mp hold
  refine LevelMatch.filled_of_left rfl ho (Nat.pos_of_ne_zero fun hzero => hgone ?_) hgone
  exact h e he o ho (decide_eq_true hzero)

/-- A fill leaves its makers on the level or reports them as filled, if the level lists those that
leave. -/
theorem pending_fill [LevelMatch L] (hl : (sw.book.levels t.side.opposite).get? price = some l)
    (hrun : matchOrder l q t.orderId .standard = (r, l')) (i : OrderId)
    (hlists : i ∈ orderIds l → i ∉ orderIds l' → i ∈ r.filledOrderIds) :
    (fillLevel t sw price q r l').book.Holds i ∨
        i ∈ (fillLevel t sw price q r l').filledOrders.map Prod.fst ↔
      sw.book.Holds i ∨ i ∈ sw.filledOrders.map Prod.fst := by
  rw [fillLevel_filledIds, List.mem_append, ← or_assoc, or_right_comm]
  refine or_congr_left ⟨?_, fun hi => (SweepSound.holds_or_left hl hi).imp_right fun hleft =>
    hlists hleft.1 hleft.2⟩
  rintro (⟨side, p, o, ho, rfl⟩ | hfilled)
  · obtain ⟨x, hx, v, k, rfl⟩ := rests_before_fill hl hrun ho
    exact ⟨side, p, x, hx, (Order.setTranches_id ..).symm⟩
  · obtain ⟨x, hx, hid⟩ := List.mem_map.mp (LevelMatch.left_of_filled hrun hfilled).1
    exact ⟨_, price, x, ⟨l, hl, hx⟩, hid⟩

/-- A cancelled maker is neither on its level nor filled. -/
theorem pending_stpCancel (hsound : SweepSound t sw)
    (hout : sw.book.TakesOff t.side.opposite price l l' o) (i : OrderId) :
    (sw.book.stpCancel t.side.opposite price l' o).Holds i ∨ i ∈ sw.filledOrders.map Prod.fst ↔
      (sw.book.Holds i ∨ i ∈ sw.filledOrders.map Prod.fst) ∧ i ≠ o.id := by
  have hholds : (sw.book.stpCancel t.side.opposite price l' o).Holds i ↔
      sw.book.Holds i ∧ i ≠ o.id := by
    simp only [Holds, hsound.rests_stpCancel hout]
    grind
  have hgone : i ∈ sw.filledOrders.map Prod.fst → i ≠ o.id := fun hfilled hi =>
    hsound.filled hfilled hout.rests hi.symm
  rw [hholds, or_and_right]
  exact or_congr_right (iff_self_and.mpr hgone)

/-- During a sweep on the book `b`: the makers cancelled so far are recorded, the filled ones still
have to be, and every other resting order is still there. -/
structure SweepRetires (b : OrderBook L) (t : Taker) (p : Plan L)
    (ws : List (OrderId × OrderStatus)) (sw : Sweep L) : Prop where
  tracker : sw.book.orderStateTracker = (b.recordAll ws).orderStateTracker
  pending : ∀ {i}, sw.book.Holds i ∨ i ∈ sw.filledOrders.map Prod.fst ↔
    b.Holds i ∧ i ∉ ws.map Prod.fst
  cancelled : ∀ w ∈ ws, b.Holds w.1 ∧ ∃ reason, w.2 = .cancelled (b.trackedFilled w.1) reason
  nodup_cancelled : (ws.map Prod.fst).Nodup
  filled : ∀ f ∈ sw.filledOrders, ∃ e ∈ p.fills, ∃ o ∈ orders e.1, o.id = f.1 ∧
    o.id ∉ orderIds (matchOrder e.1 e.2 t.orderId .standard).2 ∧
    f.2 = tradedQuantity (tradesOf o.id (matchOrder e.1 e.2 t.orderId .standard).1.trades)
  nodup_filled : ∀ [MatchReportsOnce L], (sw.filledOrders.map Prod.fst).Nodup
  traded : ∀ [MatchAccounting L] [TradeRecords L], ∃ new, sw.book.fills = b.fills ++ new ∧
    (∀ x ∈ new, x.takerOrderId = t.orderId) ∧ (b.TakesWhole t.orderId p →
      (∀ i ≠ t.orderId, i ∉ sw.filledOrders.map Prod.fst → tradedBy i new = 0) ∧
      ∀ f ∈ sw.filledOrders, f.1 ≠ t.orderId → f.2 = tradedBy f.1 new)

namespace SweepRetires

/-- Neither maker nor taker of a match. -/
theorem tradedBy_match_eq_zero [MatchAccounting L] [TradeRecords L]
    (hrun : matchOrder l q t.orderId .standard = (r, l')) (hne : i ≠ t.orderId)
    (hi : i ∉ orderIds l) : tradedBy i r.trades = 0 := by
  rw [tradedBy_maker (fun x hx => TradeRecords.trade_taker hrun hx) hne, tradesOf_eq_nil hrun hi]
  rfl

theorem fill [LevelMatch L] (hsound : SweepSound t sw) (h : SweepRetires b t p ws sw)
    (hl : (sw.book.levels t.side.opposite).get? price = some l)
    (hrun : matchOrder l q t.orderId .standard = (r, l')) (hplanned : (l, q) ∈ p.fills)
    (hlists : p.Lists t.orderId) : SweepRetires b t p ws (fillLevel t sw price q r l') := by
  have hlisted := hlists _ hplanned
  rw [hrun] at hlisted
  have hgone : ∀ {i}, i ∈ sw.filledOrders.map Prod.fst → i ∉ orderIds l := fun hold hi => by
    obtain ⟨o, ho, rfl⟩ := mem_orderIds.mp hi
    exact hsound.filled hold ⟨l, hl, ho⟩ rfl
  refine ⟨(fillLevel_tracker t sw price q r l').trans h.tracker,
    fun {i} => (pending_fill hl hrun i (hlisted i)).trans h.pending, h.cancelled, h.nodup_cancelled,
    fun f hf => ?_, ?_, ?_⟩
  · rcases List.mem_append.mp hf with hold | hnew
    · exact h.filled f hold
    · obtain ⟨j, hj, rfl⟩ := List.mem_map.mp hnew
      obtain ⟨hmem, hleft⟩ := LevelMatch.left_of_filled hrun hj
      obtain ⟨o, ho, rfl⟩ := mem_orderIds.mp hmem
      refine ⟨_, hplanned, o, ho, rfl, ?_, ?_⟩
      · rw [hrun]
        exact hleft
      · rw [hrun]
  · intro _
    rw [fillLevel_filledIds]
    refine h.nodup_filled.append (MatchReportsOnce.nodup_filledOrderIds hrun) fun i hold hnew => ?_
    exact hgone hold (LevelMatch.left_of_filled hrun hnew).1
  · intro _ _
    have htakers : ∀ x ∈ r.trades, x.takerOrderId = t.orderId := fun x hx =>
      TradeRecords.trade_taker hrun hx
    obtain ⟨new, hfills, hparties, hnew⟩ := h.traded
    refine ⟨new ++ r.trades, by rw [fillLevel_fills, hfills, List.append_assoc],
      fun x hx => (List.mem_append.mp hx).elim (hparties x) (htakers x), fun hwhole => ?_⟩
    obtain ⟨hidle, hfilled⟩ := hnew hwhole
    refine ⟨fun i hne hi => ?_, fun f hf hne => ?_⟩
    · -- a maker that traded is among the filled ones
      rw [fillLevel_filledIds, List.mem_append, not_or] at hi
      have hnone : tradesOf i r.trades = [] := by
        by_contra htraded
        have hmem : i ∈ orderIds l := by
          by_contra hnot
          exact htraded (tradesOf_eq_nil hrun hnot)
        obtain ⟨o, ho, rfl⟩ := mem_orderIds.mp hmem
        have hleft := (hwhole _ hplanned o ho).1
        rw [hrun] at hleft
        exact hi.2 (hlisted _ hmem (hleft htraded))
      rw [tradedBy_append, hidle i hne hi.1, tradedBy_maker htakers hne, hnone]
      rfl
    · rw [tradedBy_append]
      rcases List.mem_append.mp hf with hold | hnew
      · -- a filled maker is gone, so it trades no more
        rw [tradedBy_match_eq_zero hrun hne (hgone (List.mem_map_of_mem hold))]
        exact hfilled f hold hne
      · obtain ⟨j, hj, rfl⟩ := List.mem_map.mp hnew
        have hfirst : j ∉ sw.filledOrders.map Prod.fst := fun hold =>
          hgone hold (LevelMatch.left_of_filled hrun hj).1
        rw [hidle j hne hfirst, Nat.zero_add, tradedBy_maker htakers hne]

theorem cancel (hlive : b.Live) (hsound : SweepSound t sw)
    (hout : sw.book.TakesOff t.side.opposite price l l' o) (h : SweepRetires b t p ws sw) :
    SweepRetires b t p
      (ws ++ [(o.id, .cancelled (b.trackedFilled o.id) .selfTradePrevention)])
      { sw with book := sw.book.stpCancel t.side.opposite price l' o } := by
  obtain ⟨hheld, hnot⟩ := h.pending.mp (Or.inl ⟨_, price, o, hout.rests, rfl⟩)
  have hstatus : sw.book.orderStatus o.id = b.orderStatus o.id :=
    (orderStatus_congr h.tracker o.id).trans
      (orderStatus_recordAll_of_notMem hnot fun _ hst => hlive hheld hst)
  refine ⟨?_, fun {i} => ?_, ?_, ?_, h.filled, h.nodup_filled, ?_⟩
  · rw [stpCancel_tracker, recordAll_append, trackedFilled_congr hstatus]
    exact trackState_tracker_congr h.tracker ..
  · rw [pending_stpCancel hsound hout, h.pending, List.map_append, List.mem_append, not_or,
      and_assoc, List.map_singleton, List.mem_singleton]
  · intro w hw
    rcases List.mem_append.mp hw with hw | hw
    · exact h.cancelled w hw
    · rw [List.mem_singleton.mp hw]
      exact ⟨hheld, _, rfl⟩
  · rw [List.map_append]
    refine h.nodup_cancelled.append (List.nodup_singleton _) fun i hi hi' => hnot ?_
    rwa [List.mem_singleton.mp hi'] at hi
  · intro _ _
    obtain ⟨new, hfills, hrest⟩ := h.traded
    exact ⟨new, (stpCancel_fills ..).trans hfills, hrest⟩

theorem step [LevelMatch L] (hlive : b.Live) (hlists : p.Lists t.orderId)
    (hs : PlannedStep t (fun l q => (l, q) ∈ p.fills) price sw sw') (hsound : SweepSound t sw)
    (h : ∃ ws, SweepRetires b t p ws sw) : ∃ ws, SweepRetires b t p ws sw' := by
  obtain ⟨ws, h⟩ := h
  cases hs with
  | fill level kind allows pos cap safe run planned =>
    exact ⟨ws, h.fill hsound level run planned hlists⟩
  | cancel level mode user mem own orders_eq run =>
    exact ⟨_, h.cancel hlive hsound ⟨level, mem, orders_eq⟩⟩
  | markEmpty | flag =>
    exact ⟨ws, h.tracker, h.pending, h.cancelled, h.nodup_cancelled, h.filled, h.nodup_filled,
      h.traded⟩

/-- At the end of the sweep the fills are recorded. -/
theorem finishSweep (hsound : SweepSound t sw) (hfree : ¬ b.Holds t.orderId)
    (h : SweepRetires b t p ws sw) :
    b.Retires t.orderId p (ws ++ sw.filledOrders.map fun f => (f.1, .filled f.2))
      (finishSweep t sw) := by
  have hids : (ws ++ sw.filledOrders.map fun f => (f.1, OrderStatus.filled f.2)).map Prod.fst =
      ws.map Prod.fst ++ sw.filledOrders.map Prod.fst := by
    rw [List.map_append, List.map_map]
    rfl
  have hfilled : ∀ {i}, i ∈ sw.filledOrders.map Prod.fst → b.Holds i ∧ i ∉ ws.map Prod.fst :=
    fun hi => h.pending.mp (Or.inr hi)
  refine ⟨?_, fun {i} => ?_, fun w hw => ?_, fun w hw => ?_, fun w hw => ?_, ?_, ?_⟩
  · rw [finishSweep_tracker, recordAll_append]
    exact recordAll_tracker_congr h.tracker
  · rw [holds_congr hsound.finishSweep_rests, hids, List.mem_append, not_or, ← and_assoc,
      ← h.pending]
    constructor
    · rintro ⟨side, price, o, ho, hid⟩
      exact ⟨Or.inl ⟨side, price, o, ho, hid⟩, fun hi => hsound.filled hi ho hid⟩
    · exact fun hi => hi.1.resolve_right hi.2
  · rcases List.mem_append.mp hw with hw | hw
    · exact (h.cancelled w hw).1
    · obtain ⟨f, hf, rfl⟩ := List.mem_map.mp hw
      exact (hfilled (List.mem_map_of_mem hf)).1
  · rcases List.mem_append.mp hw with hw | hw
    · obtain ⟨reason, heq⟩ := (h.cancelled w hw).2
      rw [heq]
      rfl
    · obtain ⟨f, hf, rfl⟩ := List.mem_map.mp hw
      rfl
  · rcases List.mem_append.mp hw with hw | hw
    · obtain ⟨reason, heq⟩ := (h.cancelled w hw).2
      rw [heq]
      exact Or.inl rfl
    · obtain ⟨f, hf, rfl⟩ := List.mem_map.mp hw
      exact Or.inr (h.filled f hf)
  · intro _
    rw [hids]
    exact h.nodup_cancelled.append h.nodup_filled fun i hi hi' => (hfilled hi').2 hi
  · intro _ _
    obtain ⟨new, hfills, hparties, hnew⟩ := h.traded
    refine ⟨new, (finishSweep_fills t sw).trans hfills, hparties, fun hwhole => ?_⟩
    obtain ⟨hidle, hreport⟩ := hnew hwhole
    have hne : ∀ {i}, b.Holds i → i ≠ t.orderId := by
      rintro _ hi rfl
      exact hfree hi
    refine ⟨fun i hne hi => hidle i hne fun hmem => hi ?_, fun w hw => ?_⟩
    · rw [hids]
      exact List.mem_append_right _ hmem
    rcases List.mem_append.mp hw with hw | hw
    · obtain ⟨hheld, reason, heq⟩ := h.cancelled w hw
      have hmem : w.1 ∈ ws.map Prod.fst := List.mem_map_of_mem hw
      rw [hidle w.1 (hne hheld) fun hi => (hfilled hi).2 hmem, heq]
      rfl
    · obtain ⟨f, hf, rfl⟩ := List.mem_map.mp hw
      obtain ⟨e, he, o, ho, heq, hleft, -⟩ := h.filled f hf
      have hzero := (hwhole e he o ho).2 hleft
      rw [heq] at hzero
      rw [hzero, Nat.zero_add]
      exact hreport f hf (hne (hfilled (List.mem_map_of_mem hf)).1)

end SweepRetires

end Sweeping

/-! ### Calls -/

section Calls

variable [LevelQueue L] {b : OrderBook L}

/-- **A sweep retires makers.** If self-trade prevention stops a taker without trades, that is
recorded too. -/
theorem matchOrderInner_retires [LevelMatch L] (hsound : b.Sound) (hlive : b.Live)
    (hnew : ¬ b.Holds id) (side : Side) (mode : MatchMode) (user : Hash32) (kind : TakerKind)
    (hlists : (b.dryRun (b.taker id side mode.limitPrice user kind) mode).Lists id) :
    ∃ ws b₁, b.Retires id (b.dryRun (b.taker id side mode.limitPrice user kind) mode) ws b₁ ∧
      ((matchOrderInner id side mode user kind b).2 = b₁ ∨
        (∃ e, (matchOrderInner id side mode user kind b).1 = .error e) ∧
        (matchOrderInner id side mode user kind b).2 =
          b₁.trackState id (.cancelled 0 .selfTradePrevention) ∧
        ∀ [MatchAccounting L] [TradeRecords L], b₁.fills = b.fills) := by
  obtain ⟨hswept, ws, hretires⟩ :=
    (b.openSweep.sweep_planned (b.taker id side mode.limitPrice user kind) mode).invariant
      (J := fun sw => SweepSound (b.taker id side mode.limitPrice user kind) sw ∧
        ∃ ws, SweepRetires b (b.taker id side mode.limitPrice user kind)
          (b.dryRun (b.taker id side mode.limitPrice user kind) mode) ws sw)
      (fun hs hJ => ⟨SweepSound.step hs.step hJ.1, SweepRetires.step hlive hlists hs hJ.1 hJ.2⟩)
      ⟨.start (hsound.sameState b.sameState_openSweep) mode, [], rfl, fun {i} => by
          exact (or_iff_left List.not_mem_nil).trans (and_iff_left List.not_mem_nil).symm,
        fun _ hw => absurd hw List.not_mem_nil, List.nodup_nil,
        fun _ hf => absurd hf List.not_mem_nil, List.nodup_nil, [], (List.append_nil _).symm,
        fun _ hx => absurd hx List.not_mem_nil, fun _ => ⟨fun _ _ _ => rfl, fun _ hf =>
          absurd hf List.not_mem_nil⟩⟩
  have hfinished := hretires.finishSweep hswept hnew
  rcases matchOrderInner_snd id side mode user kind b with hrun | hrun | ⟨hnone, herror, hrun⟩
  · exact ⟨[], _, .quiet ⟨_, _, rfl⟩, Or.inl hrun⟩
  · exact ⟨_, _, hfinished, Or.inl hrun⟩
  · refine ⟨_, _, hfinished, Or.inr ⟨⟨_, herror⟩, hrun, fun {_ _} => ?_⟩⟩
    rw [finishSweep_fills, fills_of_no_trades hnone]
    rfl

theorem cancelOrderWithReason_cancels (hsound : b.Sound) (id : OrderId) (reason : CancelReason) :
    b.Cancels (b.cancelOrderWithReason id reason).1 := by
  refine ⟨cancelOrderWithReason_fills b id reason, ?_⟩
  rcases cancelOrderWithReason_step b id reason with
    ⟨hquiet, -, -⟩ | ⟨side, price, l, l', o, rfl, hout, -, hquiet⟩
  · exact ⟨[], .quiet hquiet⟩
  · refine ⟨[(o.id, .cancelled (b.trackedFilled o.id) reason)], .cancelled hquiet.tracker_eq
      (fun {i} => ?_) (fun w hw => ?_) (List.nodup_singleton _) (cancelOrderWithReason_fills ..)⟩
    · rw [List.map_singleton, List.mem_singleton,
        holds_of_sameOrders hquiet.sameState.sameOrders]
      exact hsound.holds_removed hout.off (cancelAt_get? _ _ _ _ _)
    · rw [List.mem_singleton.mp hw]
      exact ⟨⟨side, price, o, hout.rests, rfl⟩, reason, rfl⟩

omit [LevelQueue L] in
theorem mem_restingIds_iff : i ∈ b.restingOrders.map Order.id ↔ b.Holds i := by
  rw [List.mem_map]
  constructor
  · rintro ⟨o, ho, hid⟩
    obtain ⟨side, price, hrests⟩ := mem_restingOrders.mp ho
    exact ⟨side, price, o, hrests, hid⟩
  · rintro ⟨side, price, o, hrests, hid⟩
    exact ⟨o, mem_restingOrders.mpr ⟨side, price, hrests⟩, hid⟩

omit [PriceLevel L] [LevelQueue L] in
/-- Each id is cancelled with what was on record when the first was. -/
theorem foldl_cancelled {ids : List OrderId} (reason : CancelReason) (hnodup : ids.Nodup)
    (hlive : ∀ i ∈ ids, ∀ st, b.orderStatus i = some st → st.isTerminal = false) :
    ids.foldl (fun b id => b.trackState id (.cancelled (b.trackedFilled id) reason)) b =
      b.recordAll (ids.map fun id => (id, .cancelled (b.trackedFilled id) reason)) := by
  induction ids using List.reverseRecOn with
  | nil => rfl
  | append_singleton ids id ih =>
    rw [List.nodup_append] at hnodup
    have hnot : id ∉ (ids.map fun id =>
        (id, OrderStatus.cancelled (b.trackedFilled id) reason)).map Prod.fst := by
      rw [List.map_map]
      exact fun hi => hnodup.2.2 id (by simpa using hi) id (List.mem_singleton_self id) rfl
    rw [List.foldl_append, ih hnodup.1 fun i hi => hlive i (List.mem_append_left _ hi),
      List.map_append, recordAll_append]
    refine congrArg (fun n => (b.recordAll _).trackState id (.cancelled n reason)) ?_
    exact trackedFilled_congr (orderStatus_recordAll_of_notMem hnot
      (hlive id (List.mem_append_right _ (List.mem_singleton_self id))))

/-- Clearing the book cancels every resting order. -/
theorem cancelAllOrders_cancels (hsound : b.Sound) (hlive : b.Live) :
    b.Cancels b.cancelAllOrders.1 := by
  rw [cancelAllOrders]
  dsimp only
  split_ifs
  · exact ⟨rfl, [], .quiet b.quiet_invalidateCache⟩
  have htracker : ((b.invalidateCache.deliverCleared .buy).deliverCleared .sell).orderStateTracker =
      b.orderStateTracker := (deliverCleared_tracker ..).trans (deliverCleared_tracker ..)
  have hids : ((b.restingOrders.map Order.id).map fun id => (id, OrderStatus.cancelled
      (b.trackedFilled id) .massCancelAll)).map Prod.fst = b.restingOrders.map Order.id := by
    rw [List.map_map]
    exact List.map_id _
  have hsame : b.SameOrders ((b.invalidateCache.deliverCleared .buy).deliverCleared .sell) :=
    (b.sameState_invalidateCache.sameOrders.trans (sameOrders_deliverCleared _ .buy)).trans
      (sameOrders_deliverCleared _ .sell)
  have hfills : ((b.restingOrders.map Order.id).foldl (fun b id => b.trackState id
      (.cancelled (b.trackedFilled id) .massCancelAll))
      ((b.invalidateCache.deliverCleared .buy).deliverCleared .sell)).fills = b.fills :=
    (hsame.trans (sameState_foldl_trackState _ _).sameOrders).sameRests.fills_eq
  refine ⟨hfills, (b.restingOrders.map Order.id).map fun id =>
    (id, .cancelled (b.trackedFilled id) .massCancelAll), .cancelled ?_ (fun {i} => ?_)
    (fun w hw => ?_) ?_ hfills⟩
  · show (OrderBook.orderStateTracker (List.foldl _ _ (b.restingOrders.map Order.id))) = _
    rw [foldl_cancelled .massCancelAll hsound.nodup_restingOrders fun i hi st hst =>
      hlive (mem_restingIds_iff.mp hi) ((orderStatus_congr htracker i).symm.trans hst)]
    have hrecord : ∀ id,
        ((b.invalidateCache.deliverCleared .buy).deliverCleared .sell).trackedFilled id =
          b.trackedFilled id := fun id => trackedFilled_congr (orderStatus_congr htracker id)
    simp only [hrecord]
    exact recordAll_tracker_congr htracker
  · rw [hids, mem_restingIds_iff, and_not_self_iff, iff_false]
    rintro ⟨side, price, o, ⟨l, hl, -⟩, -⟩
    cases side <;> cases hl
  · obtain ⟨i, hi, rfl⟩ := List.mem_map.mp hw
    exact ⟨mem_restingIds_iff.mp hi, _, rfl⟩
  · rw [hids]
    exact hsound.nodup_restingOrders
namespace OrderBook

/-- Neither a status nor an order nor a trade changes. -/
structure Silent (b b' : OrderBook L) : Prop where
  tracker : b'.orderStateTracker = b.orderStateTracker
  holds : ∀ {i}, b'.Holds i ↔ b.Holds i
  fills : b'.fills = b.fills

/-- The submitted order gets a status: it rests if the status is not terminal, and it has traded
what the status says. -/
structure Closes (b : OrderBook L) (id : OrderId) (status : OrderStatus) (b' : OrderBook L) :
    Prop where
  tracker : b'.orderStateTracker = (b.trackState id status).orderStateTracker
  holds : ∀ {i}, b'.Holds i ↔ if i = id then status.isTerminal = false else b.Holds i
  fills : b'.fills = b.fills

/-- What a call records that submits an order under `id`. Makers retire, as planned by one of the
plans `P` if anything is matched, and the order itself gets at most one status. -/
def Submits (b : OrderBook L) (id : OrderId) (P : Plan L → Prop) (b' : OrderBook L) : Prop :=
  ∃ p ws b₁, (p.fills = [] ∨ P p) ∧ b.Retires id p ws b₁ ∧ (b₁.Silent b' ∨
    ∃ status, b₁.Closes id status b' ∧ ∀ [MatchAccounting L] [TradeRecords L],
      tradedBy id b.fills = 0 → status.filledQuantity = tradedBy id b'.fills)

omit [LevelQueue L]

theorem Quiet.silent (h : b.Quiet b') : b.Silent b' :=
  ⟨h.tracker_eq, holds_of_sameOrders h.sameState.sameOrders, h.sameState.fills_eq⟩

theorem emitTrades_silent (wantResult : Bool) (r : MatchResult) (b : OrderBook L) :
    b.Silent (emitTrades wantResult r b).2 :=
  ⟨emitTrades_tracker wantResult r b, holds_of_sameOrders (sameOrders_emitTrades wantResult r b),
    emitTrades_fills wantResult r b⟩

theorem Silent.trans {b'' : OrderBook L} (h : b.Silent b') (h' : b'.Silent b'') : b.Silent b'' :=
  ⟨h'.tracker.trans h.tracker, h'.holds.trans h.holds, h'.fills.trans h.fills⟩

/-- A terminal status of an order that does not rest. -/
theorem closes_trackState (hid : ¬ b.Holds id) (hst : status.isTerminal = true) :
    b.Closes id status (b.trackState id status) where
  tracker := rfl
  holds {i} := by
    split_ifs with hi
    · rw [hi, hst]
      exact iff_of_false hid Bool.noConfusion
    · exact Iff.rfl
  fills := rfl

theorem Closes.of_silent {b₁ : OrderBook L} (hsilent : b.Silent b₁) (h : b₁.Closes id status b') :
    b.Closes id status b' where
  tracker := h.tracker.trans (trackState_tracker_congr hsilent.tracker id status)
  holds := by
    simp only [h.holds, hsilent.holds, implies_true]
  fills := h.fills.trans hsilent.fills

theorem Closes.silent {b'' : OrderBook L} (h : b.Closes id status b') (hsilent : b'.Silent b'') :
    b.Closes id status b'' :=
  ⟨hsilent.tracker.trans h.tracker, hsilent.holds.trans h.holds, hsilent.fills.trans h.fills⟩

/-- What is left of an order comes to rest, or the level refuses it. -/
theorem restResidual_closes [LevelQueue L] (hsound : b.Sound) (o : Order) (remaining : ℕ) :
    b.Closes o.id (restingStatus o remaining) (restResidual o remaining b).2 ∨
      b.Silent (restResidual o remaining b).2 := by
  have hfills := restResidual_fills o remaining b
  rcases restResidual_tracker o remaining b with ⟨⟨r, hok⟩, htracker⟩ | ⟨⟨e, herror⟩, htracker⟩
  · refine Or.inl ⟨htracker, fun {i} => ?_, hfills⟩
    rcases restResidual_cases o remaining b with ⟨l, l', hl, -, horders, -, hsame⟩ |
      ⟨e, -, herror, -⟩
    · rw [isTerminal_restingStatus, holds_of_sameOrders hsame.sameOrders,
        OrderBook.Sound.holds_restAt hl horders]
      split_ifs with hi
      · exact iff_of_true (Or.inr hi) rfl
      · exact or_iff_left hi
    · cases herror.symm.trans hok
  · refine Or.inr ⟨htracker, fun {i} => ?_, hfills⟩
    rcases restResidual_cases o remaining b with
      ⟨l, l', -, -, -, hok, -⟩ | ⟨e, -, -, hsame | ⟨⟨l, hl, hnil⟩, -⟩⟩
    · cases herror.symm.trans hok
    · exact holds_of_sameOrders hsame.sameOrders
    · exact absurd hnil (hsound.nonempty hl)

/-- A taker has traded what its own trades add up to. -/
theorem Retires.tradedBy_taker [MatchAccounting L] [TradeRecords L] {p : Plan L}
    {ws : List (OrderId × OrderStatus)} {new : List Trade} (h : b.Retires id p ws b')
    (hfills : b'.fills = b.fills ++ new) (hunused : tradedBy id b.fills = 0) :
    tradedBy id b'.fills = tradedQuantity new := by
  obtain ⟨new', hfills', hparties, -⟩ := h.traded
  obtain rfl : new = new' := List.append_cancel_left (hfills.symm.trans hfills')
  rw [hfills, tradedBy_append, hunused, Nat.zero_add, OrderBookRs.tradedBy_taker hparties]

/-- A check that refuses an order records at most a terminal status for it. -/
theorem Refused.submits {P : Plan L → Prop} (how : Refused o b b') (hnew : ¬ b.Holds o.id) :
    b.Submits o.id P b' := by
  refine ⟨{ stop := .baseQty 0 }, [], ?_⟩
  rcases how with hquiet | ⟨b₀, status, hquiet, rfl, hst, hzero, -⟩
  · exact ⟨b', Or.inl rfl, .quiet hquiet, Or.inl (Quiet.refl b').silent⟩
  · refine ⟨b₀, Or.inl rfl, .quiet hquiet, Or.inr ⟨status, closes_trackState ?_ hst, ?_⟩⟩
    · rwa [holds_of_sameOrders hquiet.sameState.sameOrders]
    · intro _ _ hunused
      show _ = tradedBy o.id b₀.fills
      rw [hzero, hquiet.sameState.fills_eq, hunused]

section Submitted

variable {p : Plan L} {ws : List (OrderId × OrderStatus)} {P : Plan L → Prop} {b₁ b₂ : OrderBook L}

/-- The submitted order gets a terminal status after its sweep. -/
theorem Retires.closed (h : b.Retires id p ws b₁) (hp : P p) (hnew : ¬ b.Holds id)
    (hbefore : b₁.Silent b₂) (hst : status.isTerminal = true)
    (hfilled : ∀ [MatchAccounting L] [TradeRecords L], tradedBy id b.fills = 0 →
      status.filledQuantity = tradedBy id b₁.fills)
    (hafter : (b₂.trackState id status).Silent b') : b.Submits id P b' := by
  have hfree : ¬ b₂.Holds id := fun hi => hnew (h.holds.mp (hbefore.holds.mp hi)).1
  refine ⟨p, ws, b₁, Or.inr hp, h, Or.inr ⟨status,
    ((closes_trackState hfree hst).of_silent hbefore).silent hafter, fun {_ _} hunused => ?_⟩⟩
  rw [hfilled hunused, hafter.fills]
  exact congrArg (tradedBy id) hbefore.fills.symm

/-- What is left of the submitted order after its sweep comes to rest or is refused. -/
theorem Retires.rests [LevelQueue L] {remaining : ℕ} {result : Except OrderBookError Order}
    (h : b.Retires o.id p ws b₁) (hp : P p) (hsound : b₁.Sound) (hsilent : b₁.Silent b₂)
    (hsame : b₁.SameOrders b₂)
    (hfilled : ∀ [MatchAccounting L] [TradeRecords L], tradedBy o.id b.fills = 0 →
      o.totalQuantity - remaining = tradedBy o.id b₁.fills)
    (hrest : restResidual o remaining b₂ = (result, b')) : b.Submits o.id P b' := by
  refine ⟨p, ws, b₁, Or.inr hp, h, ?_⟩
  have hcloses := restResidual_closes (hsound.sameOrders hsame) o remaining
  rw [hrest] at hcloses
  rcases hcloses with hcloses | hrefused
  · refine Or.inr ⟨_, hcloses.of_silent hsilent, fun {_ _} hunused => ?_⟩
    rw [hcloses.fills, hsilent.fills, ← hfilled hunused, restingStatus]
    split_ifs with hpos
    · rfl
    · exact (Nat.le_zero.mp (Nat.not_lt.mp hpos)).symm
  · exact Or.inl (hsilent.trans hrefused)

end Submitted

end OrderBook

variable [LevelMatch L]

/-- How the sweep of an order whose id does not rest ends, in terms of the book before the reads of
its admission. -/
theorem sweepOf_ends {b₀ : OrderBook L} (hsound : b.Sound) (hlive : b.Live)
    (hnew : ¬ b.Holds o.id) (hlists : (b.dryRunOf o).Lists o.id) (hquiet : b.Quiet b₀) :
    ∃ ws b₁, b.Retires o.id (b.dryRunOf o) ws b₁ ∧ ((sweepOf o b₀).2 = b₁ ∨
      (∃ e, (sweepOf o b₀).1 = .error e) ∧
        (sweepOf o b₀).2 = b₁.trackState o.id (.cancelled 0 .selfTradePrevention) ∧
        ∀ [MatchAccounting L] [TradeRecords L], b₁.fills = b₀.fills) := by
  have hsound₀ := hsound.sameState hquiet.sameState
  obtain ⟨cache, clock, rfl⟩ := hquiet
  have hquiet : b.Quiet { b with cache := cache, clock := clock } := ⟨cache, clock, rfl⟩
  obtain ⟨ws, b₁, hretires, hend⟩ := matchOrderInner_retires hsound₀ (fun hi hst => hlive hi hst)
    hnew o.side (.baseQty o.totalQuantity (some o.price)) o.userId (takerKind o) hlists
  exact ⟨ws, b₁, hretires.of_quiet hquiet, hend⟩

/-- The sweep of an order retires makers, and the order has traded what the sweep filled of it. -/
theorem sweepOf_retires {b₀ b₁ : OrderBook L} {outcome : MatchOutcome} (hsound : b.Sound)
    (hlive : b.Live) (hnew : ¬ b.Holds o.id) (hlists : (b.dryRunOf o).Lists o.id)
    (hquiet : b.Quiet b₀) (hrun : sweepOf o b₀ = (.ok outcome, b₁)) :
    b₁.Sound ∧ ∃ ws, b.Retires o.id (b.dryRunOf o) ws b₁ ∧
      ∀ [MatchAccounting L] [TradeRecords L], tradedBy o.id b.fills = 0 →
        filledOf o outcome = tradedBy o.id b₁.fills := by
  have hsound₀ := hsound.sameState hquiet.sameState
  have hbook : (sweepOf o b₀).2 = b₁ := by rw [hrun]
  refine ⟨hbook ▸ hsound₀.matchOrderInner .., ?_⟩
  obtain ⟨ws, b₂, hretires, heq | ⟨⟨e, herror⟩, -⟩⟩ :=
    sweepOf_ends hsound hlive hnew hlists hquiet
  · obtain rfl : b₂ = b₁ := heq.symm.trans hbook
    refine ⟨ws, hretires, fun {_ _} hunused => ?_⟩
    obtain ⟨haccounts, hfills⟩ := sweepOf_accounts hrun
    rw [hquiet.sameState.fills_eq] at hfills
    rw [hretires.tradedBy_taker hfills hunused, filledOf]
    omega
  · cases herror.symm.trans (congrArg Prod.fst hrun)

/-- A sweep that fails may have recorded that self-trade prevention stopped the order. -/
theorem failedSweep_submits {b₀ b₁ : OrderBook L} {e : OrderBookError} (hsound : b.Sound)
    (hlive : b.Live) (hnew : ¬ b.Holds o.id) (hlists : (b.dryRunOf o).Lists o.id)
    (hquiet : b.Quiet b₀) (hrun : sweepOf o b₀ = (.error e, b₁)) {P : Plan L → Prop}
    (hp : P (b.dryRunOf o)) : b.Submits o.id P b₁ := by
  have hbook : (sweepOf o b₀).2 = b₁ := by rw [hrun]
  obtain ⟨ws, b₂, hretires, heq | ⟨-, heq, hfills⟩⟩ :=
    sweepOf_ends hsound hlive hnew hlists hquiet
  · rw [← heq.symm.trans hbook]
    exact ⟨_, ws, b₂, Or.inr hp, hretires, Or.inl (Quiet.refl b₂).silent⟩
  · rw [← heq.symm.trans hbook]
    refine hretires.closed hp hnew (Quiet.refl b₂).silent rfl (fun {_ _} hunused => ?_)
      (Quiet.refl _).silent
    rw [hfills, hquiet.sameState.fills_eq, hunused]
    rfl

/-- **What `add_order_inner` records** for an order whose id does not rest. -/
theorem addOrderInner_submits (hsound : b.Sound) (hlive : b.Live) (hnew : ¬ b.Holds o.id)
    (hlists : b.Accepted o → (b.dryRunOf o).Lists o.id) (wantResult : Bool) :
    b.Submits o.id (fun p => b.Accepted o ∧ p = b.dryRunOf o) (addOrderInner o wantResult b).2 := by
  have hswept : ∀ {b₀ b₁ outcome}, b.Accepted o → b.Quiet b₀ →
      sweepOf o b₀ = (.ok outcome, b₁) → b₁.Sound ∧ ∃ ws, b.Retires o.id (b.dryRunOf o) ws b₁ ∧
        ∀ [MatchAccounting L] [TradeRecords L], tradedBy o.id b.fills = 0 →
          filledOf o outcome = tradedBy o.id b₁.fills := fun haccepted =>
    sweepOf_retires hsound hlive hnew (hlists haccepted)
  have hstep := addOrderInner_step o wantResult b
  generalize (OrderBook.addOrderInner o wantResult b).1 = result at hstep
  generalize (OrderBook.addOrderInner o wantResult b).2 = b' at hstep ⊢
  cases hstep with
  | refused refusal how view => exact how.submits hnew
  | failed accepted quiet run =>
    exact failedSweep_submits hsound hlive hnew (hlists accepted) quiet run ⟨accepted, rfl⟩
  | rejected accepted quiet run flag recorded =>
    obtain ⟨-, ws, hretires, htraded⟩ := hswept accepted quiet run
    rw [recorded]
    refine hretires.closed ⟨accepted, rfl⟩ hnew (Quiet.refl _).silent rfl
      (fun {_ _} hunused => .trans ?_ (htraded hunused)) (quiet_bestPrice ..).silent
    -- a rejected probe has traded nothing
    have haccounts := (sweepOf_accounts run).1
    rw [trades_of_rejected run flag] at haccounts
    rw [filledOf, ← haccounts]
    simp [tradedQuantity, OrderStatus.filledQuantity]
  | stpCancelled accepted quiet run flag stp | dropped accepted quiet run flag stp pos immediate =>
    obtain ⟨-, ws, hretires, htraded⟩ := hswept accepted quiet run
    refine hretires.closed ⟨accepted, rfl⟩ hnew (emitTrades_silent ..) ?_ ?_ (Quiet.refl _).silent
    · rfl
    · exact htraded
  | filled accepted quiet run flag stp zero =>
    obtain ⟨-, ws, hretires, htraded⟩ := hswept accepted quiet run
    rw [filledOf, zero] at htraded
    refine hretires.closed ⟨accepted, rfl⟩ hnew (emitTrades_silent ..) ?_ ?_ (Quiet.refl _).silent
    · rfl
    · exact htraded
  | levelRefused accepted quiet run flag stp pos resting rest
  | rests accepted quiet run flag stp pos resting rest =>
    obtain ⟨hsound₁, ws, hretires, htraded⟩ := hswept accepted quiet run
    exact hretires.rests ⟨accepted, rfl⟩ hsound₁ (emitTrades_silent ..)
      (sameOrders_emitTrades ..) htraded rest

/-- **What a market order records** whose id does not rest. -/
theorem matchMarket_submits (hsound : b.Sound) (hlive : b.Live) (hnew : ¬ b.Holds id) (side : Side)
    (mode : MatchMode) (user : Hash32)
    (hlists : (b.dryRun (b.taker id side mode.limitPrice user .standard) mode).Lists id) :
    b.Submits id (fun p => p = b.dryRun (b.taker id side mode.limitPrice user .standard) mode)
      (matchMarket id side mode user b).2 := by
  obtain ⟨ws, b₁, hretires, hend⟩ :=
    matchOrderInner_retires hsound hlive hnew side mode user .standard hlists
  have hsilent : (matchOrderInner id side mode user .standard b).2.Silent
      (matchMarket id side mode user b).2 := by
    rcases matchMarket_book id side mode user b with hrun | ⟨r, hrun⟩
    · rw [hrun]
      exact (Quiet.refl _).silent
    · rw [hrun]
      exact emitTrades_silent ..
  refine ⟨_, ws, b₁, Or.inr rfl, hretires, ?_⟩
  rcases hend with heq | ⟨-, heq, hfills⟩
  · rw [heq] at hsilent
    exact Or.inl hsilent
  · rw [heq] at hsilent
    refine Or.inr ⟨_, (closes_trackState (fun hi => hnew (hretires.holds.mp hi).1) rfl).silent
      hsilent, fun {_ _} hunused => ?_⟩
    rw [hsilent.fills]
    show 0 = tradedBy id b₁.fills
    rw [hfills, hunused]

/-- A property of the recorded statuses along guarded runs of a sound book. -/
theorem guarded_of_records [LevelResize L] {I : OrderBook L → Prop} {g : Guard L}
    (hsilent : ∀ {b b'}, b.Silent b' → I b → I b') (hlive : ∀ {b}, I b → b.Live)
    (hcancels : ∀ {b b'}, b.Cancels b' → I b → I b')
    (halike : ∀ {b b' o}, SameAnswers b b' → g.add b o → g.add b' o)
    (hadd : ∀ {b o} wantResult, g.add b o → b.Sound → I b → I (addOrderInner o wantResult b).2)
    (hmarket : ∀ {b id side mode user}, b.killSwitch = false → g.market b id side mode user →
      b.Sound → I b → I (matchMarket id side mode user b).2)
    (hhalt : ∀ {b id side mode user}, g.market b id side mode user → I b →
      I (b.trackState id (.rejected .killSwitchActive)))
    (hresize : ∀ {b id q}, g.resize b id q → b.invalidateCache.Sound → I b.invalidateCache →
      I (updateQuantity id q b.invalidateCache).2)
    (hdrop : ∀ {b id}, g.drop b id → b.invalidateCache.Sound → I b.invalidateCache →
      I (cancelByUpdate id b.invalidateCache).2) :
    GuardedInvariant (fun b => b.Sound ∧ I b) g where
  reads hquiet _ h := ⟨h.1.sameState hquiet.sameState, hsilent hquiet.silent h.2⟩
  forget {b} h :=
    ⟨h.1.sameState b.sameState_invalidateCache, hsilent b.quiet_invalidateCache.silent h.2⟩
  alike := halike
  add wantResult hg h :=
    ⟨OrderBook.Sound.steps.calls.add _ wantResult _ h.1, hadd wantResult hg h.1 h.2⟩
  market hrunning hg h :=
    ⟨OrderBook.Sound.steps.calls.market _ _ _ _ _ h.1, hmarket hrunning hg h.1 h.2⟩
  halt hg h := ⟨h.1.sameState (sameView_trackState ..).sameState, hhalt hg h.2⟩
  cancel id reason h := ⟨OrderBook.Sound.steps.calls.cancel id reason h.1,
    hcancels (cancelOrderWithReason_cancels h.1 id reason) h.2⟩
  resize {b id q} hg h := by
    have hsound := h.1.sameState b.sameState_invalidateCache
    exact ⟨OrderBook.Sound.steps.calls.resize id q trivial _ hsound,
      hresize hg hsound (hsilent b.quiet_invalidateCache.silent h.2)⟩
  drop {b id} hg h := by
    have hsound := h.1.sameState b.sameState_invalidateCache
    exact ⟨OrderBook.Sound.steps.calls.drop id _ hsound,
      hdrop hg hsound (hsilent b.quiet_invalidateCache.silent h.2)⟩
  clear h := ⟨h.1.cancelAllOrders, hcancels (cancelAllOrders_cancels h.1 (hlive h.2)) h.2⟩
  byUser {b} user h := by
    refine cancelOrderBatch_keeps (I := fun b => b.Sound ∧ I b) (fun id h =>
      ⟨OrderBook.Sound.steps.calls.cancel id _ h.1,
        hcancels (cancelOrderWithReason_cancels h.1 id _) h.2⟩) _ ?_
    exact ⟨⟨h.1.located, h.1.standing, h.1.nonempty⟩, hsilent (b := b) ⟨rfl, Iff.rfl, rfl⟩ h.2⟩

end Calls

end OrderBookRs
