import OrderBookRs.Admission
import OrderBookRs.Sweep

/-!
# What a call reads and what it records

Most of what happens before an order is matched only reads: it moves the clock and fills the
best-price cache. This module separates the reads (`Quiet`) from the lifecycle records, the
transitions a call writes into the order-state tracker, and says for `add_order_inner` exactly which
record each of its exits leaves.

## Main definitions

* `OrderBook.Quiet`: two books that differ in cache and clock only.
* `AddStep`: every way `add_order_inner` can end, with the record it writes.

## Main results

* `admission_step`: a refusal is silent, or records a terminal status for the new id.
* `addOrderInner_step`: the exits of `add_order_inner`.
-/

namespace OrderBookRs

open PriceLevel Fallible

variable {o : Order}

namespace OrderBook

variable {L : Type}

/-! ### Reading -/

/-- Only the cache and the clock differ. -/
def Quiet (b b' : OrderBook L) : Prop :=
  ∃ cache clock, b' = { b with cache := cache, clock := clock }

namespace Quiet

variable {b b' b'' : OrderBook L}

theorem refl (b : OrderBook L) : Quiet b b := ⟨b.cache, b.clock, rfl⟩

theorem trans (h : Quiet b b') (h' : Quiet b' b'') : Quiet b b'' := by
  obtain ⟨_, _, rfl⟩ := h
  obtain ⟨cache, clock, rfl⟩ := h'
  exact ⟨cache, clock, rfl⟩

theorem isFrame : IsFrame (Quiet (L := L)) := ⟨refl, trans⟩

theorem sameState (h : Quiet b b') : SameState b b' := by
  obtain ⟨cache, clock, rfl⟩ := h
  exact ⟨cache, clock, b.orderStateTracker, rfl⟩

theorem tracker_eq (h : Quiet b b') : b'.orderStateTracker = b.orderStateTracker := by
  obtain ⟨_, _, rfl⟩ := h
  rfl

end Quiet

theorem quiet_bestPrice (b : OrderBook L) (side : Side) : Quiet b (b.bestPrice side).2 := by
  obtain ⟨cache, h⟩ := b.bestPrice_cache side
  exact ⟨cache, b.clock, h⟩

theorem quiet_invalidateCache (b : OrderBook L) : Quiet b b.invalidateCache := ⟨_, b.clock, rfl⟩

theorem quiet_riskReference (b : OrderBook L) : Quiet b b.riskReference.2 := by
  obtain ⟨cache, h⟩ := b.riskReference_cache
  exact ⟨cache, b.clock, h⟩

theorem quiet_checkRiskModifyAdmission (id : OrderId) (account : Hash32) (price quantity : ℕ) :
    Rel Quiet (checkRiskModifyAdmission id account price quantity : BookM L Unit) :=
  fun b => b.quiet_riskReference

theorem quiet_checkPostOnly (o : Order) : Rel Quiet (checkPostOnly o : BookM L Unit) := by
  rw [checkPostOnly]
  split_ifs
  · refine .bind Quiet.isFrame (.ofState fun b => b.quiet_bestPrice _) fun crosses => ?_
    refine .bind Quiet.isFrame (.ofState fun b => ?_) fun best => .check Quiet.isFrame _ _
    split_ifs
    · exact b.quiet_bestPrice _
    · exact .refl b
  · exact .pure Quiet.isFrame ()

/-- What the rejection of a post-only order reads and records. -/
theorem sameState_of_rejected {b₁ b' : OrderBook L} {side : Side} {id : OrderId}
    {status : OrderStatus} (recorded : b' = ((b₁.trackState id status).bestPrice side).2) :
    b₁.SameState b' := by
  subst recorded
  exact (sameView_trackState ..).sameState.trans (sameView_bestPrice ..).sameState

/-! ### Statuses -/

section Statuses

variable {b : OrderBook L} {id i : OrderId} {status st : OrderStatus}

theorem orderStatus_of_trackState (h : (b.trackState id status).orderStatus i = some st) :
    i = id ∧ st = status ∨ i ≠ id ∧ b.orderStatus i = some st := by
  rw [orderStatus, trackState] at h
  cases htracker : b.orderStateTracker with
  | none =>
    rw [htracker] at h
    cases h
  | some =>
    rw [htracker] at h
    rw [orderStatus, htracker]
    exact OrderStateTracker.get_of_transition h

theorem orderStatus_trackState_self (hinstalled : b.orderStateTracker.isSome)
    (hst : status.isTerminal = false) : (b.trackState id status).orderStatus id = some status := by
  obtain ⟨t, htracker⟩ := Option.isSome_iff_exists.mp hinstalled
  rw [orderStatus, trackState, htracker]
  exact OrderStateTracker.get_transition_self hst

theorem orderStatus_trackState_of_ne (hi : i ≠ id) (h : b.orderStatus i = some st)
    (hst : st.isTerminal = false) : (b.trackState id status).orderStatus i = some st := by
  rw [orderStatus] at h
  obtain ⟨t, htracker, hget⟩ := Option.bind_eq_some_iff.mp h
  rw [orderStatus, trackState, htracker]
  exact OrderStateTracker.get_transition_of_ne hi hget hst

theorem orderStatus_trackState_eq_none (hi : i ≠ id) (h : b.orderStatus i = none) :
    (b.trackState id status).orderStatus i = none := by
  refine Option.eq_none_iff_forall_ne_some.mpr fun st hst => ?_
  rcases orderStatus_of_trackState hst with ⟨heq, -⟩ | ⟨-, hst⟩
  · exact hi heq
  · cases h.symm.trans hst

/-- The tracked status of the order is `Open` or `PartiallyFilled`. -/
def Active (b : OrderBook L) (i : OrderId) : Prop :=
  ∃ st, b.orderStatus i = some st ∧ st.isTerminal = false

theorem active_trackState (hinstalled : b.orderStateTracker.isSome) :
    (b.trackState id status).Active i ↔
      if i = id then status.isTerminal = false else b.Active i := by
  split_ifs with hi
  · subst hi
    constructor
    · rintro ⟨st, hst, hactive⟩
      rcases orderStatus_of_trackState hst with ⟨-, rfl⟩ | ⟨hne, -⟩
      · exact hactive
      · exact absurd rfl hne
    · exact fun hactive => ⟨status, orderStatus_trackState_self hinstalled hactive, hactive⟩
  · constructor
    · rintro ⟨st, hst, hactive⟩
      rcases orderStatus_of_trackState hst with ⟨heq, -⟩ | ⟨-, hbefore⟩
      · exact absurd heq hi
      · exact ⟨st, hbefore, hactive⟩
    · rintro ⟨st, hst, hactive⟩
      exact ⟨st, orderStatus_trackState_of_ne hi hst hactive, hactive⟩

end Statuses

variable [PriceLevel L] {b b' b₀ : OrderBook L}

theorem quiet_validateOrderShape (o : Order) :
    Rel Quiet (validateOrderShape o : BookM L Unit) :=
  .bind Quiet.isFrame (.get Quiet.isFrame) fun _ =>
    .bind Quiet.isFrame (.lift Quiet.isFrame _) fun _ =>
      .bind Quiet.isFrame (fun b => ⟨b.cache, b.clock.tick, rfl⟩) fun _ =>
        .bind Quiet.isFrame (.check Quiet.isFrame _ _) fun _ =>
          .bind Quiet.isFrame (quiet_checkPostOnly o) fun _ =>
            .bind Quiet.isFrame (.get Quiet.isFrame) fun _ => .check Quiet.isFrame _ _

omit [PriceLevel L] in
theorem clock_checkPostOnly (o : Order) :
    Rel (fun b b' : OrderBook L => b'.clock = b.clock) (checkPostOnly o) := by
  have hframe : IsFrame fun b b' : OrderBook L => b'.clock = b.clock :=
    ⟨fun _ => rfl, fun h h' => h'.trans h⟩
  have hread : ∀ (b : OrderBook L) side, (b.bestPrice side).2.clock = b.clock := fun b side => by
    obtain ⟨cache, h⟩ := b.bestPrice_cache side
    rw [h]
  rw [checkPostOnly]
  split_ifs
  · refine .bind hframe (.ofState fun b => hread b _) fun crosses => ?_
    refine .bind hframe (.ofState fun b => ?_) fun best => .check hframe _ _
    split_ifs
    · exact hread b _
    · rfl
  · exact .pure hframe ()

/-- A shape that is accepted costs one clock reading. -/
theorem clock_validateOrderShape {u : Unit} (h : validateOrderShape o b = (.ok u, b')) :
    b'.clock = b.clock.tick := by
  rw [validateOrderShape, bind_run_of_ok (get_run b)] at h
  obtain ⟨_, b₁, hlift, h⟩ := bind_eq_ok.mp h
  obtain ⟨-, rfl⟩ := Prod.mk.inj hlift
  obtain ⟨expired, b₂, hread, h⟩ := bind_eq_ok.mp h
  obtain ⟨-, rfl⟩ := Prod.mk.inj hread
  obtain ⟨_, b₃, hcheck, h⟩ := bind_eq_ok.mp h
  obtain ⟨-, rfl⟩ := check_eq_ok.mp hcheck
  obtain ⟨_, b₄, hpost, h⟩ := bind_eq_ok.mp h
  rw [checkFillOrKill, bind_run_of_ok (get_run b₄)] at h
  obtain ⟨-, rfl⟩ := check_eq_ok.mp h
  have hclock := clock_checkPostOnly o ({ b with clock := b.clock.tick } : OrderBook L)
  rw [hpost] at hclock
  exact hclock

/-! ### Refusals -/

/-- A refusal reads, or reads and records a terminal status without fills for the new id. It
records one for an id that is in use only when a gate before the duplicate-id check fails. -/
def Refused (o : Order) (b b' : OrderBook L) : Prop :=
  Quiet b b' ∨ ∃ b₀ status, Quiet b b₀ ∧ b' = b₀.trackState o.id status ∧ status.isTerminal ∧
    status.filledQuantity = 0 ∧ (b.orderLocations.lookup o.id = none ∨ ¬ b.PassesGates o)

omit [PriceLevel L] in
theorem Quiet.refused (h : Quiet b b') : Refused o b b' := Or.inl h

omit [PriceLevel L] in
/-- Recording a terminal status without fills is a refusal, unless the id is in use and every gate
was passed. -/
theorem Refused.record (h : Quiet b b₀) {status : OrderStatus} (hterminal : status.isTerminal)
    (hfilled : status.filledQuantity = 0)
    (hid : b.orderLocations.lookup o.id = none ∨ ¬ b.PassesGates o) :
    Refused o b (b₀.trackState o.id status) :=
  Or.inr ⟨b₀, status, h, rfl, hterminal, hfilled, hid⟩

omit [PriceLevel L] in
theorem Refused.recordShapeRejection (h : Quiet b b₀)
    (hid : b.orderLocations.lookup o.id = none ∨ ¬ b.PassesGates o) (e : OrderBookError) :
    Refused o b (recordShapeRejection o e b₀) := by
  cases e <;> first | exact .record h rfl rfl hid | exact h.refused

theorem checkHeadroom_step (o : Order) (b : OrderBook L) :
    Quiet b (checkHeadroom o b).2 ∨ (∃ e, (checkHeadroom o b).1 = .error e) ∧
      ∃ b₀, Quiet b b₀ ∧
        (checkHeadroom o b).2 = b₀.trackState o.id (.rejected .invalidQuantity) := by
  rw [checkHeadroom]
  split_ifs
  · exact Or.inl (.refl b)
  rw [bind_run_of_ok (ofState_run _ b), bind_run_of_ok (get_run _)]
  have hread : Quiet b (b.willCrossMarket o.price o.side).2 := b.quiet_bestPrice _
  generalize (if (b.willCrossMarket o.price o.side).1 then
    ((b.willCrossMarket o.price o.side).2.levels o.side).get? o.price else none) = found
  cases found with
  | none => exact Or.inl hread
  | some level =>
    dsimp only
    cases totalQuantity level with
    | error => exact Or.inr ⟨⟨_, rfl⟩, _, hread, rfl⟩
    | ok =>
      dsimp only
      split_ifs
      · exact Or.inr ⟨⟨_, rfl⟩, _, hread, rfl⟩
      · exact Or.inl hread

/-- The last check refuses or only reads, whatever was read before it. -/
theorem checkHeadroom_refused (h : Quiet b b₀) (hid : b.orderLocations.lookup o.id = none) :
    (∀ e b', checkHeadroom o b₀ = (.error e, b') → Refused o b b') ∧
      ∀ b', checkHeadroom o b₀ = (.ok (), b') → Quiet b b' := by
  rcases checkHeadroom_step o b₀ with hquiet | ⟨⟨e, herr⟩, b₁, hquiet, hrecord⟩
  · refine ⟨fun e b' heq => ?_, fun b' heq => ?_⟩
    · rw [heq] at hquiet
      exact (h.trans hquiet).refused
    · rw [heq] at hquiet
      exact h.trans hquiet
  · refine ⟨fun e b' heq => ?_, fun b' heq => ?_⟩
    · rw [heq] at hrecord
      rw [show b' = _ from hrecord]
      exact .record (h.trans hquiet) rfl rfl (Or.inl hid)
    · rw [heq] at herr
      cases herr

/-- **The checks before the match**, as reads and records. -/
theorem admission_step (o : Order) (b : OrderBook L) :
    (b.Accepted o ∧ ∃ b', Quiet b b' ∧ admission o b = (.ok (), b')) ∨
      ¬ b.Accepted o ∧ ∃ e b', Refused o b b' ∧ admission o b = (.error e, b') := by
  -- an error is a refusal, a success only reads
  suffices h : (∀ e b', admission o b = (.error e, b') → Refused o b b') ∧
      ∀ b', admission o b = (.ok (), b') → Quiet b b' by
    rcases hrun : admission o b with ⟨e | u, b'⟩
    · exact Or.inr ⟨fun hacc => not_succeeds_of_eq hrun (succeeds_admission.mpr hacc), e, b',
        h.1 e b' hrun, rfl⟩
    · exact Or.inl ⟨succeeds_admission.mp ⟨u, b', hrun⟩, b', h.2 b' hrun, rfl⟩
  rcases admission_gates o b with ⟨hgates, e, b₀, reason, hb₀, hrun⟩ | ⟨hgates, hrun⟩
  · rw [hrun]
    refine ⟨fun e b' heq => ?_, fun b' heq => by cases heq⟩
    cases heq
    refine .record ?_ rfl rfl (Or.inr hgates)
    rcases hb₀ with rfl | rfl
    · exact .refl _
    · exact b.quiet_riskReference
  rw [hrun]
  have hread := b.quiet_riskReference
  cases hid : b.orderLocations.lookup o.id with
  | some =>
    refine ⟨fun e b' heq => ?_, fun b' heq => by cases heq⟩
    cases heq
    exact hread.refused
  | none =>
    -- from here on the id is not in use
    rw [Option.isSome_none, bind_run_of_ok (check_false_run _ _)]
    have hshape := hread.trans (quiet_validateOrderShape o b.riskReference.2)
    rcases hvalid : validateOrderShape o b.riskReference.2 with ⟨e | v, b₂⟩
    · rw [hvalid] at hshape
      have hrun : onError (validateOrderShape o) (OrderBook.recordShapeRejection o)
          b.riskReference.2 = (.error e, OrderBook.recordShapeRejection o e b₂) := by
        rw [onError, hvalid]
      rw [bind_run_of_error hrun]
      refine ⟨fun e b' heq => ?_, fun b' heq => by cases heq⟩
      cases heq
      exact .recordShapeRejection hshape (Or.inl hid) _
    · rw [hvalid] at hshape
      rw [bind_run_of_ok (onError_eq_ok.mpr hvalid)]
      exact checkHeadroom_refused hshape hid

/-! ### Moving an order -/

/-- The checks a request that moves an order makes before it cancels the original. -/
structure MoveAccepted (b : OrderBook L) (id : OrderId) (newOrder : Order) : Prop where
  shape : b.ShapeAccepted newOrder
  risk : b.riskState.checkModifyAdmission id newOrder.userId newOrder.price newOrder.totalQuantity
    b.riskReference.1 = .ok ()
  selfCross : b.checkModifyStpSelfCross newOrder = .ok ()

/-- **A request that moves an order** fails and only reads, or passes its checks, cancels the
original and adds the new order. -/
theorem modifyOrder_step (id : OrderId) (newOrder : Order) (b : OrderBook L) :
    (¬ b.MoveAccepted id newOrder ∧ ∃ e b', Quiet b b' ∧ SameView b b' ∧
        modifyOrder id newOrder b = (.error e, b')) ∨
      b.MoveAccepted id newOrder ∧ ∃ b₀, Quiet b b₀ ∧ b₀.clock = b.clock.tick ∧
        modifyOrder id newOrder b =
          (((addOrderInner newOrder false (b₀.cancelOrderWithReason id .userRequested).1).1.map
              fun r => some r.1),
            (addOrderInner newOrder false (b₀.cancelOrderWithReason id .userRequested).1).2) := by
  rw [modifyOrder]
  have hquiet₁ := quiet_validateOrderShape newOrder b
  have hview₁ := checks_validateOrderShape newOrder b
  rcases hshape : validateOrderShape newOrder b with ⟨e | u, b₁⟩
  · rw [hshape] at hquiet₁ hview₁
    refine Or.inl ⟨fun h => ?_, e, b₁, hquiet₁, hview₁, bind_run_of_error hshape⟩
    exact not_succeeds_of_eq hshape (succeeds_validateOrderShape.mpr h.shape)
  rw [hshape] at hquiet₁ hview₁
  rw [bind_run_of_ok hshape]
  have haccepted := succeeds_validateOrderShape.mp ⟨u, b₁, hshape⟩
  have hquiet := hquiet₁.trans b₁.quiet_riskReference
  have hview := hview₁.trans b₁.sameView_riskReference
  have hrun : checkRiskModifyAdmission id newOrder.userId newOrder.price newOrder.totalQuantity b₁ =
      (b.riskState.checkModifyAdmission id newOrder.userId newOrder.price newOrder.totalQuantity
        b.riskReference.1, b₁.riskReference.2) := by
    rw [checkRiskModifyAdmission, hview₁.riskReference_eq]
    obtain ⟨_, _, rfl⟩ := hquiet₁
    rfl
  cases hrisk : b.riskState.checkModifyAdmission id newOrder.userId newOrder.price
      newOrder.totalQuantity b.riskReference.1 with
  | error e =>
    rw [hrisk] at hrun
    refine Or.inl ⟨fun h => ?_, e, _, hquiet, hview, bind_run_of_error hrun⟩
    rw [h.risk] at hrisk
    cases hrisk
  | ok =>
    rw [hrisk] at hrun
    rw [bind_run_of_ok hrun, bind_run_of_ok (get_run _)]
    have hstp : b₁.riskReference.2.checkModifyStpSelfCross newOrder =
        b.checkModifyStpSelfCross newOrder := by
      obtain ⟨_, _, h⟩ := hquiet
      rw [h]
      rfl
    cases hcross : b.checkModifyStpSelfCross newOrder with
    | error e =>
      rw [hcross] at hstp
      refine Or.inl ⟨fun h => ?_, e, _, hquiet, hview, bind_run_of_error (by rw [lift_run, hstp])⟩
      rw [h.selfCross] at hcross
      cases hcross
    | ok =>
      rw [hcross] at hstp
      refine Or.inr ⟨⟨haccepted, hrisk, hcross⟩, _, hquiet, ?_, ?_⟩
      · obtain ⟨cache, h⟩ := b₁.riskReference_cache
        have hclock := clock_validateOrderShape hshape
        rw [h]
        exact hclock
      · rw [bind_run_of_ok (by rw [lift_run, hstp]), bind_run_of_ok (modify_run _ _), bind_run]
        rcases addOrderInner newOrder false
          (b₁.riskReference.2.cancelOrderWithReason id .userRequested).1 with ⟨e | r, b'⟩
        · rfl
        · rfl

/-! ### Adding an order -/

/-- The sweep of a new order. -/
def sweepOf (o : Order) : BookM L MatchOutcome :=
  matchOrderInner o.id o.side (.baseQty o.totalQuantity (some o.price)) o.userId (takerKind o)

/-- What the sweep filled of a new order. -/
def filledOf (o : Order) (outcome : MatchOutcome) : ℕ :=
  o.totalQuantity - outcome.result.remainingQuantity

/-- Every way `add_order_inner` can end, by its result and the book it leaves, with the record it
writes for the new order. -/
inductive AddStep (o : Order) (wantResult : Bool) (b : OrderBook L) :
    Except OrderBookError (Order × Option TradeResult) → OrderBook L → Prop
  /-- A check refused the order. -/
  | refused {e b'} (refusal : ¬ b.Accepted o) (how : Refused o b b') (view : SameView b b') :
      AddStep o wantResult b (.error e) b'
  /-- The sweep failed. -/
  | failed {e b₀ b'} (accepted : b.Accepted o) (quiet : Quiet b b₀)
      (run : sweepOf o b₀ = (.error e, b')) : AddStep o wantResult b (.error e) b'
  /-- The post-only probe found depth. -/
  | rejected {e b₀ b₁ b' outcome} (accepted : b.Accepted o) (quiet : Quiet b b₀)
      (run : sweepOf o b₀ = (.ok outcome, b₁)) (flag : outcome.takerPostOnlyRejected)
      (recorded : b' =
        ((b₁.trackState o.id (.rejected .postOnlyWouldCross)).bestPrice o.side.opposite).2) :
      AddStep o wantResult b (.error e) b'
  /-- Self-trade prevention cancelled the taker. -/
  | stpCancelled {e b₀ b₁ outcome} (accepted : b.Accepted o) (quiet : Quiet b b₀)
      (run : sweepOf o b₀ = (.ok outcome, b₁)) (flag : outcome.takerPostOnlyRejected = false)
      (stp : outcome.takerStpCancelled) :
      AddStep o wantResult b (.error e) ((emitTrades wantResult outcome.result b₁).2.trackState o.id
        (.cancelled (filledOf o outcome) .selfTradePrevention))
  /-- Nothing is left of the taker. -/
  | filled {result b₀ b₁ outcome} (accepted : b.Accepted o) (quiet : Quiet b b₀)
      (run : sweepOf o b₀ = (.ok outcome, b₁)) (flag : outcome.takerPostOnlyRejected = false)
      (stp : outcome.takerStpCancelled = false) (zero : outcome.result.remainingQuantity = 0) :
      AddStep o wantResult b (.ok (o, result))
        ((emitTrades wantResult outcome.result b₁).2.trackState o.id (.filled o.totalQuantity))
  /-- What is left of an immediate order is dropped. -/
  | dropped {e b₀ b₁ outcome} (accepted : b.Accepted o) (quiet : Quiet b b₀)
      (run : sweepOf o b₀ = (.ok outcome, b₁)) (flag : outcome.takerPostOnlyRejected = false)
      (stp : outcome.takerStpCancelled = false) (pos : outcome.result.remainingQuantity ≠ 0)
      (immediate : o.isImmediate) :
      AddStep o wantResult b (.error e) ((emitTrades wantResult outcome.result b₁).2.trackState o.id
        (.cancelled (filledOf o outcome) .insufficientLiquidity))
  /-- The level refuses what is left. -/
  | levelRefused {e b₀ b₁ b' outcome} (accepted : b.Accepted o) (quiet : Quiet b b₀)
      (run : sweepOf o b₀ = (.ok outcome, b₁)) (flag : outcome.takerPostOnlyRejected = false)
      (stp : outcome.takerStpCancelled = false) (pos : outcome.result.remainingQuantity ≠ 0)
      (resting : o.isImmediate = false)
      (rest : restResidual o outcome.result.remainingQuantity
        (emitTrades wantResult outcome.result b₁).2 = (.error e, b')) :
      AddStep o wantResult b (.error e) b'
  /-- What is left comes to rest. -/
  | rests {r result b₀ b₁ b' outcome} (accepted : b.Accepted o) (quiet : Quiet b b₀)
      (run : sweepOf o b₀ = (.ok outcome, b₁)) (flag : outcome.takerPostOnlyRejected = false)
      (stp : outcome.takerStpCancelled = false) (pos : outcome.result.remainingQuantity ≠ 0)
      (resting : o.isImmediate = false)
      (rest : restResidual o outcome.result.remainingQuantity
        (emitTrades wantResult outcome.result b₁).2 = (.ok r, b')) :
      AddStep o wantResult b (.ok (r, result)) b'

omit [PriceLevel L] in
theorem emitTrades_run (wantResult : Bool) (r : MatchResult) (b : OrderBook L) :
    ∃ result, emitTrades wantResult r b = (.ok result, (emitTrades wantResult r b).2) := by
  rw [emitTrades]
  split_ifs <;> exact ⟨_, rfl⟩

/-- **The exits of `add_order_inner`.** -/
theorem addOrderInner_step (o : Order) (wantResult : Bool) (b : OrderBook L) :
    AddStep o wantResult b (addOrderInner o wantResult b).1 (addOrderInner o wantResult b).2 := by
  rw [addOrderInner]
  rcases admission_step o b with ⟨hacc, b', hread, hrun⟩ | ⟨hrefusal, e, b', hrefused, hrun⟩
  swap
  · rw [bind_run_of_error hrun]
    have hview := checks_admission o b
    rw [hrun] at hview
    exact .refused hrefusal hrefused hview
  have hquiet := hread.trans b'.quiet_invalidateCache
  rw [bind_run_of_ok hrun, bind_run_of_ok (modify_run _ b'), ← sweepOf]
  rcases hsweep : sweepOf o b'.invalidateCache with ⟨e | outcome, b₁⟩
  · rw [bind_run_of_error hsweep]
    exact .failed hacc hquiet hsweep
  rw [bind_run_of_ok hsweep, settle]
  by_cases hflag : outcome.takerPostOnlyRejected
  · simp only [hflag, if_true]
    exact .rejected hacc hquiet hsweep hflag rfl
  have hflag' : outcome.takerPostOnlyRejected = false := by simpa using hflag
  obtain ⟨result, hemit⟩ := emitTrades_run wantResult outcome.result b₁
  simp only [if_neg hflag]
  rw [bind_run_of_ok hemit]
  by_cases hstp : outcome.takerStpCancelled
  · simp only [hstp, if_true]
    exact .stpCancelled hacc hquiet hsweep hflag' hstp
  have hstp' : outcome.takerStpCancelled = false := by simpa using hstp
  simp only [if_neg hstp]
  by_cases hzero : outcome.result.remainingQuantity = 0
  · simp only [hzero, if_true]
    exact .filled hacc hquiet hsweep hflag' hstp' hzero
  simp only [if_neg hzero]
  by_cases himm : o.isImmediate
  · simp only [himm, if_true]
    exact .dropped hacc hquiet hsweep hflag' hstp' hzero himm
  have himm' : o.isImmediate = false := by simpa using himm
  simp only [if_neg himm]
  rcases hrest : restResidual o outcome.result.remainingQuantity
      (emitTrades wantResult outcome.result b₁).2 with ⟨e | r, b₂⟩
  · rw [bind_run_of_error hrest]
    exact .levelRefused hacc hquiet hsweep hflag' hstp' hzero himm' hrest
  · rw [bind_run_of_ok hrest]
    exact .rests hacc hquiet hsweep hflag' hstp' hzero himm' hrest

end OrderBook

end OrderBookRs
