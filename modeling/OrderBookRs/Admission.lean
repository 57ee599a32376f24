import OrderBookRs.Frame

/-!
# When an order is admitted

`add_order_inner` runs a series of checks before it matches. Each check either fails and leaves the
book as it was, or passes; this module says exactly when the series passes, as a property of the
order and the book it is given.

## Main definitions

* `OrderBook.ShapeAccepted`, `OrderBook.HeadroomAccepted`, `OrderBook.Accepted`.

## Main results

* `OrderBook.succeeds_validateOrderShape`, `OrderBook.succeeds_admission`: the checks pass iff the
  order is accepted.
-/

namespace OrderBookRs

open PriceLevel Fallible

variable {o : Order}

namespace OrderBook

variable {L : Type} [PriceLevel L] {b b' : OrderBook L}

/-- What `validate_order_shape` asks of an order. -/
structure ShapeAccepted (b : OrderBook L) (o : Order) : Prop where
  shape : b.checkShape o = .ok ()
  notExpired : isExpired L o.timeInForce b.clock.nowMillis b.marketCloseForExpiry = false
  postOnly : o.isPostOnly → (b.willCrossMarket o.price o.side).1 = false
  fillOrKill : o.isFillOrKill →
    o.totalQuantity ≤ b.fokFillableQuantity o.side o.totalQuantity (some o.price) o.userId o.id

/-- What the headroom check asks of an order that may rest. -/
def HeadroomAccepted (b : OrderBook L) (o : Order) : Prop :=
  o.isImmediate = false → (b.willCrossMarket o.price o.side).1 →
    ∀ l, (b.levels o.side).get? o.price = some l →
      ∃ total, totalQuantity l = .ok total ∧ total + o.totalQuantity ≤ u64Max

/-- What `add_order_inner` asks of an order before it matches. -/
structure Accepted (b : OrderBook L) (o : Order) : Prop where
  running : b.killSwitch = false
  representable : o.checkedTotalQuantity.isNone = false
  risk : b.riskState.checkLimitAdmission o.userId o.price o.totalQuantity b.riskReference.1 = .ok ()
  fresh : b.orderLocations.lookup o.id = none
  shape : b.ShapeAccepted o
  headroom : b.HeadroomAccepted o

/-- The gates of `add_order_inner` that come before its duplicate-id check: the kill switch, the
representable total and the risk limits. -/
structure PassesGates (b : OrderBook L) (o : Order) : Prop where
  running : b.killSwitch = false
  representable : o.checkedTotalQuantity.isNone = false
  risk : b.riskState.checkLimitAdmission o.userId o.price o.totalQuantity b.riskReference.1 = .ok ()

/-! ### The single checks -/

omit [PriceLevel L] in
theorem SameView.willCrossMarket_eq (h : SameView b b') (price : ℕ) (side : Side) :
    (b'.willCrossMarket price side).1 = (b.willCrossMarket price side).1 := by
  simp only [willCrossMarket, h.bestPrice_eq]

omit [PriceLevel L] in
theorem succeeds_checkPostOnly :
    Succeeds (checkPostOnly o) b ↔
      (o.isPostOnly → (b.willCrossMarket o.price o.side).1 = false) := by
  rw [checkPostOnly]
  split_ifs with hpost
  · rw [succeeds_bind_of_ok (ofState_run _ b), succeeds_bind_of_ok (ofState_run _ _),
      succeeds_check]
    simp [hpost]
  · exact iff_of_true ⟨(), b, rfl⟩ fun h => absurd h hpost

theorem SameState.fokFillableQuantity_eq (h : SameState b b') :
    b'.fokFillableQuantity = b.fokFillableQuantity := by
  obtain ⟨_, _, _, rfl⟩ := h
  rfl

theorem succeeds_checkFillOrKill :
    Succeeds (checkFillOrKill o) b ↔ (o.isFillOrKill →
      o.totalQuantity ≤ b.fokFillableQuantity o.side o.totalQuantity (some o.price) o.userId
        o.id) := by
  rw [checkFillOrKill, succeeds_bind_of_ok (get_run b), succeeds_check]
  simp

theorem refuse_eq_ok {c : Bool} {e : OrderBookError} : refuse c e = .ok () ↔ c = false := by
  cases c <;> simp [refuse]

omit [PriceLevel L] in
theorem checkedTotalQuantity_of_checkShape (h : b.checkShape o = .ok ()) :
    o.checkedTotalQuantity.isNone = false := by
  rw [checkShape] at h
  cases hfits : o.checkedTotalQuantity.isNone with
  | false => rfl
  | true =>
    rw [checkRepresentable, hfits] at h
    cases h

/-- **`validate_order_shape` passes iff the order's shape is accepted.** -/
theorem succeeds_validateOrderShape : Succeeds (validateOrderShape o) b ↔ b.ShapeAccepted o := by
  rw [validateOrderShape, succeeds_bind_of_ok (get_run b)]
  cases hshape : b.checkShape o with
  | error =>
    refine iff_of_false (not_succeeds_of_eq (bind_run_of_error rfl)) fun h => ?_
    rw [h.shape] at hshape
    cases hshape
  | ok =>
    -- the clock reading is the only effect before the post-only check
    set b₁ : OrderBook L := { b with clock := b.clock.tick } with hb₁
    have hread : hasExpired o b =
        (.ok (isExpired L o.timeInForce b.clock.nowMillis b.marketCloseForExpiry), b₁) := rfl
    have hview : SameView b b₁ := checks_hasExpired o b
    rw [succeeds_bind_of_ok (lift_run _ b), succeeds_bind_of_ok hread, succeeds_check_bind,
      succeeds_bind]
    constructor
    · rintro ⟨hexp, u', b₂, hpost, hfok⟩
      have hview₂ := checks_checkPostOnly o b₁
      rw [hpost] at hview₂
      refine ⟨hshape, hexp, ?_, ?_⟩
      · intro ho
        rw [← hview.willCrossMarket_eq]
        exact succeeds_checkPostOnly.mp ⟨u', _, hpost⟩ ho
      · rw [← (hview.trans hview₂).sameState.fokFillableQuantity_eq]
        exact succeeds_checkFillOrKill.mp hfok
    · intro h
      have hpost : Succeeds (checkPostOnly o) b₁ := by
        refine succeeds_checkPostOnly.mpr fun ho => ?_
        rw [hview.willCrossMarket_eq]
        exact h.postOnly ho
      obtain ⟨u', b₂, hpost⟩ := hpost
      have hview₂ := checks_checkPostOnly o b₁
      rw [hpost] at hview₂
      refine ⟨h.notExpired, u', b₂, hpost, succeeds_checkFillOrKill.mpr ?_⟩
      rw [(hview.trans hview₂).sameState.fokFillableQuantity_eq]
      exact h.fillOrKill

theorem succeeds_checkHeadroom : Succeeds (checkHeadroom o) b ↔ b.HeadroomAccepted o := by
  rw [checkHeadroom]
  split_ifs with himm
  · exact iff_of_true ⟨(), b, rfl⟩ fun h => absurd (himm.symm.trans h) (by simp)
  rw [succeeds_bind_of_ok (ofState_run _ b), succeeds_bind_of_ok (get_run _)]
  have himm' : o.isImmediate = false := by simpa using himm
  have hlevels : ((b.willCrossMarket o.price o.side).2.levels o.side) = b.levels o.side := by
    obtain ⟨cache, h⟩ := b.bestPrice_cache o.side.opposite
    rw [willCrossMarket, h]
    rfl
  simp only [HeadroomAccepted, himm', hlevels, forall_const]
  cases hcross : (b.willCrossMarket o.price o.side).1 with
  | false => exact iff_of_true ⟨(), _, rfl⟩ fun h => by simp at h
  | true =>
    simp only [if_true, forall_const]
    cases hl : (b.levels o.side).get? o.price with
    | none => exact iff_of_true ⟨(), _, rfl⟩ fun l h => by cases h
    | some l =>
      dsimp only
      cases htotal : totalQuantity l with
      | error =>
        refine iff_of_false (not_succeeds_of_eq rfl) fun h => ?_
        obtain ⟨total, ht, -⟩ := h l rfl
        rw [htotal] at ht
        cases ht
      | ok total =>
        by_cases hfit : total + o.totalQuantity ≤ u64Max
        · simp only [checkedAdd64, if_pos hfit]
          refine iff_of_true ⟨(), _, rfl⟩ fun l' hl' => ?_
          obtain rfl := Option.some.inj hl'
          exact ⟨total, htotal, hfit⟩
        · simp only [checkedAdd64, if_neg hfit]
          refine iff_of_false (not_succeeds_of_eq rfl) fun h => ?_
          obtain ⟨total', ht, hle⟩ := h l rfl
          rw [htotal] at ht
          cases ht
          exact hfit hle

/-! ### The whole series -/

theorem SameView.shapeAccepted_iff (h : SameView b b') (hclock : b'.clock = b.clock) :
    b'.ShapeAccepted o ↔ b.ShapeAccepted o := by
  have hcross := h.willCrossMarket_eq o.price o.side
  have hfok := h.sameState.fokFillableQuantity_eq
  have hshape : b'.checkShape o = b.checkShape o := by
    obtain ⟨_, _, _, rfl⟩ := h.sameState
    rfl
  have hclose : b'.marketCloseForExpiry = b.marketCloseForExpiry := by
    obtain ⟨_, _, _, rfl⟩ := h.sameState
    rfl
  constructor
  · rintro ⟨h₁, h₂, h₃, h₄⟩
    rw [hshape] at h₁
    rw [hclock, hclose] at h₂
    rw [hcross] at h₃
    rw [hfok] at h₄
    exact ⟨h₁, h₂, h₃, h₄⟩
  · rintro ⟨h₁, h₂, h₃, h₄⟩
    rw [← hshape] at h₁
    rw [← hclock, ← hclose] at h₂
    rw [← hcross] at h₃
    rw [← hfok] at h₄
    exact ⟨h₁, h₂, h₃, h₄⟩

theorem SameView.headroomAccepted_iff (h : SameView b b') :
    b'.HeadroomAccepted o ↔ b.HeadroomAccepted o := by
  have hlevels : b'.levels o.side = b.levels o.side := by
    obtain ⟨_, _, _, rfl⟩ := h.sameState
    rfl
  rw [HeadroomAccepted, HeadroomAccepted, h.willCrossMarket_eq, hlevels]

omit [PriceLevel L] in
theorem riskReference_cache (b : OrderBook L) :
    ∃ cache, b.riskReference.2 = { b with cache := cache } := by
  rw [riskReference]
  split
  · exact ⟨b.cache, rfl⟩
  · next source _ =>
    cases source with
    | lastTrade | fixedPrice => exact ⟨b.cache, rfl⟩
    | mid =>
      obtain ⟨c₁, h₁⟩ := b.bestPrice_cache .buy
      obtain ⟨c₂, h₂⟩ := b.bestBid.2.bestPrice_cache .sell
      refine ⟨c₂, ?_⟩
      have h : (b.resolveReferencePrice .mid).2 = b.bestBid.2.bestAsk.2 := by
        rw [resolveReferencePrice]
        split <;> rfl
      rw [h, bestAsk, h₂, bestBid, h₁]

omit [PriceLevel L] in
theorem SameView.riskReference_eq (h : SameView b b') : b'.riskReference.1 = b.riskReference.1 := by
  have hbid := h.bestPrice_eq .buy
  have hask := h.bestPrice_eq .sell
  rw [← bestPrice_bestPrice b' .buy, ← bestPrice_bestPrice b .buy] at hask
  obtain ⟨_, _, _, rfl⟩ := h.sameState
  rw [riskReference, riskReference]
  cases b.riskState.config.bind RiskConfig.referencePrice with
  | none => rfl
  | some source =>
    cases source with
    | lastTrade | fixedPrice => rfl
    | mid =>
      simp only [resolveReferencePrice, bestBid, bestAsk]
      rw [hbid, hask]
      split <;> rfl

/-- **The gates refuse and record it, or let the order on** to the duplicate-id check, after the
risk limits were read. -/
theorem admission_gates (o : Order) (b : OrderBook L) :
    ¬ b.PassesGates o ∧ (∃ e b₀ reason, (b₀ = b ∨ b₀ = b.riskReference.2) ∧
        admission o b = (.error e, b₀.trackState o.id (.rejected reason))) ∨
      b.PassesGates o ∧ admission o b =
        (check (b.orderLocations.lookup o.id).isSome (.duplicateOrderId o.id) >>= fun _ =>
          onError (validateOrderShape o) (recordShapeRejection o) >>= fun _ => checkHeadroom o)
          b.riskReference.2 := by
  rw [admission]
  by_cases hkill : b.killSwitch
  · have hon : checkKillSwitchOrReject o.id b =
        (.error .killSwitchActive, b.trackState o.id (.rejected .killSwitchActive)) := if_pos hkill
    refine Or.inl ⟨fun h => ?_, _, b, _, Or.inl rfl, bind_run_of_error hon⟩
    rw [h.running] at hkill
    cases hkill
  have hoff : (checkKillSwitchOrReject o.id : BookM L Unit) b = (.ok (), b) := if_neg hkill
  rw [bind_run_of_ok hoff]
  cases hrep : o.checkedTotalQuantity.isNone with
  | true =>
    have hrun : onError (lift (checkRepresentable o)) (recordShapeRejection o) b =
        (.error (.quantityOverflow o.visibleQuantity o.hiddenQuantity),
          b.trackState o.id (.rejected .invalidQuantity)) := by
      rw [checkRepresentable, hrep]
      rfl
    refine Or.inl ⟨fun h => ?_, _, b, _, Or.inl rfl, bind_run_of_error hrun⟩
    rw [h.representable] at hrep
    cases hrep
  | false =>
  have hrun : onError (lift (checkRepresentable o)) (recordShapeRejection o) b = (.ok (), b) := by
    rw [checkRepresentable, hrep]
    rfl
  rw [bind_run_of_ok hrun]
  cases hrisk : b.riskState.checkLimitAdmission o.userId o.price o.totalQuantity
      b.riskReference.1 with
  | error e =>
    have hrun : onError (checkRiskLimitAdmission o.userId o.price o.totalQuantity)
        (fun e b => b.trackState o.id (.rejected (.ofError e))) b =
          (.error e, b.riskReference.2.trackState o.id (.rejected (.ofError e))) := by
      rw [onError, checkRiskLimitAdmission, hrisk]
    refine Or.inl ⟨fun h => ?_, _, _, _, Or.inr rfl, bind_run_of_error hrun⟩
    rw [h.risk] at hrisk
    cases hrisk
  | ok u =>
    have hrun : onError (checkRiskLimitAdmission o.userId o.price o.totalQuantity)
        (fun e b => b.trackState o.id (.rejected (.ofError e))) b = (.ok u, b.riskReference.2) := by
      rw [onError, checkRiskLimitAdmission, hrisk]
    have hloc : b.riskReference.2.orderLocations = b.orderLocations := by
      obtain ⟨cache, hcache⟩ := b.riskReference_cache
      rw [hcache]
    rw [bind_run_of_ok hrun, bind_run_of_ok (get_run _), hloc]
    exact Or.inr ⟨⟨by simpa using hkill, hrep, hrisk⟩, rfl⟩

/-- **The checks before the match pass iff the order is accepted.** -/
theorem succeeds_admission : Succeeds (admission o) b ↔ b.Accepted o := by
  rcases admission_gates o b with ⟨hgates, e, b₀, reason, -, hrun⟩ | ⟨hgates, hrun⟩
  · exact iff_of_false (not_succeeds_of_eq hrun)
      fun h => hgates ⟨h.running, h.representable, h.risk⟩
  have hview := b.sameView_riskReference
  have hclock : b.riskReference.2.clock = b.clock := by
    obtain ⟨cache, hcache⟩ := b.riskReference_cache
    rw [hcache]
  rw [Succeeds, hrun, ← Succeeds, succeeds_check_bind]
  constructor
  · rintro ⟨hfresh, hrest⟩
    obtain ⟨u', b₂, hshape, hhead⟩ := succeeds_bind.mp hrest
    rw [onError_eq_ok] at hshape
    have hview₂ := checks_validateOrderShape o b.riskReference.2
    rw [hshape] at hview₂
    refine ⟨hgates.running, hgates.representable, hgates.risk, by simpa using hfresh, ?_, ?_⟩
    · exact (hview.shapeAccepted_iff hclock).mp (succeeds_validateOrderShape.mp ⟨u', b₂, hshape⟩)
    · exact (hview.trans hview₂).headroomAccepted_iff.mp (succeeds_checkHeadroom.mp hhead)
  · intro h
    obtain ⟨u', b₂, hshape⟩ :=
      succeeds_validateOrderShape.mpr ((hview.shapeAccepted_iff hclock).mpr h.shape)
    have hview₂ := checks_validateOrderShape o b.riskReference.2
    rw [hshape] at hview₂
    refine ⟨by rw [h.fresh]; rfl, succeeds_bind.mpr ⟨u', b₂, onError_eq_ok.mpr hshape, ?_⟩⟩
    exact succeeds_checkHeadroom.mpr ((hview.trans hview₂).headroomAccepted_iff.mpr h.headroom)

end OrderBook

end OrderBookRs
