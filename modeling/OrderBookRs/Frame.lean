import OrderBookRs.Operations

/-!
# What the small operations leave alone

Two relations between books say which fields an operation may touch. `SameState` allows the
best-price cache, the clock and the order-state tracker to differ; `SameOrders` allows the outbound
stream to differ as well. Both are stated as an equation, so that once it is substituted every
untouched field is untouched by definition. `SameView` adds to `SameState` that best-price queries
get the same answers, which holds for every check.

The module also says how storing and removing a level changes which orders rest where.

## Main definitions

* `OrderBook.SameState`, `OrderBook.SameOrders`, `OrderBook.SameView`.

## Main results

* `OrderBook.checks_admission`: no check changes more than cache, clock and tracker.
* `OrderBook.rests_removeLevel`.
-/

namespace OrderBookRs

open PriceLevel Fallible

variable {side side' : Side} {price price' : ℕ} {o : Order}

namespace OrderBook

variable {L : Type} {b b' b'' : OrderBook L} {l : L}

/-- `b'` differs from `b` at most in the cache, the clock and the tracker. -/
def SameState (b b' : OrderBook L) : Prop :=
  ∃ cache clock tracker,
    b' = { b with cache := cache, clock := clock, orderStateTracker := tracker }

/-- `b'` differs from `b` at most in the cache, the clock, the tracker and the outbound stream. -/
def SameOrders (b b' : OrderBook L) : Prop :=
  ∃ cache clock tracker engineSeq stamped,
    b' = { b with
      cache := cache, clock := clock, orderStateTracker := tracker
      engineSeq := engineSeq, stamped := stamped }

namespace SameState

variable {b b' b'' : OrderBook L}

theorem refl (b : OrderBook L) : SameState b b := ⟨b.cache, b.clock, b.orderStateTracker, rfl⟩

theorem trans (h : SameState b b') (h' : SameState b' b'') : SameState b b'' := by
  obtain ⟨_, _, _, rfl⟩ := h
  obtain ⟨cache, clock, tracker, rfl⟩ := h'
  exact ⟨cache, clock, tracker, rfl⟩

theorem sameOrders (h : SameState b b') : SameOrders b b' := by
  obtain ⟨cache, clock, tracker, rfl⟩ := h
  exact ⟨cache, clock, tracker, b.engineSeq, b.stamped, rfl⟩

end SameState

namespace SameOrders

variable {b b' b'' : OrderBook L}

theorem refl (b : OrderBook L) : SameOrders b b := (SameState.refl b).sameOrders

theorem trans (h : SameOrders b b') (h' : SameOrders b' b'') : SameOrders b b'' := by
  obtain ⟨_, _, _, _, _, rfl⟩ := h
  obtain ⟨cache, clock, tracker, engineSeq, stamped, rfl⟩ := h'
  exact ⟨cache, clock, tracker, engineSeq, stamped, rfl⟩

end SameOrders

/-- Beyond `SameState`, both books answer best-price queries alike. -/
structure SameView (b b' : OrderBook L) : Prop where
  sameState : SameState b b'
  bestPrice_eq : ∀ side, (b'.bestPrice side).1 = (b.bestPrice side).1

theorem SameView.refl (b : OrderBook L) : SameView b b := ⟨.refl b, fun _ => rfl⟩

theorem SameView.isFrame : IsFrame (SameView (L := L)) :=
  ⟨.refl, fun h h' => ⟨h.sameState.trans h'.sameState,
    fun side => (h'.bestPrice_eq side).trans (h.bestPrice_eq side)⟩⟩

theorem SameView.trans (h : SameView b b') (h' : SameView b' b'') :
    SameView b b'' := SameView.isFrame.trans h h'

/-! ### Cache, tracker and clock -/

theorem bestPrice_cache (b : OrderBook L) (side : Side) :
    ∃ cache, (b.bestPrice side).2 = { b with cache := cache } := by
  rw [bestPrice]
  split
  · exact ⟨b.cache, rfl⟩
  · exact ⟨_, rfl⟩

theorem answer_cache (queries : List Side) (b : OrderBook L) :
    ∃ cache, b.answer queries = { b with cache := cache } := by
  induction queries generalizing b with
  | nil => exact ⟨b.cache, rfl⟩
  | cons side queries ih =>
    obtain ⟨_, h₁⟩ := b.bestPrice_cache side
    obtain ⟨cache, h₂⟩ := ih (b.bestPrice side).2
    refine ⟨cache, ?_⟩
    rw [answer, List.foldl_cons]
    rw [answer] at h₂
    rw [h₂, h₁]

theorem bestPrice_fst (b : OrderBook L) (side : Side) :
    (b.bestPrice side).1 = (b.cache.cached side).or (bestKey side (b.levels side)) := by
  rw [bestPrice]
  cases b.cache.cached side <;> rfl

theorem bestPrice_congr (hcache : b'.cache = b.cache) (hlevels : b'.levels = b.levels)
    (side : Side) : (b'.bestPrice side).1 = (b.bestPrice side).1 := by
  rw [bestPrice_fst, bestPrice_fst, hcache, hlevels]

/-- A best-price query fills the slot it reads with the answer, so no later query notices. -/
theorem bestPrice_bestPrice (b : OrderBook L) (side side' : Side) :
    ((b.bestPrice side).2.bestPrice side').1 = (b.bestPrice side').1 := by
  rw [bestPrice.eq_def b side]
  cases hc : b.cache.cached side with
  | some => rfl
  | none =>
    simp only [bestPrice_fst]
    show ((b.cache.update side _).cached side').or (bestKey side' (b.levels side')) = _
    by_cases hs : side' = side
    · subst hs
      rw [PriceLevelCache.cached_update_self, hc, Option.or_self, Option.none_or]
    · obtain rfl := Side.eq_opposite_of_ne hs
      rw [PriceLevelCache.cached_update_opposite]

theorem sameView_bestPrice (b : OrderBook L) (side : Side) : SameView b (b.bestPrice side).2 := by
  obtain ⟨cache, h⟩ := b.bestPrice_cache side
  exact ⟨⟨cache, b.clock, b.orderStateTracker, h⟩, b.bestPrice_bestPrice side⟩

theorem sameState_invalidateCache (b : OrderBook L) : SameState b b.invalidateCache :=
  ⟨_, b.clock, b.orderStateTracker, rfl⟩

theorem sameView_trackState (b : OrderBook L) (id : OrderId) (status : OrderStatus) :
    SameView b (b.trackState id status) := ⟨⟨b.cache, b.clock, _, rfl⟩, bestPrice_congr rfl rfl⟩

theorem sameView_resolveReferencePrice (b : OrderBook L) (source : ReferencePriceSource) :
    SameView b (b.resolveReferencePrice source).2 := by
  cases source with
  | lastTrade | fixedPrice => exact .refl b
  | mid =>
    have h : (b.resolveReferencePrice .mid).2 = b.bestBid.2.bestAsk.2 := by
      rw [resolveReferencePrice]
      split <;> rfl
    rw [h]
    exact (b.sameView_bestPrice .buy).trans (sameView_bestPrice _ .sell)

/-! ### The outbound streams -/

theorem deliverLevelChange_eq (b : OrderBook L) (side : Side) (price quantity : ℕ) :
    ∃ cache, b.deliverLevelChange side price quantity =
      { b with
        cache := cache
        engineSeq := b.engineSeq + UInt64.ofNat b.priceLevelChangedListener.toList.length
        stamped := b.stamped ++
          (b.priceLevelChangedListener.toList.map fun _ =>
            .level ⟨side, price, quantity, b.engineSeq⟩) } := by
  rw [deliverLevelChange]
  cases h : b.priceLevelChangedListener with
  | none =>
    refine ⟨b.cache, ?_⟩
    have hzero : UInt64.ofNat 0 = 0 := rfl
    simp only [Option.toList_none, List.length_nil, List.map_nil, List.append_nil, hzero,
      UInt64.add_zero]
    rw [← h]
  | some => exact answer_cache _ _

theorem SameState.deliverLevelChange (h : SameState b b') (side : Side) (price quantity : ℕ) :
    SameState (b.deliverLevelChange side price quantity)
      (b'.deliverLevelChange side price quantity) := by
  obtain ⟨cache, clock, tracker, rfl⟩ := h
  obtain ⟨c₁, h₁⟩ := b.deliverLevelChange_eq side price quantity
  obtain ⟨c₂, h₂⟩ := ({ b with cache := cache, clock := clock, orderStateTracker := tracker } :
    OrderBook L).deliverLevelChange_eq side price quantity
  rw [h₁, h₂]
  exact ⟨c₂, clock, tracker, rfl⟩

theorem sameOrders_deliverLevelChange (b : OrderBook L) (side : Side) (price quantity : ℕ) :
    SameOrders b (b.deliverLevelChange side price quantity) := by
  obtain ⟨cache, h⟩ := b.deliverLevelChange_eq side price quantity
  exact ⟨cache, b.clock, b.orderStateTracker, _, _, h⟩

theorem deliverTrade_eq (b : OrderBook L) (r : MatchResult) :
    ∃ cache, (b.deliverTrade r).1 =
      { b with
        cache := cache
        engineSeq := b.engineSeq + 1
        stamped := b.stamped ++
          [b.tradeListener.elim OutboundEvent.unheard (fun _ => .trade)
            (TradeResult.withFees b.symbol r b.feeSchedule b.engineSeq)] } := by
  rw [deliverTrade]
  cases h : b.tradeListener with
  | none => exact ⟨b.cache, rfl⟩
  | some => exact answer_cache _ _

theorem sameOrders_deliverTrade (b : OrderBook L) (r : MatchResult) :
    SameOrders b (b.deliverTrade r).1 := by
  obtain ⟨cache, h⟩ := b.deliverTrade_eq r
  exact ⟨cache, b.clock, b.orderStateTracker, _, _, h⟩

/-! ### The checks -/

/-- A check touches at most the cache, the clock and the tracker, and no answer changes. -/
abbrev Checks {α : Type} (m : BookM L α) : Prop := Rel SameView m

theorem checks_checkKillSwitchOrReject (id : OrderId) :
    Checks (checkKillSwitchOrReject id : BookM L Unit) := by
  intro b
  rw [checkKillSwitchOrReject]
  split_ifs
  · exact b.sameView_trackState ..
  · exact .refl b

theorem checks_checkKillSwitch : Checks (checkKillSwitch : BookM L Unit) := by
  intro b
  rw [checkKillSwitch]
  split_ifs <;> exact .refl b

theorem sameView_riskReference (b : OrderBook L) : SameView b b.riskReference.2 := by
  rw [riskReference]
  split
  · exact .refl b
  · exact b.sameView_resolveReferencePrice _

theorem sameView_recordShapeRejection (o : Order) (e : OrderBookError) (b : OrderBook L) :
    SameView b (recordShapeRejection o e b) := by
  cases e <;> first | exact b.sameView_trackState .. | exact .refl b

theorem sameOrders_emitTrades (wantResult : Bool) (r : MatchResult) (b : OrderBook L) :
    SameOrders b (emitTrades wantResult r b).2 := by
  rw [emitTrades]
  split_ifs
  · exact .refl b
  · exact b.sameOrders_deliverTrade r
  · exact .refl b

theorem checks_checkRiskLimitAdmission (account : Hash32) (price quantity : ℕ) :
    Checks (checkRiskLimitAdmission account price quantity : BookM L Unit) :=
  sameView_riskReference

theorem checks_checkRiskModifyAdmission (id : OrderId) (account : Hash32) (price quantity : ℕ) :
    Checks (checkRiskModifyAdmission id account price quantity : BookM L Unit) :=
  sameView_riskReference

theorem checks_checkPostOnly (o : Order) : Checks (checkPostOnly o : BookM L Unit) := by
  rw [checkPostOnly]
  split_ifs
  · refine .bind SameView.isFrame (.ofState fun b => b.sameView_bestPrice _) fun crosses => ?_
    refine .bind SameView.isFrame (.ofState fun b => ?_) fun best => .check SameView.isFrame _ _
    split_ifs
    · exact b.sameView_bestPrice _
    · exact .refl b
  · exact .pure SameView.isFrame ()

section

variable [PriceLevel L]

theorem checks_hasExpired (o : Order) : Checks (hasExpired o : BookM L Bool) :=
  fun b => ⟨⟨b.cache, b.clock.tick, b.orderStateTracker, rfl⟩, bestPrice_congr rfl rfl⟩

theorem checks_checkFillOrKill (o : Order) : Checks (checkFillOrKill o : BookM L Unit) :=
  .bind SameView.isFrame (.get SameView.isFrame) fun _ => .check SameView.isFrame _ _

theorem checks_validateOrderShape (o : Order) : Checks (validateOrderShape o : BookM L Unit) :=
  .bind SameView.isFrame (.get SameView.isFrame) fun _ =>
    .bind SameView.isFrame (.lift SameView.isFrame _) fun _ =>
      .bind SameView.isFrame (checks_hasExpired o) fun _ =>
        .bind SameView.isFrame (.check SameView.isFrame _ _) fun _ =>
          .bind SameView.isFrame (checks_checkPostOnly o) fun _ => checks_checkFillOrKill o

theorem checks_checkHeadroom (o : Order) : Checks (checkHeadroom o : BookM L Unit) := by
  rw [checkHeadroom]
  split_ifs
  · exact .pure SameView.isFrame ()
  refine .bind SameView.isFrame (.ofState fun b => b.sameView_bestPrice _) fun crosses => ?_
  refine .bind SameView.isFrame (.get SameView.isFrame) fun b => ?_
  split
  · exact .pure SameView.isFrame ()
  split
  · exact .bind SameView.isFrame (.modify fun b => b.sameView_trackState ..) fun _ =>
      .fail SameView.isFrame _
  split_ifs
  · exact .bind SameView.isFrame (.modify fun b => b.sameView_trackState ..) fun _ =>
      .fail SameView.isFrame _
  · exact .pure SameView.isFrame ()

/-- **Admission changes nothing but cache, clock and tracker**, whether it succeeds or fails. -/
theorem checks_admission (o : Order) : Checks (admission o : BookM L Unit) :=
  .bind SameView.isFrame (checks_checkKillSwitchOrReject o.id) fun _ =>
    .bind SameView.isFrame (.onError SameView.isFrame (.lift SameView.isFrame _)
      (sameView_recordShapeRejection o)) fun _ =>
    .bind SameView.isFrame (.onError SameView.isFrame
      (checks_checkRiskLimitAdmission o.userId o.price o.totalQuantity)
      fun _ b => b.sameView_trackState ..) fun _ =>
    .bind SameView.isFrame (.get SameView.isFrame) fun _ =>
    .bind SameView.isFrame (.check SameView.isFrame _ _) fun _ =>
    .bind SameView.isFrame (.onError SameView.isFrame (checks_validateOrderShape o)
      (sameView_recordShapeRejection o)) fun _ => checks_checkHeadroom o

end

/-! ### Levels and resting orders -/

theorem get?_setLevel (b : OrderBook L) (side side' : Side) (price price' : ℕ) (l : L) :
    ((b.setLevel side price l).levels side').get? price' =
      if side' = side ∧ price' = price then some l else (b.levels side').get? price' := by
  rw [setLevel]
  by_cases hs : side' = side
  · subst hs
    rw [levels_setLevels_self, SortedMap.get?_insert]
    simp
  · rw [levels_setLevels_of_ne b _ hs, if_neg fun h => hs h.1]

theorem get?_removeLevel (b : OrderBook L) (side side' : Side) (price price' : ℕ) :
    ((b.removeLevel side price).levels side').get? price' =
      if side' = side ∧ price' = price then none else (b.levels side').get? price' := by
  rw [removeLevel]
  by_cases hs : side' = side
  · subst hs
    rw [levels_setLevels_self, SortedMap.get?_erase]
    simp
  · rw [levels_setLevels_of_ne b _ hs, if_neg fun h => hs h.1]

theorem setLevel_self (h : (b.levels side).get? price = some l) : b.setLevel side price l = b := by
  rw [setLevel, SortedMap.insert_eq_self h]
  cases side <;> rfl

variable [PriceLevel L]

theorem rests_removeLevel :
    (b.removeLevel side price).Rests side' price' o ↔
      ¬ (side' = side ∧ price' = price) ∧ b.Rests side' price' o := by
  simp only [Rests, get?_removeLevel]
  split_ifs with h <;> simp [h]

/-- Removing a level without orders moves no order. -/
theorem rests_removeLevel_of_nil (hnil : ∀ l, (b.levels side).get? price = some l → orders l = []) :
    (b.removeLevel side price).Rests side' price' o ↔ b.Rests side' price' o := by
  rw [rests_removeLevel]
  refine ⟨fun h => h.2, fun h => ⟨?_, h⟩⟩
  rintro ⟨rfl, rfl⟩
  obtain ⟨l, hl, ho⟩ := h
  rw [hnil l hl] at ho
  exact List.not_mem_nil ho

omit [PriceLevel L] in
theorem SameOrders.levels_eq (h : b.SameOrders b') : b'.levels = b.levels := by
  obtain ⟨_, _, _, _, _, rfl⟩ := h
  rfl

/-- The same orders rest at the same places, and no trade was made. -/
structure SameRests (b b' : OrderBook L) : Prop where
  fills_eq : b'.fills = b.fills
  rests_iff : ∀ {side price o}, b'.Rests side price o ↔ b.Rests side price o

theorem SameRests.trans (h : b.SameRests b') (h' : b'.SameRests b'') :
    b.SameRests b'' := ⟨h'.fills_eq.trans h.fills_eq, h'.rests_iff.trans h.rests_iff⟩

theorem SameOrders.sameRests (h : b.SameOrders b') : b.SameRests b' := by
  obtain ⟨_, _, _, _, _, rfl⟩ := h
  exact ⟨rfl, Iff.rfl⟩

theorem Rests.mem_of_get? (h : b.Rests side price o) (hl : (b.levels side).get? price = some l) :
    o ∈ orders l := by
  obtain ⟨l', hl', ho⟩ := h
  rw [hl] at hl'
  cases hl'
  exact ho

/-- The level at one place is now `l`, or gone if `l` has no orders; the others are as they were. -/
abbrev Rewrites (b b' : OrderBook L) (side : Side) (price : ℕ) (l : L) : Prop :=
  ∀ side' price', (b'.levels side').get? price' =
    if side' = side ∧ price' = price then (if orderCount l = 0 then none else some l)
    else (b.levels side').get? price'

/-- A level that was rewritten goes if it has no orders. -/
theorem Rewrites.of_setLevel (h : ∀ s p, (b'.levels s).get? p =
      if s = side ∧ p = price then some l else (b.levels s).get? p) :
    b.Rewrites (if orderCount l = 0 then b'.removeLevel side price else b') side price l := by
  intro s p
  split_ifs with hzero hhere hhere
  · rw [get?_removeLevel, if_pos hhere]
  · rw [get?_removeLevel, if_neg hhere, h, if_neg hhere]
  · rw [h, if_pos hhere]
  · rw [h, if_neg hhere]

/-- The level `l` at this place holds the order `o`, and `l'` is that level without it. -/
structure TakesOff (b : OrderBook L) (side : Side) (price : ℕ) (l l' : L) (o : Order) : Prop where
  level : (b.levels side).get? price = some l
  mem : o ∈ orders l
  orders_eq : orders l' = (orders l).filter fun x => x.id ≠ o.id

theorem TakesOff.rests {l' : L} (h : b.TakesOff side price l l' o) : b.Rests side price o :=
  ⟨l, h.level, h.mem⟩

/-- Where one order was taken off its level, exactly the others still rest. -/
theorem rests_of_removed {l' : L} (hout : b.TakesOff side price l l' o)
    (hplace : ∀ {s p x}, b.Rests s p x → x.id = o.id → s = side ∧ p = price)
    (hrests : ∀ {s p x}, b'.Rests s p x ↔
      if s = side ∧ p = price then x ∈ orders l' else b.Rests s p x) {s : Side} {p : ℕ}
    {x : Order} : b'.Rests s p x ↔ b.Rests s p x ∧ x.id ≠ o.id := by
  rw [hrests]
  split_ifs with hhere
  · obtain ⟨rfl, rfl⟩ := hhere
    rw [hout.orders_eq, List.mem_filter, decide_eq_true_eq]
    exact and_congr_left fun _ =>
      ⟨fun hx => ⟨l, hout.level, hx⟩, fun hx => hx.mem_of_get? hout.level⟩
  · exact ⟨fun hx => ⟨hx, fun hid => hhere (hplace hx hid)⟩, fun hx => hx.1⟩

end OrderBook

end OrderBookRs
