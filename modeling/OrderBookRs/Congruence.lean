import OrderBookRs.Accounting

/-!
# Sweeps do not depend on cache, clock and tracker

A relation between books that what a sweep does to a book respects (`SweepCongruence`) is respected
by the whole match: the same levels are met, the same matches made, the same result returned, and
the books left behind are related again. Two books that differ in cache, clock and tracker only
(`SameState`) are an instance, so the outcome of a sweep is a function of the orders and the
configuration.

## Main definitions

* `SweepCongruence`: a sweep's effects respect a relation.
* `SweepRel`: the relation for the state of a sweep.
* `Joined`: an order came to rest.

## Main results

* `SweepCongruence.matchOrderInner`: a match in two related books.
* `OrderBook.SameState.matchOrderInner`: a match in two books of the same state.
* `addOrderInner_rests`: what an accepted order adds to its sweep.
-/

namespace OrderBookRs

open PriceLevel Fallible OrderBook

variable {L : Type} {b : OrderBook L} {o : Order}

/-! ### Book operations -/

namespace OrderBook.SameState

variable {b b' : OrderBook L} (h : b.SameState b') (side : Side) (price : ℕ) (l : L)

include h

theorem levels_eq : b'.levels = b.levels := by
  obtain ⟨_, _, _, rfl⟩ := h
  rfl

theorem setLevel : (b.setLevel side price l).SameState (b'.setLevel side price l) := by
  obtain ⟨_, _, _, rfl⟩ := h
  exact ⟨_, _, _, rfl⟩

theorem removeLevel : (b.removeLevel side price).SameState (b'.removeLevel side price) := by
  obtain ⟨_, _, _, rfl⟩ := h
  exact ⟨_, _, _, rfl⟩

theorem invalidateCache : b.invalidateCache.SameState b'.invalidateCache := by
  obtain ⟨_, _, _, rfl⟩ := h
  exact ⟨_, _, _, rfl⟩

theorem openSweep : b.openSweep.SameState b'.openSweep := by
  obtain ⟨_, _, _, rfl⟩ := h
  exact ⟨_, _, _, rfl⟩

theorem releaseCancelled (id : OrderId) (user : Hash32) (reason : CancelReason) :
    (b.releaseCancelled id user reason).SameState (b'.releaseCancelled id user reason) := by
  obtain ⟨_, _, _, rfl⟩ := h
  exact ⟨_, _, _, rfl⟩

theorem forgetFilled (filled : OrderId × ℕ) :
    (b.forgetFilled filled).SameState (b'.forgetFilled filled) := by
  obtain ⟨_, _, _, rfl⟩ := h
  exact ⟨_, _, _, rfl⟩

theorem trackState (id : OrderId) (status : OrderStatus) :
    (b.trackState id status).SameState (b'.trackState id status) := by
  obtain ⟨_, _, _, rfl⟩ := h
  exact ⟨_, _, _, rfl⟩

variable [PriceLevel L]

theorem applyFills (trades : List Trade) :
    (b.applyFills side price l trades).SameState (b'.applyFills side price l trades) := by
  obtain ⟨_, _, _, rfl⟩ := h
  exact SameState.deliverLevelChange ⟨_, _, _, rfl⟩ _ _ _

end OrderBook.SameState

/-! ### The loop -/

/-- What a sweep does to a book respects the relation `R`. -/
structure SweepCongruence [PriceLevel L] (R : OrderBook L → OrderBook L → Prop) : Prop where
  levels_eq : ∀ {b b'}, R b b' → b'.levels = b.levels
  taker_eq : ∀ {b b'}, R b b' → ∀ id side limit user kind,
    b'.taker id side limit user kind = b.taker id side limit user kind
  setLevel : ∀ {b b'}, R b b' → ∀ side price l,
    R (b.setLevel side price l) (b'.setLevel side price l)
  removeLevel : ∀ {b b'}, R b b' → ∀ side price,
    R (b.removeLevel side price) (b'.removeLevel side price)
  applyFills : ∀ {b b'}, R b b' → ∀ side price l trades,
    R (b.applyFills side price l trades) (b'.applyFills side price l trades)
  cancelMaker : ∀ {b b'}, R b b' → ∀ side price quantity id user reason,
    R ((b.invalidateCache.deliverLevelChange side price quantity).releaseCancelled id user reason)
      ((b'.invalidateCache.deliverLevelChange side price quantity).releaseCancelled id user reason)
  forgetFilled : ∀ {b b'}, R b b' → ∀ filled, R (b.forgetFilled filled) (b'.forgetFilled filled)
  trackState : ∀ {b b'}, R b b' → ∀ id status, R (b.trackState id status) (b'.trackState id status)

/-- Two states of a sweep that differ in their books only, which are related by `R`. -/
def SweepRel (R : OrderBook L → OrderBook L → Prop) (sw sw' : Sweep L) : Prop :=
  ∃ b', R sw.book b' ∧ sw' = { sw with book := b' }

namespace SweepCongruence

variable [PriceLevel L] {R : OrderBook L → OrderBook L → Prop} (hR : SweepCongruence R)
  {sw sw' : Sweep L} (h : SweepRel R sw sw') (t : Taker) (price : ℕ) (l : L)

include hR

theorem cancelRestingMakerOnLevel {b' : OrderBook L} (h : R b b') (side : Side) (id : OrderId)
    (reason : CancelReason) :
    R (b.cancelRestingMakerOnLevel side price l id reason).1
        (b'.cancelRestingMakerOnLevel side price l id reason).1 ∧
      (b'.cancelRestingMakerOnLevel side price l id reason).2 =
        (b.cancelRestingMakerOnLevel side price l id reason).2 := by
  rw [OrderBook.cancelRestingMakerOnLevel, OrderBook.cancelRestingMakerOnLevel]
  split
  · exact ⟨hR.cancelMaker (hR.setLevel h side price _) .., rfl⟩
  · exact ⟨hR.setLevel h side price _, rfl⟩

include h

theorem processLevelMatch (r : MatchResult) :
    SweepRel R (processLevelMatch
        { sw with book := sw.book.setLevel t.side.opposite price l } t price l r)
      (processLevelMatch { sw' with book := sw'.book.setLevel t.side.opposite price l } t price
        l r) := by
  obtain ⟨b', hb, rfl⟩ := h
  rw [OrderBookRs.processLevelMatch, OrderBookRs.processLevelMatch]
  have hset := hR.setLevel hb t.side.opposite price l
  split_ifs
  · exact ⟨_, hset, rfl⟩
  · exact ⟨_, hset, rfl⟩
  · exact ⟨_, hR.applyFills hset t.side.opposite price l r.trades, rfl⟩
  · exact ⟨_, hR.applyFills hset t.side.opposite price l r.trades, rfl⟩

theorem matchAtLevel (q : ℕ) :
    SweepRel R (matchAtLevel t sw price l q).1 (matchAtLevel t sw' price l q).1 ∧
      (matchAtLevel t sw' price l q).2 = (matchAtLevel t sw price l q).2 := by
  obtain ⟨b', hb, heq⟩ := hR.processLevelMatch h t price (matchOrder l q t.orderId t.kind).2
    (matchOrder l q t.orderId t.kind).1
  rw [OrderBookRs.matchAtLevel, OrderBookRs.matchAtLevel]
  refine ⟨⟨b', hb, ?_⟩, rfl⟩
  rw [heq]

theorem matchSafely (qtyCap safe : ℕ) :
    SweepRel R (matchSafely t sw price l qtyCap safe).1 (matchSafely t sw' price l qtyCap safe).1 ∧
      (matchSafely t sw' price l qtyCap safe).2 = (matchSafely t sw price l qtyCap safe).2 := by
  rw [OrderBookRs.matchSafely, OrderBookRs.matchSafely]
  split_ifs
  · exact hR.matchAtLevel h t price l _
  · exact ⟨h, rfl⟩

theorem matchNormally (qtyCap : ℕ) :
    SweepRel R (matchNormally t sw price l qtyCap).1 (matchNormally t sw' price l qtyCap).1 ∧
      (matchNormally t sw' price l qtyCap).2 = (matchNormally t sw price l qtyCap).2 := by
  obtain ⟨⟨b', hb, heq⟩, -⟩ := hR.matchAtLevel h t price l qtyCap
  rw [OrderBookRs.matchNormally, OrderBookRs.matchNormally]
  refine ⟨⟨b', hb, heq⟩, ?_⟩
  rw [heq]

omit hR in
theorem markEmpty : SweepRel R (markEmpty sw price l) (markEmpty sw' price l) := by
  obtain ⟨b', hb, rfl⟩ := h
  rw [OrderBookRs.markEmpty, OrderBookRs.markEmpty]
  split_ifs
  · exact ⟨b', hb, rfl⟩
  · exact ⟨b', hb, rfl⟩

omit l in
theorem cancelMakers (makers : List Order) (l : L) :
    SweepRel R (cancelMakers t price makers sw l).1 (cancelMakers t price makers sw' l).1 ∧
      (cancelMakers t price makers sw' l).2 = (cancelMakers t price makers sw l).2 := by
  induction makers generalizing sw sw' l with
  | nil => exact ⟨h, rfl⟩
  | cons o makers ih =>
    obtain ⟨b', hb, rfl⟩ := h
    obtain ⟨hsame, hlevel⟩ := hR.cancelRestingMakerOnLevel price l hb t.side.opposite o.id
      .selfTradePrevention
    have hnext : SweepRel R
        { sw with book := (sw.book.cancelRestingMakerOnLevel t.side.opposite price l o.id
          .selfTradePrevention).1 }
        { sw with book := (b'.cancelRestingMakerOnLevel t.side.opposite price l o.id
          .selfTradePrevention).1 } := ⟨_, hsame, rfl⟩
    have := ih hnext (sw.book.cancelRestingMakerOnLevel t.side.opposite price l o.id
      .selfTradePrevention).2
    rw [← hlevel] at this
    rw [OrderBookRs.cancelMakers, OrderBookRs.cancelMakers, List.foldl_cons, List.foldl_cons]
    rw [OrderBookRs.cancelMakers, OrderBookRs.cancelMakers, hlevel] at this
    dsimp only at this ⊢
    rw [hlevel]
    exact this

theorem sweepConflict (qtyCap : ℕ) :
    SweepRel R (sweepConflict t sw price l qtyCap).1 (sweepConflict t sw' price l qtyCap).1 ∧
      (sweepConflict t sw' price l qtyCap).2 = (sweepConflict t sw price l qtyCap).2 := by
  rw [OrderBookRs.sweepConflict, OrderBookRs.sweepConflict]
  split
  · exact hR.matchNormally h t price l qtyCap
  · next safe _ =>
    obtain ⟨⟨b', hb, heq⟩, -⟩ := hR.matchSafely h t price l qtyCap safe
    refine ⟨⟨b', hb, ?_⟩, rfl⟩
    dsimp only
    rw [heq]
  · obtain ⟨hsame, hlevel⟩ := hR.cancelMakers h t price
      ((orders l).filter fun o => o.userId = t.userId) l
    dsimp only
    rw [hlevel]
    split_ifs
    · exact ⟨markEmpty hsame price _, rfl⟩
    · exact hR.matchNormally hsame t price _ qtyCap
  · next safe makerId _ =>
    obtain ⟨⟨b', hb, heq⟩, hlevel⟩ := hR.matchSafely h t price l qtyCap safe
    obtain ⟨hsame, hlevel'⟩ := hR.cancelRestingMakerOnLevel price
      (OrderBookRs.matchSafely t sw price l qtyCap safe).2 hb t.side.opposite makerId
      .selfTradePrevention
    dsimp only
    rw [heq, hlevel]
    rw [hlevel']
    obtain ⟨b'', hb'', heq''⟩ := markEmpty
      (⟨_, hsame, rfl⟩ : SweepRel R
        { (OrderBookRs.matchSafely t sw price l qtyCap safe).1 with
          book := _ } { (OrderBookRs.matchSafely t sw price l qtyCap safe).1 with book := _ })
      price _
    refine ⟨⟨b'', hb'', ?_⟩, rfl⟩
    rw [heq'']

theorem probePostOnly (qtyCap : ℕ) :
    SweepRel R (probePostOnly t sw price l qtyCap).1 (probePostOnly t sw' price l qtyCap).1 ∧
      (probePostOnly t sw' price l qtyCap).2 = (probePostOnly t sw price l qtyCap).2 := by
  obtain ⟨b', hb, rfl⟩ := h
  have hset := hR.setLevel hb t.side.opposite price (matchOrder l qtyCap t.orderId t.kind).2
  rw [OrderBookRs.probePostOnly, OrderBookRs.probePostOnly]
  split_ifs
  · exact ⟨⟨_, hset, rfl⟩, rfl⟩
  · exact ⟨⟨_, hset, rfl⟩, rfl⟩

/-- **One iteration of the loop.** -/
theorem sweepLevel :
    SweepRel R (sweepLevel t sw price l).1 (sweepLevel t sw' price l).1 ∧
      (sweepLevel t sw' price l).2 = (sweepLevel t sw price l).2 := by
  have hstop : sw'.stop = sw.stop := by
    obtain ⟨b', hb, rfl⟩ := h
    rfl
  rw [OrderBookRs.sweepLevel, OrderBookRs.sweepLevel, hstop]
  dsimp only
  split_ifs
  · exact ⟨h, rfl⟩
  · exact ⟨h, rfl⟩
  · exact hR.probePostOnly h t price l _
  · exact hR.sweepConflict h t price l _
  · exact hR.matchNormally h t price l _

omit price l in
theorem sweepLoop (entries : List (ℕ × L)) :
    SweepRel R (sweepLoop t entries sw) (sweepLoop t entries sw') := by
  induction entries generalizing sw sw' with
  | nil => exact h
  | cons e entries ih =>
    obtain ⟨price, l⟩ := e
    obtain ⟨hsame, hgo⟩ := hR.sweepLevel h t price l
    rw [OrderBookRs.sweepLoop, OrderBookRs.sweepLoop, hgo]
    split_ifs
    · exact ih hsame
    · exact hsame

omit price l in
theorem finishSweep : R (finishSweep t sw) (finishSweep t sw') := by
  obtain ⟨b', hb, rfl⟩ := h
  have hremove : ∀ (prices : List ℕ) {b b' : OrderBook L}, R b b' →
      R (prices.foldl (fun b price => b.removeLevel t.side.opposite price) b)
        (prices.foldl (fun b price => b.removeLevel t.side.opposite price) b') := by
    intro prices
    induction prices with
    | nil => exact fun hb => hb
    | cons price prices ih => exact fun hb => ih (hR.removeLevel hb t.side.opposite price)
  have hforget : ∀ (filled : List (OrderId × ℕ)) {b b' : OrderBook L}, R b b' →
      R (filled.foldl OrderBook.forgetFilled b) (filled.foldl OrderBook.forgetFilled b') := by
    intro filled
    induction filled with
    | nil => exact fun hb => hb
    | cons f filled ih => exact fun hb => ih (hR.forgetFilled hb f)
  exact hforget sw.filledOrders (hremove sw.emptyPriceLevels hb)

end SweepCongruence

/-! ### The whole match -/

section Match

variable [PriceLevel L] {R : OrderBook L → OrderBook L → Prop} (hR : SweepCongruence R)
  {b b' : OrderBook L}

include hR

theorem SweepCongruence.sweep (h : R b b') (t : Taker) (mode : MatchMode) :
    SweepRel R (b.sweep t mode) (b'.sweep t mode) := by
  have hlevels := hR.levels_eq h
  have hentries : b'.sweepEntries t.side = b.sweepEntries t.side := by
    cases ht : t.side with
    | buy => exact congrArg SortedMap.entries (congrFun hlevels .sell)
    | sell => exact congrArg (fun m => m.entries.reverse) (congrFun hlevels .buy)
  rw [OrderBook.sweep, OrderBook.sweep, hentries]
  exact hR.sweepLoop ⟨b', h, rfl⟩ t _

/-- **A match in two related books** returns the same and leaves related books. -/
theorem SweepCongruence.matchOrderInner (h : R b.openSweep b'.openSweep) (id : OrderId)
    (side : Side) (mode : MatchMode) (user : Hash32) (kind : TakerKind) :
    Agree R (matchOrderInner id side mode user kind b)
      (matchOrderInner id side mode user kind b') := by
  have hrun : ∀ b : OrderBook L, OrderBook.matchOrderInner id side mode user kind b =
      if (b.openSweep.levels side.opposite).isEmpty then
        (emptyBookResult side mode (.new id mode.initialMatchQuantity), b.openSweep)
      else
        let t := b.openSweep.taker id side mode.limitPrice user kind
        let sw := b.openSweep.sweep t mode
        if sw.stpTakerCancelled ∧ sw.result.trades.isEmpty then
          (sweepOutcome t mode sw,
            (OrderBookRs.finishSweep t sw).trackState id (.cancelled 0 .selfTradePrevention))
        else (sweepOutcome t mode sw, OrderBookRs.finishSweep t sw) := fun _ => rfl
  have hsweep := hR.sweep h (b.openSweep.taker id side mode.limitPrice user kind) mode
  have hfinish := hR.finishSweep hsweep (b.openSweep.taker id side mode.limitPrice user kind)
  rw [hrun, hrun, hR.levels_eq h, hR.taker_eq h]
  dsimp only
  obtain ⟨_, -, heq⟩ := hsweep
  rw [heq] at hfinish ⊢
  split_ifs
  · exact ⟨rfl, h⟩
  · exact ⟨rfl, hR.trackState hfinish id _⟩
  · exact ⟨rfl, hfinish⟩

end Match

namespace OrderBook.SameState

variable [PriceLevel L] {b b' : OrderBook L}

theorem sweepCongruence : SweepCongruence (SameState (L := L)) where
  levels_eq h := h.levels_eq
  taker_eq h _ _ _ _ _ := by
    obtain ⟨_, _, _, rfl⟩ := h
    rfl
  setLevel h := h.setLevel
  removeLevel h := h.removeLevel
  applyFills h side price l trades := h.applyFills side price l trades
  cancelMaker h side price quantity id user reason :=
    (h.invalidateCache.deliverLevelChange side price quantity).releaseCancelled id user reason
  forgetFilled h := h.forgetFilled
  trackState h := h.trackState

/-- **A match in two books of the same state** returns the same and leaves the same state. -/
theorem matchOrderInner (h : b.SameState b') (id : OrderId) (side : Side) (mode : MatchMode)
    (user : Hash32) (kind : TakerKind) :
    (matchOrderInner id side mode user kind b').1 = (matchOrderInner id side mode user kind b).1 ∧
      (matchOrderInner id side mode user kind b).2.SameState
        (matchOrderInner id side mode user kind b').2 :=
  have hagree := sweepCongruence.matchOrderInner h.openSweep id side mode user kind
  ⟨hagree.result_eq, hagree.state⟩

theorem sweepOf (h : b.SameState b') {r : Except OrderBookError MatchOutcome} {b₁ : OrderBook L}
    (hrun : sweepOf o b' = (r, b₁)) : (sweepOf o b).1 = r ∧ (sweepOf o b).2.SameState b₁ := by
  obtain ⟨hresult, hbook⟩ := h.matchOrderInner o.id o.side
    (.baseQty o.totalQuantity (some o.price)) o.userId (takerKind o)
  rw [← OrderBook.sweepOf, hrun] at hresult hbook
  exact ⟨hresult.symm, hbook⟩

end OrderBook.SameState

/-! ### Adding an order -/

variable [PriceLevel L]

/-- The order `x` came to rest where `o` belongs, next to what rested before. -/
structure Joined (o x : Order) (b b' : OrderBook L) : Prop where
  fills_eq : b'.fills = b.fills
  rests_iff : ∀ {side price y}, b'.Rests side price y ↔
    b.Rests side price y ∨ side = o.side ∧ price = o.price ∧ y = x

theorem OrderBook.SameRests.joined {x : Order} {b' b'' : OrderBook L} (h : b.SameRests b')
    (h' : Joined o x b' b'') : Joined o x b b'' :=
  ⟨h'.fills_eq.trans h.fills_eq, fun {_ _ _} => by rw [h'.rests_iff, h.rests_iff]⟩

variable [LevelQueue L]

/-- A residual joins the orders that rest, or its level refuses it and nothing changes. -/
theorem restResidual_rests (o : Order) (remaining : ℕ) (b : OrderBook L) :
    b.SameRests (restResidual o remaining b).2 ∨
      Joined o (residual o remaining) b (restResidual o remaining b).2 := by
  rcases restResidual_cases o remaining b with
    ⟨l, l', hl, -, horders, -, hstate⟩ | ⟨e, -, -, hstate | ⟨⟨l, hl, hnil⟩, hstate⟩⟩
  · have hsame := hstate.sameOrders.sameRests
    have hrest := (b.restAt_sameOrders o (residual o remaining) l' remaining).sameRests
    exact Or.inr ⟨hsame.fills_eq.trans hrest.fills_eq,
      hsame.rests_iff.trans (restAt_rests_iff remaining hl horders)⟩
  · exact Or.inl hstate.sameOrders.sameRests
  · have hremove : b.SameRests (b.removeLevel o.side o.price) := by
      refine ⟨rfl, rests_removeLevel_of_nil fun l₀ hl₀ => ?_⟩
      rw [hl] at hl₀
      cases hl₀
      exact hnil
    exact Or.inl (hremove.trans hstate.sameOrders.sameRests)

omit [LevelQueue L] in
/-- What the delivery of trades and coming to rest keep, an accepted order keeps after its sweep. -/
theorem addOrderInner_after {R : OrderBook L → OrderBook L → Prop} (hR : IsFrame R)
    (hsame : ∀ {b b' : OrderBook L}, b.SameState b' → R b b') {wantResult : Bool}
    (hemit : ∀ r b, R b (emitTrades wantResult r b).2)
    (hrest : ∀ remaining b, R b (restResidual o remaining b).2) (hacc : b.Accepted o) :
    R (sweepOf o b).2 (addOrderInner o wantResult b).2 := by
  have hstep := addOrderInner_step o wantResult b
  generalize (addOrderInner o wantResult b).1 = result at hstep
  generalize (addOrderInner o wantResult b).2 = b' at hstep ⊢
  have hswept : ∀ {b₀ b₁ : OrderBook L} {r}, b.Quiet b₀ → sweepOf o b₀ = (r, b₁) →
      R (sweepOf o b).2 b₁ := fun quiet run => hsame (quiet.sameState.sweepOf run).2
  cases hstep with
  | refused refusal => exact absurd hacc refusal
  | failed _ quiet run => exact hswept quiet run
  | rejected _ quiet run _ recorded =>
    exact hR.trans (hswept quiet run) (hsame (sameState_of_rejected recorded))
  | stpCancelled _ quiet run | filled _ quiet run | dropped _ quiet run =>
    exact hR.trans (hR.trans (hswept quiet run) (hemit ..))
      (hsame (sameView_trackState ..).sameState)
  | @levelRefused _ _ b₁ _ outcome _ quiet run _ _ _ _ rest
  | @rests _ _ _ b₁ _ outcome _ quiet run _ _ _ _ rest =>
    have hrested := hrest outcome.result.remainingQuantity
      (emitTrades wantResult outcome.result b₁).2
    rw [rest] at hrested
    exact hR.trans (hR.trans (hswept quiet run) (hemit ..)) hrested

/-- **What an accepted order adds to its sweep**: it comes to rest with what is left of it, or
nothing rests that the sweep did not leave. -/
theorem addOrderInner_rests (hacc : b.Accepted o) (wantResult : Bool) :
    (sweepOf o b).2.SameRests (addOrderInner o wantResult b).2 ∨
      ∃ outcome, (sweepOf o b).1 = .ok outcome ∧
        Joined o (residual o outcome.result.remainingQuantity) (sweepOf o b).2
          (addOrderInner o wantResult b).2 := by
  have hstep := addOrderInner_step o wantResult b
  generalize (addOrderInner o wantResult b).1 = result at hstep
  generalize (addOrderInner o wantResult b).2 = b' at hstep ⊢
  have hemitted : ∀ {b₀ b₁ : OrderBook L} {outcome}, b.Quiet b₀ →
      sweepOf o b₀ = (.ok outcome, b₁) →
      (sweepOf o b).2.SameOrders (emitTrades wantResult outcome.result b₁).2 :=
    fun quiet run => (quiet.sameState.sweepOf run).2.sameOrders.trans (sameOrders_emitTrades ..)
  have hrest : ∀ {b₀ b₁ b' : OrderBook L} {outcome r}, b.Quiet b₀ →
      sweepOf o b₀ = (.ok outcome, b₁) →
      restResidual o outcome.result.remainingQuantity
        (emitTrades wantResult outcome.result b₁).2 = (r, b') →
      (sweepOf o b).2.SameRests b' ∨ ∃ outcome, (sweepOf o b).1 = .ok outcome ∧
        Joined o (residual o outcome.result.remainingQuantity) (sweepOf o b).2 b' := by
    intro b₀ b₁ b' outcome r quiet run rest
    have hsame := (hemitted quiet run).sameRests
    have hcases := restResidual_rests o outcome.result.remainingQuantity
      (emitTrades wantResult outcome.result b₁).2
    rw [rest] at hcases
    exact hcases.imp hsame.trans fun h =>
      ⟨outcome, (quiet.sameState.sweepOf run).1, hsame.joined h⟩
  cases hstep with
  | refused refusal => exact absurd hacc refusal
  | failed _ quiet run => exact Or.inl (quiet.sameState.sweepOf run).2.sameOrders.sameRests
  | rejected _ quiet run _ recorded =>
    exact Or.inl ((quiet.sameState.sweepOf run).2.trans
      (sameState_of_rejected recorded)).sameOrders.sameRests
  | stpCancelled _ quiet run | filled _ quiet run | dropped _ quiet run =>
    exact Or.inl ((hemitted quiet run).trans
      (sameView_trackState ..).sameState.sameOrders).sameRests
  | levelRefused _ quiet run _ _ _ _ rest | rests _ quiet run _ _ _ _ rest =>
    exact hrest quiet run rest

end OrderBookRs
