import OrderBookRs.BestPrices
import OrderBookRs.FillOrKill

/-!
# When a failed move changes nothing

A request that moves an order checks the new order while the original still rests, cancels the
original, and adds the new order through the full admission path. The second pass runs most checks
again. This module says which of them the first pass implies and which it does not: a request that
fails leaves the book as it was exactly when the checks that are not implied pass on the book
without the original.

## Main definitions

* `OrderBook.Unchanged`: orders, queues, indices, risk counters and trades are the same.
* `FailsCleanly`: a request that fails leaves the book unchanged.
* `OrderBook.Readmits`: what the second pass asks beyond the first.

## Main results

* `fails_cleanly_iff`.
-/

namespace OrderBookRs

open PriceLevel Fallible OrderBook

variable {L : Type} [PriceLevel L] {b b' : OrderBook L} {newOrder o original : Order} {price : ℕ}

/-! ### The self-trade walk without the original -/

/-- A walk that passes a level with an own order ended before it, so it ends there whatever the
level becomes. -/
theorem selfCrossWalk_thin {before after : List (ℕ × L)} {l : L}
    (hown : ∃ x ∈ orders l, x.userId = o.userId)
    (hsorted : ∀ e ∈ after, o.side.crosses o.price e.1 → o.side.crosses o.price price)
    {remaining : ℕ} (h : selfCrossWalk o (before ++ (price, l) :: after) remaining = false) :
    (∀ l', selfCrossWalk o (before ++ (price, l') :: after) remaining = false) ∧
      selfCrossWalk o (before ++ after) remaining = false := by
  have hany : (orders l).any (fun x => x.userId = o.userId) = true := by
    simpa using hown
  induction before generalizing remaining with
  | nil =>
    by_cases hleft : remaining = 0
    · subst hleft
      exact ⟨fun l' => selfCrossWalk_zero o _, selfCrossWalk_zero o _⟩
    have hout : o.side.crosses o.price price = false := by
      rw [List.nil_append, selfCrossWalk, if_neg hleft, if_pos hany] at h
      split_ifs at h with hlimit
      simpa using hlimit
    refine ⟨fun l' => ?_, ?_⟩
    · rw [List.nil_append, selfCrossWalk, if_neg hleft, if_pos (by simp [hout])]
    · cases after with
      | nil => rfl
      | cons e after =>
        have hnext : o.side.crosses o.price e.1 = false := by
          have himp := hsorted e (List.mem_cons_self ..)
          rw [hout] at himp
          simpa using himp
        rw [List.nil_append, selfCrossWalk, if_neg hleft, if_pos (by simp [hnext])]
  | cons e before ih =>
    rw [List.cons_append, selfCrossWalk] at h
    by_cases hleft : remaining = 0
    · subst hleft
      exact ⟨fun l' => selfCrossWalk_zero o _, selfCrossWalk_zero o _⟩
    rw [if_neg hleft] at h
    by_cases hlimit : (!o.side.crosses o.price e.1) = true
    · refine ⟨fun l' => ?_, ?_⟩
      · rw [List.cons_append, selfCrossWalk, if_neg hleft, if_pos hlimit]
      · rw [List.cons_append, selfCrossWalk, if_neg hleft, if_pos hlimit]
    rw [if_neg hlimit] at h
    split_ifs at h with hmine
    obtain ⟨hwrite, herase⟩ := ih h
    refine ⟨fun l' => ?_, ?_⟩
    · rw [List.cons_append, selfCrossWalk, if_neg hleft, if_neg hlimit, if_neg hmine]
      exact hwrite l'
    · rw [List.cons_append, selfCrossWalk, if_neg hleft, if_neg hlimit, if_neg hmine]
      exact herase

namespace OrderBook

variable {side : Side} {left : ℕ}

omit [PriceLevel L] in
/-- The levels a taker meets around one of them, and what writing or removing that one makes of
them. -/
theorem sweepEntries_split {l : L} (hl : (b.levels side.opposite).get? price = some l) :
    ∃ before after, b.sweepEntries side = before ++ (price, l) :: after ∧
      (∀ e ∈ after, ∀ limit, side.crosses limit e.1 → side.crosses limit price) ∧
      ∀ b' : OrderBook L,
        (∀ l', b'.levels side.opposite = (b.levels side.opposite).insert price l' →
          b'.sweepEntries side = before ++ (price, l') :: after) ∧
        (b'.levels side.opposite = (b.levels side.opposite).erase price →
          b'.sweepEntries side = before ++ after) := by
  obtain ⟨before, after, hsplit, hbefore, hafter, hwrite, herase⟩ := SortedMap.entries_split hl
  cases side with
  | buy =>
    refine ⟨before, after, hsplit, fun e he limit hcross => ?_,
      fun b' => ⟨fun l' h => ?_, fun h => ?_⟩⟩
    · have hlt := hafter e he
      simp only [Side.crosses, decide_eq_true_eq] at hcross ⊢
      omega
    · have hentries : b'.asks.entries = _ := congrArg SortedMap.entries h
      exact hentries.trans (hwrite l')
    · have hentries : b'.asks.entries = _ := congrArg SortedMap.entries h
      exact hentries.trans herase
  | sell =>
    refine ⟨after.reverse, before.reverse, ?_, fun e he limit hcross => ?_,
      fun b' => ⟨fun l' h => ?_, fun h => ?_⟩⟩
    · have hentries : b.bids.entries = _ := hsplit
      simp [sweepEntries, hentries]
    · have hlt := hbefore e (List.mem_reverse.mp he)
      simp only [Side.crosses, decide_eq_true_eq] at hcross ⊢
      omega
    · have hentries : b'.bids.entries = before ++ (price, l') :: after :=
        (congrArg SortedMap.entries h).trans (hwrite l')
      simp [sweepEntries, hentries]
    · have hentries : b'.bids.entries = before ++ after :=
        (congrArg SortedMap.entries h).trans herase
      simp [sweepEntries, hentries]

/-! ### The book without the original -/

theorem cancelAt_levels (b : OrderBook L) (side side' : Side) (price : ℕ) (l : L) (o : Order) :
    (b.cancelAt side price l o).levels side' =
      if side' = side then
        if orderCount l = 0 then (b.levels side).erase price else (b.levels side).insert price l
      else b.levels side' := by
  refine SortedMap.ext_get? fun p => ?_
  rw [cancelAt_get?]
  by_cases hside : side' = side
  · subst hside
    rw [if_pos rfl]
    split_ifs with hhere hempty hempty
    · rw [hhere.2, SortedMap.get?_erase, if_pos rfl]
    · rw [hhere.2, SortedMap.get?_insert_self]
    · rw [SortedMap.get?_erase, if_neg fun hp => hhere ⟨rfl, hp⟩]
    · rw [SortedMap.get?_insert, if_neg fun hp => hhere ⟨rfl, hp⟩]
  · rw [if_neg hside, if_neg fun hhere => hside hhere.1]

/-- The book `b'` is `b` with the resting order `o` cancelled. -/
structure Withdraws (b b' : OrderBook L) (o : Order) : Prop where
  place : ∃ side price l l', (b.levels side).get? price = some l ∧ o ∈ orders l ∧
    orders l' = ((orders l).filter fun x => x.id ≠ o.id) ∧
    ∀ side', b'.levels side' =
      if side' = side then
        if orderCount l' = 0 then (b.levels side).erase price else (b.levels side).insert price l'
      else b.levels side'
  fresh : b'.orderLocations.lookup o.id = none
  settings_eq : b'.settings = b.settings
  sound : b'.Sound
  unread : ∀ side, b'.Unread side

section Withdraws

variable [LevelQueue L] [LevelMatch L] [LevelResize L]

/-- Cancelling an order that is found takes it off the book. -/
theorem withdraws_of_getOrder {b₀ : OrderBook L} (hb : b.Sound) (hsame : b.SameState b₀)
    {id : OrderId} (hget : b.getOrder id = some o) :
    b.Withdraws (b₀.cancelOrderWithReason id .userRequested).1 o := by
  obtain ⟨side₀, price₀, l₀, hloc, hl, ho, rfl⟩ := getOrder_eq_some hget
  have hcancel := cancelOrderWithReason_step b₀ o.id .userRequested
  have hsettings : (b₀.cancelOrderWithReason o.id .userRequested).1.settings = b.settings :=
    settings_steps.cancelOrderWithReason o.id .userRequested hsame.settings_eq
  have hsound : (b₀.cancelOrderWithReason o.id .userRequested).1.Sound :=
    Sound.steps.calls.cancel o.id .userRequested (hb.sameState hsame)
  have hunread := unread_cancelOrderWithReason b₀ o.id .userRequested
  have hloc₀ : b₀.orderLocations.lookup o.id = some (price₀, side₀) := by
    obtain ⟨_, _, _, rfl⟩ := hsame
    exact hloc
  have hl₀ : (b₀.levels side₀).get? price₀ = some l₀ := by rwa [hsame.levels_eq]
  rcases hcancel with ⟨-, -, hnone⟩ |
    ⟨side, price, l, l', x, hid, ⟨⟨hlevel, hx, horders⟩, hplace, -⟩, -, hquiet⟩
  · exact absurd rfl (hnone side₀ price₀ o hloc₀ ⟨l₀, hl₀, ho⟩)
  · rw [hid, hloc₀] at hplace
    obtain ⟨rfl, rfl⟩ := Prod.mk.inj (Option.some.inj hplace)
    obtain rfl : l₀ = l := Option.some.inj (hl₀.symm.trans hlevel)
    obtain rfl : x = o := eq_of_mem_orders hx ho hid
    refine ⟨⟨side₀, price₀, l₀, l', hl, ho, horders, fun side' => ?_⟩, ?_, hsettings, hsound,
      hunread⟩
    · obtain ⟨_, _, heq⟩ := hquiet
      rw [heq, ← hsame.levels_eq]
      exact cancelAt_levels b₀ side₀ side' price₀ l' x
    · obtain ⟨_, _, heq⟩ := hquiet
      rw [heq]
      rw [cancelAt_orderLocations, AList.lookup_erase]

end Withdraws

namespace Withdraws

variable {b b' : OrderBook L} {o : Order} (h : b.Withdraws b' o)

include h

/-- A level of the book without the original was there before. -/
theorem get?_isSome (hl : ((b'.levels side).get? price).isSome) :
    ((b.levels side).get? price).isSome := by
  obtain ⟨side₀, price₀, l, l', hl₀, -, -, hlevels⟩ := h.place
  rw [hlevels side] at hl
  split_ifs at hl with hside hempty
  · subst hside
    rw [SortedMap.get?_erase] at hl
    split_ifs at hl
    · cases hl
    · exact hl
  · subst hside
    rw [SortedMap.get?_insert] at hl
    split_ifs at hl with hprice
    · rw [hprice, hl₀]
      rfl
    · exact hl
  · exact hl

/-- **An own order that the walk does not meet before the cancel it does not meet after it.** -/
theorem selfCrossWalk_eq_false (howner : newOrder.userId = o.userId) {remaining : ℕ}
    (hwalk : selfCrossWalk newOrder (b.sweepEntries newOrder.side) remaining = false) :
    selfCrossWalk newOrder (b'.sweepEntries newOrder.side) remaining = false := by
  obtain ⟨side, price, l, l', hl, ho, -, hlevels⟩ := h.place
  by_cases hside : newOrder.side.opposite = side
  · subst hside
    obtain ⟨before, after, hsplit, hsorted, hrewrite⟩ := sweepEntries_split hl
    rw [hsplit] at hwalk
    obtain ⟨hwrite, herase⟩ := selfCrossWalk_thin ⟨o, ho, howner.symm⟩
      (fun e he => hsorted e he newOrder.price) hwalk
    have hopposite := hlevels newOrder.side.opposite
    rw [if_pos rfl] at hopposite
    split_ifs at hopposite
    · rw [(hrewrite b').2 hopposite]
      exact herase
    · rw [(hrewrite b').1 l' hopposite]
      exact hwrite l'
  · have hopposite := hlevels newOrder.side.opposite
    rw [if_neg hside] at hopposite
    have hentries : b'.sweepEntries newOrder.side = b.sweepEntries newOrder.side := by
      cases hs : newOrder.side with
      | buy =>
        rw [hs] at hopposite
        exact congrArg SortedMap.entries hopposite
      | sell =>
        rw [hs] at hopposite
        exact congrArg (fun m => (SortedMap.entries m).reverse) hopposite
    rwa [hentries]

theorem truthful : b'.Truthful := .of_unread h.unread

/-- An order out of reach stays out of reach. -/
theorem outOfReach (hout : b.OutOfReach newOrder) : b'.OutOfReach newOrder := by
  intro price l hl
  obtain ⟨l₀, hl₀⟩ := Option.isSome_iff_exists.mp
    (h.get?_isSome (Option.isSome_iff_exists.mpr ⟨l, hl⟩))
  exact hout price l₀ hl₀

end Withdraws

/-! ### The second pass -/

/-- What the admission of a moved order asks of the book without the original, beyond what was
checked while the original still rested: the risk limits, the expiry at the next clock reading, the
headroom of its level, and that the level takes what `fok_fillable_quantity` finds no depth for. -/
structure Readmits (b : OrderBook L) (o : Order) : Prop where
  risk : b.riskState.checkLimitAdmission o.userId o.price o.totalQuantity b.riskReference.1 = .ok ()
  notExpired : isExpired L o.timeInForce b.clock.nowMillis b.marketCloseForExpiry = false
  headroom : b.HeadroomAccepted o
  room : ∀ left, b.fokFillableQuantity o.side o.totalQuantity (some o.price) o.userId o.id + left =
      o.totalQuantity → left ≠ 0 →
    ∃ l', PriceLevel.addOrder (((b.levels o.side).get? o.price).getD (new o.price))
      (residual o left) = .ok l'

omit [PriceLevel L] in
theorem checkShape_congr (h : b'.settings = b.settings) (o : Order) :
    b'.checkShape o = b.checkShape o := by
  have hstp : b'.stpMode = b.stpMode := congrArg BookSettings.stpMode h
  have htick : b'.tickSize = b.tickSize := congrArg BookSettings.tickSize h
  have hlot : b'.lotSize = b.lotSize := congrArg BookSettings.lotSize h
  have hmin : b'.minOrderSize = b.minOrderSize := congrArg BookSettings.minOrderSize h
  have hmax : b'.maxOrderSize = b.maxOrderSize := congrArg BookSettings.maxOrderSize h
  rw [checkShape, checkShape, hstp, htick, hlot, hmin, hmax]

/-- **The checks of the second pass that are not implied by the first.** -/
theorem Withdraws.accepted_iff (h : b.Withdraws b' original) (hid : o.id = original.id)
    (himm : o.isImmediate = false) (hrunning : b.killSwitch = false)
    (hmove : b.invalidateCache.MoveAccepted original.id o) :
    b'.Accepted o ↔
      b'.riskState.checkLimitAdmission o.userId o.price o.totalQuantity
        b'.riskReference.1 = .ok () ∧
      isExpired L o.timeInForce b'.clock.nowMillis b'.marketCloseForExpiry = false ∧
        b'.HeadroomAccepted o := by
  refine ⟨fun hacc => ⟨hacc.risk, hacc.shape.notExpired, hacc.headroom⟩, ?_⟩
  rintro ⟨hrisk, hexpired, hheadroom⟩
  have hshape : b'.checkShape o = .ok () :=
    (checkShape_congr h.settings_eq o).trans hmove.shape.shape
  refine ⟨?_, checkedTotalQuantity_of_checkShape hshape, hrisk, hid ▸ h.fresh,
    ⟨hshape, hexpired, fun hpost => ?_, fun hfok => ?_⟩, hheadroom⟩
  · exact (congrArg BookSettings.killSwitch h.settings_eq).trans hrunning
  · -- the first pass found no level in reach, and the cancel adds none
    have hforgot : b.invalidateCache.Truthful := .of_unread fun s => unread_invalidateCache b s
    exact h.truthful.willCross_iff.mpr
      (h.outOfReach (hforgot.willCross_iff.mp (hmove.shape.postOnly hpost)))
  · rw [isImmediate_of_isFillOrKill hfok] at himm
    cases himm

theorem SameAnswers.readmits (h : b.SameAnswers b') (ho : b.Readmits o) : b'.Readmits o := by
  have hview := h.view
  refine ⟨?_, ?_, fun himm hcross => ?_, ?_⟩
  · rw [hview.riskReference_eq]
    obtain ⟨cache, rfl⟩ := h.cache_only
    exact ho.risk
  · obtain ⟨cache, rfl⟩ := h.cache_only
    exact ho.notExpired
  · rw [hview.willCrossMarket_eq] at hcross
    obtain ⟨cache, rfl⟩ := h.cache_only
    exact ho.headroom himm hcross
  · obtain ⟨cache, rfl⟩ := h.cache_only
    exact ho.room

theorem fokWalk_of_not_allows {t : Taker} {entries : List (ℕ × L)} (quantity matched : ℕ)
    (h : ∀ e ∈ entries, t.allows e.1 = false) : fokWalk t quantity entries matched = matched := by
  cases entries with
  | nil => rfl
  | cons e entries =>
    have hout : t.allows e.1 = false := h e (List.mem_cons_self ..)
    rw [fokWalk]
    simp [hout]

/-- The plan of an order raises no flag and leaves `left`. -/
structure PlansThrough (b : OrderBook L) (o : Order) (left : ℕ) : Prop where
  stop : (b.dryRunOf o).stop = .baseQty left
  stp : (b.dryRunOf o).stpTakerCancelled = false
  rejected : (b.dryRunOf o).postOnlyRejected = false

/-- What the plan leaves is what `fok_fillable_quantity` finds no depth for. -/
structure PlansToRest (b : OrderBook L) (o : Order) (left : ℕ) : Prop
    extends PlansThrough b o left where
  depth : b.fokFillableQuantity o.side o.totalQuantity (some o.price) o.userId o.id + left =
    o.totalQuantity

section Plan

variable [LevelQueue L] [MatchableDryRun L]

omit [LevelQueue L] [MatchableDryRun L] in
theorem plansToRest_of_outOfReach (h : b.OutOfReach o) : b.PlansToRest o o.totalQuantity := by
  have hplan := dryRunOf_of_outOfReach h
  refine ⟨⟨by rw [hplan], by rw [hplan], by rw [hplan]⟩, ?_⟩
  have hnone : ∀ e ∈ b.sweepEntries o.side,
      (b.taker o.id o.side (some o.price) o.userId .standard).allows e.1 = false :=
    fun e he => h e.1 e.2 (mem_sweepEntries.mp he)
  rw [fokFillableQuantity_eq, fokWalk_of_not_allows _ _ hnone, Nat.zero_add]

/-- **The sweep of a moved order raises no flag**: what `check_modify_stp_self_cross` saw with the
original still on the book covers the book without it. -/
theorem Withdraws.plansToRest (h : b.Withdraws b' original) (hid : o.id = original.id)
    (howner : o.userId = original.userId) (hmax : o.totalQuantity ≤ u64Max)
    (hcross : b.checkModifyStpSelfCross o = .ok ()) (hpost : o.isPostOnly → b'.OutOfReach o) :
    ∃ left, b'.PlansToRest o left := by
  by_cases hkind : o.isPostOnly
  · exact ⟨_, plansToRest_of_outOfReach (hpost hkind)⟩
  have hstandard : (b'.takerOf o).kind = .standard := by simp [takerOf, taker, takerKind, hkind]
  have hfresh : b'.orderLocations.lookup o.id = none := hid ▸ h.fresh
  have hfree : ∀ e ∈ b'.sweepEntries o.side, (b'.takerOf o).orderId ∉ orderIds e.2 :=
    fun e he => h.sound.free hfresh he
  obtain ⟨left, hstop, hsum⟩ := Plan.fokWalk_eq (t := b'.takerOf o)
    (p := { stop := .baseQty o.totalQuantity }) hstandard hfree rfl (Nat.zero_add _) hmax
  refine ⟨left, ⟨hstop, ?_, Plan.rejected_loop hstandard _⟩, ?_⟩
  · by_cases hmode : (b'.stpMode = .cancelTaker ∨ b'.stpMode = .cancelBoth) ∧ o.userId ≠ 0
    · have hstp : b'.stpMode = b.stpMode := congrArg BookSettings.stpMode h.settings_eq
      have hwalk : selfCrossWalk o (b.sweepEntries o.side) o.totalQuantity = false := by
        rw [checkModifyStpSelfCross, refuse_eq_ok, decide_eq_false_iff_not] at hcross
        rw [hstp] at hmode
        simpa [hmode] using hcross
      exact Plan.stp_loop_of_walk (t := b'.takerOf o) (o := o)
        (p := { stop := .baseQty o.totalQuantity }) hstandard (fun _ => rfl) rfl rfl
        hfree rfl (h.selfCrossWalk_eq_false howner hwalk)
    · exact Plan.stp_loop_of_mode (t := b'.takerOf o) (p := { stop := .baseQty o.totalQuantity })
        (b'.sweepEntries o.side) hmode
  · have htaker : b'.takerOf o = b'.taker o.id o.side (some o.price) o.userId .standard := by
      rw [takerOf, takerKind, if_neg hkind]
    rw [fokFillableQuantity_eq, ← htaker]
    exact hsum

end Plan

/-! ### The outcome of the second pass -/

section Outcome

variable [LevelQueue L] [LevelMatch L] [MatchAccounting L]

omit [MatchAccounting L] in
/-- The sweep of a new order leaves its own side alone. -/
theorem sweepOf_get?_own (o : Order) (b : OrderBook L) (price : ℕ) :
    ((sweepOf o b).2.levels o.side).get? price = (b.levels o.side).get? price := by
  rcases sweepOf_cases o b with ⟨-, hrun⟩ | ⟨tracker, hrun⟩
  · rw [hrun]
    rfl
  · rw [hrun]
    show ((finishSweep (b.takerOf o) (b.sweepFor o)).levels o.side).get? price = _
    rw [finishSweep_get?, if_neg fun hgone => o.side.opposite_ne hgone.1.symm]
    exact sweep_get?_own b.openSweep (b.takerOf o) _ price

/-- A sweep whose plan raises no flag returns what the plan leaves. -/
theorem PlansThrough.sweepOf (h : b.PlansThrough o left) :
    ∃ outcome, sweepOf o b = (.ok outcome, (sweepOf o b).2) ∧
      outcome.takerPostOnlyRejected = false ∧ outcome.takerStpCancelled = false ∧
      outcome.result.remainingQuantity = left := by
  rcases sweepOf_cases o b with ⟨hempty, hrun⟩ | ⟨tracker, hrun⟩
  · have hstop := h.stop
    rw [dryRunOf_of_isEmpty hempty] at hstop
    rw [hrun]
    exact ⟨_, rfl, rfl, rfl, StopCondition.baseQty.inj hstop⟩
  · obtain ⟨remaining, -, haccounts⟩ := b.sweepFor_accounts o
    have hfollows := b.sweepFor_follows o
    have hstp : (b.sweepFor o).stpTakerCancelled = false := hfollows.stp_eq.trans h.stp
    rw [hrun, if_neg (by simp [hstp])]
    refine ⟨_, rfl, hfollows.rejected_eq.trans h.rejected, hstp, haccounts.result.trans ?_⟩
    exact StopCondition.baseQty.inj (haccounts.stop.symm.trans (hfollows.stop_eq.trans h.stop))

/-- **An accepted order whose plan raises no flag is added** iff what is left may rest and its level
takes it. -/
theorem PlansThrough.succeeds_iff (h : b.PlansThrough o left) (hacc : b.Accepted o)
    (wantResult : Bool) :
    (∃ r, (addOrderInner o wantResult b).1 = .ok r) ↔
      (left ≠ 0 → o.isImmediate = false ∧
        ∃ l', PriceLevel.addOrder (((b.levels o.side).get? o.price).getD (new o.price))
          (residual o left) = .ok l') := by
  have hswept : ∀ {b₀ r b₁}, b.Quiet b₀ → OrderBook.sweepOf o b₀ = (r, b₁) → ∃ outcome,
      r = .ok outcome ∧ outcome.takerPostOnlyRejected = false ∧ outcome.takerStpCancelled = false ∧
        outcome.result.remainingQuantity = left ∧
        (b₁.levels o.side).get? o.price = (b.levels o.side).get? o.price := by
    rintro b₀ r b₁ ⟨cache, clock, rfl⟩ hrun
    have hplan : ({ b with cache := cache, clock := clock } : OrderBook L).PlansThrough o left :=
      ⟨h.stop, h.stp, h.rejected⟩
    obtain ⟨outcome, hout, hrejected, hstp, hleft⟩ := hplan.sweepOf
    have hown := sweepOf_get?_own o
      ({ b with cache := cache, clock := clock } : OrderBook L) o.price
    rw [hrun] at hout hown
    exact ⟨outcome, (Prod.mk.inj hout).1, hrejected, hstp, hleft, hown⟩
  -- coming to rest depends on the level of the order's own side only
  have hrests : ∀ {b₀ b₁ outcome}, b.Quiet b₀ → OrderBook.sweepOf o b₀ = (.ok outcome, b₁) →
      outcome.result.remainingQuantity = left ∧
        (((emitTrades wantResult outcome.result b₁).2.levels o.side).get? o.price =
          (b.levels o.side).get? o.price) := by
    intro b₀ b₁ outcome hquiet hrun
    obtain ⟨outcome', hout, -, -, hleft, hown⟩ := hswept hquiet hrun
    cases hout
    rw [(sameOrders_emitTrades wantResult outcome.result b₁).levels_eq]
    exact ⟨hleft, hown⟩
  have hstep := addOrderInner_step o wantResult b
  generalize (addOrderInner o wantResult b).1 = result at hstep ⊢
  generalize (addOrderInner o wantResult b).2 = b' at hstep
  cases hstep with
  | refused refusal _ _ => exact absurd hacc refusal
  | failed _ quiet run =>
    obtain ⟨outcome, hout, -⟩ := hswept quiet run
    cases hout
  | rejected _ quiet run flag _ =>
    obtain ⟨outcome, hout, hrejected, -⟩ := hswept quiet run
    cases hout
    rw [hrejected] at flag
    cases flag
  | stpCancelled _ quiet run _ stp =>
    obtain ⟨outcome, hout, -, hstp, -⟩ := hswept quiet run
    cases hout
    rw [hstp] at stp
    cases stp
  | filled _ quiet run _ _ zero =>
    have hleft := (hrests quiet run).1
    refine iff_of_true ⟨_, rfl⟩ fun hne => absurd (hleft.symm.trans zero) hne
  | dropped _ quiet run _ _ pos immediate =>
    have hleft := (hrests quiet run).1
    refine iff_of_false (by rintro ⟨r, hr⟩; cases hr) fun hroom => ?_
    have hstanding := (hroom fun hzero => pos (hleft.trans hzero)).1
    rw [immediate] at hstanding
    cases hstanding
  | levelRefused _ quiet run _ _ pos _ rest =>
    obtain ⟨rfl, hlevel⟩ := hrests quiet run
    refine iff_of_false (by rintro ⟨r, hr⟩; cases hr) fun hroom => ?_
    obtain ⟨-, l', hadd⟩ := hroom pos
    rw [restResidual, hlevel, hadd] at rest
    cases rest
  | rests _ quiet run _ _ pos resting rest =>
    obtain ⟨rfl, hlevel⟩ := hrests quiet run
    refine iff_of_true ⟨_, rfl⟩ fun _ => ⟨resting, ?_⟩
    rw [restResidual, hlevel] at rest
    cases hadd : PriceLevel.addOrder (((b.levels o.side).get? o.price).getD (new o.price))
        (residual o _) with
    | error =>
      rw [hadd] at rest
      cases rest
    | ok l' => exact ⟨l', rfl⟩

omit [MatchAccounting L] in
/-- An order that is not added is not registered. -/
theorem lookup_of_addOrderInner_error {wantResult : Bool} {e : OrderBookError}
    (hfails : (addOrderInner o wantResult b).1 = .error e)
    (hfresh : b.orderLocations.lookup o.id = none) :
    (addOrderInner o wantResult b).2.orderLocations.lookup o.id = none := by
  have hsame : ∀ {b₁ b₂ : OrderBook L}, b₁.SameOrders b₂ → b₁.orderLocations.lookup o.id = none →
      b₂.orderLocations.lookup o.id = none := by
    rintro b₁ _ ⟨_, _, _, _, _, rfl⟩ hnone
    exact hnone
  have hswept : ∀ {b₀ b₁ r}, b.SameState b₀ → sweepOf o b₀ = (r, b₁) →
      b₁.orderLocations.lookup o.id = none := by
    intro b₀ b₁ r hstate hrun
    have hnone : (sweepOf o b₀).2.orderLocations.lookup o.id = none :=
      matchOrderInner_lookup_eq_none _ _ _ _ _ (hsame hstate.sameOrders hfresh)
    rwa [hrun] at hnone
  have hstep := addOrderInner_step o wantResult b
  rw [hfails] at hstep
  generalize (addOrderInner o wantResult b).2 = b' at hstep ⊢
  cases hstep with
  | refused _ _ view => exact hsame view.sameState.sameOrders hfresh
  | failed _ quiet run => exact hswept quiet.sameState run
  | rejected _ quiet run _ recorded =>
    exact hsame (sameState_of_rejected recorded).sameOrders (hswept quiet.sameState run)
  | stpCancelled _ quiet run | dropped _ quiet run =>
    exact hsame (sameView_trackState ..).sameState.sameOrders
      (hsame (sameOrders_emitTrades ..) (hswept quiet.sameState run))
  | @levelRefused _ b₀ b₁ _ outcome _ quiet run _ _ _ _ rest =>
    have hemitted := hsame (sameOrders_emitTrades wantResult outcome.result b₁)
      (hswept quiet.sameState run)
    have hrest := restResidual_cases o outcome.result.remainingQuantity
      (emitTrades wantResult outcome.result b₁).2
    rw [rest] at hrest
    rcases hrest with ⟨_, _, -, -, -, hok, -⟩ | ⟨_, -, -, hstate | ⟨-, hstate⟩⟩
    · cases hok
    · exact hsame hstate.sameOrders hemitted
    · exact hsame hstate.sameOrders hemitted

end Outcome

/-! ### Clean failures -/

/-- Every queue, both indices, the risk counters and the trades are the same. -/
structure Unchanged (b b' : OrderBook L) : Prop where
  queues : ∀ side price, ((b'.levels side).get? price).map orders =
    ((b.levels side).get? price).map orders
  locations : b'.orderLocations = b.orderLocations
  users : b'.userOrders = b.userOrders
  risk : b'.riskState = b.riskState
  fills : b'.fills = b.fills

theorem SameState.unchanged (h : b.SameState b') : b.Unchanged b' := by
  obtain ⟨_, _, _, rfl⟩ := h
  exact ⟨fun _ _ => rfl, rfl, rfl, rfl, rfl⟩

end OrderBook

/-- A request that fails leaves the book unchanged. -/
def FailsCleanly (u : OrderUpdate) (b : OrderBook L) : Prop :=
  (∃ e, (updateOrder u b).1 = .error e) → b.Unchanged (updateOrder u b).2

theorem movedOrder_id {u : OrderUpdate} (h : movedOrder original u = some newOrder)
    (hid : original.id = target u) : newOrder.id = original.id := by
  cases u with
  | updatePriceAndQuantity id newPrice newQuantity =>
    obtain ⟨v, k, hset⟩ :=
      { original with price := newPrice }.setQuantity_eq_setTranches newQuantity
    cases h
    rw [hset, Order.setTranches_id]
  | updatePrice =>
    cases h
    rfl
  | replace =>
    cases h
    exact hid.symm
  | updateQuantity | cancel => cases h

theorem movedOrder_isImmediate {u : OrderUpdate} (h : movedOrder original u = some newOrder) :
    newOrder.isImmediate = original.isImmediate :=
  congrArg TimeInForce.isImmediate (movedOrder_timeInForce h)

section Main

variable [LevelQueue L] [LevelMatch L] [LevelResize L] [MatchAccounting L] [MatchableDryRun L]
  {b : OrderBook L} {u : OrderUpdate} {newOrder : Order}

/-- **The second pass of a move succeeds** iff the book without the original readmits the order. -/
theorem succeeds_readmission_iff (hb : b.Sound) (hmoves : b.Moves u newOrder)
    (hmove : b.invalidateCache.MoveAccepted (target u) newOrder)
    (hfits : newOrder.visibleQuantity ≤ u64Max) {b₀ : OrderBook L} (hquiet : b.Quiet b₀)
    (hclock : b₀.clock = b.clock.tick) :
    (∃ r, (addOrderInner newOrder false
        (b₀.cancelOrderWithReason (target u) .userRequested).1).1 = .ok r) ↔
      (b.withdrawn (target u)).Readmits newOrder := by
  obtain ⟨original, hget, hmoved⟩ := hmoves.moved
  obtain ⟨side, price, l, -, hl, ho, horiginal⟩ := getOrder_eq_some hget
  have hid := movedOrder_id hmoved horiginal
  have himm : newOrder.isImmediate = false :=
    (movedOrder_isImmediate hmoved).trans (hb.standing ⟨l, hl, ho⟩)
  have hanswers := hquiet.withdrawn hclock (target u)
  have hwithdraws := withdraws_of_getOrder hb hquiet.sameState hget
  generalize (b₀.cancelOrderWithReason (target u) .userRequested).1 = b₁ at hanswers hwithdraws ⊢
  rw [← horiginal] at hmove
  have haccepted := hwithdraws.accepted_iff hid himm hmoves.running hmove
  have hreadmits : (b.withdrawn (target u)).Readmits newOrder ↔ b₁.Readmits newOrder :=
    ⟨hanswers.readmits, hanswers.symm.readmits⟩
  rw [hreadmits]
  by_cases hacc : b₁.Accepted newOrder
  · obtain ⟨left, hplan⟩ := hwithdraws.plansToRest hid (movedOrder_userId hmoved)
      (Order.totalQuantity_le hfits) hmove.selfCross
      (fun hpost => hwithdraws.truthful.willCross_iff.mp (hacc.shape.postOnly hpost))
    rw [hplan.succeeds_iff hacc]
    constructor
    · intro hroom
      refine ⟨hacc.risk, hacc.shape.notExpired, hacc.headroom, fun left' hdepth hne => ?_⟩
      have hsame : left' = left := by
        have hplanned := hplan.depth
        omega
      rw [hsame] at hne ⊢
      exact (hroom hne).2
    · exact fun h hne => ⟨himm, h.room left hplan.depth hne⟩
  · obtain ⟨⟨e, hfails⟩, -⟩ := addOrderInner_of_not_accepted hacc false
    refine iff_of_false ?_ fun h => hacc (haccepted.mpr ⟨h.risk, h.notExpired, h.headroom⟩)
    rintro ⟨r, hr⟩
    rw [hfails] at hr
    cases hr

/-- A request that fails leaves the book as it was, if in every move that passes the checks made
while the original rests, the book without the original readmits the new order. -/
theorem quiet_of_fails (hb : b.Sound)
    (hfits : ∀ newOrder, b.Moves u newOrder → newOrder.visibleQuantity ≤ u64Max)
    (hreadmits : ∀ newOrder, b.Moves u newOrder →
      b.invalidateCache.MoveAccepted (target u) newOrder →
        (b.withdrawn (target u)).Readmits newOrder)
    {e : OrderBookError} (hfails : (updateOrder u b).1 = .error e) :
    b.Quiet (updateOrder u b).2 := by
  rcases updateOrder_cases u b with
    ⟨-, hsame⟩ | ⟨id, q, rfl, hrun⟩ | ⟨id, rfl, hrun⟩ | ⟨newOrder, hmoves, hrun⟩
  · exact quiet_of_unchanged hsame
  · rw [hrun] at hfails ⊢
    rcases updateQuantity_cases b.invalidateCache id q with hquiet | ⟨_, _, _, _, _, -, -, hok, -⟩
    · exact b.quiet_invalidateCache.trans hquiet
    · rw [hok] at hfails
      cases hfails
  · rw [hrun] at hfails
    rcases cancelByUpdate_cases b.invalidateCache id with hok | ⟨_, _, _, _, _, -, -, hok⟩
    · rw [hok] at hfails
      cases hfails
    · rw [hok] at hfails
      cases hfails
  · rcases modifyOrder_step (target u) newOrder b.invalidateCache with
      ⟨-, e, b', hquiet, -, hmodify⟩ | ⟨haccepted, b₀, hquiet, hclock, hmodify⟩
    · rw [hrun, hmodify]
      exact b.quiet_invalidateCache.trans hquiet
    · -- the second pass succeeds, and so does the request
      obtain ⟨r, hr⟩ := (succeeds_readmission_iff hb hmoves haccepted (hfits newOrder hmoves)
        (b.quiet_invalidateCache.trans hquiet) hclock).mpr (hreadmits newOrder hmoves haccepted)
      rw [hrun, hmodify, hr] at hfails
      cases hfails

/-- **A failed request changes nothing** exactly when, in every request that moves an order and
passes the checks made while the original rests, the book without the original readmits the new
order. -/
theorem fails_cleanly_iff [LevelSnapshot L] [SnapshotChecksum] (hreach : b.Reachable)
    (hfits : ∀ newOrder, b.Moves u newOrder → newOrder.visibleQuantity ≤ u64Max) :
    FailsCleanly u b ↔ ∀ newOrder, b.Moves u newOrder →
      b.invalidateCache.MoveAccepted (target u) newOrder →
        (b.withdrawn (target u)).Readmits newOrder := by
  have hb := hreach.sound
  refine ⟨fun hclean newOrder hmoves haccepted => ?_, fun hreadmits => ?_⟩
  · rcases updateOrder_cases u b with
      ⟨hstays, -⟩ | ⟨id, q, rfl, -⟩ | ⟨id, rfl, -⟩ | ⟨newOrder', hmoves', hrun⟩
    · exact absurd hmoves (hstays newOrder)
    · obtain ⟨original, -, hmoved⟩ := hmoves.moved
      cases hmoved
    · obtain ⟨original, -, hmoved⟩ := hmoves.moved
      cases hmoved
    obtain rfl := hmoves.unique hmoves'
    rcases modifyOrder_step (target u) newOrder b.invalidateCache with
      ⟨hrefused, -⟩ | ⟨-, b₀, hquiet, hclock, hmodify⟩
    · exact absurd haccepted hrefused
    have hquiet' := b.quiet_invalidateCache.trans hquiet
    by_contra hnot
    -- the second pass fails, and the id of the original is not registered any more
    obtain ⟨original, hget, hmoved⟩ := hmoves.moved
    obtain ⟨side, price, l, hplace, -, -, horiginal⟩ := getOrder_eq_some hget
    have hwithdraws := withdraws_of_getOrder hb hquiet'.sameState hget
    rcases hadd : (addOrderInner newOrder false
        (b₀.cancelOrderWithReason (target u) .userRequested).1).1 with e | r
    · have hgone := lookup_of_addOrderInner_error hadd
        (by rw [movedOrder_id hmoved horiginal]; exact hwithdraws.fresh)
      have hsame := (hclean ⟨e, by rw [hrun, hmodify, hadd]; rfl⟩).locations
      rw [hrun, hmodify] at hsame
      rw [movedOrder_id hmoved horiginal, horiginal] at hgone
      rw [hsame, hplace] at hgone
      cases hgone
    · exact hnot ((succeeds_readmission_iff hb hmoves haccepted (hfits newOrder hmoves) hquiet'
        hclock).mp ⟨r, hadd⟩)
  · rintro ⟨e, hfails⟩
    exact (quiet_of_fails hb hfits hreadmits hfails).sameState.unchanged

end Main

/-- Two bids and an ask, then a price band of ten percent around the mid. -/
def bandedQuotes : List Op :=
  [.command (.addOrder ⟨1, 100, .buy, 7, 0, .gtc, 5, .standard⟩),
    .command (.addOrder ⟨2, 50, .buy, 7, 0, .gtc, 5, .standard⟩),
    .command (.addOrder ⟨3, 110, .sell, 8, 0, .gtc, 5, .standard⟩),
    .configure (.riskConfig (some ⟨none, none, some 1000, some .mid⟩))]

def bandedBook : OrderBook FifoLevel :=
  letI := noDigest
  (Session.run { book := (withClock "BTC" ⟨fun n => n, 0⟩ : OrderBook FifoLevel) }
    bandedQuotes).book

/-- A move out of the band is refused while the original still rests. -/
theorem bandedQuotes_fails_cleanly :
    (∃ e, (updateOrder (.updatePrice 1 500) bandedBook).1 = .error e) ∧
      FailsCleanly (.updatePrice 1 500) bandedBook := by
  let _ := noDigest
  have hreach : bandedBook.Reachable := ⟨"BTC", ⟨fun n => n, 0⟩, bandedQuotes, rfl⟩
  have hnew : ∀ newOrder, bandedBook.Moves (.updatePrice 1 500) newOrder →
      newOrder = ⟨1, 500, .buy, 7, 0, .gtc, 5, .standard⟩ := by
    rintro newOrder ⟨-, ⟨original, hget, hmoved⟩, -⟩
    have horiginal : bandedBook.getOrder 1 =
        some ⟨1, 100, .buy, 7, 0, .gtc, 5, .standard⟩ := by decide
    obtain rfl := Option.some.inj (horiginal.symm.trans hget)
    exact (Option.some.inj hmoved).symm
  refine ⟨⟨_, rfl⟩, (fails_cleanly_iff hreach fun newOrder hmoves => ?_).mpr
    fun newOrder hmoves haccepted => ?_⟩
  · rw [hnew newOrder hmoves]
    decide
  · have hrefused : (bandedBook.invalidateCache.riskState.checkModifyAdmission 1 7 500 5
        bandedBook.invalidateCache.riskReference.1).isOk = false := by decide
    rw [hnew newOrder hmoves] at haccepted
    have haccepted' : bandedBook.invalidateCache.riskState.checkModifyAdmission 1 7 500 5
        bandedBook.invalidateCache.riskReference.1 = .ok () := haccepted.risk
    rw [haccepted'] at hrefused
    cases hrefused

/-- **A failed move loses the original.** A bid at 95 is within ten percent of the mid 105; once the
bid at 100 is cancelled the mid is 80 and the new order is refused. -/
theorem bandedQuotes_not_fails_cleanly :
    (∃ e, (updateOrder (.updatePrice 1 95) bandedBook).1 = .error e) ∧
      ¬ FailsCleanly (.updatePrice 1 95) bandedBook := by
  have hfails : ∃ e, (updateOrder (.updatePrice 1 95) bandedBook).1 = .error e := ⟨_, rfl⟩
  refine ⟨hfails, fun hclean => ?_⟩
  have hsame := congrArg (AList.lookup 1) (hclean hfails).locations
  have hbefore : bandedBook.orderLocations.lookup 1 = some (100, .buy) := by decide
  have hafter : (updateOrder (.updatePrice 1 95) bandedBook).2.orderLocations.lookup 1 = none := by
    decide
  rw [hbefore, hafter] at hsame
  cases hsame

end OrderBookRs
