import OrderBookRs.FifoLevel
import OrderBookRs.Accounting
import OrderBookRs.Queues

/-!
# Post-only orders

A post-only order is refused if it would cross. The cached best price that this check reads may be
stale, and then the probe inside the sweep decides: a dry run that comes before the self-trade arms.
So a post-only order never trades and never cancels a resting order, whatever the cache holds. An
accepted order without quantity is reported as filled and does not rest.

## Main definitions

* `OrderBook.Undisturbed`: the queues, the indices and the trades are the same.
* `RestsOrFails`: an order comes to rest as it is, or fails and disturbs nothing.

## Main results

* `sweepOf_postOnly`: the sweep of a post-only order changes nothing and matches nothing.
* `postOnly_restsOrFails_iff`: a post-only order rests or fails if and only if it has some quantity
  or is refused.
-/

namespace OrderBookRs

open PriceLevel Fallible OrderBook

variable {L : Type} [PriceLevel L] {b b' : OrderBook L}

/-! ### The sweep -/

/-- A sweep without quantity stops at once. -/
theorem sweepLoop_of_spent {t : Taker} (entries : List (ℕ × L)) {sw : Sweep L}
    (hstop : sw.stop = .baseQty 0) : sweepLoop t entries sw = sw := by
  cases entries with
  | nil => rfl
  | cons e entries =>
    have hcap : sw.stop.levelQtyCap e.1 t.lot = 0 := by
      rw [hstop]
      exact Nat.le_zero.mp (lotFloor_le ..)
    have hlevel : sweepLevel t sw e.1 e.2 = (sw, false) := by
      rw [sweepLevel]
      rw [if_pos hcap, ite_self]
    rw [sweepLoop, hlevel]
    rfl

/-- **The sweep of a post-only order** changes nothing and matches nothing; it may find that the
order crosses, unless the order has no quantity. -/
theorem sweepOf_postOnly [LevelQueue L] [LevelMatch L] {o : Order} (hpost : o.isPostOnly)
    (b : OrderBook L) :
    ∃ rejected b', b.SameState b' ∧ (o.totalQuantity = 0 → rejected = false) ∧
      sweepOf o b = (.ok ⟨.new o.id o.totalQuantity, false, rejected⟩, b') := by
  have hsame := sameState_sweepOf_of_postOnly (b := b) hpost
  rcases sweepOf_cases o b with ⟨-, hrun⟩ | ⟨tracker, hrun⟩
  · rw [hrun] at hsame
    exact ⟨false, _, hsame, fun _ => rfl, hrun⟩
  · have hkind : (b.takerOf o).kind = .postOnly := by
      rw [takerOf, taker, takerKind, if_pos hpost]
    -- the probes match nothing and cancel nothing
    have hprobes : (b.sweepFor o).result = .new o.id o.totalQuantity ∧
        (b.sweepFor o).stpTakerCancelled = false := by
      refine sweepLoop_keeps (J := fun _ sw => sw.result = .new o.id o.totalQuantity ∧
        sw.stpTakerCancelled = false) (fun _ _ _ _ v h => ?_) (nodup_sweepEntries ..)
        (fun _ he => mem_sweepEntries.mp he) (.self (b.openSweep.startSweep (b.takerOf o)
          (.baseQty o.totalQuantity (some o.price)))) ⟨rfl, rfl⟩
      cases v with
      | ends | passes | rejects => exact h
      | fills asks | stopsTaker asks | withdraws asks | fillsOthers asks | stopsBoth asks =>
        cases hkind.symm.trans asks.kind
    rw [hprobes.2, hprobes.1, if_neg (by simp)] at hrun
    rw [hrun] at hsame
    refine ⟨(b.sweepFor o).postOnlyRejected, _, hsame, fun hzero => ?_, hrun⟩
    have hspent : b.sweepFor o = b.openSweep.startSweep (b.takerOf o)
        (.baseQty o.totalQuantity (some o.price)) :=
      sweepLoop_of_spent _ (congrArg StopCondition.baseQty hzero)
    rw [hspent]
    rfl

/-! ### Adding a post-only order -/

/-- The queues, the indices, the risk counters and the trades are the same. -/
structure OrderBook.Undisturbed (b b' : OrderBook L) : Prop where
  queues : b'.queueAt = b.queueAt
  locations : b'.orderLocations = b.orderLocations
  users : b'.userOrders = b.userOrders
  risk : b'.riskState = b.riskState
  special : b'.specialOrderTracker = b.specialOrderTracker
  fills : b'.fills = b.fills

theorem OrderBook.SameOrders.undisturbed (h : b.SameOrders b') : b.Undisturbed b' := by
  obtain ⟨_, _, _, _, _, rfl⟩ := h
  exact ⟨rfl, rfl, rfl, rfl, rfl, rfl⟩

theorem OrderBook.Undisturbed.trans {b'' : OrderBook L} (h : b.Undisturbed b')
    (h' : b'.Undisturbed b'') : b.Undisturbed b'' :=
  ⟨h'.queues.trans h.queues, h'.locations.trans h.locations, h'.users.trans h.users,
    h'.risk.trans h.risk, h'.special.trans h.special, h'.fills.trans h.fills⟩

/-- Nothing trades, and the order comes to rest as it is behind the orders at its price and moves no
other, or it fails and disturbs nothing. -/
def RestsOrFails (o : Order) (b : OrderBook L) : Prop :=
  ((addOrder o b).1 = .ok o ∧ (addOrder o b).2.fills = b.fills ∧
      ∀ side price, (addOrder o b).2.queueAt side price =
        if side = o.side ∧ price = o.price then b.queueAt side price ++ [o]
        else b.queueAt side price) ∨
    (∃ e, (addOrder o b).1 = .error e) ∧ b.Undisturbed (addOrder o b).2

section Add

variable [LevelQueue L] [LevelMatch L] {o : Order}

omit [LevelMatch L] in
/-- A residual that its level refuses disturbs nothing. -/
theorem undisturbed_restResidual {remaining : ℕ} {e : OrderBookError}
    (hrun : restResidual o remaining b = (.error e, b')) : b.Undisturbed b' := by
  rcases restResidual_cases o remaining b with
    ⟨_, _, -, -, -, hok, -⟩ | ⟨_, -, -, hsame | ⟨⟨l, hl, hnil⟩, hsame⟩⟩
  · rw [hrun] at hok
    cases hok
  · rw [hrun] at hsame
    exact hsame.sameOrders.undisturbed
  · rw [hrun] at hsame
    have hremoved : b.Undisturbed (b.removeLevel o.side o.price) := by
      refine ⟨queueAt_removeLevel_of_nil hl hnil, ?_, ?_, ?_, ?_, ?_⟩ <;> cases o.side <;> rfl
    exact hremoved.trans hsame.sameOrders.undisturbed

omit [LevelMatch L] in
/-- An order of which nothing was matched comes to rest as it is. -/
theorem restResidual_whole {r : Order} (hrun : restResidual o o.totalQuantity b = (.ok r, b')) :
    r = o ∧ b'.fills = b.fills ∧ ∀ side price, b'.queueAt side price =
      if side = o.side ∧ price = o.price then b.queueAt side price ++ [o]
      else b.queueAt side price := by
  have hwhole : residual o o.totalQuantity = o := if_neg (lt_irrefl _)
  have hfills := restResidual_fills o o.totalQuantity b
  rcases restResidual_cases o o.totalQuantity b with
    ⟨l, l', hlevel, -, horders, hok, hstate⟩ | ⟨_, -, herror, -⟩
  · rw [hrun, hwhole] at hok
    rw [hrun] at hstate hfills
    cases hok
    refine ⟨rfl, hfills, fun side price => ?_⟩
    rw [hstate.queueAt_eq, queueAt_restAt _ hlevel horders, hwhole]
  · rw [hrun] at herror
    cases herror

/-- **Post-only orders never take.** On every book, whatever its best-price cache holds, a post-only
order comes to rest as it is or fails and disturbs nothing, if and only if it has some quantity or
is refused. -/
theorem postOnly_restsOrFails_iff (hpost : o.isPostOnly) (b : OrderBook L) :
    RestsOrFails o b ↔ 0 < o.totalQuantity ∨ ¬ b.Accepted o := by
  have hstep := addOrderInner_step o false b
  rw [RestsOrFails, addOrder_fst, addOrder_snd]
  generalize (addOrderInner o false b).1 = result at hstep ⊢
  generalize (addOrderInner o false b).2 = b' at hstep ⊢
  have hswept : ∀ {b₀ b₁ : OrderBook L} {outcome}, b.Quiet b₀ →
      sweepOf o b₀ = (.ok outcome, b₁) → b.SameState b₁ ∧
        outcome.result = .new o.id o.totalQuantity ∧ outcome.takerStpCancelled = false ∧
        (o.totalQuantity = 0 → outcome.takerPostOnlyRejected = false) := by
    intro b₀ b₁ outcome hquiet hrun
    obtain ⟨rejected, b₂, hsame', hzero, hrun'⟩ := sweepOf_postOnly hpost b₀
    cases hrun.symm.trans hrun'
    exact ⟨hquiet.sameState.trans hsame', rfl, rfl, hzero⟩
  have hemits : ∀ {b₁ : OrderBook L}, b.SameState b₁ → ∀ r,
      b.SameOrders (emitTrades false r b₁).2 := fun hsame r =>
    SameOrders.trans hsame.sameOrders (sameOrders_emitTrades false r _)
  cases hstep with
  | refused refusal _ view =>
    exact iff_of_true (Or.inr ⟨⟨_, rfl⟩, view.sameState.sameOrders.undisturbed⟩) (Or.inr refusal)
  | @failed _ b₀ _ _ _ run =>
    obtain ⟨_, _, -, -, hok⟩ := sweepOf_postOnly hpost b₀
    cases run.symm.trans hok
  | rejected _ quiet run flag recorded =>
    obtain ⟨hsame, -, -, hzero⟩ := hswept quiet run
    refine iff_of_true (Or.inr ⟨⟨_, rfl⟩, ?_⟩) (Or.inl ?_)
    · exact (hsame.trans (sameState_of_rejected recorded)).sameOrders.undisturbed
    · refine Nat.pos_of_ne_zero fun hnone => ?_
      rw [hzero hnone] at flag
      cases flag
  | stpCancelled _ quiet run _ stp =>
    rw [(hswept quiet run).2.2.1] at stp
    cases stp
  | @filled _ _ b₁ outcome accepted quiet run _ _ zero =>
    obtain ⟨hsame, hresult, -, -⟩ := hswept quiet run
    rw [hresult] at zero
    refine iff_of_false ?_ (not_or.mpr ⟨Nat.not_lt.mpr zero.le, not_not.mpr accepted⟩)
    rintro (⟨-, -, hqueues⟩ | ⟨⟨_, herror⟩, -⟩)
    · have hqueue := hqueues o.side o.price
      rw [if_pos ⟨rfl, rfl⟩, (sameView_trackState ..).sameState.queueAt_eq,
        (hemits hsame _).queueAt_eq] at hqueue
      simp at hqueue
    · cases herror
  | dropped _ quiet run _ _ pos =>
    obtain ⟨hsame, hresult, -, -⟩ := hswept quiet run
    rw [hresult] at pos
    refine iff_of_true (Or.inr ⟨⟨_, rfl⟩, ?_⟩) (Or.inl (Nat.pos_of_ne_zero pos))
    exact (hemits hsame _).undisturbed.trans
      (sameView_trackState ..).sameState.sameOrders.undisturbed
  | levelRefused _ quiet run _ _ pos _ rest =>
    obtain ⟨hsame, hresult, -, -⟩ := hswept quiet run
    rw [hresult] at pos
    refine iff_of_true (Or.inr ⟨⟨_, rfl⟩, ?_⟩) (Or.inl (Nat.pos_of_ne_zero pos))
    exact (hemits hsame _).undisturbed.trans (undisturbed_restResidual rest)
  | rests _ quiet run _ _ pos _ rest =>
    obtain ⟨hsame, hresult, -, -⟩ := hswept quiet run
    rw [hresult] at pos rest
    obtain ⟨rfl, hfills, hqueues⟩ := restResidual_whole rest
    refine iff_of_true (Or.inl ⟨rfl, ?_, fun side price => ?_⟩) (Or.inl (Nat.pos_of_ne_zero pos))
    · rw [hfills, emitTrades_fills, hsame.fills_eq]
    · rw [hqueues, (hemits hsame _).queueAt_eq]

end Add

/-- A book with an ask of user 7 at 100 whose cached best ask is 200. -/
def staleAskBook : OrderBook FifoLevel :=
  let b := (withClock "BTC" ⟨fun n => n, 0⟩ : OrderBook FifoLevel).execute
    (.addOrder ⟨1, 100, .sell, 7, 0, .gtc, 5, .standard⟩)
  { b with
    stpMode := .cancelMaker
    cache := { bestAskPrice := 200, askValid := true } }

/-- The stale cache lets a crossing bid of the same user through, and the probe refuses it before
self-trade prevention would cancel the ask. -/
theorem staleAskBook_restsOrFails :
    (staleAskBook.willCrossMarket 105 .buy).1 = false ∧
      RestsOrFails ⟨2, 105, .buy, 7, 0, .gtc, 3, .postOnly⟩ staleAskBook ∧
      (addOrder ⟨2, 105, .buy, 7, 0, .gtc, 3, .postOnly⟩ staleAskBook).1 =
        .error (.priceCrossing 105 .buy 100) := by
  refine ⟨by decide, ?_, by decide⟩
  exact (postOnly_restsOrFails_iff rfl staleAskBook).mpr (Or.inl (by decide))

/-- **A post-only order without quantity** is accepted and does not rest. -/
theorem emptyPostOnly_not_restsOrFails :
    (addOrder ⟨2, 50, .buy, 7, 0, .gtc, 0, .postOnly⟩ staleAskBook).1 =
        .ok ⟨2, 50, .buy, 7, 0, .gtc, 0, .postOnly⟩ ∧
      (addOrder ⟨2, 50, .buy, 7, 0, .gtc, 0, .postOnly⟩ staleAskBook).2.getOrder 2 = none ∧
      ¬ RestsOrFails ⟨2, 50, .buy, 7, 0, .gtc, 0, .postOnly⟩ staleAskBook := by
  have hok : (addOrder ⟨2, 50, .buy, 7, 0, .gtc, 0, .postOnly⟩ staleAskBook).1 =
      .ok ⟨2, 50, .buy, 7, 0, .gtc, 0, .postOnly⟩ := by decide
  refine ⟨hok, by decide, ?_⟩
  rintro (⟨-, -, hqueues⟩ | ⟨⟨e, herror⟩, -⟩)
  · exact absurd (hqueues .buy 50) (by decide)
  · rw [hok] at herror
    cases herror

end OrderBookRs
