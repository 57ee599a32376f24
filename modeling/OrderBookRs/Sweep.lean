import Mathlib.Logic.Relation
import OrderBookRs.DryRun
import OrderBookRs.Frame

/-!
# The sweep as a sequence of steps

Whatever arm of the loop is taken, a sweep does four things only: it fills makers of the level it
stands at, it cancels an order of the taker's own user there, it marks the level as empty, it raises
a flag. `SweepStep` is that list, with everything the loop has established when it acts, and
`sweepLoop_steps` says that the whole loop is a sequence of such steps. An invariant of the sweep is
then proved step by step, once per kind of step.

## Main definitions

* `StpSafe`: a match of this size ends before the first order of the taker's own user.
* `SweepStep`, `SweepRun`: one step at a price, and any number of steps.

## Main results

* `sweepLoop_steps`: the loop is a `SweepRun`.
* `SweepRun.invariant`: what every step preserves, a run preserves.
* `OrderBook.matchOrderInner_cases`: what `match_order_inner` returns, in terms of the sweep.
-/

namespace OrderBookRs

open PriceLevel

variable {t : Taker} {price price' q safe : ℕ} {user : Hash32} {side' : Side} {queue : List Order}
  {id : OrderId} {x : Order} {mode : MatchMode}

/-! ### The own orders of a queue -/

/-- What `firstOwn` finds: the first order of the user, and at most the display ahead of it. -/
theorem firstOwn_eq_some {acc : ℕ} (h : firstOwn user queue acc = some (safe, id)) :
    ∃ ahead o behind, queue = ahead ++ o :: behind ∧ o.userId = user ∧ o.id = id ∧
      (∀ x ∈ ahead, x.userId ≠ user) ∧
      safe ≤ acc + (ahead.map Order.visibleQuantity).sum := by
  induction queue generalizing acc with
  | nil => simp [firstOwn] at h
  | cons o rest ih =>
    rw [firstOwn] at h
    split_ifs at h with ho
    · obtain ⟨rfl, rfl⟩ := Prod.mk.inj (Option.some.inj h)
      exact ⟨[], o, rest, rfl, ho, rfl, by simp, by simp⟩
    · obtain ⟨ahead, x, behind, rfl, hx, hid, hahead, hsafe⟩ := ih h
      refine ⟨o :: ahead, x, behind, rfl, hx, hid, ?_, ?_⟩
      · intro y hy
        rcases List.mem_cons.mp hy with rfl | hy
        · exact ho
        · exact hahead y hy
      · have hadd : satAdd64 acc o.visibleQuantity ≤ acc + o.visibleQuantity := min_le_left ..
        rw [List.map_cons, List.sum_cons]
        omega

theorem firstOwn_eq_none {acc : ℕ} :
    firstOwn user queue acc = none ↔ ∀ o ∈ queue, o.userId ≠ user := by
  induction queue generalizing acc with
  | nil => simp [firstOwn]
  | cons o rest ih =>
    rw [firstOwn]
    split_ifs with ho
    · simp [ho]
    · simp [ih, ho]

/-- A match of size `q` ends before the first order of the taker's own user. -/
def StpSafe (t : Taker) (queue : List Order) (q : ℕ) : Prop :=
  t.stpActive → ∀ safe id, firstOwn t.userId queue 0 = some (safe, id) → q ≤ safe

theorem StpSafe.of_no_own (h : ∀ o ∈ queue, o.userId ≠ t.userId) : StpSafe t queue q := by
  intro _ safe id hown
  rw [firstOwn_eq_none.mpr h] at hown
  cases hown

/-! ### Steps -/

variable {L : Type} [PriceLevel L] {sw sw' : Sweep L} {b : OrderBook L} {entries : List (ℕ × L)}

/-- The sweep after a match of size `q` at `price` that returned `r` and left the level `l`. -/
def fillLevel (t : Taker) (sw : Sweep L) (price q : ℕ) (r : MatchResult) (l : L) : Sweep L :=
  let sw' : Sweep L :=
    processLevelMatch { sw with book := sw.book.setLevel t.side.opposite price l } t price l r
  { sw' with stop := sw'.stop.consume (q - r.remainingQuantity) price }

/-- The book after self-trade prevention cancelled the maker `o`, leaving the level `l`. -/
def OrderBook.stpCancel (b : OrderBook L) (side : Side) (price : ℕ) (l : L) (o : Order) :
    OrderBook L :=
  (((b.setLevel side price l).invalidateCache).deliverLevelChange side (PriceLevel.price l)
    (visibleQuantity l)).releaseCancelled o.id o.userId .selfTradePrevention

/-- One step of a sweep at a price, every match of which is in `F`. -/
inductive PlannedStep (t : Taker) (F : L → ℕ → Prop) (price : ℕ) : Sweep L → Sweep L → Prop
  /-- Fill makers of the level, within the limit, the budget and the self-trade bound. -/
  | fill {sw : Sweep L} {q : ℕ} {l l' : L} {r : MatchResult}
      (level : (sw.book.levels t.side.opposite).get? price = some l)
      (kind : t.kind = .standard) (allows : t.allows price) (pos : 0 < q)
      (cap : q ≤ sw.stop.levelQtyCap price t.lot) (safe : StpSafe t (orders l) q)
      (run : matchOrder l q t.orderId .standard = (r, l')) (planned : F l q) :
      PlannedStep t F price sw (fillLevel t sw price q r l')
  /-- Cancel an order of the taker's own user. -/
  | cancel {sw : Sweep L} {l l' : L} {o : Order}
      (level : (sw.book.levels t.side.opposite).get? price = some l)
      (mode : t.stpMode = .cancelMaker ∨ t.stpMode = .cancelBoth) (user : t.userId ≠ 0)
      (mem : o ∈ orders l) (own : o.userId = t.userId)
      (orders_eq : orders l' = (orders l).filter fun x => x.id ≠ o.id)
      (run : updateOrder l (.cancel o.id) = (.ok (some o), l')) :
      PlannedStep t F price sw { sw with book := sw.book.stpCancel t.side.opposite price l' o }
  /-- Mark the level as empty. -/
  | markEmpty {sw : Sweep L} {l : L}
      (level : (sw.book.levels t.side.opposite).get? price = some l) (nil : orders l = []) :
      PlannedStep t F price sw { sw with emptyPriceLevels := sw.emptyPriceLevels ++ [price] }
  /-- Raise a flag. -/
  | flag {sw : Sweep L} (stp rejected : Bool) :
      PlannedStep t F price sw { sw with stpTakerCancelled := stp, postOnlyRejected := rejected }

/-- One step of a sweep at a price. -/
abbrev SweepStep (t : Taker) (price : ℕ) : Sweep L → Sweep L → Prop :=
  PlannedStep t (fun _ _ => True) price

theorem PlannedStep.mono {F G : L → ℕ → Prop} (hFG : ∀ {l q}, F l q → G l q)
    (h : PlannedStep t F price sw sw') : PlannedStep t G price sw sw' := by
  cases h with
  | fill level kind allows pos cap safe run planned =>
    exact .fill level kind allows pos cap safe run (hFG planned)
  | cancel level mode user mem own orders_eq run =>
    exact .cancel level mode user mem own orders_eq run
  | markEmpty level nil => exact .markEmpty level nil
  | flag stp rejected => exact .flag stp rejected

theorem PlannedStep.step {F : L → ℕ → Prop} (h : PlannedStep t F price sw sw') :
    SweepStep t price sw sw' := h.mono fun _ => trivial

/-- Any number of steps, at any prices. -/
def PlannedRun (t : Taker) (F : L → ℕ → Prop) : Sweep L → Sweep L → Prop :=
  Relation.ReflTransGen fun sw sw' => ∃ price, PlannedStep t F price sw sw'

/-- Any number of steps at one price. -/
def PlannedSteps (t : Taker) (F : L → ℕ → Prop) (price : ℕ) : Sweep L → Sweep L → Prop :=
  Relation.ReflTransGen (PlannedStep t F price)

@[inherit_doc PlannedRun]
abbrev SweepRun (t : Taker) : Sweep L → Sweep L → Prop := PlannedRun t fun _ _ => True

theorem PlannedSteps.run {F : L → ℕ → Prop} (h : PlannedSteps t F price sw sw') :
    PlannedRun t F sw sw' :=
  Relation.ReflTransGen.mono (fun _ _ hs => ⟨price, hs⟩) _ _ h

theorem PlannedSteps.mono {F G : L → ℕ → Prop} (hFG : ∀ {l q}, F l q → G l q)
    (h : PlannedSteps t F price sw sw') : PlannedSteps t G price sw sw' :=
  Relation.ReflTransGen.mono (fun _ _ hs => hs.mono hFG) _ _ h

theorem PlannedRun.mono {F G : L → ℕ → Prop} (hFG : ∀ {l q}, F l q → G l q)
    (h : PlannedRun t F sw sw') : PlannedRun t G sw sw' :=
  Relation.ReflTransGen.mono (fun _ _ ⟨price, hs⟩ => ⟨price, hs.mono hFG⟩) _ _ h

/-- **What every step preserves, a run preserves.** -/
theorem PlannedRun.invariant {F : L → ℕ → Prop} {J : Sweep L → Prop} (h : PlannedRun t F sw sw')
    (hstep : ∀ {price sw sw'}, PlannedStep t F price sw sw' → J sw → J sw') (hJ : J sw) :
    J sw' := by
  induction h with
  | refl => exact hJ
  | tail _ hlast ih =>
    obtain ⟨price, hs⟩ := hlast
    exact hstep hs ih

/-! ### What a step leaves alone -/

theorem sameOrders_applyFills (b : OrderBook L) (side : Side) (price : ℕ) (l : L)
    (trades : List Trade) :
    ({ b with
        lastTradePrice := price
        hasTraded := true
        riskState := trades.foldl (fun r t => r.onFill t.makerOrderId t.quantity) b.riskState
        fills := b.fills ++ trades } : OrderBook L).SameOrders
      (b.applyFills side price l trades) :=
  OrderBook.sameOrders_deliverLevelChange _ _ _ _

/-- A fill writes the level, the trade history, the last trade and the risk state. -/
theorem fillLevel_book (t : Taker) (sw : Sweep L) (price q : ℕ) (r : MatchResult) (l : L) :
    ∃ lastTradePrice hasTraded,
      ({ sw.book.setLevel t.side.opposite price l with
          lastTradePrice := lastTradePrice
          hasTraded := hasTraded
          riskState := r.trades.foldl (fun s x => s.onFill x.makerOrderId x.quantity)
            sw.book.riskState
          fills := sw.book.fills ++ r.trades } : OrderBook L).SameOrders
        (fillLevel t sw price q r l).book := by
  rw [fillLevel, processLevelMatch]
  by_cases h : r.trades.isEmpty
  · refine ⟨sw.book.lastTradePrice, sw.book.hasTraded, ?_⟩
    simp only [if_pos h]
    rw [List.isEmpty_iff.mp h, List.foldl_nil, List.append_nil]
    exact .refl _
  · refine ⟨price, true, ?_⟩
    simp only [if_neg h]
    exact sameOrders_applyFills (sw.book.setLevel t.side.opposite price l) ..

/-- A cancel writes the level and the four indices. -/
theorem stpCancel_sameOrders (b : OrderBook L) (side : Side) (price : ℕ) (l : L) (o : Order) :
    ({ b.setLevel side price l with
        orderLocations := b.orderLocations.erase o.id
        riskState := b.riskState.onCancel o.id
        userOrders := b.userOrders.untrackUser o.userId o.id
        specialOrderTracker := b.specialOrderTracker.unregister o.id } : OrderBook L).SameOrders
      (b.stpCancel side price l o) := by
  obtain ⟨cache, h⟩ := (b.setLevel side price l).invalidateCache.deliverLevelChange_eq side
    (PriceLevel.price l) (visibleQuantity l)
  rw [OrderBook.stpCancel, h]
  exact ⟨_, _, _, _, _, rfl⟩

theorem fillLevel_get? (t : Taker) (sw : Sweep L) (price q : ℕ) (r : MatchResult) (l : L)
    (side' : Side) (price' : ℕ) :
    ((fillLevel t sw price q r l).book.levels side').get? price' =
      if side' = t.side.opposite ∧ price' = price then some l
      else (sw.book.levels side').get? price' := by
  obtain ⟨_, _, _, _, _, _, _, h⟩ := fillLevel_book t sw price q r l
  rw [h]
  exact OrderBook.get?_setLevel ..

theorem stpCancel_get? (b : OrderBook L) (side side' : Side) (price price' : ℕ) (l : L)
    (o : Order) : ((b.stpCancel side price l o).levels side').get? price' =
      if side' = side ∧ price' = price then some l else (b.levels side').get? price' := by
  obtain ⟨_, _, _, _, _, h⟩ := stpCancel_sameOrders b side price l o
  rw [h]
  exact OrderBook.get?_setLevel ..

section Fields

variable (t : Taker) (sw : Sweep L) (price q : ℕ) (r : MatchResult) (l : L)

theorem fillLevel_rests {o : Order} :
    (fillLevel t sw price q r l).book.Rests side' price' o ↔
      if side' = t.side.opposite ∧ price' = price then o ∈ orders l
      else sw.book.Rests side' price' o := by
  simp only [OrderBook.Rests, fillLevel_get?]
  split_ifs
  · simp
  · rfl

@[simp] theorem fillLevel_orderLocations :
    (fillLevel t sw price q r l).book.orderLocations = sw.book.orderLocations := by
  obtain ⟨_, _, _, _, _, _, _, h⟩ := fillLevel_book t sw price q r l
  rw [h]
  rfl

@[simp] theorem fillLevel_userOrders :
    (fillLevel t sw price q r l).book.userOrders = sw.book.userOrders := by
  obtain ⟨_, _, _, _, _, _, _, h⟩ := fillLevel_book t sw price q r l
  rw [h]
  rfl

@[simp] theorem fillLevel_specialOrderTracker :
    (fillLevel t sw price q r l).book.specialOrderTracker = sw.book.specialOrderTracker := by
  obtain ⟨_, _, _, _, _, _, _, h⟩ := fillLevel_book t sw price q r l
  rw [h]
  rfl

theorem fillLevel_riskState : (fillLevel t sw price q r l).book.riskState =
    r.trades.foldl (fun s x => s.onFill x.makerOrderId x.quantity) sw.book.riskState := by
  obtain ⟨_, _, _, _, _, _, _, h⟩ := fillLevel_book t sw price q r l
  rw [h]

@[simp] theorem fillLevel_filledIds :
    (fillLevel t sw price q r l).filledOrders.map Prod.fst =
      sw.filledOrders.map Prod.fst ++ r.filledOrderIds := by
  rw [fillLevel, processLevelMatch]
  simp [Function.comp_def]

theorem mem_fillLevel_empty {p : ℕ} : p ∈ (fillLevel t sw price q r l).emptyPriceLevels ↔
    p ∈ sw.emptyPriceLevels ∨ orderCount l = 0 ∧ p = price := by
  rw [fillLevel, processLevelMatch]
  dsimp only
  split_ifs with hzero <;> simp [hzero]

variable (b : OrderBook L) (side : Side) (o : Order)

theorem stpCancel_riskState :
    (b.stpCancel side price l o).riskState = b.riskState.onCancel o.id := by
  obtain ⟨_, _, _, _, _, h⟩ := stpCancel_sameOrders b side price l o
  rw [h]

theorem stpCancel_rests :
    (b.stpCancel side price l o).Rests side' price' x ↔
      if side' = side ∧ price' = price then x ∈ orders l else b.Rests side' price' x := by
  simp only [OrderBook.Rests, stpCancel_get?]
  split_ifs
  · simp
  · rfl

@[simp] theorem stpCancel_orderLocations :
    (b.stpCancel side price l o).orderLocations = b.orderLocations.erase o.id := by
  obtain ⟨_, _, _, _, _, h⟩ := stpCancel_sameOrders b side price l o
  rw [h]

@[simp] theorem stpCancel_userOrders :
    (b.stpCancel side price l o).userOrders = b.userOrders.untrackUser o.userId o.id := by
  obtain ⟨_, _, _, _, _, h⟩ := stpCancel_sameOrders b side price l o
  rw [h]

@[simp] theorem stpCancel_specialOrderTracker :
    (b.stpCancel side price l o).specialOrderTracker = b.specialOrderTracker.unregister o.id := by
  obtain ⟨_, _, _, _, _, h⟩ := stpCancel_sameOrders b side price l o
  rw [h]

end Fields

/-- A step touches the one level it stands at. -/
theorem PlannedStep.get?_of_ne {F : L → ℕ → Prop} (h : PlannedStep t F price sw sw')
    (hne : ¬ (side' = t.side.opposite ∧ price' = price)) :
    (sw'.book.levels side').get? price' = (sw.book.levels side').get? price' := by
  cases h with
  | fill => rw [fillLevel_get?, if_neg hne]
  | cancel => rw [stpCancel_get?, if_neg hne]
  | markEmpty | flag => rfl

theorem PlannedSteps.get?_of_ne {F : L → ℕ → Prop} (h : PlannedSteps t F price sw sw')
    (hne : ¬ (side' = t.side.opposite ∧ price' = price)) :
    (sw'.book.levels side').get? price' = (sw.book.levels side').get? price' := by
  induction h with
  | refl => rfl
  | tail _ hs ih => rw [hs.get?_of_ne hne, ih]

/-- The levels not visited yet stay as they were. -/
theorem PlannedSteps.levels_of_notMem {F : L → ℕ → Prop} (h : PlannedSteps t F price sw sw')
    (hnotMem : price ∉ entries.map Prod.fst)
    (hlevels : ∀ e ∈ entries, (sw.book.levels t.side.opposite).get? e.1 = some e.2) :
    ∀ e ∈ entries, (sw'.book.levels t.side.opposite).get? e.1 = some e.2 := by
  intro e he
  rw [h.get?_of_ne fun heq => hnotMem (heq.2 ▸ List.mem_map_of_mem he)]
  exact hlevels e he

theorem PlannedStep.empty_subset {F : L → ℕ → Prop} (h : PlannedStep t F price sw sw') :
    sw.emptyPriceLevels ⊆ sw'.emptyPriceLevels := by
  cases h with
  | fill =>
    rw [fillLevel, processLevelMatch]
    dsimp only
    split_ifs
    · exact List.subset_append_left ..
    · exact fun _ hp => hp
  | cancel => exact fun _ hp => hp
  | markEmpty => exact List.subset_append_left ..
  | flag => exact fun _ hp => hp

theorem PlannedRun.empty_subset {F : L → ℕ → Prop} (h : PlannedRun t F sw sw') :
    sw.emptyPriceLevels ⊆ sw'.emptyPriceLevels :=
  h.invariant (J := fun sw' => sw.emptyPriceLevels ⊆ sw'.emptyPriceLevels)
    (fun hs hsub _ hp => hs.empty_subset (hsub hp)) fun _ hp => hp

/-! ### The sweep follows its plan -/

theorem Taker.kind_eq_postOnly (t : Taker) (h : t.kind.isPostOnly) : t.kind = .postOnly := by
  cases hk : t.kind with
  | standard => simp [hk, TakerKind.isPostOnly] at h
  | postOnly => rfl

theorem Taker.kind_eq_standard (t : Taker) (h : ¬ t.kind.isPostOnly) : t.kind = .standard := by
  cases hk : t.kind with
  | standard => rfl
  | postOnly => simp [hk, TakerKind.isPostOnly] at h

theorem Taker.stpActive_iff (t : Taker) :
    t.stpActive = true ↔ t.userId ≠ 0 ∧ t.stpMode ≠ .none := by
  simp [stpActive, STPMode.isEnabled, and_comm]

theorem cancelRestingMakerOnLevel_level (b : OrderBook L) (side : Side) (price : ℕ) (l : L)
    (id : OrderId) (reason : CancelReason) :
    (b.cancelRestingMakerOnLevel side price l id reason).2 = (updateOrder l (.cancel id)).2 := by
  rw [OrderBook.cancelRestingMakerOnLevel]
  split
  · next h => rw [h]
  · next h => rw [h]

/-- Cancelling makers touches the book and the held level. -/
theorem cancelMakers_eq (t : Taker) (price : ℕ) (makers : List Order) (sw : Sweep L) (l : L) :
    ∃ b, cancelMakers t price makers sw l =
      ({ sw with book := b }, makers.foldl (fun l o => (updateOrder l (.cancel o.id)).2) l) := by
  induction makers generalizing sw l with
  | nil => exact ⟨sw.book, rfl⟩
  | cons o makers ih =>
    obtain ⟨b, h⟩ := ih
      { sw with book := (sw.book.cancelRestingMakerOnLevel t.side.opposite price l o.id
        .selfTradePrevention).1 }
      (sw.book.cancelRestingMakerOnLevel t.side.opposite price l o.id .selfTradePrevention).2
    refine ⟨b, h.trans ?_⟩
    rw [List.foldl_cons, cancelRestingMakerOnLevel_level]

/-- The budget and the flags of the sweep are those of the plan. -/
structure Follows (p : Plan L) (sw : Sweep L) : Prop where
  stop_eq : sw.stop = p.stop
  stp_eq : sw.stpTakerCancelled = p.stpTakerCancelled
  rejected_eq : sw.postOnlyRejected = p.postOnlyRejected

namespace Follows

variable {p : Plan L} {sw : Sweep L} (t : Taker) (price : ℕ) (l : L) (qtyCap : ℕ)

omit [PriceLevel L] in
/-- Every sweep follows the plan it has carried out so far. -/
theorem self (sw : Sweep L) : Follows
    { stop := sw.stop
      stpTakerCancelled := sw.stpTakerCancelled
      postOnlyRejected := sw.postOnlyRejected } sw := ⟨rfl, rfl, rfl⟩

variable {t} in
theorem fill (h : Follows p sw) (hk : t.kind = .standard) (q : ℕ) :
    Follows (p.fill t price l q) (matchAtLevel t sw price l q).1 := by
  refine ⟨?_, h.stp_eq, h.rejected_eq⟩
  rw [matchAtLevel, Plan.fill, hk, ← h.stop_eq]
  rfl

variable {t} in
theorem fillSafely (h : Follows p sw) (hk : t.kind = .standard) (safe : ℕ) :
    Follows (p.fillSafely t price l qtyCap safe) (matchSafely t sw price l qtyCap safe).1 := by
  rw [matchSafely, Plan.fillSafely]
  split_ifs
  · exact h.fill price l hk _
  · exact h

variable {t} in
theorem fillNormally (h : Follows p sw) (hk : t.kind = .standard) :
    (matchNormally t sw price l qtyCap).2 = (p.fillNormally t price l qtyCap).2 ∧
      Follows (p.fillNormally t price l qtyCap).1 (matchNormally t sw price l qtyCap).1 := by
  have hfill := h.fill price l hk qtyCap
  refine ⟨?_, hfill⟩
  rw [matchNormally, Plan.fillNormally]
  dsimp only
  rw [hfill.stop_eq]

omit [PriceLevel L] in
/-- What happens to the book is not planned for. -/
theorem setBook (h : Follows p sw) (b : OrderBook L) : Follows p { sw with book := b } :=
  ⟨h.stop_eq, h.stp_eq, h.rejected_eq⟩

theorem markEmpty (h : Follows p sw) : Follows p (markEmpty sw price l) := by
  rw [OrderBookRs.markEmpty]
  split_ifs
  · exact ⟨h.stop_eq, h.stp_eq, h.rejected_eq⟩
  · exact h

end Follows

/-! ### The arms of the loop -/

section Loop

variable {t : Taker} {F : L → ℕ → Prop} {price qtyCap : ℕ} {sw : Sweep L} {l : L} {p : Plan L}

theorem matchAtLevel_eq (t : Taker) (sw : Sweep L) (price : ℕ) (l : L) (q : ℕ)
    (hk : t.kind = .standard) :
    matchAtLevel t sw price l q =
      (fillLevel t sw price q (matchOrder l q t.orderId .standard).1
          (matchOrder l q t.orderId .standard).2, (matchOrder l q t.orderId .standard).2) := by
  rw [matchAtLevel, hk]
  rfl

theorem matchAtLevel_level (hk : t.kind = .standard) :
    ((matchAtLevel t sw price l q).1.book.levels t.side.opposite).get? price =
      some (matchAtLevel t sw price l q).2 := by
  rw [matchAtLevel_eq t sw price l q hk, fillLevel_get?, if_pos ⟨rfl, rfl⟩]

theorem matchSafely_level (qtyCap safe : ℕ)
    (hl : (sw.book.levels t.side.opposite).get? price = some l) (hk : t.kind = .standard) :
    ((matchSafely t sw price l qtyCap safe).1.book.levels t.side.opposite).get? price =
      some (matchSafely t sw price l qtyCap safe).2 := by
  rw [matchSafely]
  split_ifs
  · exact matchAtLevel_level hk
  · exact hl

/-- What `check_stp_at_level` reports for an identified taker with the mode switched on. -/
theorem checkStpAtLevel_cases (queue : List Order) {mode : STPMode} (huser : user ≠ 0)
    (hmode : mode ≠ .none) :
    (checkStpAtLevel queue user mode = .noConflict ∧ ∀ o ∈ queue, o.userId ≠ user) ∨
      (∃ safe id, checkStpAtLevel queue user mode = .cancelTaker safe ∧ mode = .cancelTaker ∧
        firstOwn user queue 0 = some (safe, id)) ∨
      (checkStpAtLevel queue user mode = .cancelMaker ∧ mode = .cancelMaker ∧
        ∃ o ∈ queue, o.userId = user) ∨
      ∃ safe id, checkStpAtLevel queue user mode = .cancelBoth safe id ∧ mode = .cancelBoth ∧
        firstOwn user queue 0 = some (safe, id) := by
  rw [checkStpAtLevel.eq_def, if_neg (by simp [huser, hmode])]
  cases mode with
  | none => exact absurd rfl hmode
  | cancelTaker =>
    cases hown : firstOwn user queue 0 with
    | none => exact Or.inl ⟨rfl, firstOwn_eq_none.mp hown⟩
    | some own => exact Or.inr (Or.inl ⟨own.1, own.2, rfl, rfl, rfl⟩)
  | cancelMaker =>
    by_cases hany : queue.any fun o => o.userId = user
    · obtain ⟨o, ho, hu⟩ := List.any_eq_true.mp hany
      exact Or.inr (Or.inr (Or.inl ⟨if_pos hany, rfl, o, ho, by simpa using hu⟩))
    · refine Or.inl ⟨if_neg hany, fun o ho hu => hany ?_⟩
      exact List.any_eq_true.mpr ⟨o, ho, by simpa using hu⟩
  | cancelBoth =>
    cases hown : firstOwn user queue 0 with
    | none => exact Or.inl ⟨rfl, firstOwn_eq_none.mp hown⟩
    | some own => exact Or.inr (Or.inr (Or.inr ⟨own.1, own.2, rfl, rfl, rfl⟩))

section Match

variable [LevelMatch L]

/-- The makers a match leaves keep their ids and users. -/
theorem matchSafely_orders (hk : t.kind = .standard)
    (hx : x ∈ orders (matchSafely t sw price l qtyCap safe).2) :
    ∃ o ∈ orders l, ∃ v h, x = o.setTranches v h := by
  rw [matchSafely] at hx
  split_ifs at hx
  · rw [matchAtLevel_eq t sw price l _ hk] at hx
    exact LevelMatch.orders_match rfl hx
  · exact ⟨x, hx, x.eq_setTranches⟩

end Match

variable [LevelQueue L]

theorem orderCount_eq_zero : orderCount l = 0 ↔ orders l = [] := by
  rw [LevelQueue.orderCount_eq, List.length_eq_zero_iff]

theorem orderCount_ne_zero (h : x ∈ orders l) : orderCount l ≠ 0 := fun hzero =>
  List.ne_nil_of_mem h (orderCount_eq_zero.mp hzero)

/-- An order found by id on a level. -/
theorem eq_of_mem_orders {y : Order} (hx : x ∈ orders l) (hy : y ∈ orders l) (h : x.id = y.id) :
    x = y :=
  List.inj_on_of_nodup_map (LevelQueue.nodup_orderIds l) hx hy h

/-- Cancelling an id on the held level: the order found there, or nothing. -/
theorem cancelRestingMakerOnLevel_eq (b : OrderBook L) (side : Side) (price : ℕ) (id : OrderId)
    (hl : (b.levels side).get? price = some l) :
    (∃ o ∈ orders l, ∃ l', o.id = id ∧ updateOrder l (.cancel o.id) = (.ok (some o), l') ∧
        (orders l' = (orders l).filter fun x => x.id ≠ o.id) ∧
        b.cancelRestingMakerOnLevel side price l id .selfTradePrevention =
          (b.stpCancel side price l' o, l')) ∨
      (id ∉ orderIds l ∧
        b.cancelRestingMakerOnLevel side price l id .selfTradePrevention = (b, l)) := by
  by_cases hid : id ∈ orderIds l
  · obtain ⟨o, ho, rfl⟩ := mem_orderIds.mp hid
    obtain ⟨l', hrun, horders⟩ := LevelQueue.cancel_of_mem ho
    refine Or.inl ⟨o, ho, l', rfl, hrun, horders, ?_⟩
    rw [OrderBook.cancelRestingMakerOnLevel, hrun]
    rfl
  · refine Or.inr ⟨hid, ?_⟩
    rw [OrderBook.cancelRestingMakerOnLevel, LevelQueue.cancel_of_notMem hid]
    simp only [OrderBook.setLevel_self hl]

/-- Cancelling an id leaves the orders with other ids. -/
theorem orders_cancel (l : L) (i : OrderId) :
    orders (updateOrder l (.cancel i)).2 = (orders l).filter fun x => x.id ≠ i := by
  by_cases hi : i ∈ orderIds l
  · obtain ⟨o, ho, rfl⟩ := mem_orderIds.mp hi
    obtain ⟨l', hrun, horders⟩ := LevelQueue.cancel_of_mem ho
    rw [hrun, horders]
  · rw [LevelQueue.cancel_of_notMem hi]
    refine (List.filter_eq_self.mpr fun x hx => ?_).symm
    have hne : x.id ≠ i := fun h => hi (mem_orderIds.mpr ⟨x, hx, h⟩)
    simpa using hne

theorem orders_foldl_cancel (makers : List Order) (l : L) :
    orders (makers.foldl (fun l o => (updateOrder l (.cancel o.id)).2) l) =
      (orders l).filter fun x => x.id ∉ makers.map Order.id := by
  induction makers generalizing l with
  | nil => simp
  | cons o makers ih =>
    rw [List.foldl_cons, ih, orders_cancel, List.filter_filter]
    refine List.filter_congr fun x _ => ?_
    by_cases hx : x.id = o.id <;> simp [hx]

theorem orders_withoutOwn (t : Taker) (l : L) :
    orders (Plan.withoutOwn t l) = (orders l).filter fun x => x.userId ≠ t.userId := by
  rw [Plan.withoutOwn, orders_foldl_cancel]
  refine List.filter_congr fun x hx => ?_
  by_cases hu : x.userId = t.userId
  · have hmem : x.id ∈ ((orders l).filter fun o => o.userId = t.userId).map Order.id :=
      List.mem_map.mpr ⟨x, List.mem_filter.mpr ⟨hx, by simpa using hu⟩, rfl⟩
    simp [hmem, hu]
  · have hnot : x.id ∉ ((orders l).filter fun o => o.userId = t.userId).map Order.id := by
      intro hmem
      obtain ⟨y, hy, hyx⟩ := List.mem_map.mp hmem
      obtain rfl := eq_of_mem_orders (List.mem_of_mem_filter hy) hx hyx
      exact hu (by simpa using List.of_mem_filter hy)
    simp [hnot, hu]

/-- Cancels of own orders turn the book of the sweep into `b` and leave `l` at the price. -/
structure Withdraws (t : Taker) (price : ℕ) (sw : Sweep L) (b : OrderBook L) (l : L) : Prop where
  steps : PlannedSteps t (fun _ _ => False) price sw { sw with book := b }
  level : (b.levels t.side.opposite).get? price = some l

/-- The cancels of the self-trade arm. -/
theorem cancelMakers_spec {makers : List Order} {b : OrderBook L} {l' : L}
    (hl : (sw.book.levels t.side.opposite).get? price = some l)
    (hmode : t.stpMode = .cancelMaker ∨ t.stpMode = .cancelBoth) (huser : t.userId ≠ 0)
    (hown : ∀ o ∈ makers, o.userId = t.userId)
    (hsame : ∀ o ∈ makers, ∀ x ∈ orders l, x.id = o.id → x = o)
    (hrun : cancelMakers t price makers sw l = ({ sw with book := b }, l')) :
    Withdraws t price sw b l' := by
  induction makers generalizing sw l with
  | nil =>
    obtain ⟨hsw, rfl⟩ := Prod.mk.inj hrun
    obtain rfl : sw.book = b := congrArg Sweep.book hsw
    exact ⟨.refl, hl⟩
  | cons o rest ih =>
    have hown' : ∀ x ∈ rest, x.userId = t.userId := (List.forall_mem_cons.mp hown).2
    have hnext : cancelMakers t price rest
          { sw with book := (sw.book.cancelRestingMakerOnLevel t.side.opposite price l o.id
            .selfTradePrevention).1 }
          (sw.book.cancelRestingMakerOnLevel t.side.opposite price l o.id
            .selfTradePrevention).2 = ({ sw with book := b }, l') := hrun
    rcases cancelRestingMakerOnLevel_eq sw.book t.side.opposite price o.id hl with
      ⟨x, hx, l₁, hid, hcancel, horders, heq⟩ | ⟨-, heq⟩
    · obtain rfl := hsame o (List.mem_cons_self ..) x hx hid
      rw [heq] at hnext
      have hlevel : ((sw.book.stpCancel t.side.opposite price l₁ x).levels t.side.opposite).get?
          price = some l₁ := by rw [stpCancel_get?, if_pos ⟨rfl, rfl⟩]
      have hsame' : ∀ y ∈ rest, ∀ z ∈ orders l₁, z.id = y.id → z = y := by
        intro y hy z hz hzy
        rw [horders] at hz
        exact hsame y (List.mem_cons_of_mem _ hy) z (List.mem_of_mem_filter hz) hzy
      have hoff := @ih { sw with book := sw.book.stpCancel t.side.opposite price l₁ x } l₁ hlevel
        hown' hsame' hnext
      exact ⟨.head (.cancel hl hmode huser hx (hown x (List.mem_cons_self ..)) horders hcancel)
        hoff.steps, hoff.level⟩
    · rw [heq] at hnext
      exact ih hl hown' (List.forall_mem_cons.mp hsame).2 hnext

theorem markEmpty_steps (hl : (sw.book.levels t.side.opposite).get? price = some l) :
    PlannedSteps t F price sw (markEmpty sw price l) := by
  rw [markEmpty]
  split_ifs with hzero
  · exact .single (.markEmpty hl (orderCount_eq_zero.mp hzero))
  · exact .refl

/-! ### One iteration -/

/-- A standard taker asks a level for `q`. -/
structure Asks (t : Taker) (price : ℕ) (p : Plan L) (q : ℕ) : Prop where
  kind : t.kind = .standard
  allows : t.allows price
  cap : p.stop.levelQtyCap price t.lot = q
  pos : 0 < q

/-- What one iteration of the loop does to the plan and to the sweep, and when. What becomes of the
book depends on the laws of the level. -/
inductive Visit (t : Taker) (price : ℕ) (l : L) (p : Plan L) (sw : Sweep L) :
    Plan L × Bool → Sweep L × Bool → Prop
  /-- The limit or the budget ends the walk. -/
  | ends (spent : t.allows price = false ∨ p.stop.levelQtyCap price t.lot = 0) :
      Visit t price l p sw (p, false) (sw, false)
  /-- A post-only taker finds nothing to match. -/
  | passes {b : OrderBook L} (kind : t.kind = .postOnly) (pos : 0 < p.stop.levelQtyCap price t.lot)
      (clear : (matchOrder l (p.stop.levelQtyCap price t.lot) t.orderId
        .postOnly).1.wasRejected = false)
      (same : ∀ [LevelMatch L], (sw.book.levels t.side.opposite).get? price = some l →
        b = sw.book) :
      Visit t price l p sw (p, true) ({ sw with book := b }, true)
  /-- A post-only taker finds something to match. -/
  | rejects {b : OrderBook L} (kind : t.kind = .postOnly)
      (same : ∀ [LevelMatch L], (sw.book.levels t.side.opposite).get? price = some l →
        b = sw.book) :
      Visit t price l p sw ({ p with postOnlyRejected := true }, false)
        ({ sw with book := b, postOnlyRejected := true }, false)
  /-- An ordinary match. -/
  | fills {q : ℕ} (asks : Asks t price p q)
      (foreign : t.stpActive → ∀ o ∈ orders l, o.userId ≠ t.userId) :
      Visit t price l p sw (p.fillNormally t price l q) (matchNormally t sw price l q)
  /-- A match ahead of the first own order, which stops the taker. -/
  | stopsTaker {q safe : ℕ} {id : OrderId} (asks : Asks t price p q) (user : t.userId ≠ 0)
      (mode : t.stpMode = .cancelTaker) (own : firstOwn t.userId (orders l) 0 = some (safe, id)) :
      Visit t price l p sw ({ p.fillSafely t price l q safe with stpTakerCancelled := true }, false)
        ({ (matchSafely t sw price l q safe).1 with stpTakerCancelled := true }, false)
  /-- There are own orders only, and they are cancelled. -/
  | withdraws {q : ℕ} {b : OrderBook L} (asks : Asks t price p q) (user : t.userId ≠ 0)
      (mode : t.stpMode = .cancelMaker) (own : ∃ o ∈ orders l, o.userId = t.userId)
      (off : ∀ [LevelQueue L], (sw.book.levels t.side.opposite).get? price = some l →
        Withdraws t price sw b (Plan.withoutOwn t l))
      (nil : orderCount (Plan.withoutOwn t l) = 0) :
      Visit t price l p sw
        ({ p with cancels := p.cancels ++ (orders l).filter fun o => o.userId = t.userId }, true)
        (markEmpty { sw with book := b } price (Plan.withoutOwn t l), true)
  /-- The own orders are cancelled, and a match with the others. -/
  | fillsOthers {q : ℕ} {b : OrderBook L} (asks : Asks t price p q) (user : t.userId ≠ 0)
      (mode : t.stpMode = .cancelMaker) (own : ∃ o ∈ orders l, o.userId = t.userId)
      (off : ∀ [LevelQueue L], (sw.book.levels t.side.opposite).get? price = some l →
        Withdraws t price sw b (Plan.withoutOwn t l)) :
      Visit t price l p sw
        (({ p with cancels := p.cancels ++ (orders l).filter fun o => o.userId = t.userId }
          : Plan L).fillNormally t price (Plan.withoutOwn t l) q)
        (matchNormally t { sw with book := b } price (Plan.withoutOwn t l) q)
  /-- A match ahead of the first own order, which is cancelled and stops the taker. -/
  | stopsBoth {q safe : ℕ} {id : OrderId} {b : OrderBook L} {l' : L} (asks : Asks t price p q)
      (user : t.userId ≠ 0) (mode : t.stpMode = .cancelBoth)
      (own : firstOwn t.userId (orders l) 0 = some (safe, id))
      (off : ∀ [LevelQueue L] [LevelMatch L], (sw.book.levels t.side.opposite).get? price = some l →
        Withdraws t price (matchSafely t sw price l q safe).1 b l') :
      Visit t price l p sw
        ({ p.fillSafely t price l q safe with
            cancels := (p.fillSafely t price l q safe).cancels ++
              (orders l).filter fun o => o.id = id
            stpTakerCancelled := true }, false)
        ({ markEmpty { (matchSafely t sw price l q safe).1 with book := b } price l' with
            stpTakerCancelled := true }, false)

omit [LevelQueue L] in
theorem sweepConflict_visit {q : ℕ} (asks : Asks t price p q) (hactive : t.stpActive) :
    Visit t price l p sw (p.conflict t price l q) (sweepConflict t sw price l q) := by
  obtain ⟨huser, hmode⟩ := t.stpActive_iff.mp hactive
  rw [sweepConflict, Plan.conflict]
  rcases checkStpAtLevel_cases (orders l) huser hmode with
    ⟨hstp, hnone⟩ | ⟨safe, id, hstp, hm, hown⟩ | ⟨hstp, hm, hown⟩ | ⟨safe, id, hstp, hm, hown⟩
  · rw [hstp]
    exact .fills asks fun _ => hnone
  · rw [hstp]
    exact .stopsTaker asks huser hm hown
  · rw [hstp]
    obtain ⟨b, heq⟩ := cancelMakers_eq t price ((orders l).filter fun o => o.userId = t.userId) sw l
    have hoff [LevelQueue L] (hl : (sw.book.levels t.side.opposite).get? price = some l) :
        Withdraws t price sw b (Plan.withoutOwn t l) :=
      cancelMakers_spec hl (Or.inl hm) huser (fun o ho => by simpa using List.of_mem_filter ho)
        (fun o ho x hx hid => eq_of_mem_orders hx (List.mem_of_mem_filter ho) hid) heq
    dsimp only
    rw [heq, ← Plan.withoutOwn]
    split_ifs with hzero
    · exact .withdraws asks huser hm hown hoff hzero
    · exact .fillsOthers asks huser hm hown hoff
  · rw [hstp]
    refine .stopsBoth asks huser hm hown fun {_ _} hl => ?_
    have hheld := matchSafely_level q safe hl asks.kind
    rcases cancelRestingMakerOnLevel_eq _ t.side.opposite price id hheld with
      ⟨x, hx, l', hid, hcancel, horders, heq⟩ | ⟨-, heq⟩
    · rw [heq]
      -- the order cancelled is the own order the check found, up to its tranches
      obtain ⟨o, ho, v, h, rfl⟩ := matchSafely_orders asks.kind hx
      obtain ⟨ahead, own, behind, hqueue, hu, hownid, -, -⟩ := firstOwn_eq_some hown
      have hmem : own ∈ orders l := hqueue ▸ by simp
      obtain rfl := eq_of_mem_orders ho hmem
        ((o.setTranches_id v h).symm.trans (hid.trans hownid.symm))
      refine ⟨.single (.cancel hheld (Or.inr hm) huser hx hu horders hcancel), ?_⟩
      rw [stpCancel_get?, if_pos ⟨rfl, rfl⟩]
    · rw [heq]
      exact ⟨.refl, hheld⟩

omit [LevelQueue L] in
/-- **Every iteration is a visit.** -/
theorem sweepLevel_visit (t : Taker) (price : ℕ) (l : L) (hstop : sw.stop = p.stop) :
    Visit t price l p sw (p.level t price l) (sweepLevel t sw price l) := by
  rw [sweepLevel, Plan.level, hstop]
  dsimp only
  split_ifs with hallows hcap hpost hactive
  · exact .ends (Or.inl (by simpa using hallows))
  · exact .ends (Or.inr hcap)
  · have hk := t.kind_eq_postOnly hpost
    have hsame [LevelMatch L] (hl : (sw.book.levels t.side.opposite).get? price = some l) :
        sw.book.setLevel t.side.opposite price
          (matchOrder l (p.stop.levelQtyCap price t.lot) t.orderId .postOnly).2 = sw.book := by
      rw [LevelMatch.match_postOnly, OrderBook.setLevel_self hl]
    rw [probePostOnly, Plan.probe, hk]
    dsimp only
    split_ifs with hrejected
    · exact .rejects hk hsame
    · exact .passes hk (Nat.pos_of_ne_zero hcap) (by simpa using hrejected) hsame
  · exact sweepConflict_visit
      ⟨t.kind_eq_standard hpost, by simpa using hallows, rfl, Nat.pos_of_ne_zero hcap⟩ hactive
  · exact .fills ⟨t.kind_eq_standard hpost, by simpa using hallows, rfl, Nat.pos_of_ne_zero hcap⟩
      fun h => absurd h hactive

omit [LevelQueue L] in
/-- An iteration is planned as in a sweep of any book. -/
theorem Plan.level_visit (p : Plan L) (t : Taker) (price : ℕ) (l : L) :
    ∃ sw it, Visit t price l p sw (p.level t price l) it :=
  ⟨{ book := OrderBook.withClock "" ⟨id, 0⟩, result := .new 0 0, stop := p.stop }, _,
    sweepLevel_visit t price l rfl⟩

omit [LevelQueue L] in
/-- What every visit keeps of the plan, the loop keeps. -/
theorem Plan.loop_keeps {J : Plan L → Prop} (hvisit : ∀ {p sw it it'}, ∀ e ∈ entries,
      Visit t e.1 e.2 p sw it it' → J p → J it.1) (hJ : J p) : J (Plan.loop t entries p) := by
  induction entries generalizing p with
  | nil => exact hJ
  | cons e entries ih =>
    obtain ⟨sw, it, v⟩ := p.level_visit t e.1 e.2
    have hnext := hvisit e (List.mem_cons_self ..) v hJ
    rw [Plan.loop]
    split_ifs
    · exact ih (fun e he => hvisit e (List.mem_cons_of_mem _ he)) hnext
    · exact hnext

namespace Visit

variable {it : Plan L × Bool} {it' : Sweep L × Bool}

omit [LevelQueue L]

/-- The iteration follows its plan, and goes on when the plan does. -/
theorem follows (v : Visit t price l p sw it it') (h : Follows p sw) :
    it'.2 = it.2 ∧ Follows it.1 it'.1 := by
  cases v with
  | ends => exact ⟨rfl, h⟩
  | passes => exact ⟨rfl, h.setBook _⟩
  | rejects => exact ⟨rfl, h.stop_eq, h.stp_eq, rfl⟩
  | fills asks => exact h.fillNormally price l _ asks.kind
  | @stopsTaker q safe _ asks =>
    have hsafe := h.fillSafely price l q asks.kind safe
    exact ⟨rfl, hsafe.stop_eq, rfl, hsafe.rejected_eq⟩
  | @withdraws q b =>
    have hown := (h.setBook b).markEmpty price (Plan.withoutOwn t l)
    exact ⟨rfl, hown.stop_eq, hown.stp_eq, hown.rejected_eq⟩
  | @fillsOthers q b asks =>
    have hown : Follows { p with
        cancels := p.cancels ++ (orders l).filter fun o => o.userId = t.userId }
        { sw with book := b } := ⟨h.stop_eq, h.stp_eq, h.rejected_eq⟩
    exact hown.fillNormally price _ q asks.kind
  | @stopsBoth q safe id b l' asks =>
    have hsafe := ((h.fillSafely price l q asks.kind safe).setBook b).markEmpty price l'
    exact ⟨rfl, hsafe.stop_eq, rfl, hsafe.rejected_eq⟩

/-- A plan only grows. -/
theorem extends_plan (v : Visit t price l p sw it it') : p.Extends it.1 := by
  cases v with
  | ends | passes => exact .refl p
  | rejects => exact ⟨fun _ he => he, fun _ ho => ho⟩
  | fills => exact p.extends_fill t price l _
  | @stopsTaker q safe =>
    have h := p.extends_fillSafely t price l q safe
    exact ⟨h.fills, h.cancels⟩
  | withdraws => exact ⟨fun _ he => he, List.subset_append_left ..⟩
  | fillsOthers => exact ⟨List.subset_append_left .., List.subset_append_left ..⟩
  | @stopsBoth q safe =>
    have h := p.extends_fillSafely t price l q safe
    exact ⟨h.fills, fun _ ho => List.mem_append_left _ (h.cancels ho)⟩

theorem fill_steps {sw : Sweep L} {l : L} {q q' : ℕ} (asks : Asks t price p q)
    (hl : (sw.book.levels t.side.opposite).get? price = some l) (hstop : sw.stop = p.stop)
    (hle : q' ≤ q) (hpos : 0 < q') (hsafe : StpSafe t (orders l) q') (hF : F l q') :
    PlannedSteps t F price sw (matchAtLevel t sw price l q').1 := by
  rw [matchAtLevel_eq t sw price l q' asks.kind]
  exact .single
    (.fill hl asks.kind asks.allows hpos (by rw [hstop, asks.cap]; exact hle) hsafe rfl hF)

theorem fillSafely_steps {q : ℕ} (asks : Asks t price p q)
    (hl : (sw.book.levels t.side.opposite).get? price = some l) (hstop : sw.stop = p.stop)
    (hown : firstOwn t.userId (orders l) 0 = some (safe, id)) :
    PlannedSteps t (fun l' q' => (l', q') ∈ (p.fillSafely t price l q safe).fills) price sw
      (matchSafely t sw price l q safe).1 := by
  rw [matchSafely, Plan.fillSafely]
  split_ifs with hpos
  · refine fill_steps asks hl hstop (min_le_left ..) hpos.2 ?_ (p.mem_fills_fill t price l _)
    intro _ safe' id' hown'
    rw [hown] at hown'
    cases hown'
    exact min_le_right ..
  · exact .refl

variable [LevelQueue L] [LevelMatch L]

/-- **An iteration is a sequence of steps at its level**, and its matches are planned. -/
theorem steps (v : Visit t price l p sw it it')
    (hl : (sw.book.levels t.side.opposite).get? price = some l) (hstop : sw.stop = p.stop) :
    PlannedSteps t (fun l q => (l, q) ∈ it.1.fills) price sw it'.1 := by
  cases v with
  | ends => exact .refl
  | passes _ _ _ same =>
    obtain rfl := same hl
    exact .refl
  | rejects _ same =>
    obtain rfl := same hl
    exact .single (.flag _ true)
  | fills asks foreign =>
    exact fill_steps asks hl hstop le_rfl asks.pos (fun h => StpSafe.of_no_own (foreign h) h)
      (p.mem_fills_fill t price l _)
  | stopsTaker asks _ _ own => exact (fillSafely_steps asks hl hstop own).tail (.flag true _)
  | withdraws _ _ _ _ off =>
    exact ((off hl).steps.mono False.elim).trans (markEmpty_steps (off hl).level)
  | fillsOthers asks _ _ _ off =>
    refine ((off hl).steps.mono False.elim).trans
      (fill_steps asks (off hl).level hstop le_rfl asks.pos
      (.of_no_own fun o ho => ?_) (Plan.mem_fills_fill _ t price _ _))
    rw [orders_withoutOwn] at ho
    simpa using List.of_mem_filter ho
  | stopsBoth asks _ _ own off =>
    exact ((fillSafely_steps asks hl hstop own).trans (((off hl).steps.mono False.elim).trans
      (markEmpty_steps (off hl).level))).tail (.flag true _)

end Visit

omit [LevelQueue L] in
/-- **The loop follows its plan.** -/
theorem Follows.loop (h : Follows p sw) (entries : List (ℕ × L)) :
    Follows (Plan.loop t entries p) (sweepLoop t entries sw) := by
  induction entries generalizing p sw with
  | nil => exact h
  | cons e entries ih =>
    obtain ⟨hgo, hnext⟩ := (sweepLevel_visit t e.1 e.2 h.stop_eq).follows h
    rw [sweepLoop, Plan.loop, hgo]
    split_ifs
    · exact ih hnext
    · exact hnext

variable [LevelMatch L]

/-- **What every visit keeps, the loop keeps.** Its list of levels is the one the sweep started
from; the levels not visited yet are still as they were. -/
theorem sweepLoop_keeps {J : Plan L → Sweep L → Prop}
    (hvisit : ∀ {p sw it it'}, ∀ e ∈ entries, (sw.book.levels t.side.opposite).get? e.1 = some e.2 →
      sw.stop = p.stop → Visit t e.1 e.2 p sw it it' → J p sw → J it.1 it'.1)
    (hnodup : (entries.map Prod.fst).Nodup)
    (hlevels : ∀ e ∈ entries, (sw.book.levels t.side.opposite).get? e.1 = some e.2)
    (hfollows : Follows p sw) (hJ : J p sw) :
    J (Plan.loop t entries p) (sweepLoop t entries sw) := by
  induction entries generalizing sw p with
  | nil => exact hJ
  | cons e rest ih =>
    rw [List.map_cons, List.nodup_cons] at hnodup
    have hl := hlevels e (List.mem_cons_self ..)
    have v := sweepLevel_visit t e.1 e.2 hfollows.stop_eq
    obtain ⟨hgo, hnext⟩ := v.follows hfollows
    have hJ' := hvisit e (List.mem_cons_self ..) hl hfollows.stop_eq v hJ
    rw [sweepLoop, Plan.loop, hgo]
    split_ifs
    · exact ih (fun e he => hvisit e (List.mem_cons_of_mem _ he)) hnodup.2
        ((v.steps hl hfollows.stop_eq).levels_of_notMem hnodup.1
          (List.forall_mem_cons.mp hlevels).2)
        hnext hJ'
    · exact hJ'

/-- **The loop is a sequence of steps**, and its matches are planned. -/
theorem sweepLoop_planned (hnodup : (entries.map Prod.fst).Nodup)
    (hlevels : ∀ e ∈ entries, (sw.book.levels t.side.opposite).get? e.1 = some e.2)
    (hfollows : Follows p sw) :
    PlannedRun t (fun l q => (l, q) ∈ (Plan.loop t entries p).fills) sw (sweepLoop t entries sw) :=
  sweepLoop_keeps (J := fun p sw' => PlannedRun t (fun l q => (l, q) ∈ p.fills) sw sw')
    (fun _ _ hl hstop v hrun => (hrun.mono fun he => v.extends_plan.fills he).trans
      (v.steps hl hstop).run) hnodup hlevels hfollows .refl

/-- **The loop is a sequence of steps.** -/
theorem sweepLoop_steps (hnodup : (entries.map Prod.fst).Nodup)
    (hlevels : ∀ e ∈ entries, (sw.book.levels t.side.opposite).get? e.1 = some e.2) :
    SweepRun t sw (sweepLoop t entries sw) :=
  (sweepLoop_planned hnodup hlevels (.self sw)).mono fun _ => trivial

/-! ### Sweeps that touch nothing -/

/-- The plan matches nothing and cancels no one. -/
structure Plan.Idle (p : Plan L) : Prop where
  fills_eq : p.fills = []
  cancels_eq : p.cancels = []

omit [PriceLevel L] [LevelQueue L] [LevelMatch L] in
theorem Plan.Idle.of_extends {p' : Plan L} (h : p.Extends p') (hidle : p'.Idle) : p.Idle :=
  ⟨List.eq_nil_of_subset_nil (hidle.fills_eq ▸ h.fills),
    List.eq_nil_of_subset_nil (hidle.cancels_eq ▸ h.cancels)⟩

omit [LevelQueue L] [LevelMatch L] in
theorem Plan.not_idle_fill (p : Plan L) (t : Taker) (price : ℕ) (l : L) (q : ℕ) :
    ¬ (p.fill t price l q).Idle := fun h =>
  List.not_mem_nil (h.fills_eq ▸ p.mem_fills_fill t price l q)

omit [LevelQueue L] in
/-- **An iteration whose plan is idle** raises flags only. -/
theorem Visit.idle {it : Plan L × Bool} {it' : Sweep L × Bool} (v : Visit t price l p sw it it')
    (hl : (sw.book.levels t.side.opposite).get? price = some l) (hidle : it.1.Idle) :
    ∃ stp rejected,
      it'.1 = { sw with stpTakerCancelled := stp, postOnlyRejected := rejected } := by
  cases v with
  | ends => exact ⟨sw.stpTakerCancelled, sw.postOnlyRejected, rfl⟩
  | passes _ _ _ same =>
    rw [same hl]
    exact ⟨sw.stpTakerCancelled, sw.postOnlyRejected, rfl⟩
  | rejects _ same =>
    rw [same hl]
    exact ⟨sw.stpTakerCancelled, true, rfl⟩
  | fills => exact absurd hidle (p.not_idle_fill t price l _)
  | @stopsTaker q safe =>
    have hnone : (matchSafely t sw price l q safe).1 = sw := by
      have hfills := hidle.fills_eq
      rw [matchSafely]
      dsimp only [Plan.fillSafely] at hfills
      split_ifs at hfills ⊢
      · exact absurd hfills (List.ne_nil_of_mem (p.mem_fills_fill t price l _))
      · rfl
    rw [hnone]
    exact ⟨true, sw.postOnlyRejected, rfl⟩
  | withdraws _ _ _ own =>
    obtain ⟨o, ho, hu⟩ := own
    exact absurd (List.append_eq_nil_iff.mp hidle.cancels_eq).2
      (List.ne_nil_of_mem (List.mem_filter.mpr ⟨ho, by simpa using hu⟩))
  | fillsOthers => exact absurd hidle (Plan.not_idle_fill _ t price _ _)
  | stopsBoth _ _ _ own =>
    obtain ⟨ahead, o, behind, hqueue, -, hid, -⟩ := firstOwn_eq_some own
    have hmem : o ∈ orders l := hqueue ▸ by simp
    exact absurd (List.append_eq_nil_iff.mp hidle.cancels_eq).2
      (List.ne_nil_of_mem (List.mem_filter.mpr ⟨hmem, by simpa using hid⟩))

/-- **A sweep whose plan is idle** raises flags only. -/
theorem sweepLoop_idle (hnodup : (entries.map Prod.fst).Nodup)
    (hlevels : ∀ e ∈ entries, (sw.book.levels t.side.opposite).get? e.1 = some e.2)
    (hfollows : Follows p sw) (hidle : (Plan.loop t entries p).Idle) :
    ∃ stp rejected, sweepLoop t entries sw =
      { sw with stpTakerCancelled := stp, postOnlyRejected := rejected } := by
  refine sweepLoop_keeps (J := fun p sw' => p.Idle → ∃ stp rejected,
    sw' = { sw with stpTakerCancelled := stp, postOnlyRejected := rejected })
    (fun _ _ hl _ v hJ hidle => ?_) hnodup hlevels hfollows
    (fun _ => ⟨sw.stpTakerCancelled, sw.postOnlyRejected, rfl⟩) hidle
  obtain ⟨_, _, rfl⟩ := hJ (hidle.of_extends v.extends_plan)
  exact v.idle hl hidle

omit [LevelQueue L] [LevelMatch L] in
/-- The sweep of a post-only taker is idle. -/
theorem Plan.Idle.loop_of_postOnly (hk : t.kind = .postOnly) (h : p.Idle)
    (entries : List (ℕ × L)) : (Plan.loop t entries p).Idle := by
  refine Plan.loop_keeps (J := Plan.Idle) (fun _ _ v h => ?_) h
  cases v with
  | ends | passes => exact h
  | rejects => exact ⟨h.fills_eq, h.cancels_eq⟩
  | fills asks | stopsTaker asks | withdraws asks | fillsOthers asks | stopsBoth asks =>
    cases hk.symm.trans asks.kind

omit [LevelQueue L] [LevelMatch L] in
/-- The sweep of a standard taker is not rejected as post-only. -/
theorem Plan.rejected_loop (hk : t.kind = .standard) (entries : List (ℕ × L)) :
    (loop t entries p).postOnlyRejected = p.postOnlyRejected := by
  refine loop_keeps (J := fun p' => p'.postOnlyRejected = p.postOnlyRejected) (fun _ _ v h => ?_)
    rfl
  cases v with
  | ends | fills | withdraws | fillsOthers => exact h
  | passes kind | rejects kind => cases hk.symm.trans kind
  | stopsTaker | stopsBoth => exact (Plan.fillSafely_flags ..).2.trans h

/-- The loop leaves levels outside its list alone. -/
theorem sweepLoop_get?_of_notMem (hnodup : (entries.map Prod.fst).Nodup)
    (hlevels : ∀ e ∈ entries, (sw.book.levels t.side.opposite).get? e.1 = some e.2)
    (hprice : price ∉ entries.map Prod.fst) :
    ((sweepLoop t entries sw).book.levels t.side.opposite).get? price =
      (sw.book.levels t.side.opposite).get? price := by
  refine sweepLoop_keeps (J := fun _ sw' => (sw'.book.levels t.side.opposite).get? price =
    (sw.book.levels t.side.opposite).get? price) (fun e he hl hstop v hJ => ?_) hnodup hlevels
    (.self sw) rfl
  rw [← hJ, (v.steps hl hstop).get?_of_ne]
  exact fun h => hprice (h.2 ▸ List.mem_map_of_mem he)

end Loop

/-! ### Empty levels are marked -/

/-- A level without orders at `price` is marked for removal. -/
def Marked (t : Taker) (price : ℕ) (sw : Sweep L) : Prop :=
  ∀ l, (sw.book.levels t.side.opposite).get? price = some l → orders l = [] →
    price ∈ sw.emptyPriceLevels

section Marks

variable {t : Taker} {price qtyCap : ℕ} {sw : Sweep L} {l : L}

theorem Marked.of_ne_nil (hl : (sw.book.levels t.side.opposite).get? price = some l)
    (hne : orders l ≠ []) : Marked t price sw := by
  intro l' hl' hnil
  rw [hl] at hl'
  cases hl'
  exact absurd hnil hne

variable [LevelQueue L]

theorem marked_fillLevel (t : Taker) (sw : Sweep L) (price q : ℕ) (r : MatchResult) (l : L) :
    Marked t price (fillLevel t sw price q r l) := by
  intro l' hl' hnil
  rw [fillLevel_get?, if_pos ⟨rfl, rfl⟩] at hl'
  cases hl'
  rw [fillLevel, processLevelMatch]
  dsimp only
  rw [if_pos (orderCount_eq_zero.mpr hnil)]
  exact List.mem_append_right _ (List.mem_singleton_self price)

theorem marked_markEmpty (hl : (sw.book.levels t.side.opposite).get? price = some l) :
    Marked t price (markEmpty sw price l) := by
  rw [markEmpty]
  split_ifs with hzero
  · exact fun _ _ _ => List.mem_append_right _ (List.mem_singleton_self price)
  · exact .of_ne_nil hl fun hnil => hzero (orderCount_eq_zero.mpr hnil)

theorem marked_matchSafely (hk : t.kind = .standard)
    (hl : (sw.book.levels t.side.opposite).get? price = some l) (hne : orders l ≠ []) (safe : ℕ) :
    Marked t price (matchSafely t sw price l qtyCap safe).1 := by
  rw [matchSafely]
  split_ifs
  · rw [matchAtLevel_eq t sw price l _ hk]
    exact marked_fillLevel t sw price _ _ _
  · exact .of_ne_nil hl hne

theorem marked_matchNormally (hk : t.kind = .standard) :
    Marked t price (matchNormally t sw price l qtyCap).1 := by
  rw [matchNormally, matchAtLevel_eq t sw price l _ hk]
  exact marked_fillLevel t sw price _ _ _

theorem Visit.marked [LevelMatch L] {p : Plan L} {it : Plan L × Bool} {it' : Sweep L × Bool}
    (v : Visit t price l p sw it it')
    (hl : (sw.book.levels t.side.opposite).get? price = some l) (hne : orders l ≠ []) :
    Marked t price it'.1 := by
  cases v with
  | ends => exact .of_ne_nil hl hne
  | passes _ _ _ same | rejects _ same =>
    rw [same hl]
    exact .of_ne_nil hl hne
  | fills asks | fillsOthers asks => exact marked_matchNormally asks.kind
  | stopsTaker asks => exact marked_matchSafely asks.kind hl hne _
  | withdraws _ _ _ _ off | stopsBoth _ _ _ _ off => exact marked_markEmpty (off hl).level

end Marks

/-! ### After the loop -/

section Finish

omit [PriceLevel L]

theorem foldl_removeLevel_get? (side side' : Side) (prices : List ℕ) (b : OrderBook L) (p : ℕ) :
    ((prices.foldl (fun b price => b.removeLevel side price) b).levels side').get? p =
      if side' = side ∧ p ∈ prices then none else (b.levels side').get? p := by
  induction prices generalizing b with
  | nil => simp
  | cons price prices ih =>
    rw [List.foldl_cons, ih, OrderBook.get?_removeLevel]
    by_cases hs : side' = side <;> by_cases hp : p = price <;> simp [hs, hp]

theorem foldl_forgetFilled_frame (filled : List (OrderId × ℕ)) (b : OrderBook L) :
    ∃ tracker, filled.foldl OrderBook.forgetFilled b =
      { b with
        orderLocations := filled.foldl (fun m f => m.erase f.1) b.orderLocations
        userOrders := filled.foldl (fun m f => m.untrackById f.1) b.userOrders
        orderStateTracker := tracker } := by
  induction filled generalizing b with
  | nil => exact ⟨b.orderStateTracker, rfl⟩
  | cons f filled ih =>
    obtain ⟨tracker, h⟩ := ih (b.forgetFilled f)
    exact ⟨tracker, h⟩

theorem foldl_removeLevel_frame (side : Side) (prices : List ℕ) (b : OrderBook L) :
    ∃ bids asks, prices.foldl (fun b price => b.removeLevel side price) b =
      { b with bids := bids, asks := asks } := by
  induction prices generalizing b with
  | nil => exact ⟨b.bids, b.asks, rfl⟩
  | cons price prices ih =>
    obtain ⟨bids, asks, h⟩ := ih (b.removeLevel side price)
    exact ⟨bids, asks, h⟩

/-- Finishing a sweep touches the levels, the locations, the user index and the tracker. -/
theorem finishSweep_frame (t : Taker) (sw : Sweep L) :
    ∃ bids asks tracker, finishSweep t sw =
      { sw.book with
        bids := bids
        asks := asks
        orderLocations := sw.filledOrders.foldl (fun m f => m.erase f.1) sw.book.orderLocations
        userOrders := sw.filledOrders.foldl (fun m f => m.untrackById f.1) sw.book.userOrders
        orderStateTracker := tracker } := by
  obtain ⟨bids, asks, h⟩ := foldl_removeLevel_frame t.side.opposite sw.emptyPriceLevels sw.book
  obtain ⟨tracker, h'⟩ := foldl_forgetFilled_frame sw.filledOrders
    (sw.emptyPriceLevels.foldl (fun b price => b.removeLevel t.side.opposite price) sw.book)
  refine ⟨bids, asks, tracker, ?_⟩
  rw [finishSweep, h', h]

theorem finishSweep_get? (t : Taker) (sw : Sweep L) (side : Side) (p : ℕ) :
    ((finishSweep t sw).levels side).get? p =
      if side = t.side.opposite ∧ p ∈ sw.emptyPriceLevels then none
      else (sw.book.levels side).get? p := by
  obtain ⟨tracker, h⟩ := foldl_forgetFilled_frame sw.filledOrders
    (sw.emptyPriceLevels.foldl (fun b price => b.removeLevel t.side.opposite price) sw.book)
  rw [finishSweep, h]
  exact foldl_removeLevel_get? ..

theorem foldl_erase_lookup (filled : List (OrderId × ℕ)) (m : AssocMap OrderId (ℕ × Side))
    (i : OrderId) : (filled.foldl (fun m f => m.erase f.1) m).lookup i =
      if i ∈ filled.map Prod.fst then none else m.lookup i := by
  induction filled generalizing m with
  | nil => simp
  | cons f filled ih =>
    rw [List.foldl_cons, ih]
    by_cases hi : i = f.1
    · subst hi
      simp [AList.lookup_erase]
    · rw [AList.lookup_erase_ne hi]
      exact if_congr (by simp [hi]) rfl rfl

theorem finishSweep_lookup (t : Taker) (sw : Sweep L) (i : OrderId) :
    (finishSweep t sw).orderLocations.lookup i =
      if i ∈ sw.filledOrders.map Prod.fst then none else sw.book.orderLocations.lookup i := by
  obtain ⟨_, _, _, h⟩ := finishSweep_frame t sw
  rw [h]
  exact foldl_erase_lookup ..

end Finish

/-! ### The whole match -/

namespace OrderBook

variable {side : Side} {outcome : MatchOutcome}

omit [PriceLevel L] in
theorem mem_sweepEntries {e : ℕ × L} :
    e ∈ b.sweepEntries side ↔ (b.levels side.opposite).get? e.1 = some e.2 := by
  cases side with
  | buy => exact SortedMap.mem_entries_iff
  | sell => exact List.mem_reverse.trans SortedMap.mem_entries_iff

omit [PriceLevel L] in
theorem nodup_sweepEntries (b : OrderBook L) (side : Side) :
    ((b.sweepEntries side).map Prod.fst).Nodup := by
  cases side with
  | buy => exact b.asks.nodup_keys
  | sell =>
    show (b.bids.entries.reverse.map Prod.fst).Nodup
    rw [List.map_reverse]
    exact List.nodup_reverse.mpr b.bids.nodup_keys

omit [PriceLevel L] in
theorem sweepEntries_of_isEmpty {s : Side} (h : (b.levels s.opposite).isEmpty) :
    b.sweepEntries s = [] := by
  refine List.eq_nil_iff_forall_not_mem.mpr fun e he => ?_
  have hget := mem_sweepEntries.mp he
  rw [SortedMap.isEmpty_iff.mp h] at hget
  cases hget

/-- The state a sweep starts its loop in. -/
def startSweep (b : OrderBook L) (t : Taker) (mode : MatchMode) : Sweep L :=
  { book := b, result := .new t.orderId mode.initialMatchQuantity, stop := .ofMode mode }

/-- What `match_order_inner` does before anything else: drop the cache, read the clock. -/
def openSweep (b : OrderBook L) : OrderBook L :=
  { b with cache := b.cache.invalidate, clock := b.clock.tick }

omit [PriceLevel L] in
theorem sameState_openSweep (b : OrderBook L) : SameState b b.openSweep :=
  ⟨_, _, b.orderStateTracker, rfl⟩

/-- **What `match_order_inner` returns**: the outcome for an empty side, or that of the sweep. -/
theorem matchOrderInner_cases (id : OrderId) (side : Side) (mode : MatchMode) (user : Hash32)
    (kind : TakerKind) (b : OrderBook L) :
    ((b.levels side.opposite).isEmpty ∧ matchOrderInner id side mode user kind b =
        (emptyBookResult side mode (.new id mode.initialMatchQuantity), b.openSweep)) ∨
      ∃ tracker, matchOrderInner id side mode user kind b =
        (sweepOutcome (b.taker id side mode.limitPrice user kind) mode
            (b.openSweep.sweep (b.taker id side mode.limitPrice user kind) mode),
          { finishSweep (b.taker id side mode.limitPrice user kind)
              (b.openSweep.sweep (b.taker id side mode.limitPrice user kind) mode) with
            orderStateTracker := tracker }) := by
  by_cases hempty : (b.levels side.opposite).isEmpty
  · exact Or.inl ⟨hempty, if_pos hempty⟩
  · refine Or.inr ?_
    rw [matchOrderInner]
    have hempty' : ¬ (b.openSweep.levels side.opposite).isEmpty = true := hempty
    dsimp only
    rw [← openSweep, if_neg hempty']
    split_ifs
    · exact ⟨_, rfl⟩
    · exact ⟨_, rfl⟩

/-- The book a match leaves: a taker that self-trade prevention stops before it trades is recorded.
-/
theorem matchOrderInner_snd (id : OrderId) (side : Side) (mode : MatchMode) (user : Hash32)
    (kind : TakerKind) (b : OrderBook L) :
    (matchOrderInner id side mode user kind b).2 = b.openSweep ∨
      (matchOrderInner id side mode user kind b).2 =
        finishSweep (b.taker id side mode.limitPrice user kind)
          (b.openSweep.sweep (b.taker id side mode.limitPrice user kind) mode) ∨
      (b.openSweep.sweep (b.taker id side mode.limitPrice user kind) mode).result.trades = [] ∧
        (matchOrderInner id side mode user kind b).1 =
          .error (.selfTradePrevented b.stpMode id user) ∧
        (matchOrderInner id side mode user kind b).2 =
          (finishSweep (b.taker id side mode.limitPrice user kind)
            (b.openSweep.sweep (b.taker id side mode.limitPrice user kind) mode)).trackState id
              (.cancelled 0 .selfTradePrevention) := by
  by_cases hempty : (b.openSweep.levels side.opposite).isEmpty
  · exact Or.inl (congrArg Prod.snd (if_pos hempty))
  · refine Or.inr ?_
    rw [matchOrderInner]
    dsimp only
    rw [← openSweep, if_neg hempty]
    split_ifs with hstp
    · exact Or.inr ⟨List.isEmpty_iff.mp hstp.2, if_pos hstp, rfl⟩
    · exact Or.inl rfl

variable [LevelQueue L] [LevelMatch L] {I : OrderBook L → Prop}

omit [LevelQueue L] [LevelMatch L] in
/-- **A sweep ends as its dry run on the book says.** -/
theorem sweep_follows (b : OrderBook L) (t : Taker) (mode : MatchMode) :
    Follows (b.dryRun t mode) (b.sweep t mode) :=
  Follows.loop ⟨rfl, rfl, rfl⟩ (b.sweepEntries t.side)

/-- **A sweep makes the matches of its dry run.** -/
theorem sweep_planned (b : OrderBook L) (t : Taker) (mode : MatchMode) :
    PlannedRun t (fun l q => (l, q) ∈ (b.dryRun t mode).fills) (b.startSweep t mode)
      (b.sweep t mode) :=
  sweepLoop_planned (b.nodup_sweepEntries t.side) (fun _ he => mem_sweepEntries.mp he)
    ⟨rfl, rfl, rfl⟩

theorem sweep_run (b : OrderBook L) (t : Taker) (mode : MatchMode) :
    SweepRun t (b.startSweep t mode) (b.sweep t mode) :=
  sweepLoop_steps (b.nodup_sweepEntries t.side) fun _ he => mem_sweepEntries.mp he

/-- A sweep opens no level. -/
theorem mem_prices_of_sweep {l : L}
    (hl : ((b.sweep t mode).book.levels t.side.opposite).get? price = some l) :
    price ∈ (b.sweepEntries t.side).map Prod.fst := by
  by_contra hnot
  have hsame : ((b.sweep t mode).book.levels t.side.opposite).get? price =
      (b.levels t.side.opposite).get? price :=
    sweepLoop_get?_of_notMem (nodup_sweepEntries _ _) (fun e he => mem_sweepEntries.mp he) hnot
  refine hnot (List.mem_map.mpr ⟨(price, l), mem_sweepEntries.mpr ?_, rfl⟩)
  exact hsame.symm.trans hl

/-- A sweep whose dry run is idle raises flags only. -/
theorem sweep_idle (hidle : (b.dryRun t mode).Idle) :
    ∃ stp rejected, b.openSweep.sweep t mode =
      { b.openSweep.startSweep t mode with
        stpTakerCancelled := stp, postOnlyRejected := rejected } :=
  sweepLoop_idle (nodup_sweepEntries ..) (fun _ he => mem_sweepEntries.mp he) ⟨rfl, rfl, rfl⟩ hidle

/-- A match whose dry run is idle reads the clock and drops the cache. -/
theorem matchOrderInner_idle_eq (id : OrderId) (side : Side) (mode : MatchMode) (user : Hash32)
    (kind : TakerKind) (hidle : (b.dryRun (b.taker id side mode.limitPrice user kind) mode).Idle) :
    ∃ tracker, (matchOrderInner id side mode user kind b).2 =
      { b.openSweep with orderStateTracker := tracker } := by
  rcases matchOrderInner_cases id side mode user kind b with ⟨-, h⟩ | ⟨tracker, h⟩
  · rw [h]
    exact ⟨_, rfl⟩
  · obtain ⟨stp, rejected, hsweep⟩ := sweep_idle hidle
    rw [h, hsweep]
    exact ⟨tracker, rfl⟩

/-- **A match whose dry run is idle leaves the book alone.** -/
theorem matchOrderInner_idle (id : OrderId) (side : Side) (mode : MatchMode) (user : Hash32)
    (kind : TakerKind) (hidle : (b.dryRun (b.taker id side mode.limitPrice user kind) mode).Idle) :
    b.SameState (matchOrderInner id side mode user kind b).2 := by
  obtain ⟨tracker, h⟩ := matchOrderInner_idle_eq id side mode user kind hidle
  rw [h]
  exact ⟨_, _, tracker, rfl⟩

omit [LevelQueue L] [LevelMatch L] in
/-- A sweep without trades reports none. -/
theorem trades_of_sweepOutcome (hnone : sw.result.trades = [])
    (h : sweepOutcome t mode sw = .ok outcome) : outcome.result.trades = [] := by
  rw [sweepOutcome.eq_def] at h
  rcases mode with ⟨quantity, _ | limit⟩ | amount
  · simp only [hnone, List.isEmpty_nil, and_true, if_true, insufficientLiquidity] at h
    split_ifs at h
  · simp only [hnone, List.isEmpty_nil, and_true, if_true, insufficientLiquidity] at h
    split_ifs at h
    cases h
    exact hnone
  · simp only [hnone, List.isEmpty_nil, and_true, if_true, insufficientLiquidity] at h
    split_ifs at h

/-- A match whose dry run is idle reports no trade. -/
theorem trades_of_idle (id : OrderId) (side : Side) (mode : MatchMode) (user : Hash32)
    (kind : TakerKind) (hidle : (b.dryRun (b.taker id side mode.limitPrice user kind) mode).Idle)
    (h : (matchOrderInner id side mode user kind b).1 = .ok outcome) :
    outcome.result.trades = [] := by
  rcases matchOrderInner_cases id side mode user kind b with ⟨-, hrun⟩ | ⟨tracker, hrun⟩
  · rw [hrun] at h
    simp only [emptyBookResult] at h
    split at h
    · cases h
    · cases h
      rfl
  · obtain ⟨stp, rejected, hsweep⟩ := sweep_idle hidle
    rw [hrun, hsweep] at h
    exact trades_of_sweepOutcome rfl h

/-- Once the loop is over, every level without orders on the side it swept is marked. -/
theorem sweep_marked (b : OrderBook L) (t : Taker) (mode : MatchMode)
    (hne : ∀ {p l}, (b.levels t.side.opposite).get? p = some l → orders l ≠ []) (p : ℕ) :
    Marked t p (b.sweep t mode) := by
  have hlevels : ∀ e ∈ b.sweepEntries t.side,
      (b.levels t.side.opposite).get? e.1 = some e.2 := fun e he => mem_sweepEntries.mp he
  refine sweepLoop_keeps (J := fun _ sw => ∀ p, Marked t p sw) (fun e he hl hstop v hJ p => ?_)
    (b.nodup_sweepEntries t.side) hlevels (.self _) (fun p l hl hnil => absurd hnil (hne hl)) p
  by_cases hp : p = e.1
  · rw [hp]
    exact v.marked hl (hne (hlevels e he))
  · -- other levels stay as they are, and marks are only added
    have hsteps := v.steps hl hstop
    intro l' hl' hnil
    rw [hsteps.get?_of_ne fun h => hp h.2] at hl'
    exact hsteps.run.empty_subset (hJ p l' hl' hnil)

/-- The sweep leaves the taker's own side alone. -/
theorem sweep_get?_own (b : OrderBook L) (t : Taker) (mode : MatchMode) (p : ℕ) :
    ((b.sweep t mode).book.levels t.side).get? p = (b.levels t.side).get? p := by
  refine (b.sweep_run t mode).invariant
    (J := fun sw => (sw.book.levels t.side).get? p = (b.levels t.side).get? p) ?_ rfl
  intro price sw sw' hs hJ
  rw [hs.get?_of_ne, hJ]
  exact fun h => t.side.opposite_ne h.1.symm

/-- Along a sweep whose fills are those of the dry run. -/
theorem matchOrderInner_planned {J : Sweep L → Prop} (hsame : ∀ {b b'}, SameState b b' → I b → I b')
    {kind : TakerKind} (ht : b.taker id side mode.limitPrice user kind = t)
    (hstart : J (b.openSweep.startSweep t mode))
    (hstep : ∀ {price sw sw'},
      PlannedStep t (fun l q => (l, q) ∈ (b.dryRun t mode).fills) price sw sw' → J sw → J sw')
    (hfinish : J (b.openSweep.sweep t mode) → I (finishSweep t (b.openSweep.sweep t mode)))
    (hI : I b) : I (matchOrderInner id side mode user kind b).2 := by
  subst ht
  rcases matchOrderInner_cases id side mode user kind b with ⟨-, h⟩ | ⟨tracker, h⟩
  · rw [h]
    exact hsame b.sameState_openSweep hI
  · rw [h]
    exact hsame ⟨_, _, tracker, rfl⟩
      (hfinish ((sweep_planned b.openSweep _ mode).invariant hstep hstart))

/-- **Invariants of a match.** `I` holds between calls, `J` during the sweep. -/
theorem matchOrderInner_invariant {J : Taker → Sweep L → Prop}
    (hsame : ∀ {b b'}, SameState b b' → I b → I b')
    (hstart : ∀ {b t} mode, I b → J t (b.startSweep t mode))
    (hstep : ∀ {t price sw sw'}, SweepStep t price sw sw' → J t sw → J t sw')
    (hfinish : ∀ {b t mode}, I b → J t (b.sweep t mode) → I (finishSweep t (b.sweep t mode)))
    (id : OrderId) (side : Side) (mode : MatchMode) (user : Hash32) (kind : TakerKind) (hI : I b) :
    I (matchOrderInner id side mode user kind b).2 := by
  have hopen := hsame b.sameState_openSweep hI
  exact matchOrderInner_planned hsame rfl (hstart mode hopen) (fun hs hJ => hstep hs.step hJ)
    (fun hJ => hfinish hopen hJ) hI

end OrderBook

end OrderBookRs
