import OrderBookRs.CleanFailure
import OrderBookRs.SpecialOrders

/-!
# Quantities under a modify

The three requests that move an order rewrite its quantity, each in its own way, and send the result
through the admission of a new order. Whatever quantity the rewritten order has is traded or rests.
Nothing bounds that quantity from below, and a request for zero takes the order off the book with an
`Ok`. `UpdatePriceAndQuantity` and `Replace` rewrite a reserve order differently.

## Main definitions

* `OrderBook.Placed`: what became of an order that was admitted.
* `OrderBook.AccountsFor`: the quantity of a moved order is positive and is traded or rests.
* `LeavesQuantity`: the request leaves the order some quantity.
* `Order.SameTranches`, `ReadAlike`: when the two requests mean the same quantity.

## Main results

* `modify_accounts_iff`: a modify that succeeds accounts for the new quantity if and only if the
  request leaves the order some quantity.
* `modify_requests_agree_iff`: `UpdatePriceAndQuantity` and `Replace` leave the same tranches if and
  only if the order is no reserve order, or one without hidden quantity that is not enlarged.
-/

namespace OrderBookRs

open PriceLevel Fallible OrderBook

variable {L : Type} [PriceLevel L] {newOrder o original : Order} {b : OrderBook L} {u : OrderUpdate}

/-! ### Admitted orders -/

/-- What became of an order that was admitted: it traded `trades` as the taker, and the remaining
quantity rests, if there is any. -/
structure OrderBook.Placed (b b' : OrderBook L) (o : Order) (trades : List Trade) (remaining : ℕ) :
    Prop where
  fits : o.checkedTotalQuantity.isNone = false
  fills : b'.fills = b.fills ++ trades
  takers : ∀ t ∈ trades, t.takerOrderId = o.id
  traded : tradedQuantity trades + remaining = o.totalQuantity
  passive : b.OutOfReach o → remaining = o.totalQuantity
  rests : b'.getOrder o.id = if remaining = 0 then none else some (residual o remaining)

section Placed

variable [LevelQueue L] [LevelMatch L] [MatchAccounting L] [TradeRecords L] {b' : OrderBook L}
  {outcome : MatchOutcome} {r : Order}

omit [LevelQueue L] [LevelMatch L] [MatchAccounting L] in
/-- Every fill of a sweep is the taker's. -/
theorem takers_step {t : Taker} {price : ℕ} {fills : List Trade} {sw sw' : Sweep L}
    (hs : SweepStep t price sw sw')
    (h : ∃ new, sw.book.fills = fills ++ new ∧ ∀ x ∈ new, x.takerOrderId = t.orderId) :
    ∃ new, sw'.book.fills = fills ++ new ∧ ∀ x ∈ new, x.takerOrderId = t.orderId := by
  obtain ⟨new, hnew, htakers⟩ := h
  cases hs with
  | @fill q l l' r level kind allows pos cap safe run =>
    refine ⟨new ++ r.trades, by rw [fillLevel_fills, hnew, List.append_assoc], fun x hx => ?_⟩
    rcases List.mem_append.mp hx with hx | hx
    · exact htakers x hx
    · exact TradeRecords.trade_taker run hx
  | cancel =>
    exact ⟨new, (stpCancel_fills ..).trans hnew, htakers⟩
  | markEmpty | flag => exact ⟨new, hnew, htakers⟩

theorem sweepOf_takers (h : sweepOf o b = (.ok outcome, b')) :
    ∀ t ∈ outcome.result.trades, t.takerOrderId = o.id := by
  rcases sweepOf_eq_ok h with ⟨-, rfl, rfl⟩ | ⟨tracker, rfl, rfl⟩
  · exact fun t ht => absurd ht List.not_mem_nil
  · obtain ⟨remaining, -, hacc⟩ := b.sweepFor_accounts o
    obtain ⟨new, hnew, htakers⟩ := (b.sweepFor_run o).invariant
      (J := fun sw => ∃ new, sw.book.fills = b.fills ++ new ∧ ∀ x ∈ new, x.takerOrderId = o.id)
      (fun hs hJ => takers_step hs hJ) ⟨[], (List.append_nil _).symm, fun t ht => nomatch ht⟩
    obtain rfl : new = _ := List.append_cancel_left (hnew.symm.trans hacc.applied)
    exact htakers

omit [TradeRecords L] in
/-- Out of reach of the opposite side a sweep leaves the whole quantity. -/
theorem remaining_of_outOfReach (h : sweepOf o b = (.ok outcome, b')) (hout : b.OutOfReach o) :
    outcome.result.remainingQuantity = o.totalQuantity := by
  rcases sweepOf_eq_ok h with ⟨-, rfl, rfl⟩ | ⟨tracker, rfl, rfl⟩
  · rfl
  · obtain ⟨remaining, -, hacc⟩ := b.sweepFor_accounts o
    have hstop := (b.sweepFor_follows o).stop_eq
    rw [dryRunOf_of_outOfReach hout, hacc.stop] at hstop
    rw [hacc.result]
    injection hstop

/-- **Nothing of an admitted order is lost**: what it does not trade rests. -/
theorem OrderBook.Sound.placed [LevelResize L] (h : b.Sound) {wantResult : Bool}
    {r : Order × Option TradeResult} (hok : (addOrderInner o wantResult b).1 = .ok r) :
    ∃ trades remaining, b.Placed (addOrderInner o wantResult b).2 o trades remaining := by
  have hstep := addOrderInner_step o wantResult b
  have hend : (addOrderInner o wantResult b).2.Sound := Sound.steps.calls.add o wantResult b h
  rw [hok] at hstep
  generalize (addOrderInner o wantResult b).2 = b' at hstep hend ⊢
  -- what the sweep left, for both of the cases that succeed
  have hswept : ∀ {b₀ b₁ : OrderBook L} {outcome}, b.Accepted o → b.Quiet b₀ →
      sweepOf o b₀ = (.ok outcome, b₁) →
      (b₁.fills = b.fills ++ outcome.result.trades ∧ ¬ b₁.Holds o.id) ∧
        (b.OutOfReach o → outcome.result.remainingQuantity = o.totalQuantity) := by
    intro b₀ b₁ outcome haccepted hquiet hrun
    have hsame := hquiet.sameState
    refine ⟨⟨by rw [(sweepOf_accounts hrun).2, hsame.fills_eq], fun hheld => ?_⟩, fun hout => ?_⟩
    · have hb₁ : (sweepOf o b₀).2.Holds o.id := by rwa [hrun]
      have hb₀ := (h.sameState hsame).matchOrderInner_holds _ _ _ _ _ hb₁
      exact h.not_holds haccepted.fresh ((holds_of_sameOrders hsame.sameOrders).mp hb₀)
    · refine remaining_of_outOfReach hrun fun price l hl => hout price l ?_
      rwa [← hsame.levels_eq]
  cases hstep with
  | @filled result b₀ b₁ outcome accepted quiet run flag stp zero =>
    obtain ⟨⟨hfills, hfree⟩, hpassive⟩ := hswept accepted quiet run
    have htracked := (sameView_trackState (emitTrades wantResult outcome.result b₁).2 o.id
      (.filled o.totalQuantity)).sameState
    refine ⟨outcome.result.trades, outcome.result.remainingQuantity, accepted.representable, ?_,
      sweepOf_takers run, (sweepOf_accounts run).1, hpassive, ?_⟩
    · rw [htracked.fills_eq, emitTrades_fills, hfills]
    · rw [if_pos zero]
      refine getOrder_eq_none fun hheld => hfree ?_
      exact (holds_of_sameOrders (sameOrders_emitTrades wantResult outcome.result b₁)).mp
        ((holds_of_sameOrders htracked.sameOrders).mp hheld)
  | @rests r result b₀ b₁ _ outcome accepted quiet run flag stp pos resting rest =>
    obtain ⟨⟨hfills, hfree⟩, hpassive⟩ := hswept accepted quiet run
    refine ⟨outcome.result.trades, outcome.result.remainingQuantity, accepted.representable, ?_,
      sweepOf_takers run, (sweepOf_accounts run).1, hpassive, ?_⟩
    · have hrested := restResidual_fills o outcome.result.remainingQuantity
        (emitTrades wantResult outcome.result b₁).2
      rw [rest] at hrested
      rw [hrested, emitTrades_fills, hfills]
    · rw [if_neg pos]
      rcases restResidual_cases o outcome.result.remainingQuantity
          (emitTrades wantResult outcome.result b₁).2 with
        ⟨l, l', hlevel, hadd, horders, -, hstate⟩ | ⟨e, -, herror, -⟩
      · rw [rest] at hstate
        have hthere := (restAt_rests_iff outcome.result.remainingQuantity hlevel horders).mpr
          (Or.inr ⟨rfl, rfl, rfl⟩)
        obtain ⟨lₑ, hl, ho⟩ := (SameOrders.sameRests hstate.sameOrders).rests_iff.mpr hthere
        have hget := getOrder_of_mem (hend.located ⟨lₑ, hl, ho⟩) hl ho
        rwa [residual_id] at hget
      · rw [rest] at herror
        cases herror

/-! ### Moved orders -/

omit [LevelQueue L] [LevelMatch L] [MatchAccounting L] [TradeRecords L] in
/-- A moving request that returns an order passed the gates of `update_order`. -/
theorem moves_of_ok (hok : (OrderBook.updateOrder u b).1 = .ok (some r))
    (hget : b.getOrder (target u) = some original)
    (hmoved : movedOrder original u = some newOrder) : b.Moves u newOrder := by
  have hmodify : isModify u := by cases u <;> first | rfl | cases hmoved
  have hrunning : b.killSwitch = false := by
    cases hkill : b.killSwitch with
    | false => rfl
    | true =>
      have hrefused : checkKillSwitch b = (.error .killSwitchActive, b) := if_pos hkill
      rw [OrderBook.updateOrder, if_pos hmodify, bind_run_of_error hrefused] at hok
      cases hok
  refine ⟨hrunning, ⟨original, hget, hmoved⟩, ?_⟩
  rintro id price rfl hprice
  have hpass : checkKillSwitch b = (.ok (), b) := if_neg (by simp [hrunning])
  obtain ⟨⟨oldPrice, side⟩, hloc, rfl⟩ := Option.map_eq_some_iff.mp hprice
  have hloc' : b.invalidateCache.orderLocations.lookup id = some (oldPrice, side) := hloc
  have hrefused : OrderBook.updateOrder (.updatePrice id oldPrice) b =
      (.error (.invalidOperation "Cannot update price to the same value"), b.invalidateCache) := by
    rw [OrderBook.updateOrder, if_pos hmodify, bind_run_of_ok hpass]
    refine (bind_run_of_ok (modify_run invalidateCache b)).trans ?_
    rw [applyUpdate, updatePrice, bind_run_of_ok (get_run _)]
    simp only [hloc', if_pos]
    rfl
  rw [hrefused] at hok
  cases hok

/-- **Nothing of a moved order is lost.** -/
theorem OrderBook.Sound.moved [LevelResize L] (h : b.Sound)
    (hok : (OrderBook.updateOrder u b).1 = .ok (some r))
    (hget : b.getOrder (target u) = some original)
    (hmoved : movedOrder original u = some newOrder) :
    ∃ trades remaining, b.Placed (OrderBook.updateOrder u b).2 newOrder trades remaining := by
  have hmoves := moves_of_ok hok hget hmoved
  rcases updateOrder_cases u b with ⟨hstays, -⟩ | ⟨_, _, rfl, -⟩ | ⟨_, rfl, -⟩ | ⟨o, ho, hrun⟩
  · exact absurd hmoves (hstays newOrder)
  · cases hmoved
  · cases hmoved
  obtain rfl := hmoves.unique ho
  rw [hrun] at hok ⊢
  rcases modifyOrder_step (target u) newOrder b.invalidateCache with
    ⟨-, e, b', -, -, hfail⟩ | ⟨-, b₀, hquiet, -, hmodify⟩
  · rw [hfail] at hok
    cases hok
  have hsame₀ : b.SameState b₀ := b.sameState_invalidateCache.trans hquiet.sameState
  have hwithdraws := withdraws_of_getOrder h hsame₀ hget
  rw [hmodify] at hok ⊢
  rcases hadd : (addOrderInner newOrder false
    (b₀.cancelOrderWithReason (target u) .userRequested).1).1 with e | r'
  · rw [hadd] at hok
    cases hok
  obtain ⟨trades, remaining, hplaced⟩ := hwithdraws.sound.placed hadd
  refine ⟨trades, remaining, hplaced.fits, ?_, hplaced.takers, hplaced.traded,
    fun hout => hplaced.passive (hwithdraws.outOfReach hout), hplaced.rests⟩
  rw [hplaced.fills, cancelOrderWithReason_fills, hsame₀.fills_eq]

end Placed

/-! ### How the requests rewrite quantities -/

/-- The request leaves the order some quantity: it asks for a positive one, or what it does not
touch is positive. -/
def LeavesQuantity (original : Order) : OrderUpdate → Prop
  | .updatePrice _ _ => 0 < original.size
  | .updatePriceAndQuantity _ _ newQuantity =>
    match original.kind with
    | .iceberg hidden => 0 < newQuantity ∨ 0 < hidden
    | .reserve .. => 0 < newQuantity ∧ 0 < original.size
    | _ => 0 < newQuantity
  | .replace _ _ quantity _ => 0 < quantity ∨ 0 < original.hiddenQuantity
  | _ => True

/-- `UpdatePriceAndQuantity` and `Replace` read this quantity alike, and leave some of it: the order
has one tranche or is an iceberg, or is a reserve order without hidden quantity that is not
enlarged. -/
def ReadAlike (o : Order) (quantity : ℕ) : Prop :=
  match o.kind with
  | .iceberg hidden => 0 < quantity ∨ 0 < hidden
  | .reserve hidden _ _ _ => hidden = 0 ∧ 0 < quantity ∧ quantity ≤ o.visibleQuantity
  | _ => 0 < quantity

section Reserve

variable {o : Order} {hidden threshold : ℕ} {amount : Option ℕ+} {auto : Bool}
  (hk : o.kind = .reserve hidden threshold amount auto) (hfit : o.visibleQuantity + hidden ≤ u64Max)
  (q : ℕ)

include hk

theorem fits_of_reserve (hsize : o.size ≤ u64Max) : o.visibleQuantity + hidden ≤ u64Max := by
  simpa [Order.size, Order.hiddenQuantity, hk] using hsize

theorem setQuantity_of_reserve : o.setQuantity q = o.reduceReserveToTotal q := by
  simp only [Order.setQuantity, hk]

include hfit

/-- `UpdatePriceAndQuantity` reduces a reserve order to a total, and never enlarges it. -/
theorem size_reduceReserveToTotal : (o.reduceReserveToTotal q).size = min q o.size := by
  have hrefresh := Order.reserveRefresh_le
    (o.visibleQuantity - min (o.visibleQuantity + hidden - q) o.visibleQuantity)
    (hidden - (o.visibleQuantity + hidden - q -
      min (o.visibleQuantity + hidden - q) o.visibleQuantity)) amount
  simp only [Order.size, Order.reduceReserveToTotal, hk, Order.hiddenQuantity, satAdd64_eq hfit]
  omega

/-- The two requests mean the same of a reserve order only if nothing is hidden and it is not
enlarged. -/
theorem tranches_reduceReserveToTotal_iff :
    (o.reduceReserveToTotal q).visibleQuantity = q ∧
        (o.reduceReserveToTotal q).hiddenQuantity = hidden ↔
      hidden = 0 ∧ q ≤ o.visibleQuantity := by
  simp only [Order.reduceReserveToTotal, hk, Order.hiddenQuantity, satAdd64_eq hfit,
    Order.reserveRefresh]
  split_ifs with hempty
  · omega
  · omega

end Reserve

/-- The quantity of a moved order is positive if the request leaves it some. -/
theorem size_movedOrder_pos_iff (hfit : original.size ≤ u64Max)
    (hmoved : movedOrder original u = some newOrder) :
    0 < newOrder.size ↔ LeavesQuantity original u := by
  cases u with
  | updatePrice =>
    cases hmoved
    exact Iff.rfl
  | updatePriceAndQuantity id newPrice newQuantity =>
    cases hmoved
    obtain ⟨kind, hk⟩ : ∃ kind, original.kind = kind := ⟨_, rfl⟩
    cases kind with
    | reserve =>
      have hfit' := fits_of_reserve hk hfit
      have hleaves : LeavesQuantity original (.updatePriceAndQuantity id newPrice newQuantity) ↔
          0 < newQuantity ∧ 0 < original.size := by
        simp only [LeavesQuantity, hk]
      rw [setQuantity_of_reserve (o := { original with price := newPrice }) hk, hleaves,
        size_reduceReserveToTotal (o := { original with price := newPrice }) hk hfit', lt_min_iff]
      exact Iff.rfl
    | _ => simp [LeavesQuantity, Order.size, Order.setQuantity, Order.hiddenQuantity, hk]
  | replace =>
    cases hmoved
    exact Nat.add_pos_iff_pos_or_pos
  | updateQuantity | cancel => cases hmoved

/-! ### A moved order is traded or rests -/

/-- The quantity of a moved order is positive, and the call traded it or left it resting. -/
structure OrderBook.AccountsFor (b b' : OrderBook L) (o : Order) : Prop where
  positive : 0 < o.size
  accounted : ∃ trades, b'.fills = b.fills ++ trades ∧ (∀ t ∈ trades, t.takerOrderId = o.id) ∧
    o.size = tradedQuantity trades + ((b'.getOrder o.id).map Order.size).getD 0

/-- Under this id both books hold an order, with the same visible and the same hidden quantity. -/
def OrderBook.SameTranches (b₁ b₂ : OrderBook L) (id : OrderId) : Prop :=
  ∃ x₁ x₂, b₁.getOrder id = some x₁ ∧ b₂.getOrder id = some x₂ ∧
    x₁.visibleQuantity = x₂.visibleQuantity ∧ x₁.hiddenQuantity = x₂.hiddenQuantity

namespace OrderBook.Placed

variable {b b' : OrderBook L} {o : Order} {trades : List Trade} {remaining : ℕ}
  (h : b.Placed b' o trades remaining)

include h

theorem size_eq : o.size = tradedQuantity trades + ((b'.getOrder o.id).map Order.size).getD 0 := by
  have htotal := Order.size_eq_totalQuantity h.fits
  have htraded := h.traded
  rw [h.rests]
  split_ifs with hzero
  · simp only [Option.map_none, Option.getD_none]
    omega
  · have hle : remaining ≤ o.totalQuantity := by omega
    simp only [Option.map_some, Option.getD_some, size_residual h.fits hle]
    omega

/-- A passive order that is admitted rests as it is. -/
theorem getOrder_of_passive (hout : b.OutOfReach o) (x : Order) :
    b'.getOrder o.id = some x ↔ 0 < o.size ∧ x = o := by
  have hwhole := h.passive hout
  rw [h.rests, hwhole, residual, if_neg (lt_irrefl _), Order.size_eq_totalQuantity h.fits]
  split_ifs with hzero
  · simp [hzero]
  · simp only [Option.some.injEq, Nat.pos_of_ne_zero hzero, true_and, eq_comm]

end OrderBook.Placed

section Requests

variable [LevelQueue L] [LevelMatch L] [LevelResize L] [LevelSnapshot L] [MatchAccounting L]
  [TradeRecords L] [LevelCapacity L] [SnapshotChecksum] [DisplayId] {b : OrderBook L}

omit [LevelQueue L] [LevelMatch L] [LevelResize L] [LevelSnapshot L] [MatchAccounting L]
  [TradeRecords L] [SnapshotChecksum] [DisplayId] in
theorem size_le_of_getOrder {id : OrderId} (hget : b.getOrder id = some o) : o.size ≤ u64Max := by
  obtain ⟨side, price, l, -, -, ho, -⟩ := getOrder_eq_some hget
  exact LevelCapacity.size_le ho

/-- **What a modify accounts for.** Let a moving request succeed on an order of a reachable book.
The new quantity is positive and equals what the call trades of it plus what rests of it afterwards
if and only if the request leaves the order some quantity. -/
theorem modify_accounts_iff (hreach : b.ReachableByCalls) {u : OrderUpdate}
    {original newOrder r : Order} (hget : b.getOrder (target u) = some original)
    (hmoved : movedOrder original u = some newOrder)
    (hok : (OrderBook.updateOrder u b).1 = .ok (some r)) :
    b.AccountsFor (OrderBook.updateOrder u b).2 newOrder ↔ LeavesQuantity original u := by
  rw [← size_movedOrder_pos_iff (size_le_of_getOrder hget) hmoved]
  obtain ⟨trades, remaining, hplaced⟩ := hreach.registered.1.moved hok hget hmoved
  exact ⟨fun h => h.positive, fun hpos =>
    ⟨hpos, trades, hplaced.fills, hplaced.takers, hplaced.size_eq⟩⟩

omit [LevelQueue L] [LevelMatch L] [LevelResize L] [LevelSnapshot L] [MatchAccounting L]
  [TradeRecords L] [LevelCapacity L] [SnapshotChecksum] [DisplayId] [PriceLevel L] in
/-- The two rewritten orders have some quantity and the same tranches if the requests read the
quantity alike. -/
theorem readAlike_iff (hfit : o.size ≤ u64Max) (id : OrderId) (price quantity : ℕ) :
    (0 < ({ o with price := price }.setQuantity quantity).size ∧
        0 < (o.replaceWith id price quantity o.side).size ∧
        ({ o with price := price }.setQuantity quantity).visibleQuantity =
          (o.replaceWith id price quantity o.side).visibleQuantity ∧
        ({ o with price := price }.setQuantity quantity).hiddenQuantity =
          (o.replaceWith id price quantity o.side).hiddenQuantity) ↔ ReadAlike o quantity := by
  obtain ⟨kind, hk⟩ : ∃ kind, o.kind = kind := ⟨_, rfl⟩
  cases kind with
  | reserve hidden threshold amount auto =>
    have hfit' := fits_of_reserve hk hfit
    have htranches := tranches_reduceReserveToTotal_iff (o := { o with price := price }) hk hfit'
      quantity
    have hhidden : (o.replaceWith id price quantity o.side).hiddenQuantity = hidden := by
      simp only [Order.replaceWith, Order.hiddenQuantity, hk]
    have hvisible : (o.replaceWith id price quantity o.side).visibleQuantity = quantity := rfl
    have hread : ReadAlike o quantity ↔
        hidden = 0 ∧ 0 < quantity ∧ quantity ≤ o.visibleQuantity := by
      simp only [ReadAlike, hk]
    rw [setQuantity_of_reserve (o := { o with price := price }) hk, Order.size, Order.size, hhidden,
      hvisible, hread]
    generalize Order.visibleQuantity (Order.reduceReserveToTotal _ _) = visible' at htranches ⊢
    generalize Order.hiddenQuantity (Order.reduceReserveToTotal _ _) = hidden' at htranches ⊢
    dsimp only at htranches
    omega
  | _ =>
    simp [ReadAlike, Order.size, Order.setQuantity, Order.replaceWith, Order.hiddenQuantity, hk]

/-- **When two modify requests agree.** Let `UpdatePriceAndQuantity` and `Replace` on the same side
to one passive price and one quantity both succeed on an order of a reachable book. They leave it
resting with the same visible and the same hidden quantity if and only if they read the quantity
alike. -/
theorem modify_requests_agree_iff (hreach : b.ReachableByCalls) {id : OrderId} {o r₁ r₂ : Order}
    {price quantity : ℕ} (hget : b.getOrder id = some o)
    (hpassive : ∀ p l, (b.levels o.side.opposite).get? p = some l → o.side.crosses price p = false)
    (hok₁ : (OrderBook.updateOrder (.updatePriceAndQuantity id price quantity) b).1 = .ok (some r₁))
    (hok₂ : (OrderBook.updateOrder (.replace id price quantity o.side) b).1 = .ok (some r₂)) :
    (OrderBook.updateOrder (.updatePriceAndQuantity id price quantity) b).2.SameTranches
        (OrderBook.updateOrder (.replace id price quantity o.side) b).2 id ↔
      ReadAlike o quantity := by
  obtain ⟨_, _, _, -, -, -, rfl⟩ := getOrder_eq_some hget
  obtain ⟨_, _, hplaced₁⟩ := hreach.registered.1.moved hok₁ hget rfl
  obtain ⟨_, _, hplaced₂⟩ := hreach.registered.1.moved hok₂ hget rfl
  rw [← readAlike_iff (size_le_of_getOrder hget) o.id price quantity]
  -- both rewritten orders keep the id and the side, so both are passive
  have hout₁ : b.OutOfReach ({ o with price := price }.setQuantity quantity) := by
    obtain ⟨v, k, hset⟩ := { o with price := price }.setQuantity_eq_setTranches quantity
    rw [hset]
    exact hpassive
  have hid₁ : ({ o with price := price }.setQuantity quantity).id = o.id := by
    obtain ⟨v, k, hset⟩ := { o with price := price }.setQuantity_eq_setTranches quantity
    rw [hset]
    rfl
  have hrests₁ := hplaced₁.getOrder_of_passive hout₁
  rw [hid₁] at hrests₁
  have hrests₂ := hplaced₂.getOrder_of_passive hpassive
  constructor
  · rintro ⟨x₁, x₂, hx₁, hx₂, hvisible, hhidden⟩
    obtain ⟨hpos₁, rfl⟩ := (hrests₁ x₁).mp hx₁
    obtain ⟨hpos₂, rfl⟩ := (hrests₂ x₂).mp hx₂
    exact ⟨hpos₁, hpos₂, hvisible, hhidden⟩
  · rintro ⟨hpos₁, hpos₂, hvisible, hhidden⟩
    exact ⟨_, _, (hrests₁ _).mpr ⟨hpos₁, rfl⟩, (hrests₂ _).mpr ⟨hpos₂, rfl⟩, hvisible, hhidden⟩

end Requests

/-- A book with one resting ask of user 7. -/
def askBook (visible : ℕ) (kind : OrderKind) : OrderBook FifoLevel :=
  (withClock "BTC" ⟨fun n => n, 0⟩ : OrderBook FifoLevel).execute
    (.addOrder ⟨1, 100, .sell, 7, 0, .gtc, visible, kind⟩)

theorem askBook_reachable (visible : ℕ) (kind : OrderKind) :
    letI := noDigest
    letI := tallyIds
    (askBook visible kind).ReachableByCalls := by
  let _ := noDigest
  let _ := tallyIds
  exact ⟨"BTC", ⟨fun n => n, 0⟩,
    [.op (.command (.addOrder ⟨1, 100, .sell, 7, 0, .gtc, visible, kind⟩))], rfl⟩

/-- A standard ask is moved and enlarged. -/
theorem askBook_accounts :
    (askBook 5 .standard).AccountsFor
      (OrderBook.updateOrder (.updatePriceAndQuantity 1 101 8) (askBook 5 .standard)).2
      ⟨1, 101, .sell, 7, 0, .gtc, 8, .standard⟩ := by
  let _ := noDigest
  let _ := tallyIds
  have hget : (askBook 5 .standard).getOrder 1 =
      some ⟨1, 100, .sell, 7, 0, .gtc, 5, .standard⟩ := by decide
  have hok : (OrderBook.updateOrder (.updatePriceAndQuantity 1 101 8) (askBook 5 .standard)).1 =
      .ok (some ⟨1, 101, .sell, 7, 0, .gtc, 8, .standard⟩) := by decide
  exact (modify_accounts_iff (u := .updatePriceAndQuantity 1 101 8) (askBook_reachable 5 .standard)
    hget rfl hok).mpr (Nat.succ_pos 7)

/-- **A modify to zero takes the order off the book**: the request succeeds, nothing is traded, and
nothing rests. -/
theorem askBook_not_accounts :
    letI := noDigest
    letI := tallyIds
    (askBook 5 .standard).ReachableByCalls ∧
      (askBook 5 .standard).getOrder 1 = some ⟨1, 100, .sell, 7, 0, .gtc, 5, .standard⟩ ∧
      OrderBook.updateOrder (.updatePriceAndQuantity 1 101 0) (askBook 5 .standard) =
        (.ok (some ⟨1, 101, .sell, 7, 0, .gtc, 0, .standard⟩),
          (OrderBook.updateOrder (.updatePriceAndQuantity 1 101 0) (askBook 5 .standard)).2) ∧
      (OrderBook.updateOrder (.updatePriceAndQuantity 1 101 0)
        (askBook 5 .standard)).2.restingOrders = [] ∧
      ¬ (askBook 5 .standard).AccountsFor
        (OrderBook.updateOrder (.updatePriceAndQuantity 1 101 0) (askBook 5 .standard)).2
        ⟨1, 101, .sell, 7, 0, .gtc, 0, .standard⟩ :=
  ⟨askBook_reachable 5 .standard, by decide, Prod.ext (by decide) rfl, by decide,
    fun h => absurd h.positive (by decide)⟩

/-- Both requests move an iceberg and leave its hidden part alone. -/
theorem askBook_requests_agree :
    SameTranches
      (OrderBook.updateOrder (.updatePriceAndQuantity 1 101 3) (askBook 5 (.iceberg 4))).2
      (OrderBook.updateOrder (.replace 1 101 3 .sell) (askBook 5 (.iceberg 4))).2 1 := by
  let _ := noDigest
  let _ := tallyIds
  have hget : (askBook 5 (.iceberg 4)).getOrder 1 =
      some ⟨1, 100, .sell, 7, 0, .gtc, 5, .iceberg 4⟩ := by decide
  have hpassive : ∀ p l, ((askBook 5 (.iceberg 4)).levels .buy).get? p = some l →
      Side.sell.crosses 101 p = false := fun _ _ hl => nomatch hl
  have hok₁ : (OrderBook.updateOrder (.updatePriceAndQuantity 1 101 3) (askBook 5 (.iceberg 4))).1 =
      .ok (some ⟨1, 101, .sell, 7, 0, .gtc, 3, .iceberg 4⟩) := by decide
  have hok₂ : (OrderBook.updateOrder (.replace 1 101 3 .sell) (askBook 5 (.iceberg 4))).1 =
      .ok (some ⟨1, 101, .sell, 7, 0, .gtc, 3, .iceberg 4⟩) := by decide
  exact (modify_requests_agree_iff (askBook_reachable 5 (.iceberg 4)) hget hpassive hok₁ hok₂).mpr
    (Or.inl (Nat.succ_pos 2))

/-- **The requests disagree on a reserve order.** Of two displayed and three hidden,
`UpdatePriceAndQuantity` to four leaves one displayed and three hidden, `Replace` to four leaves
four displayed and three hidden. -/
theorem askBook_requests_disagree :
    letI := noDigest
    letI := tallyIds
    (askBook 2 (.reserve 3 0 none false)).ReachableByCalls ∧
      ((OrderBook.updateOrder (.updatePriceAndQuantity 1 101 4)
        (askBook 2 (.reserve 3 0 none false))).2.getOrder 1).map
          (fun x => (x.visibleQuantity, x.hiddenQuantity)) = some (1, 3) ∧
      ((OrderBook.updateOrder (.replace 1 101 4 .sell)
        (askBook 2 (.reserve 3 0 none false))).2.getOrder 1).map
          (fun x => (x.visibleQuantity, x.hiddenQuantity)) = some (4, 3) ∧
      ¬ (OrderBook.updateOrder (.updatePriceAndQuantity 1 101 4)
        (askBook 2 (.reserve 3 0 none false))).2.SameTranches
          (OrderBook.updateOrder (.replace 1 101 4 .sell)
            (askBook 2 (.reserve 3 0 none false))).2 1 := by
  have hleft : ((OrderBook.updateOrder (.updatePriceAndQuantity 1 101 4)
      (askBook 2 (.reserve 3 0 none false))).2.getOrder 1).map
        (fun x => (x.visibleQuantity, x.hiddenQuantity)) = some (1, 3) := by decide
  have hright : ((OrderBook.updateOrder (.replace 1 101 4 .sell)
      (askBook 2 (.reserve 3 0 none false))).2.getOrder 1).map
        (fun x => (x.visibleQuantity, x.hiddenQuantity)) = some (4, 3) := by decide
  refine ⟨askBook_reachable 2 _, hleft, hright, ?_⟩
  rintro ⟨x₁, x₂, hx₁, hx₂, hvisible, -⟩
  rw [hx₁] at hleft
  rw [hx₂] at hright
  have hone : x₁.visibleQuantity = 1 := (Prod.mk.inj (Option.some.inj hleft)).1
  have hfour : x₂.visibleQuantity = 4 := (Prod.mk.inj (Option.some.inj hright)).1
  omega

end OrderBookRs
