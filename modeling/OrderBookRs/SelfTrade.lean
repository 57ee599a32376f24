import OrderBookRs.Accounting
import OrderBookRs.FifoLevel
import OrderBookRs.Settings
import OrderBookRs.Sound

/-!
# No self-trade

With self-trade prevention switched on, a sweep matches at a level only up to the display ahead of
the first order of the taker's own user, or after that user's orders were taken off. A queue
replenishes hidden quantity while it is swept, so that the bound is a sum of displays is enough only
because every maker ahead has traded at least its display before the taker's own order is reached.

One maker ahead may not trade at all: a match passes over the order with the taker's own id, whose
display is nevertheless part of the bound. A new order has an id that does not rest, a market order
may have one that does.

## Main definitions

* `Plan.StaysAhead`: the matches of a plan keep to the bound without the order they pass over.
* `ForeignTrades`: trades with makers of other users.
* `Command.taker`: the user on whose behalf a call takes liquidity.

## Main results

* `maker_not_own`: a match within the bound does not reach an own order.
* `no_self_trade`: no call that keeps to this bound trades with an order of the user it takes
  liquidity for.
-/

namespace OrderBookRs

open PriceLevel Fallible OrderBook

variable {L : Type} [PriceLevel L]

/-! ### One match -/

instance (t : Taker) (queue : List Order) (q : ℕ) : Decidable (StpSafe t queue q) :=
  decidable_of_iff (t.stpActive → ∀ found ∈ firstOwn t.userId queue 0, q ≤ found.1)
    ⟨fun h hactive safe id hfirst => h hactive (safe, id) hfirst,
      fun h hactive found hfirst => h hactive found.1 found.2 hfirst⟩

/-- **A match within the bound does not reach an own order.** If it did, everything ahead of the
first own order that the match does not pass over would have traded its display and the own order
something on top of it. -/
theorem maker_not_own [LevelQueue L] [MatchAccounting L] [InsertionOrder L] [SelfMatchSkip L]
    {t : Taker} {q : ℕ} {l l' : L} {r : MatchResult} (hactive : t.stpActive)
    (hsafe : StpSafe t ((orders l).filter fun o => o.id ≠ t.orderId) q)
    (hrun : matchOrder l q t.orderId .standard = (r, l')) {x : Trade} (hx : x ∈ r.trades)
    {m : Order} (hm : m ∈ orders l) (hid : m.id = x.makerOrderId) : m.userId ≠ t.userId := by
  intro hown
  have hmine : x ∈ tradesOf m.id r.trades := List.mem_filter.mpr ⟨hx, by simp [hid]⟩
  have hother : m.id ≠ t.orderId := by
    intro heq
    rw [heq, SelfMatchSkip.own_untraded hrun] at hmine
    cases hmine
  cases hfirst : firstOwn t.userId ((orders l).filter fun o => o.id ≠ t.orderId) 0 with
  | none =>
    exact firstOwn_eq_none.mp hfirst m (List.mem_filter.mpr ⟨hm, decide_eq_true hother⟩) hown
  | some found =>
    obtain ⟨safe, id⟩ := found
    obtain ⟨ahead, o, behind, hqueue, -, -, hforeign, hbound⟩ := firstOwn_eq_some hfirst
    have hq : q ≤ safe := hsafe hactive safe id hfirst
    have hreached : ∀ y ∈ ahead, y ∈ orders l ∧ y.id ≠ t.orderId := fun y hy => by
      have hy : y ∈ (orders l).filter fun o => o.id ≠ t.orderId :=
        hqueue ▸ List.mem_append_left _ hy
      exact (List.mem_filter.mp hy).imp_right of_decide_eq_true
    -- the own order stands behind every order of `ahead`
    obtain ⟨front, back, hsplit, hsub⟩ : ∃ front back, orders l = front ++ m :: back ∧
        ahead ⊆ front := by
      obtain ⟨first, second, hl, hfirst, -⟩ := List.filter_eq_append_iff.mp hqueue
      have hbehind : m ∈ second := by
        rw [hl] at hm
        refine (List.mem_append.mp hm).resolve_left fun h => hforeign m ?_ hown
        rw [← hfirst]
        exact List.mem_filter.mpr ⟨h, decide_eq_true hother⟩
      obtain ⟨front, back, rfl⟩ := List.append_of_mem hbehind
      exact ⟨first ++ front, back, by rw [hl, List.append_assoc], fun y hy =>
        List.mem_append_left _ (List.mem_of_mem_filter (hfirst ▸ hy))⟩
    have hahead : ∀ y ∈ ahead, y.visibleQuantity ≤ tradedQuantity (tradesOf y.id r.trades) :=
      fun y hy => InsertionOrder.ahead_traded hrun hsplit (List.ne_nil_of_mem hmine) y (hsub hy)
        (hreached y hy).2
    have hpos : 0 < tradedQuantity (tradesOf m.id r.trades) := by
      have hle : x.quantity ≤ tradedQuantity (tradesOf m.id r.trades) :=
        List.single_le_sum (fun _ _ => Nat.zero_le _) _ (List.mem_map_of_mem hmine)
      exact (MatchAccounting.trade_mem hrun hx).2.trans_le hle
    -- the trades of `ahead` and of the own order exceed the match
    have hnodup : ((m :: ahead).map Order.id).Nodup := by
      have hall : ((ahead ++ o :: behind).map Order.id).Nodup :=
        hqueue ▸ (LevelQueue.nodup_orderIds l).sublist (List.filter_sublist.map Order.id)
      rw [List.map_append] at hall
      refine List.nodup_cons.mpr ⟨fun hmem => ?_, hall.of_append_left⟩
      obtain ⟨y, hy, hyid⟩ := List.mem_map.mp hmem
      exact hforeign y hy (eq_of_mem_orders (hreached y hy).1 hm hyid ▸ hown)
    have hsum := sum_tradesOf_le hnodup r.trades
    have hdisplay : (ahead.map Order.visibleQuantity).sum ≤
        (ahead.map fun y => tradedQuantity (tradesOf y.id r.trades)).sum :=
      List.sum_le_sum hahead
    have htotal := MatchAccounting.traded_add_remaining hrun
    simp only [List.map_cons, List.sum_cons, List.map_map, Function.comp_def] at hsum
    omega

/-! ### One sweep -/

/-- The trades made since `fills` was recorded are with orders that rested in `b` for another
user. -/
def ForeignTrades (user : Hash32) (b : OrderBook L) (fills : List Trade) : Prop :=
  ∃ trades, fills = b.fills ++ trades ∧ ∀ x ∈ trades,
    ∃ side price maker, b.Rests side price maker ∧ maker.id = x.makerOrderId ∧ maker.userId ≠ user

theorem ForeignTrades.none (user : Hash32) (b : OrderBook L) : ForeignTrades user b b.fills :=
  ⟨[], by simp, by simp⟩

/-- During a sweep: the trades so far are with others, and what rests is what rested before. -/
structure SweepForeign (t : Taker) (b : OrderBook L) (sw : Sweep L) : Prop where
  foreign : ForeignTrades t.userId b sw.book.fills
  resting : ∀ {side price x}, sw.book.Rests side price x →
    ∃ y, b.Rests side price y ∧ y.id = x.id ∧ y.userId = x.userId

/-- No match of the plan asks for more than the display ahead of the taker's own user, the order
with the taker's id not counted. -/
def Plan.StaysAhead (t : Taker) (p : Plan L) : Prop :=
  ∀ e ∈ p.fills, StpSafe t ((orders e.1).filter fun o => o.id ≠ t.orderId) e.2

instance (t : Taker) (p : Plan L) : Decidable (p.StaysAhead t) :=
  inferInstanceAs (Decidable (∀ e ∈ p.fills, StpSafe t _ e.2))

section Sweep

variable [LevelQueue L] [LevelMatch L] [MatchAccounting L] [InsertionOrder L] [SelfMatchSkip L]
  {t : Taker} {b : OrderBook L}

omit [LevelQueue L] [LevelMatch L] [MatchAccounting L] [InsertionOrder L] [SelfMatchSkip L] in
/-- The bound of the sweep counts no order that the match passes over if the taker's id is new. -/
theorem SweepForeign.stpSafe {p : Plan L} {price q : ℕ} {l : L} {sw : Sweep L}
    (hclear : ¬ b.Holds t.orderId ∨ p.StaysAhead t) (h : SweepForeign t b sw)
    (hl : (sw.book.levels t.side.opposite).get? price = some l) (hsafe : StpSafe t (orders l) q)
    (hplanned : (l, q) ∈ p.fills) : StpSafe t ((orders l).filter fun o => o.id ≠ t.orderId) q := by
  rcases hclear with hfree | hahead
  · have hall : ((orders l).filter fun o => o.id ≠ t.orderId) = orders l := by
      refine List.filter_eq_self.mpr fun x hx => decide_eq_true fun hid => ?_
      obtain ⟨y, hy, hyid, -⟩ := h.resting ⟨l, hl, hx⟩
      exact hfree ⟨_, _, y, hy, hyid.trans hid⟩
    rwa [hall]
  · exact hahead _ hplanned

theorem SweepForeign.step (hactive : t.stpActive) {p : Plan L}
    (hclear : ¬ b.Holds t.orderId ∨ p.StaysAhead t) {price : ℕ} {sw sw' : Sweep L}
    (hs : PlannedStep t (fun l q => (l, q) ∈ p.fills) price sw sw') (h : SweepForeign t b sw) :
    SweepForeign t b sw' := by
  cases hs with
  | @fill q l l' r level kind allows pos cap safe run planned =>
    obtain ⟨trades, hfills, hforeign⟩ := h.foreign
    refine ⟨⟨trades ++ r.trades, ?_, fun x hx => ?_⟩, fun {side p x} hx => ?_⟩
    · rw [fillLevel_fills, hfills, List.append_assoc]
    · rcases List.mem_append.mp hx with hx | hx
      · exact hforeign x hx
      · obtain ⟨m, hm, hid⟩ := mem_orderIds.mp (MatchAccounting.trade_mem run hx).1
        obtain ⟨y, hy, hyid, hyuser⟩ := h.resting ⟨l, level, hm⟩
        refine ⟨_, _, y, hy, hyid.trans hid, ?_⟩
        rw [hyuser]
        exact maker_not_own hactive (h.stpSafe hclear level safe planned) run hx hm hid
    · rw [fillLevel_rests] at hx
      split_ifs at hx with hhere
      · obtain ⟨rfl, rfl⟩ := hhere
        obtain ⟨m, hm, v, k, rfl⟩ := LevelMatch.orders_match run hx
        obtain ⟨y, hy, hid, huser⟩ := h.resting ⟨l, level, hm⟩
        exact ⟨y, hy, hid, huser⟩
      · exact h.resting hx
  | @cancel l l' o level mode user mem own orders_eq run =>
    refine ⟨by rw [stpCancel_fills]; exact h.foreign, fun {side p x} hx => ?_⟩
    rw [stpCancel_rests] at hx
    split_ifs at hx with hhere
    · obtain ⟨rfl, rfl⟩ := hhere
      rw [orders_eq] at hx
      exact h.resting ⟨l, level, List.mem_of_mem_filter hx⟩
    · exact h.resting hx
  | markEmpty | flag => exact ⟨h.foreign, h.resting⟩

/-- **A sweep with self-trade prevention trades with others only.** -/
theorem matchOrderInner_foreign (id : OrderId) (side : Side) (mode : MatchMode) {user : Hash32}
    (kind : TakerKind) (hmode : b.stpMode ≠ .none) (huser : user ≠ 0)
    (hclear : ¬ b.Holds id ∨ (b.dryRun (b.taker id side mode.limitPrice user kind) mode).StaysAhead
      (b.taker id side mode.limitPrice user kind)) :
    ForeignTrades user b (matchOrderInner id side mode user kind b).2.fills := by
  have hactive : (b.taker id side mode.limitPrice user kind).stpActive :=
    (Taker.stpActive_iff _).mpr ⟨huser, hmode⟩
  refine matchOrderInner_planned (I := fun b' => ForeignTrades user b b'.fills)
    (J := SweepForeign (b.taker id side mode.limitPrice user kind) b)
    (fun hsame h => by rwa [hsame.fills_eq]) rfl ⟨.none user b, fun hx => ⟨_, hx, rfl, rfl⟩⟩
    (fun hs hJ => hJ.step hactive hclear hs) (fun hJ => ?_) (.none user b)
  rw [finishSweep_fills]
  exact hJ.foreign

end Sweep

/-! ### One call -/

/-- The matches of a market order that goes through keep to the bound without the order they pass
over. -/
def Command.StaysAhead (b : OrderBook L) : Command → Prop
  | .submitMarketOrder id quantity side user => b.killSwitch = false →
    (b.dryRun (b.taker id side none user .standard) (.baseQty quantity none)).StaysAhead
      (b.taker id side none user .standard)
  | .submitMarketOrderByAmount id amount side user => b.killSwitch = false →
    (b.dryRun (b.taker id side none user .standard) (.quoteAmount amount)).StaysAhead
      (b.taker id side none user .standard)
  | _ => True

/-- The user on whose behalf a call takes liquidity: the user of a new order, of a market order, or
of the resting order a request is about. -/
def Command.taker (b : OrderBook L) : Command → Option Hash32
  | .addOrder o => some o.userId
  | .addOrderWithResult o => some o.userId
  | .submitMarketOrder _ _ _ user => some user
  | .submitMarketOrderByAmount _ _ _ user => some user
  | .updateOrder u => (b.getOrder (target u)).map Order.userId
  | _ => none

section Calls

variable [LevelQueue L] [LevelMatch L] [MatchAccounting L] [InsertionOrder L] [SelfMatchSkip L]
  {user : Hash32} {b b' : OrderBook L}

omit [LevelQueue L] [LevelMatch L] [MatchAccounting L] [InsertionOrder L] [SelfMatchSkip L] in
theorem ForeignTrades.of_rests {fills : List Trade} (hfills : b'.fills = b.fills)
    (hrests : ∀ {side price o}, b'.Rests side price o → b.Rests side price o)
    (h : ForeignTrades user b' fills) : ForeignTrades user b fills := by
  obtain ⟨trades, rfl, hforeign⟩ := h
  refine ⟨trades, by rw [hfills], fun x hx => ?_⟩
  obtain ⟨side, price, m, hm, hid, hne⟩ := hforeign x hx
  exact ⟨side, price, m, hrests hm, hid, hne⟩

omit [MatchAccounting L] [InsertionOrder L] [SelfMatchSkip L] [LevelMatch L] in
/-- Apart from the sweep of an accepted order, adding an order makes no trades. -/
theorem addOrderInner_fills (o : Order) (wantResult : Bool) (b : OrderBook L) :
    (addOrderInner o wantResult b).2.fills = b.fills ∨ b.Accepted o ∧
      ∃ b₀, b.SameState b₀ ∧ (addOrderInner o wantResult b).2.fills = (sweepOf o b₀).2.fills := by
  have hstep := addOrderInner_step o wantResult b
  generalize (addOrderInner o wantResult b).1 = result at hstep
  generalize (addOrderInner o wantResult b).2 = b' at hstep ⊢
  cases hstep with
  | refused refusal how view => exact Or.inl view.sameState.fills_eq
  | @failed _ b₀ _ accepted quiet run =>
    exact Or.inr ⟨accepted, b₀, quiet.sameState, by rw [run]⟩
  | @rejected _ b₀ _ _ _ accepted quiet run flag recorded =>
    exact Or.inr ⟨accepted, b₀, quiet.sameState, by
      rw [run, (sameState_of_rejected recorded).fills_eq]⟩
  | @stpCancelled _ b₀ _ _ accepted quiet run | @filled _ b₀ _ _ accepted quiet run
  | @dropped _ b₀ _ _ accepted quiet run =>
    refine Or.inr ⟨accepted, b₀, quiet.sameState, ?_⟩
    rw [run, (sameView_trackState ..).sameState.fills_eq, emitTrades_fills]
  | @levelRefused _ b₀ b₁ _ outcome accepted quiet run flag stp pos resting rest
  | @rests _ _ b₀ b₁ _ outcome accepted quiet run flag stp pos resting rest =>
    have h := restResidual_fills o outcome.result.remainingQuantity
      (emitTrades wantResult outcome.result b₁).2
    rw [rest, emitTrades_fills] at h
    exact Or.inr ⟨accepted, b₀, quiet.sameState, by rw [run, h]⟩

theorem addOrderInner_foreign (hsound : b.Sound) (o : Order) (wantResult : Bool)
    (hmode : b.stpMode ≠ .none) (huser : o.userId ≠ 0) :
    ForeignTrades o.userId b (addOrderInner o wantResult b).2.fills := by
  rcases addOrderInner_fills o wantResult b with h | ⟨haccepted, b₀, hsame, h⟩
  · rw [h]
    exact .none o.userId b
  · rw [h]
    have hmode₀ : b₀.stpMode ≠ .none := by
      obtain ⟨_, _, _, rfl⟩ := hsame
      exact hmode
    have hfree : ¬ b₀.Holds o.id := by
      rw [holds_of_sameOrders hsame.sameOrders]
      exact hsound.not_holds haccepted.fresh
    refine (matchOrderInner_foreign o.id o.side _ (takerKind o) hmode₀ huser
      (Or.inl hfree)).of_rests ?_ ?_
    · obtain ⟨_, _, _, rfl⟩ := hsame
      rfl
    · obtain ⟨_, _, _, rfl⟩ := hsame
      exact fun hx => hx

omit [LevelMatch L] [MatchAccounting L] [InsertionOrder L] [SelfMatchSkip L] in
theorem cancelOrderWithReason_keeps (id : OrderId) (reason : CancelReason) :
    (b.cancelOrderWithReason id reason).1.fills = b.fills ∧
      (b.cancelOrderWithReason id reason).1.stpMode = b.stpMode ∧
      ∀ {side price o}, (b.cancelOrderWithReason id reason).1.Rests side price o →
        b.Rests side price o := by
  rcases cancelOrderWithReason_cases b id reason with
    ⟨⟨_, _, _, h⟩, -, -⟩ | ⟨side, price, l, l', o, -, hout, -, hstate⟩
  · rw [h]
    exact ⟨rfl, rfl, fun hx => hx⟩
  · have hsettings := hstate.settings_eq.trans (b.settings_cancelAt side price l' o)
    refine ⟨?_, congrArg BookSettings.stpMode hsettings, fun {s p x} hx => ?_⟩
    · exact (hstate.fills_eq).trans (cancelAt_fills b side price l' o)
    · have hx' : (b.cancelAt side price l' o).Rests s p x := by
        obtain ⟨_, _, _, h⟩ := hstate
        rw [h] at hx
        exact hx
      rw [rests_of_rewritten (cancelAt_get? b side price l' o)] at hx'
      split_ifs at hx' with hhere
      · obtain ⟨rfl, rfl⟩ := hhere
        rw [hout.orders_eq] at hx'
        exact ⟨l, hout.level, List.mem_of_mem_filter hx'⟩
      · exact hx'

theorem modifyOrder_foreign [LevelResize L] (hsound : b.Sound) (id : OrderId) (newOrder : Order)
    (hmode : b.stpMode ≠ .none) (huser : newOrder.userId ≠ 0) :
    ForeignTrades newOrder.userId b (modifyOrder id newOrder b).2.fills := by
  rcases modifyOrder_step id newOrder b with
    ⟨-, e, _, ⟨_, _, rfl⟩, -, hrun⟩ | ⟨-, b₀, hquiet, -, hrun⟩
  · rw [hrun]
    exact .none newOrder.userId b
  · rw [hrun]
    have hsame := hquiet.sameState
    obtain ⟨hfills, hstp, hrests⟩ := cancelOrderWithReason_keeps (b := b₀) id .userRequested
    have hmode₀ : b₀.stpMode ≠ .none := by
      obtain ⟨_, _, _, rfl⟩ := hsame
      exact hmode
    have hsound₀ :=
      OrderBook.Sound.steps.cancelOrderWithReason id .userRequested (hsound.sameState hsame)
    refine (addOrderInner_foreign hsound₀ newOrder false (hstp ▸ hmode₀) huser).of_rests ?_
      fun hx => ?_
    · obtain ⟨_, _, _, rfl⟩ := hsame
      exact hfills
    · have hx₀ := hrests hx
      obtain ⟨_, _, _, rfl⟩ := hsame
      exact hx₀

theorem matchMarket_foreign (id : OrderId) (side : Side) (mode : MatchMode)
    (hmode : b.stpMode ≠ .none) (huser : user ≠ 0)
    (hclear : b.killSwitch = false →
      (b.dryRun (b.taker id side mode.limitPrice user .standard) mode).StaysAhead
        (b.taker id side mode.limitPrice user .standard)) :
    ForeignTrades user b ((do
      checkKillSwitchOrReject id
      matchMarket id side mode user : BookM L MatchResult) b).2.fills := by
  have hmarket (hrunning : b.killSwitch = false) :
      ForeignTrades user b (matchMarket id side mode user b).2.fills := by
    have hsweep := matchOrderInner_foreign id side mode .standard hmode huser
      (Or.inr (hclear hrunning))
    rcases hrun : matchOrderInner id side mode user .standard b with ⟨e | outcome, b₁⟩
    · rw [matchMarket, bind_run_of_error hrun]
      rwa [hrun] at hsweep
    · obtain ⟨result, hemit⟩ := emitTrades_run false outcome.result b₁
      rw [matchMarket, bind_run_of_ok hrun, bind_run_of_ok hemit]
      obtain ⟨_, _, _, _, _, hsame⟩ := sameOrders_emitTrades false outcome.result b₁
      rw [hrun] at hsweep
      show ForeignTrades user b (emitTrades false outcome.result b₁).2.fills
      rw [hsame]
      exact hsweep
  by_cases hkill : b.killSwitch
  · have hstop : checkKillSwitchOrReject id b = (.error .killSwitchActive,
        b.trackState id (.rejected .killSwitchActive)) := if_pos hkill
    rw [bind_run_of_error hstop]
    exact .none user b
  · have hgo : checkKillSwitchOrReject id b = (.ok (), b) := if_neg hkill
    rw [bind_run_of_ok hgo]
    exact hmarket (Bool.eq_false_iff.mpr hkill)

theorem updateOrder_foreign [LevelResize L] (hsound : b.Sound) (u : OrderUpdate)
    (hmode : b.stpMode ≠ .none)
    (htaker : (b.getOrder (target u)).map Order.userId = some user) (huser : user ≠ 0) :
    ForeignTrades user b (updateOrder u b).2.fills := by
  rcases updateOrder_cases u b with ⟨-, hsame⟩ | ⟨id, q, -, h⟩ | ⟨id, -, h⟩ |
    ⟨newOrder, ⟨-, ⟨original, hget, hmoved⟩, -⟩, h⟩
  · obtain ⟨_, _, h⟩ := quiet_of_unchanged hsame
    rw [h]
    exact .none user b
  · rw [h]
    rcases updateQuantity_cases b.invalidateCache id q with ⟨_, _, hsame⟩ |
      ⟨side, price, l, l', o, -, -, -, _, _, hstate⟩
    · rw [hsame]
      exact .none user b
    · obtain ⟨_, _, _, _, _, hresize⟩ := b.invalidateCache.resizeAt_sameOrders side price l'
        (withReducedQuantity L o q)
      rw [hstate]
      show ForeignTrades user b (b.invalidateCache.resizeAt _ _ _ _).fills
      rw [hresize]
      split_ifs
      · exact .none user b
      · exact .none user b
  · rw [h]
    rcases cancelByUpdate_cases b.invalidateCache id with hsame |
      ⟨side, price, l, l', o, -, -, hdrop⟩
    · rw [hsame]
      exact .none user b
    · obtain ⟨_, _, _, _, _, hsame⟩ := b.invalidateCache.dropAt_sameOrders side price l' id
      rw [hdrop, hsame]
      split_ifs
      · exact .none user b
      · exact .none user b
  · have howner : newOrder.userId = user := by
      rw [hget] at htaker
      rw [movedOrder_userId hmoved]
      exact Option.some.inj htaker
    subst howner
    rw [h]
    exact (modifyOrder_foreign (hsound.sameState b.sameState_invalidateCache) (target u) newOrder
      hmode huser).of_rests rfl fun hx => hx

theorem execute_foreign [LevelResize L] (hsound : b.Sound) (c : Command)
    (hmode : b.stpMode ≠ .none) (htaker : c.taker b = some user) (huser : user ≠ 0)
    (hahead : c.StaysAhead b) :
    ForeignTrades user b (b.execute c).fills := by
  cases c with
  | addOrder o =>
    cases htaker
    rw [OrderBook.execute, addOrder_snd]
    exact addOrderInner_foreign hsound o false hmode huser
  | addOrderWithResult o =>
    cases htaker
    exact addOrderInner_foreign hsound o true hmode huser
  | submitMarketOrder id quantity side u | submitMarketOrderByAmount id amount side u =>
    cases htaker
    exact matchMarket_foreign id side _ hmode huser hahead
  | updateOrder u => exact updateOrder_foreign hsound u hmode htaker huser
  | _ => cases htaker

end Calls

/-- An order of one user ahead of an order of another, at one price. -/
def ownOrderBehind : List Op :=
  [.configure (.stpMode .cancelTaker),
    .command (.addOrder ⟨1, 100, .sell, 8, 0, .gtc, 5, .standard⟩),
    .command (.addOrder ⟨2, 100, .sell, 7, 0, .gtc, 5, .standard⟩)]

/-- The book with the two orders. -/
def ownOrderBehindBook : OrderBook FifoLevel :=
  letI := noDigest
  (Session.run { book := (withClock "BTC" ⟨fun n => n, 0⟩ : OrderBook FifoLevel) }
    ownOrderBehind).book

end OrderBookRs
