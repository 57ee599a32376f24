import OrderBookRs.CleanFailure
import OrderBookRs.EveryLevel
import OrderBookRs.Queues

/-!
# Resting orders stay displayed

What is left of a partially filled taker is spread over its two tranches before it comes to rest. A
one-tranche order and an iceberg always display something of it, and so does a reserve order that
knows how much to replenish. A reserve order with no replenish amount does not: once the sweep has
taken its whole display, `reduce_reserve_to_total` refreshes the display by nothing, and the order
rests with all of its quantity hidden. Everything else a run of new orders, price updates, cancels
and market orders does keeps what is displayed.

## Main definitions

* `Order.GoesDark`: what is left of a taker displays nothing.
* `OrderBook.RestsDark`: a new order comes to rest with nothing displayed.
* `Command.Displaying`: a call that submits no order without a display and resizes none.
* `OrderBook.StaysDisplayed`: the call brings no order to rest in the dark.

## Main results

* `Order.visible_residual_eq_zero_iff`: when nothing of a residual is displayed.
* `orders_displayed_iff`: exactly the runs without such an order keep every order displayed.
-/

namespace OrderBookRs

open PriceLevel Fallible OrderBook

/-! ### The display of a residual -/

namespace Order

variable {o : Order} {left : ℕ}

/-- What is left of a taker is all hidden: a reserve order with no replenish amount lost its whole
display. -/
def GoesDark (o : Order) (left : ℕ) : Prop :=
  ∃ hidden threshold auto, o.kind = .reserve hidden threshold none auto ∧ left ≤ hidden

theorem visible_reduceReserveToTotal_eq_zero_iff {hidden threshold : ℕ} {amount : Option ℕ+}
    {auto : Bool} (hk : o.kind = .reserve hidden threshold amount auto)
    (hfit : o.visibleQuantity + hidden ≤ u64Max) (hpos : left ≠ 0)
    (hleft : left ≤ o.visibleQuantity + hidden) :
    (o.reduceReserveToTotal left).visibleQuantity = 0 ↔ amount = none ∧ left ≤ hidden := by
  simp only [reduceReserveToTotal, hk, satAdd64_eq hfit, reserveRefresh]
  cases amount with
  | none =>
    have hrefresh : min ((Option.map PNat.val (none : Option ℕ+)).getD 0) (hidden -
        (o.visibleQuantity + hidden - left -
          min (o.visibleQuantity + hidden - left) o.visibleQuantity)) = 0 := Nat.zero_min _
    rw [hrefresh, ite_self]
    simp only [true_and]
    omega
  | some amount =>
    have hamount := amount.pos
    simp only [Option.map_some, Option.getD_some, reduceCtorEq, false_and, iff_false]
    split_ifs with hdark
    · obtain ⟨-, hhidden⟩ := hdark
      have hrefresh := lt_min hamount hhidden
      exact fun hzero => absurd hrefresh (by omega)
    · omega

/-- **What is left of a displayed taker displays something**, unless it goes dark. -/
theorem visible_residual_eq_zero_iff (hfits : o.checkedTotalQuantity.isNone = false)
    (hvisible : 0 < o.visibleQuantity) (hpos : left ≠ 0) :
    (residual o left).visibleQuantity = 0 ↔ o.GoesDark left := by
  obtain ⟨q, hq⟩ := Option.isSome_iff_exists.mp (Option.isNone_eq_false_iff.mp hfits)
  obtain ⟨hsum, htotal⟩ := checkedTotalQuantity_eq_some hq
  rw [OrderBook.residual, htotal]
  cases hk : o.kind with
  | reserve hidden threshold amount auto =>
    have hhidden : o.hiddenQuantity = hidden := by rw [hiddenQuantity, hk]
    have hdark : o.GoesDark left ↔ amount = none ∧ left ≤ hidden := by
      simp [GoesDark, hk]
    rw [hhidden] at hsum
    rw [hdark]
    split_ifs with hless
    · rw [setTotalRemaining, hk]
      rw [checkedTotalQuantity, hk] at hq
      have hmax := (checkedAdd64_eq_some.mp hq).2
      exact visible_reduceReserveToTotal_eq_zero_iff hk (by omega) hpos (by omega)
    · omega
  | _ =>
    have hlit : ¬ o.GoesDark left := by simp [GoesDark, hk]
    refine iff_of_false ?_ hlit
    split_ifs
    · simp only [setTotalRemaining, hk]
      omega
    · omega

end Order

variable {L : Type} [PriceLevel L] {b' : OrderBook L}

/-! ### New orders -/

namespace OrderBook

variable {b : OrderBook L} {o : Order} {outcome : MatchOutcome}

/-- A new order passes the checks and comes to rest with nothing displayed. -/
structure RestsDark (b : OrderBook L) (o : Order) : Prop where
  accepted : b.Accepted o
  standing : o.isImmediate = false
  dark : ∃ left ≠ 0, b.PlansThrough o left ∧ o.GoesDark left ∧
    ∃ l', PriceLevel.addOrder (((b.levels o.side).get? o.price).getD (new o.price))
      (residual o left) = .ok l'

/-- Every order on the book displays something. -/
abbrev AllDisplayed (b : OrderBook L) : Prop := b.EveryOrder fun o => 0 < o.visibleQuantity

theorem SameAnswers.restsDark (h : b.SameAnswers b') (ho : b.RestsDark o) : b'.RestsDark o := by
  refine ⟨h.accepted ho.accepted, ho.standing, ?_⟩
  obtain ⟨left, hpos, hplan, hrest⟩ := ho.dark
  obtain ⟨cache, rfl⟩ := h.cache_only
  exact ⟨left, hpos, ⟨hplan.stop, hplan.stp, hplan.rejected⟩, hrest⟩

theorem SameState.plansThrough_iff (h : b.SameState b') {left : ℕ} :
    b'.PlansThrough o left ↔ b.PlansThrough o left := by
  obtain ⟨cache, clock, tracker, rfl⟩ := h
  exact ⟨fun h => ⟨h.stop, h.stp, h.rejected⟩, fun h => ⟨h.stop, h.stp, h.rejected⟩⟩

variable [LevelQueue L] [LevelMatch L] [MatchAccounting L] {b : OrderBook L} {o : Order} {left : ℕ}

/-- A sweep that raises no flag was planned through. -/
theorem plansThrough_of_sweepOf (hrun : sweepOf o b = (.ok outcome, b'))
    (hflag : outcome.takerPostOnlyRejected = false) (hstp : outcome.takerStpCancelled = false) :
    b.PlansThrough o outcome.result.remainingQuantity := by
  rcases sweepOf_eq_ok hrun with ⟨hempty, rfl, -⟩ | ⟨tracker, rfl, -⟩
  · have hplan : b.dryRunOf o = { stop := .baseQty o.totalQuantity } := dryRunOf_of_isEmpty hempty
    exact ⟨by rw [hplan]; rfl, by rw [hplan], by rw [hplan]⟩
  · have hfollows := b.sweepFor_follows o
    obtain ⟨left, -, haccounts⟩ := b.sweepFor_accounts o
    refine ⟨hfollows.stop_eq.symm.trans ?_, hfollows.stp_eq.symm.trans hstp,
      hfollows.rejected_eq.symm.trans hflag⟩
    rw [haccounts.stop, haccounts.result]

theorem PlansThrough.remaining_eq (h : b.PlansThrough o left) {b₀ b₁ : OrderBook L}
    (hsame : b.SameState b₀) (hrun : OrderBook.sweepOf o b₀ = (.ok outcome, b₁)) :
    outcome.result.remainingQuantity = left := by
  obtain ⟨outcome', hout, -, -, hleft⟩ := (hsame.plansThrough_iff.mpr h).sweepOf
  rw [hrun] at hout
  cases hout
  exact hleft

/-- What is left of a planned order rests, if it may and its level takes it. -/
theorem PlansThrough.rests (h : b.PlansThrough o left) (hacc : b.Accepted o)
    (himm : o.isImmediate = false) (hpos : left ≠ 0) {l' : L}
    (hroom : PriceLevel.addOrder (((b.levels o.side).get? o.price).getD (new o.price))
      (residual o left) = .ok l') (wantResult : Bool) :
    (addOrderInner o wantResult b).2.Rests o.side o.price (residual o left) := by
  obtain ⟨r, hok⟩ := (h.succeeds_iff hacc wantResult).mpr fun _ => ⟨himm, l', hroom⟩
  have hstep := addOrderInner_step o wantResult b
  rw [hok] at hstep
  generalize (addOrderInner o wantResult b).2 = b' at hstep ⊢
  cases hstep with
  | filled _ quiet run _ _ zero =>
    exact absurd ((h.remaining_eq quiet.sameState run).symm.trans zero) hpos
  | @rests r _ b₀ b₁ _ outcome _ quiet run _ _ _ _ rest =>
    obtain rfl := h.remaining_eq quiet.sameState run
    rcases restResidual_cases o outcome.result.remainingQuantity
        (emitTrades wantResult outcome.result b₁).2 with
      ⟨l, l₁, hl, -, horders, -, hstate⟩ | ⟨e, -, herr, -⟩
    · have hrests := (restAt_rests_iff outcome.result.remainingQuantity hl horders).mpr
        (Or.inr ⟨rfl, rfl, rfl⟩)
      rw [rest] at hstate
      obtain ⟨_, _, _, rfl⟩ := hstate
      exact hrests
    · rw [rest] at herr
      cases herr

/-- **An order that comes to rest in the dark** is on the book afterwards. -/
theorem RestsDark.not_allDisplayed (h : b.RestsDark o) (hvisible : 0 < o.visibleQuantity)
    (wantResult : Bool) : ¬ (addOrderInner o wantResult b).2.AllDisplayed := by
  intro hall
  obtain ⟨left, hpos, hplan, hdark, l', hroom⟩ := h.dark
  obtain ⟨l, hl, hmem⟩ := hplan.rests h.accepted h.standing hpos hroom wantResult
  have hzero : (residual o left).visibleQuantity = 0 :=
    (Order.visible_residual_eq_zero_iff h.accepted.representable hvisible hpos).mpr hdark
  exact absurd (hall hl _ hmem) (by omega)

end OrderBook

section Swept

variable [LevelQueue L] [LevelMatch L] {b b' : OrderBook L} {o : Order} {remaining : ℕ}

theorem Swept.plansThrough [MatchAccounting L] (h : Swept o b remaining b') :
    b.PlansThrough o remaining := by
  obtain @⟨b₀, b₁, outcome, wantResult, -, hsame, hrun, hflag, hstp, rfl, -⟩ := h
  exact hsame.plansThrough_iff.mp (plansThrough_of_sweepOf hrun hflag hstp)

/-- An order comes to rest on the level that stood at its price before its sweep. -/
theorem Swept.get?_own (h : Swept o b remaining b') :
    (b'.levels o.side).get? o.price = (b.levels o.side).get? o.price := by
  obtain @⟨b₀, b₁, outcome, wantResult, -, hsame, hrun, -, -, -, rfl⟩ := h
  have hown := sweepOf_get?_own o b₀ o.price
  rw [hrun] at hown
  rw [(sameOrders_emitTrades wantResult outcome.result b₁).levels_eq, hown]
  obtain ⟨_, _, _, rfl⟩ := hsame
  rfl

end Swept

/-! ### Runs -/

/-- A call that submits no order without a display and resizes none: new orders that display
something, price updates, cancels of all kinds and market orders. -/
def Command.Displaying : Command → Prop
  | .addOrder o => 0 < o.visibleQuantity
  | .addOrderWithResult o => 0 < o.visibleQuantity
  | .updateOrder (.updatePrice _ _) => True
  | .updateOrder (.cancel _) => True
  | .updateOrder _ => False
  | _ => True

/-- The call brings no order to rest in the dark, a moved one included. -/
def OrderBook.StaysDisplayed (b : OrderBook L) : Command → Prop
  | .addOrder o => ¬ b.RestsDark o
  | .addOrderWithResult o => ¬ b.RestsDark o
  | .updateOrder u => ∀ newOrder, b.Moves u newOrder →
      b.invalidateCache.MoveAccepted (target u) newOrder →
        ¬ (b.withdrawn (target u)).RestsDark newOrder
  | _ => True

/-- What keeps every order displayed. -/
def displayGuard : Guard L where
  add b o := 0 < o.visibleQuantity ∧ ¬ b.RestsDark o
  market _ _ _ _ _ := True
  resize _ _ _ := False
  drop _ _ := True

section Runs

variable [LevelQueue L] [LevelMatch L] [LevelResize L] [MatchAccounting L] [MatchDisplays L]
  {b : OrderBook L} {newOrder : Order}

omit [LevelResize L] [MatchAccounting L] in
theorem levelPruned_displayed :
    LevelPruned fun (_ : Side) (_ : ℕ) (l : L) => ∀ o ∈ orders l, 0 < o.visibleQuantity where
  fresh side price o ho := by
    rw [LevelQueue.orders_new] at ho
    cases ho
  cancelled hl hrun x hx := hl x (mem_of_cancelled hrun hx)
  matched hl hrun x hx := by
    obtain ⟨o, ho, v, k, rfl⟩ := LevelMatch.orders_match hrun hx
    exact MatchDisplays.visible_pos hrun ho hx rfl (hl o ho)

theorem displayed_guarded : GuardedInvariant (OrderBook.AllDisplayed (L := L)) displayGuard := by
  refine levelPruned_displayed.guarded
    (fun hsame hg => ⟨hg.1, fun hdark => hg.2 (hsame.symm.restsDark hdark)⟩) ?_
    fun hg => hg.elim
  intro b b' l l' o remaining hg hswept hl hadd himm hpos hheld x hx
  have haccepted : b.Accepted o := by
    obtain ⟨_, haccepted, _⟩ := hswept
    exact haccepted
  rw [LevelQueue.orders_addOrder hadd] at hx
  rcases List.mem_append.mp hx with hx | hx
  · exact hheld x hx
  obtain rfl := List.mem_singleton.mp hx
  by_contra hzero
  have hdark := (Order.visible_residual_eq_zero_iff haccepted.representable hg.1 hpos).mp (by omega)
  rw [hl, hswept.get?_own] at hadd
  exact hg.2 ⟨haccepted, himm, remaining, hpos, hswept.plansThrough, hdark, l', hadd⟩

omit [LevelMatch L] [LevelResize L] [MatchAccounting L] [MatchDisplays L] [LevelQueue L] in
/-- A moved order keeps its display. -/
theorem visible_of_moves (h : b.AllDisplayed) {id : OrderId} {price : ℕ}
    (hmoves : b.Moves (.updatePrice id price) newOrder) : 0 < newOrder.visibleQuantity := by
  obtain ⟨original, hget, hmoved⟩ := hmoves.moved
  obtain ⟨side, p, l, -, hl, ho, -⟩ := getOrder_eq_some hget
  cases hmoved
  exact h hl original ho

omit [LevelResize L] [MatchDisplays L] in
/-- A request that moves an order into the dark. -/
theorem not_allDisplayed_of_move {u : OrderUpdate} (hmoves : b.Moves u newOrder)
    (hvisible : 0 < newOrder.visibleQuantity)
    (haccepted : b.invalidateCache.MoveAccepted (target u) newOrder)
    (hdark : (b.withdrawn (target u)).RestsDark newOrder) :
    ¬ (OrderBook.updateOrder u b).2.AllDisplayed := by
  rcases updateOrder_cases u b with
    ⟨hstill, -⟩ | ⟨id, q, rfl, -⟩ | ⟨id, rfl, -⟩ | ⟨newOrder', hmoves', hrun⟩
  · exact absurd hmoves (hstill newOrder)
  · obtain ⟨original, -, hmoved⟩ := hmoves.moved
    cases hmoved
  · obtain ⟨original, -, hmoved⟩ := hmoves.moved
    cases hmoved
  obtain rfl := hmoves'.unique hmoves
  rw [hrun]
  rcases modifyOrder_step (target u) newOrder' b.invalidateCache with
    ⟨hrefused, -⟩ | ⟨-, b₀, hquiet, hclock, hstep⟩
  · exact absurd haccepted hrefused
  · have hanswers := (b.quiet_invalidateCache.trans hquiet).withdrawn hclock (target u)
    rw [hstep]
    exact (hanswers.restsDark hdark).not_allDisplayed hvisible false

/-- **One call keeps every order displayed** iff it brings none to rest in the dark. -/
theorem displayed_execute_iff {c : Command} (hc : c.Displaying) (h : b.AllDisplayed) :
    (b.execute c).AllDisplayed ↔ b.StaysDisplayed c := by
  have hkept : ∀ {c}, displayGuard.Meets b c → (b.execute c).AllDisplayed :=
    fun hmeets => displayed_guarded.execute hmeets h
  cases c with
  | addOrder =>
    refine ⟨fun hall hdark => ?_, fun hlit => hkept ⟨hc, hlit⟩⟩
    rw [OrderBook.execute, addOrder_snd] at hall
    exact hdark.not_allDisplayed hc false hall
  | addOrderWithResult =>
    exact ⟨fun hall hdark => hdark.not_allDisplayed hc true hall, fun hlit => hkept ⟨hc, hlit⟩⟩
  | updateOrder u =>
    cases u with
    | updatePrice =>
      refine ⟨fun hall newOrder hmoves haccepted hdark => ?_, fun hlit => hkept ?_⟩
      · exact not_allDisplayed_of_move hmoves (visible_of_moves h hmoves) haccepted hdark hall
      · refine ⟨fun _ _ hu => (by cases hu), fun _ _ => trivial, fun newOrder hmoves hacc => ?_⟩
        exact ⟨visible_of_moves h hmoves, hlit newOrder hmoves hacc⟩
    | cancel id =>
      have hstill : ∀ newOrder, ¬ b.Moves (.cancel id) newOrder := by
        intro newOrder hmoves
        obtain ⟨original, -, hmoved⟩ := hmoves.moved
        cases hmoved
      refine iff_of_true (hkept ?_) fun newOrder hmoves => absurd hmoves (hstill newOrder)
      exact ⟨fun _ _ hu => (by cases hu), fun _ _ => trivial, fun newOrder hmoves =>
        absurd hmoves (hstill newOrder)⟩
    | updateQuantity | updatePriceAndQuantity | replace =>
      exact hc.elim
  | _ => exact iff_of_true (hkept trivial) trivial

/-- **Resting orders stay displayed** after every call of a run from an empty book exactly when no
call of it brings an order to rest in the dark. -/
theorem orders_displayed_iff (hbids : b.bids = ∅) (hasks : b.asks = ∅) {commands : List Command}
    (hcommands : ∀ c ∈ commands, c.Displaying) :
    RunMeets execute StaysDisplayed b commands ↔
      ∀ done, done <+: commands → ∀ side price o, (b.run done).Rests side price o →
        0 < o.visibleQuantity := by
  have hstart : b.AllDisplayed := fun side price l hl =>
    absurd ((get?_levels_of_empty hbids hasks side price).symm.trans hl) (by simp)
  rw [runMeets_iff_all_states (I := AllDisplayed) (J := fun _ => True) (fun _ => trivial)
    (fun hc _ h => displayed_execute_iff (hcommands _ hc) h) trivial hstart]
  refine forall₂_congr fun done _ => ⟨?_, ?_⟩
  · rintro hall side price o ⟨l, hl, ho⟩
    exact hall hl o ho
  · intro hall side price l hl o ho
    exact hall side price o ⟨l, hl, ho⟩

end Runs

/-- Five are offered, and a reserve order for ten, five of them displayed, takes them. -/
def takenByReserve (amount : Option ℕ+) : List Command :=
  [.addOrder ⟨1, 100, .sell, 7, 0, .gtc, 5, .standard⟩,
    .addOrder ⟨2, 100, .buy, 8, 0, .gtc, 5, .reserve 5 0 amount true⟩]

/-- A reserve order that replenishes two at a time rests with two displayed. -/
theorem takenByReserve_displayed :
    let b : OrderBook FifoLevel := withClock "BTC" ⟨fun n => n, 0⟩
    RunMeets execute StaysDisplayed b (takenByReserve (some 2)) ∧
      (b.run (takenByReserve (some 2))).Rests .buy 100
        ⟨2, 100, .buy, 8, 0, .gtc, 2, .reserve 3 0 (some 2) true⟩ ∧
      ∀ done, done <+: takenByReserve (some 2) → ∀ side price o, (b.run done).Rests side price o →
        0 < o.visibleQuantity := by
  intro b
  have hcommands : ∀ c ∈ takenByReserve (some 2), c.Displaying := by
    simp [takenByReserve, Command.Displaying]
  have hmeets : RunMeets execute StaysDisplayed b (takenByReserve (some 2)) := by
    refine ⟨fun hdark => ?_, fun hdark => ?_, trivial⟩
    · obtain ⟨left, -, -, ⟨_, _, _, hkind, -⟩, -⟩ := hdark.dark
      cases hkind
    · obtain ⟨left, -, -, ⟨_, _, _, hkind, -⟩, -⟩ := hdark.dark
      cases hkind
  exact ⟨hmeets, mem_queueAt.mp (by decide),
    (orders_displayed_iff rfl rfl hcommands).mp hmeets⟩

/-- **A reserve order with no replenish amount loses its display**: the five it is left with rest
hidden. -/
theorem takenByReserve_dark :
    let b : OrderBook FifoLevel := withClock "BTC" ⟨fun n => n, 0⟩
    (∀ c ∈ takenByReserve none, c.Displaying) ∧
      ∃ o, (b.run (takenByReserve none)).Rests .buy 100 o ∧ o.visibleQuantity = 0 := by
  refine ⟨by simp [takenByReserve, Command.Displaying],
    ⟨2, 100, .buy, 8, 0, .gtc, 0, .reserve 5 0 none true⟩, mem_queueAt.mp (by decide), rfl⟩

end OrderBookRs
