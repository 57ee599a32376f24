import OrderBookRs.Guarded
import OrderBookRs.RiskLimits

/-!
# Exact risk counters

The counters of the risk layer are exact as long as every order that leaves the book leaves with its
risk entry. Two kinds of orders leave without it. A reserve order without auto-replenish leaves its
level when its display is consumed; `on_fill` has released the traded part only, so its entry stays
with the hidden part. An order that displays nothing, such as one resized to zero, is dropped by the
match that comes to it; it has no trade, so nothing is released.

## Main definitions

* `OrderBook.RiskExact`: the entries are those of the resting orders, the counters their sums.
* `Order.leaksRisk`: the orders that leave a level without their entry.

## Main results

* `OrderBook.RiskExact.counters`: what the counters of an account stand for.
* `risk_counters_exact`: every run in which no such order leaves.
-/

namespace OrderBookRs

open PriceLevel Fallible OrderBook

variable {L : Type} [PriceLevel L] {cfg : RiskConfig} {q : ℕ} {id : OrderId}

/-- The risk layer has an entry for every resting order and for no other id, and its counters are
the sums of the entries. -/
structure OrderBook.RiskExact (cfg : RiskConfig) (b : OrderBook L) : Prop where
  sound : b.Sound
  tracked : b.RiskTracked cfg fun _ => (0, 0)
  rests : ∀ {i}, b.riskState.orders.lookup i ≠ none → b.Holds i

/-- An order that would leave its level without its risk entry: it displays nothing, or keeps a
hidden tranche that a match does not draw on. -/
def Order.leaksRisk (o : Order) : Bool :=
  o.undisplayed || o.keepsHidden && 0 < o.hiddenQuantity

theorem Order.leaksRisk_eq_false {o : Order} (h : o.leaksRisk = false) :
    0 < o.visibleQuantity ∧ (o.keepsHidden → o.hiddenQuantity = 0) := by
  rw [leaksRisk, undisplayed, Bool.or_eq_false_iff, decide_eq_false_iff_not,
    Bool.and_eq_false_imp] at h
  refine ⟨Nat.pos_of_ne_zero h.1, fun hkeeps => ?_⟩
  exact Nat.eq_zero_of_not_pos (of_decide_eq_false (h.2 hkeeps))

namespace OrderBook.RiskExact

variable {b b' : OrderBook L} {l l' : L} {r : MatchResult} {o : Order} {side : Side}
  {mode : MatchMode} {user : Hash32}

/-! ### What exact counters say -/

/-- What the orders of an account weigh is what its entries weigh. -/
theorem sum_eq_tally [LevelQueue L] (h : b.RiskExact cfg) (account : Hash32)
    (weight : RiskEntry → ℕ) :
    ((b.ordersOf account).map fun x => weight ⟨x.userId, x.price, x.size⟩).sum =
      tally account weight b.riskState.orders := by
  have hentries : ∀ i e, b.riskState.orders.lookup i = some e ↔
      ∃ x ∈ b.restingOrders, x.id = i ∧ (⟨x.userId, x.price, x.size⟩ : RiskEntry) = e := by
    intro i e
    constructor
    · intro he
      obtain ⟨side, price, x, hx, rfl⟩ := h.rests (i := i) (by rw [he]; exact Option.some_ne_none e)
      obtain ⟨rfl, hentry⟩ := h.tracked.entry hx
      exact ⟨x, mem_restingOrders.mpr ⟨side, _, hx⟩, rfl, Option.some.inj (hentry.symm.trans he)⟩
    · rintro ⟨x, hx, rfl, rfl⟩
      obtain ⟨side, price, hx⟩ := mem_restingOrders.mp hx
      obtain ⟨rfl, hentry⟩ := h.tracked.entry hx
      exact hentry
  have htotal := AssocMap.sum_eq_total (f := fun _ => RiskEntry.share account weight)
    h.sound.nodup_restingOrders hentries
  rw [tally, ← htotal, ordersOf]
  generalize b.restingOrders = xs
  induction xs with
  | nil => rfl
  | cons x xs ih =>
    rw [List.map_cons, List.sum_cons, ← ih, List.filter_cons]
    by_cases hx : x.userId = account
    · rw [if_pos (decide_eq_true hx), List.map_cons, List.sum_cons]
      exact congrArg (· + _) (if_pos hx).symm
    · rw [if_neg (by rwa [decide_eq_true_eq]), RiskEntry.share, if_neg hx, Nat.zero_add]

/-- **What the counters of an account stand for.** -/
theorem counters [LevelQueue L] (h : b.RiskExact cfg) (hcfg : cfg.LimitsNotional)
    (account : Hash32) :
    b.riskState.openCount account = (b.ordersOf account).length ∧
      b.riskState.restingNotional account =
        ((b.ordersOf account).map fun x => x.price * x.size).sum := by
  constructor
  · calc b.riskState.openCount account
        = b.riskState.counted account := h.tracked.balanced.count account
      _ = ((b.ordersOf account).map fun _ => 1).sum := (h.sum_eq_tally account fun _ => 1).symm
      _ = (b.ordersOf account).length := by simp
  · calc b.riskState.restingNotional account
        = b.riskState.booked account := h.tracked.balanced.notional account
      _ = ((b.ordersOf account).map fun x =>
            RiskEntry.notional ⟨x.userId, x.price, x.size⟩).sum :=
          (h.sum_eq_tally account RiskEntry.notional).symm
      _ = ((b.ordersOf account).map fun x => x.price * x.size).sum :=
          congrArg List.sum (List.map_congr_left fun x hx => h.tracked.notional_eq hcfg hx)

theorem mem_entries_iff (h : b.RiskExact cfg) {i : OrderId} :
    b.riskState.orders.lookup i ≠ none ↔ b.Holds i := by
  refine ⟨h.rests, ?_⟩
  rintro ⟨side, price, o, ho, rfl⟩
  rw [(h.tracked.entry ho).2]
  exact Option.some_ne_none _

/-! ### Effects -/

theorem sameOrders (hsame : b.SameOrders b') (h : b.RiskExact cfg) : b'.RiskExact cfg := by
  refine ⟨h.sound.sameOrders hsame, h.tracked.sameOrders hsame, fun {i} hi => ?_⟩
  rw [holds_of_sameOrders hsame]
  obtain ⟨_, _, _, _, _, rfl⟩ := hsame
  exact h.rests hi

theorem sameState (hsame : b.SameState b') (h : b.RiskExact cfg) : b'.RiskExact cfg :=
  h.sameOrders hsame.sameOrders

section Sweeping

variable [LevelMatch L] [MatchAccounting L] [MatchBalance L] {t : Taker} {price : ℕ}
  {sw sw' : Sweep L}

omit [LevelMatch L] in
/-- A maker that displays something and leaves without a hidden tranche takes its entry with it. -/
theorem afterTrades_eq_none {account : Hash32} {p : ℕ}
    (hrun : matchOrder l q t.orderId .standard = (r, l')) (ho : o ∈ orders l)
    (hgone : o.id ∉ orderIds l') (hleaks : o.leaksRisk = false) :
    RiskEntry.afterTrades (tradesOf o.id r.trades) ⟨account, p, o.size⟩ = none := by
  obtain ⟨hdisplays, hhidden⟩ := Order.leaksRisk_eq_false hleaks
  have hall : tradedQuantity (tradesOf o.id r.trades) = o.size := by
    rcases MatchBalance.leaves hrun ho hgone with hall | ⟨hkeeps, hvisible⟩
    · exact hall
    · rw [hvisible, Order.size, hhidden hkeeps, Nat.add_zero]
  refine RiskEntry.afterTrades_of_eq (fun hnil => ?_) (fun x hx => ?_) hall
  · rw [hnil, tradedQuantity_nil, Order.size] at hall
    omega
  · exact (MatchAccounting.trade_mem hrun (List.mem_of_mem_filter hx)).2

/-- The form the property takes during a sweep. -/
structure Sweeping (cfg : RiskConfig) (t : Taker) (sw : Sweep L) : Prop where
  sound : SweepSound t sw
  tracked : sw.book.RiskTracked cfg fun _ => (0, 0)
  rests : ∀ {i}, sw.book.riskState.orders.lookup i ≠ none → sw.book.Holds i

theorem Sweeping.fill [LevelQueue L] (hcfg : cfg.LimitsNotional)
    (hl : (sw.book.levels t.side.opposite).get? price = some l)
    (hrun : matchOrder l q t.orderId .standard = (r, l'))
    (hkeeps : ∀ o ∈ orders l, o.leaksRisk → o.id ∈ orderIds l')
    (h : Sweeping cfg t sw) : Sweeping cfg t (fillLevel t sw price q r l') := by
  refine ⟨h.sound.fill hl hrun, h.tracked.fill h.sound hcfg hl hrun, fun {i} hi => ?_⟩
  rw [fillLevel_riskState, RiskState.lookup_foldl_onFill h.tracked.config] at hi
  have hbefore : sw.book.riskState.orders.lookup i ≠ none := fun hnone => hi (by rw [hnone]; rfl)
  refine (SweepSound.holds_or_left hl (h.rests hbefore)).resolve_right fun ⟨hmem, hgone⟩ => hi ?_
  obtain ⟨o, ho, rfl⟩ := mem_orderIds.mp hmem
  rw [(h.tracked.entry ⟨l, hl, ho⟩).2]
  exact afterTrades_eq_none hrun ho hgone (Bool.eq_false_iff.mpr fun hleaks =>
    hgone (hkeeps o ho hleaks))

theorem Sweeping.step [LevelQueue L] (hcfg : cfg.LimitsNotional) {p : Plan L}
    (hkeeps : p.Keeps t.orderId Order.leaksRisk)
    (hs : PlannedStep t (fun l q => (l, q) ∈ p.fills) price sw sw') (h : Sweeping cfg t sw) :
    Sweeping cfg t sw' := by
  cases hs with
  | fill level kind allows pos cap safe run planned =>
    have hfill := hkeeps _ planned
    rw [run] at hfill
    exact h.fill hcfg level run hfill
  | @cancel l l' o level mode user mem own orders_eq run =>
    refine ⟨h.sound.cancel ⟨level, mem, orders_eq⟩,
      h.tracked.removed (stpCancel_riskState ..) (h.sound.rests_stpCancel ⟨level, mem, orders_eq⟩),
      fun {i} hi => ?_⟩
    rw [stpCancel_riskState, RiskState.orders_onCancel h.tracked.config] at hi
    split_ifs at hi with hne
    · exact absurd rfl hi
    · obtain ⟨side, p, x, hx, rfl⟩ := h.rests hi
      exact ⟨side, p, x, (h.sound.rests_stpCancel ⟨level, mem, orders_eq⟩).mpr ⟨hx, hne⟩, rfl⟩
  | markEmpty level nil => exact ⟨h.sound.step (.markEmpty level nil), h.tracked, h.rests⟩
  | flag stp rejected =>
    have hflag : SweepStep t price sw
        { sw with stpTakerCancelled := stp, postOnlyRejected := rejected } := .flag stp rejected
    exact ⟨h.sound.step hflag, h.tracked, h.rests⟩

end Sweeping

section Match

variable [LevelQueue L] [LevelMatch L] [MatchAccounting L] [MatchBalance L]

/-- **A sweep in which no order leaves without its entry** keeps the counters exact. -/
theorem matchOrderInner (hcfg : cfg.LimitsNotional) {kind : TakerKind}
    (hkeeps : (b.dryRun (b.taker id side mode.limitPrice user kind) mode).Keeps id
      Order.leaksRisk)
    (h : b.RiskExact cfg) : (matchOrderInner id side mode user kind b).2.RiskExact cfg := by
  have hopen : b.openSweep.RiskExact cfg := h.sameState b.sameState_openSweep
  refine matchOrderInner_planned
    (J := Sweeping cfg (b.taker id side mode.limitPrice user kind))
    (fun hsame h => h.sameState hsame) rfl ⟨.start hopen.sound mode, hopen.tracked, hopen.rests⟩
    (fun hs hJ => hJ.step hcfg hkeeps hs) (fun hJ => ⟨?_, ?_, fun {i} hi => ?_⟩) h
  · exact hopen.sound.finishSweep hJ.sound
  · exact hJ.tracked.finishSweep hJ.sound
  · rw [holds_congr hJ.sound.finishSweep_rests]
    obtain ⟨_, _, _, hframe⟩ := finishSweep_frame (b.taker id side mode.limitPrice user kind)
      (b.openSweep.sweep (b.taker id side mode.limitPrice user kind) mode)
    rw [hframe] at hi
    exact hJ.rests hi

omit [MatchBalance L] in
/-- What `add_order_inner` does after its sweep keeps the counters exact. -/
theorem effects (hcfg : cfg.LimitsNotional) : AddEffects (OrderBook.RiskExact (L := L) cfg) where
  same hsame h := h.sameState hsame
  emit wantResult r h := h.sameOrders (sameOrders_emitTrades wantResult r _)
  rest {start b l l' o remaining} hswept hstart hl _ horders hfresh himm _ h := by
    have hnone : b.riskState.orders.lookup o.id = none := by
      by_contra hentry
      exact h.sound.not_holds hfresh (h.rests hentry)
    have htracked := h.tracked.restAt hcfg hswept hstart.tracked.config hl horders hfresh h.sound
    rw [RiskTracked.slackAfter_of_none hnone] at htracked
    refine ⟨h.sound.restAt hl horders hfresh himm, htracked, fun {i} hi => ?_⟩
    rw [OrderBook.Sound.holds_restAt hl horders]
    rw [restAt_riskState, (RiskState.onAdmission_spec h.tracked.config ..).2] at hi
    by_cases hid : i = o.id
    · exact Or.inr hid
    · rw [AList.lookup_insert_ne hid] at hi
      exact Or.inl (h.rests hi)
  tidy hl hnil h := absurd hnil (h.sound.nonempty hl)

theorem addOrderInner (hcfg : cfg.LimitsNotional)
    (hkeeps : b.Accepted o → (b.dryRunOf o).Keeps o.id Order.leaksRisk) (wantResult : Bool)
    (h : b.RiskExact cfg) : (addOrderInner o wantResult b).2.RiskExact cfg := by
  refine (effects hcfg).add (fun haccepted hsame => ?_) wantResult h
  have hsame' := h.sameState hsame
  obtain ⟨cache, clock, tracker, rfl⟩ := hsame
  exact hsame'.matchOrderInner hcfg (hkeeps haccepted)

theorem matchMarket (hcfg : cfg.LimitsNotional)
    (hkeeps : (b.dryRun (b.taker id side mode.limitPrice user .standard) mode).Keeps id
      Order.leaksRisk)
    (h : b.RiskExact cfg) : (matchMarket id side mode user b).2.RiskExact cfg := by
  have hswept := h.matchOrderInner hcfg hkeeps
  rcases matchMarket_book id side mode user b with hrun | ⟨r, hrun⟩
  · rwa [hrun]
  · rw [hrun]
    exact hswept.sameOrders (sameOrders_emitTrades false r _)

end Match

section Effects

variable [LevelQueue L]

theorem cancelOrderWithReason (h : b.RiskExact cfg) (id : OrderId) (reason : CancelReason) :
    (b.cancelOrderWithReason id reason).1.RiskExact cfg := by
  rcases cancelOrderWithReason_cases b id reason with
    ⟨hsame, -, -⟩ | ⟨side, price, l, l', o, rfl, hout, -, hstate⟩
  · exact h.sameState hsame
  · refine sameState hstate ⟨h.sound.cancelAt hout.off, h.tracked.cancelAt h.sound hout.off,
      fun {i} hi => ?_⟩
    rw [cancelAt_riskState, RiskState.orders_onCancel h.tracked.config] at hi
    split_ifs at hi with hne
    · exact absurd rfl hi
    · exact (h.sound.holds_removed hout.off (cancelAt_get? _ _ _ _ _)).mpr ⟨h.rests hi, hne⟩

/-- A resize that leaves the order on its level. -/
theorem updateQuantity [LevelResize L] (hcfg : cfg.LimitsNotional) (hkeeps : b.KeepsResized id q)
    (h : b.RiskExact cfg) : (updateQuantity id q b).2.RiskExact cfg := by
  rcases updateQuantity_cases b id q with
    hquiet | ⟨side, price, l, l', o, rfl, hres, -, hquiet⟩
  · exact h.sameState hquiet.sameState
  · have hstays := hkeeps side price l hres.place hres.level (List.mem_map_of_mem hres.mem)
    obtain ⟨reference, hgate⟩ := hres.risk
    rw [hres.run] at hstays
    have hmem := hres.kept.resolve_right fun hgone => hgone.2 hstays
    refine sameState hquiet.sameState ⟨h.sound.resizeAt hres.resized,
      h.tracked.resizeAt hcfg h.sound hres.resized hres.shape hgate, fun {i} hi => ?_⟩
    rw [h.sound.holds_resizeAt hres.resized hmem]
    obtain ⟨v, k, hred⟩ := LevelResize.withReducedQuantity_eq (L := L) o q
    have hentry := (h.tracked.entry hres.rests).2
    rw [resizeAt_riskState, hred, Order.setTranches_id, (RiskState.onQuantityUpdate_spec
      h.tracked.config hentry (h.tracked.balanced.count_pos hentry) _).2] at hi
    by_cases hid : i = o.id
    · exact ⟨side, price, o, hres.rests, hid.symm⟩
    · rw [AList.lookup_insert_ne hid] at hi
      exact h.rests hi

omit [LevelQueue L] in
theorem cancelAllOrders (h : b.RiskExact cfg) : b.cancelAllOrders.1.RiskExact cfg := by
  rcases b.cancelAllOrders_eq with hrun | ⟨b', hsame, -, hrun⟩
  · rw [hrun]
    exact h.sameState b.sameState_invalidateCache
  · refine ⟨h.sound.cancelAllOrders, ?_, fun {i} hi => ?_⟩
    · rw [hrun]
      refine RiskTracked.of_empty ?_ ?_ rfl rfl
      · rintro s p x ⟨l, hl, -⟩
        cases s <;> cases hl
      · exact (h.tracked.sameOrders hsame).config
    · rw [hrun] at hi
      exact absurd rfl hi

end Effects

end OrderBook.RiskExact

/-! ### Runs -/

/-- What keeps the counters exact. In no sweep an order leaves without its entry, a resize leaves
the order on its level, and a `Cancel` request, which forgets the risk entry, is for an id that does
not rest. -/
def reserveGuard : Guard L where
  add b o := b.Accepted o → (b.dryRunOf o).Keeps o.id Order.leaksRisk
  market b id side mode user := b.killSwitch = false →
    (b.dryRun (b.taker id side mode.limitPrice user .standard) mode).Keeps id Order.leaksRisk
  resize b id q := b.KeepsResized id q
  drop b id := ¬ b.Holds id

section Runs

variable [LevelQueue L] [LevelMatch L] [LevelResize L] [MatchAccounting L] [MatchBalance L]

theorem riskExact_guarded (hcfg : cfg.LimitsNotional) :
    GuardedInvariant (OrderBook.RiskExact (L := L) cfg) reserveGuard where
  reads hquiet _ h := h.sameState hquiet.sameState
  forget {b} h := h.sameState b.sameState_invalidateCache
  alike {b b' o} hsame hg := by
    have haccepted := hsame.symm.accepted (o := o)
    obtain ⟨cache, rfl⟩ := hsame.cache_only
    exact fun ho => hg (haccepted ho)
  add wantResult hg h := h.addOrderInner hcfg hg wantResult
  market hrunning hg h := h.matchMarket hcfg (hg hrunning)
  halt _ h := h.sameState (sameView_trackState ..).sameState
  cancel id reason h := h.cancelOrderWithReason id reason
  resize {b} _ _ hg h := (h.sameState b.sameState_invalidateCache).updateQuantity hcfg hg
  drop {b id} hg h := by
    have hforget := h.sameState b.sameState_invalidateCache
    rcases cancelByUpdate_cases b.invalidateCache id with
      hrun | ⟨side, price, l, l', o, hid, hout, -⟩
    · rw [hrun]
      exact hforget
    · exact absurd ⟨side, price, o, hout.rests, hid⟩ hg
  clear h := h.cancelAllOrders
  byUser {b} user h := by
    refine cancelOrderBatch_keeps (fun id hI => hI.cancelOrderWithReason id _) _ ?_
    exact ⟨⟨h.sound.located, h.sound.standing, h.sound.nonempty⟩,
      h.tracked.shrink rfl fun hx => hx, h.rests⟩

/-- **Risk counters are exact.** Let a notional limit below `u128::MAX` be installed while the book
is empty and the risk layer fresh. After every run of calls that meet `reserveGuard`, the counters
of each account are the number and the notional of its resting orders, and the entries are those of
the resting ids. -/
theorem risk_counters_exact {maxNotional : ℕ}
    (hnotional : cfg.maxNotionalPerAccount = some maxNotional) (hlt : maxNotional < u128Max)
    {b : OrderBook L} (hbids : b.bids = ∅) (hasks : b.asks = ∅)
    (hrisk : b.riskState = { config := some cfg }) {commands : List Command}
    (hmeets : RunMeets execute reserveGuard.Meets b commands) :
    (∀ account,
      (b.run commands).riskState.openCount account =
          ((b.run commands).ordersOf account).length ∧
        (b.run commands).riskState.restingNotional account =
          (((b.run commands).ordersOf account).map fun x => x.price * x.size).sum) ∧
      ∀ i, (b.run commands).riskState.orders.lookup i ≠ none ↔
        ∃ side price o, (b.run commands).Rests side price o ∧ o.id = i := by
  have hcfg : cfg.LimitsNotional := ⟨maxNotional, hnotional, hlt⟩
  have hstart : b.RiskExact cfg := by
    have hlevels : ∀ side price, (b.levels side).get? price = none :=
      get?_levels_of_empty hbids hasks
    refine ⟨.of_no_levels hlevels, RiskTracked.of_empty ?_ ?_ ?_ ?_, fun {i} hi => ?_⟩
    · rintro s p x ⟨l, hl, -⟩
      rw [hlevels] at hl
      cases hl
    · rw [hrisk]
    · rw [hrisk]
    · rw [hrisk]
    · rw [hrisk] at hi
      exact absurd rfl hi
  have hend := (riskExact_guarded hcfg).run hmeets hstart
  exact ⟨hend.counters hcfg, fun i => hend.mem_entries_iff⟩

end Runs

/-- An account with a notional limit of 900. -/
def limitedBook : OrderBook FifoLevel :=
  (withClock "BTC" ⟨fun n => n, 0⟩ : OrderBook FifoLevel).configure
    (.riskConfig (some { maxNotionalPerAccount := some 900 }))

/-- A reserve ask without auto-replenish, with two displayed and three hidden, and a bid. -/
def reserveTaken (quantity : ℕ) : List Command :=
  [.addOrder ⟨1, 100, .sell, 7, 0, .gtc, 2, .reserve 3 0 none false⟩,
    .addOrder ⟨2, 100, .buy, 8, 0, .ioc, quantity, .standard⟩]

/-- A bid for part of the display. -/
theorem reserveTaken_risk_counters_exact :
    RunMeets execute reserveGuard.Meets limitedBook (reserveTaken 1) ∧
      (limitedBook.run (reserveTaken 1)).riskState.openCount 7 = 1 ∧
      (limitedBook.run (reserveTaken 1)).riskState.restingNotional 7 =
        (((limitedBook.run (reserveTaken 1)).ordersOf 7).map fun x => x.price * x.size).sum := by
  have hmeets : RunMeets execute reserveGuard.Meets limitedBook (reserveTaken 1) :=
    ⟨fun _ => by decide, fun _ => by decide, trivial⟩
  exact ⟨hmeets, by decide,
    ((risk_counters_exact rfl (by decide) rfl rfl rfl hmeets).1 7).2⟩

/-- **A dropped hidden tranche leaks.** The bid consumes the display, the reserve order leaves with
its hidden part, and the account keeps an open order and a notional of 300 with nothing on the book.
-/
theorem reserveTaken_leaks :
    (limitedBook.run (reserveTaken 2)).restingOrders = [] ∧
      (limitedBook.run (reserveTaken 2)).riskState.openCount 7 = 1 ∧
      (limitedBook.run (reserveTaken 2)).riskState.restingNotional 7 = 300 ∧
      (limitedBook.run (reserveTaken 2)).riskState.orders.lookup 1 ≠ none := by decide

end OrderBookRs
