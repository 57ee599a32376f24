import OrderBookRs.Accounting
import OrderBookRs.RiskChecks
import OrderBookRs.Sound

/-!
# The risk layer tracks the resting orders

On a book with a notional limit, the risk layer has for every resting order an entry with its price
and its quantity, the counters stand for the entries and a slack, and no counter is above its limit.
Every effect of a call keeps this up. The slack grows only when an order is admitted under an id
that an order which left the book is still tracked under.

## Main definitions

* `RiskState.Within`: the counters respect the configured limits.
* `OrderBook.RiskTracked`: the risk layer tracks the resting orders.

## Main results

* `OrderBook.RiskTracked.matchOrderInner`, `OrderBook.RiskTracked.restAt`,
  `OrderBook.RiskTracked.removed`, `OrderBook.RiskTracked.resizeAt`: the effects keep it up.
-/

namespace OrderBookRs

open PriceLevel Fallible OrderBook

/-! ### Limits -/

/-- A notional limit is configured, and it is not the largest representable notional. -/
def RiskConfig.LimitsNotional (cfg : RiskConfig) : Prop :=
  ∃ limit, cfg.maxNotionalPerAccount = some limit ∧ limit < u128Max

namespace RiskState

variable {r r' : RiskState} {cfg : RiskConfig}

/-- Every counter is within the limit configured for it. -/
structure Within (cfg : RiskConfig) (r : RiskState) : Prop where
  count : ∀ {limit}, cfg.maxOpenOrdersPerAccount = some limit → ∀ a, r.openCount a ≤ limit
  notional : ∀ {limit}, cfg.maxNotionalPerAccount = some limit → ∀ a, r.restingNotional a ≤ limit

theorem Within.mono (h : r.Within cfg) (hle : r'.CountersLe r) : r'.Within cfg :=
  ⟨fun hlimit a => (hle a).1.trans (h.count hlimit a),
    fun hlimit a => (hle a).2.trans (h.notional hlimit a)⟩

theorem Within.restingNotional_lt (h : r.Within cfg) (hcfg : cfg.LimitsNotional) (a : Hash32) :
    r.restingNotional a < u128Max := by
  obtain ⟨limit, hlimit, hlt⟩ := hcfg
  exact (h.notional hlimit a).trans_lt hlt

/-- What the notional gate lets through fits under the limit. -/
theorem checkNotional_eq_ok {account : Hash32} {current base attempted limit : ℕ}
    (hlimit : cfg.maxNotionalPerAccount = some limit) (hlt : limit < u128Max)
    (h : checkNotional cfg account current base attempted = .ok ()) : base + attempted ≤ limit := by
  have hle := checkNotional_eq_ok_iff.mp h limit hlimit
  rw [satAdd128] at hle
  omega

end RiskState

/-! ### The invariant -/

variable {L : Type} [PriceLevel L] {o : Order}

/-- The risk layer has an entry for every resting order, its counters stand for the entries and a
slack, and no counter is above its limit. -/
structure OrderBook.RiskTracked (cfg : RiskConfig) (slack : Hash32 → ℕ × ℕ) (b : OrderBook L) :
    Prop where
  config : b.riskState.config = some cfg
  entry : ∀ {side price x}, b.Rests side price x → x.price = price ∧
    b.riskState.orders.lookup x.id = some ⟨x.userId, price, x.size⟩
  balanced : b.riskState.Balanced slack
  within : b.riskState.Within cfg

namespace OrderBook.RiskTracked

variable {cfg : RiskConfig} {slack : Hash32 → ℕ × ℕ} {b b' : OrderBook L} {i : OrderId} {t : Taker}
  {sw : Sweep L} {r : RiskState} {start : OrderBook L} {remaining : ℕ}

/-- Orders that leave the book without the risk layer noticing leave their entries behind. -/
theorem shrink (h : b.RiskTracked cfg slack) (hrisk : b'.riskState = b.riskState)
    (hrests : ∀ {s p x}, b'.Rests s p x → b.Rests s p x) : b'.RiskTracked cfg slack := by
  obtain ⟨config, entry, balanced, within⟩ := h
  rw [← hrisk] at config entry balanced within
  exact ⟨config, fun hx => entry (hrests hx), balanced, within⟩

theorem sameOrders (hsame : b.SameOrders b') (h : b.RiskTracked cfg slack) :
    b'.RiskTracked cfg slack := by
  obtain ⟨_, _, _, _, _, rfl⟩ := hsame
  exact h.shrink rfl fun hx => hx

/-- An order is taken off the book and its entry released. -/
theorem removed (h : b.RiskTracked cfg slack) (hrisk : b'.riskState = b.riskState.onCancel i)
    (hrests : ∀ {s p x}, b'.Rests s p x ↔ b.Rests s p x ∧ x.id ≠ i) : b'.RiskTracked cfg slack where
  config := by rw [hrisk, RiskState.config_onCancel, h.config]
  entry {s p x} hx := by
    obtain ⟨hbefore, hne⟩ := hrests.mp hx
    rw [hrisk, RiskState.orders_onCancel h.config, if_neg hne]
    exact h.entry hbefore
  balanced := by
    rw [hrisk]
    exact h.balanced.onCancel h.config i
  within := by
    rw [hrisk]
    exact h.within.mono (RiskState.countersLe_onCancel h.config i)

/-! ### Fills -/

section Fill

variable [MatchAccounting L] [MatchBalance L] {t : Taker} {sw : Sweep L} {price q : ℕ}
  {l l' : L} {r : MatchResult}

omit [MatchAccounting L] in
/-- No maker trades more than it has. -/
theorem traded_le_size (hrun : matchOrder l q t.orderId .standard = (r, l')) (ho : o ∈ orders l) :
    tradedQuantity (tradesOf o.id r.trades) ≤ o.size := by
  by_cases hleft : o.id ∈ orderIds l'
  · obtain ⟨o', ho', hid⟩ := mem_orderIds.mp hleft
    have := (MatchBalance.stays hrun ho ho' hid).1
    omega
  · rcases MatchBalance.leaves hrun ho hleft with htraded | ⟨-, htraded⟩
    · exact htraded.le
    · rw [htraded]
      exact Nat.le_add_right ..

theorem fill [LevelMatch L] (h : sw.book.RiskTracked cfg slack) (hsound : SweepSound t sw)
    (hcfg : cfg.LimitsNotional)
    (hl : (sw.book.levels t.side.opposite).get? price = some l)
    (hrun : matchOrder l q t.orderId .standard = (r, l')) :
    (fillLevel t sw price q r l').book.RiskTracked cfg slack := by
  have hrisk : (fillLevel t sw price q r l').book.riskState =
      r.trades.foldl (fun s x => s.onFill x.makerOrderId x.quantity) sw.book.riskState :=
    fillLevel_riskState ..
  refine ⟨?_, fun {s p x} hx => ?_, ?_, ?_⟩
  · rw [hrisk, RiskState.config_foldl_onFill, h.config]
  · rw [hrisk, RiskState.lookup_foldl_onFill h.config]
    rw [fillLevel_rests] at hx
    split_ifs at hx with hhere
    · obtain ⟨rfl, rfl⟩ := hhere
      obtain ⟨o, ho, v, k, rfl⟩ := LevelMatch.orders_match hrun hx
      obtain ⟨hprice, hentry⟩ := h.entry ⟨l, hl, ho⟩
      obtain ⟨hsize, hpos⟩ := MatchBalance.stays hrun ho hx rfl
      rw [Order.setTranches_id, hentry, Option.bind_some, RiskEntry.afterTrades_of_lt]
      · refine ⟨hprice, ?_⟩
        rw [← hsize, Nat.add_sub_cancel, Order.setTranches_userId]
      · intro hne
        have := hpos hne
        dsimp only
        omega
    · obtain ⟨hprice, hentry⟩ := h.entry hx
      have hnot : x.id ∉ orderIds l := by
        intro hmem
        obtain ⟨o, ho, hid⟩ := mem_orderIds.mp hmem
        exact hhere (hsound.same_place hx ⟨l, hl, ho⟩ hid.symm)
      rw [hentry, tradesOf_eq_nil hrun hnot]
      exact ⟨hprice, rfl⟩
  · rw [hrisk]
    refine h.balanced.foldl_onFill h.config (h.within.restingNotional_lt hcfg) fun i e he => ?_
    by_cases hi : i ∈ orderIds l
    · obtain ⟨o, ho, rfl⟩ := mem_orderIds.mp hi
      rw [(h.entry ⟨l, hl, ho⟩).2] at he
      cases he
      exact traded_le_size hrun ho
    · rw [tradesOf_eq_nil hrun hi]
      exact Nat.zero_le _
  · rw [hrisk]
    exact h.within.mono (RiskState.countersLe_foldl_onFill h.config r.trades)

end Fill

/-! ### A whole match -/

theorem finishSweep (h : sw.book.RiskTracked cfg slack) (hsound : SweepSound t sw) :
    (finishSweep t sw).RiskTracked cfg slack := by
  refine h.shrink ?_ fun hx => hsound.finishSweep_rests.mp hx
  obtain ⟨_, _, _, hframe⟩ := finishSweep_frame t sw
  rw [hframe]

section Match

variable [LevelQueue L] [LevelMatch L]

omit [LevelQueue L] in
theorem step [MatchAccounting L] [MatchBalance L] {price : ℕ} {sw' : Sweep L}
    (hcfg : cfg.LimitsNotional) (hs : SweepStep t price sw sw') (hsound : SweepSound t sw)
    (h : sw.book.RiskTracked cfg slack) : sw'.book.RiskTracked cfg slack := by
  cases hs with
  | fill level kind allows pos cap safe run => exact h.fill hsound hcfg level run
  | cancel level mode user mem own orders_eq run =>
    exact h.removed (stpCancel_riskState ..) (hsound.rests_stpCancel ⟨level, mem, orders_eq⟩)
  | markEmpty | flag => exact h

/-- **A match keeps the resting orders tracked.** -/
theorem matchOrderInner [MatchAccounting L] [MatchBalance L] (hcfg : cfg.LimitsNotional)
    (id : OrderId) (side : Side) (mode : MatchMode) (user : Hash32) (kind : TakerKind)
    (hsound : b.Sound) (h : b.RiskTracked cfg slack) :
    (matchOrderInner id side mode user kind b).2.RiskTracked cfg slack := by
  refine (matchOrderInner_invariant (I := fun b => b.Sound ∧ b.RiskTracked cfg slack)
    (J := fun t sw => SweepSound t sw ∧ sw.book.RiskTracked cfg slack) ?_ ?_ ?_ ?_ id side mode
    user kind ⟨hsound, h⟩).2
  · exact fun hsame h => ⟨h.1.sameState hsame, h.2.sameOrders hsame.sameOrders⟩
  · exact fun mode h => ⟨.start h.1 mode, h.2⟩
  · exact fun hs h => ⟨h.1.step hs, h.2.step hcfg hs h.1⟩
  · exact fun h hJ => ⟨h.1.finishSweep hJ.1, hJ.2.finishSweep hJ.1⟩

/-- The counters of every account are at most those of `r`. -/
def CountersLe (cfg : RiskConfig) (r : RiskState) (b : OrderBook L) : Prop :=
  b.riskState.config = some cfg ∧ b.riskState.CountersLe r

/-- No counter grows during a match. -/
theorem matchOrderInner_countersLe (id : OrderId) (side : Side) (mode : MatchMode) (user : Hash32)
    (kind : TakerKind) (h : CountersLe cfg r b) :
    CountersLe cfg r (OrderBook.matchOrderInner id side mode user kind b).2 := by
  refine matchOrderInner_invariant (I := CountersLe cfg r)
    (J := fun _ sw => CountersLe cfg r sw.book) ?_ (fun _ h => h) ?_ ?_ id side mode user kind h
  · rintro b _ ⟨_, _, _, rfl⟩ h
    exact h
  · intro t price sw sw' hs h
    cases hs with
    | fill level kind allows pos cap safe run =>
      rw [CountersLe, fillLevel_riskState, RiskState.config_foldl_onFill]
      exact ⟨h.1, (RiskState.countersLe_foldl_onFill h.1 _).trans h.2⟩
    | cancel level mode user mem own orders_eq run =>
      rw [CountersLe, stpCancel_riskState, RiskState.config_onCancel]
      exact ⟨h.1, (RiskState.countersLe_onCancel h.1 _).trans h.2⟩
    | markEmpty | flag => exact h
  · intro b t mode _ hJ
    obtain ⟨_, _, _, hframe⟩ := finishSweep_frame t (b.sweep t mode)
    rw [hframe]
    exact hJ

/-! ### Coming to rest -/

theorem countersLe_of_swept (hswept : Swept o start remaining b)
    (hconfig : start.riskState.config = some cfg) : CountersLe cfg start.riskState b := by
  obtain ⟨wantResult, -, hsame, hrun, -, -, -, hemit⟩ := hswept
  have hstart : ∀ {b₀}, start.SameState b₀ → CountersLe cfg start.riskState b₀ := by
    rintro _ ⟨_, _, _, rfl⟩
    exact ⟨hconfig, .refl _⟩
  have hafter := matchOrderInner_countersLe o.id o.side (.baseQty o.totalQuantity (some o.price))
    o.userId (takerKind o) (hstart hsame)
  rw [← sweepOf, hrun] at hafter
  obtain ⟨_, _, _, _, _, hemitted⟩ := sameOrders_emitTrades wantResult _ _
  rw [← hemit, hemitted]
  exact hafter

/-- The slack once an order is admitted under the id `i`. -/
def slackAfter (r : RiskState) (i : OrderId) (slack : Hash32 → ℕ × ℕ) (a : Hash32) : ℕ × ℕ :=
  ((slack a).1 + (r.orders.lookup i).elim 0 (RiskEntry.share a fun _ => 1),
    (slack a).2 + (r.orders.lookup i).elim 0 (RiskEntry.share a RiskEntry.notional))

theorem slackAfter_of_none (h : r.orders.lookup i = none) (slack : Hash32 → ℕ × ℕ) :
    slackAfter r i slack = slack := by
  funext a
  rw [slackAfter, h]
  rfl

/-- **What a sweep leaves of an order comes to rest** tracked, within the limits the order was
checked against before the sweep. -/
theorem restAt [MatchAccounting L] {l l' : L} (hcfg : cfg.LimitsNotional)
    (hswept : Swept o start remaining b) (hconfig : start.riskState.config = some cfg)
    (hl : l = ((b.levels o.side).get? o.price).getD (new o.price))
    (horders : orders l' = orders l ++ [residual o remaining])
    (hfresh : b.orderLocations.lookup o.id = none) (hsound : b.Sound)
    (h : b.RiskTracked cfg slack) :
    (b.restAt o (residual o remaining) l' remaining).RiskTracked cfg
      (slackAfter b.riskState o.id slack) := by
  have hle := (countersLe_of_swept hswept hconfig).2
  obtain ⟨wantResult, haccepted, -, hrun, -, -, hleft, -⟩ := hswept
  have hremaining : remaining ≤ o.totalQuantity := by
    have := (sweepOf_accounts hrun).1
    omega
  obtain ⟨hopen, hgate, -⟩ := (RiskState.checkLimitAdmission_eq_ok_iff hconfig).mp haccepted.risk
  obtain ⟨hheld, hentries⟩ := RiskState.onAdmission_spec h.config o.id o.userId o.price remaining
  have hmono := satMul128_mono o.price hremaining
  have hroom : ∀ {limit}, cfg.maxNotionalPerAccount = some limit → limit < u128Max →
      b.riskState.restingNotional o.userId + satMul128 remaining o.price ≤ limit := by
    intro limit hlimit hlt
    have := RiskState.checkNotional_eq_ok hlimit hlt hgate
    have := (hle o.userId).2
    omega
  have hmax : u128Max < 2 ^ 128 := by decide
  obtain ⟨limit, hlimit, hlt⟩ := hcfg
  have hfit := hroom hlimit hlt
  refine ⟨?_, fun {s p x} hx => ?_, ?_, ?_, ?_⟩
  · rw [restAt_riskState, RiskState.config_onAdmission, h.config]
  · rw [restAt_riskState, hentries]
    rcases (restAt_rests_iff remaining hl horders).mp hx with hx | ⟨rfl, rfl, rfl⟩
    · rw [AList.lookup_insert_ne (hsound.id_ne hfresh hx)]
      exact h.entry hx
    · rw [residual_id, residual_price, residual_userId, AList.lookup_insert,
        size_residual haccepted.representable hremaining]
      exact ⟨rfl, rfl⟩
  · rw [restAt_riskState]
    exact h.balanced.onAdmission h.config o.id (by omega)
  · intro limit' hlimit' a
    rw [restAt_riskState, RiskState.openCount_of_held (hheld a)]
    split_ifs with ha
    · have := RiskState.checkOpenOrders_eq_ok_iff.mp hopen _ hlimit'
      have := (hle o.userId).1
      dsimp only
      omega
    · exact h.within.count hlimit' a
  · intro limit' hlimit' a
    rw [hlimit] at hlimit'
    cases hlimit'
    rw [restAt_riskState, RiskState.restingNotional_of_held (hheld a)]
    split_ifs with ha
    · rw [Nat.mod_eq_of_lt (by omega)]
      exact hfit
    · exact h.within.notional hlimit a

end Match

/-! ### Cancels, resizes and the bulk cancel -/

section Effects

variable [LevelQueue L] {side : Side} {price : ℕ} {l l' : L} {o : Order}

theorem cancelAt (h : b.RiskTracked cfg slack) (hsound : b.Sound)
    (hout : b.TakesOff side price l l' o) : (b.cancelAt side price l' o).RiskTracked cfg slack :=
  h.removed (cancelAt_riskState ..)
    (hsound.rests_removed hout (cancelAt_get? _ _ _ _ _))

theorem dropAt (h : b.RiskTracked cfg slack) (hsound : b.Sound)
    (hout : b.TakesOff side price l l' o) : (b.dropAt side price l' o.id).RiskTracked cfg slack :=
  h.shrink (dropAt_riskState ..) fun hx =>
    ((hsound.rests_removed hout (dropAt_get? _ _ _ _ _)).mp hx).1

/-- **A resize** that passed its checks keeps the resting orders tracked. -/
theorem resizeAt [LevelResize L] {q : ℕ} {reference : Option ℕ} (h : b.RiskTracked cfg slack)
    (hcfg : cfg.LimitsNotional) (hsound : b.Sound) (hres : b.Resizes side price l l' o q)
    (hshape : b.checkShape (withReducedQuantity L o q) = .ok ())
    (hgate : b.riskState.checkModifyAdmission o.id (withReducedQuantity L o q).userId price
      (withReducedQuantity L o q).totalQuantity reference = .ok ()) :
    (b.resizeAt side price l' (withReducedQuantity L o q)).RiskTracked cfg slack := by
  obtain ⟨v, k, hred⟩ := LevelResize.withReducedQuantity_eq (L := L) o q
  have hsize := Order.size_eq_totalQuantity (checkedTotalQuantity_of_checkShape hshape)
  have hrests := fun {s p x} => hsound.rests_resizeAt (s := s) (p := p) (x := x) hres
  obtain ⟨hprice, hentry⟩ := h.entry hres.rests
  rw [hred] at hsize hrests hgate ⊢
  rw [Order.setTranches_userId] at hgate
  obtain ⟨limit, hlimit, hlt⟩ := hcfg
  have hroom := RiskState.checkNotional_eq_ok hlimit hlt
    ((RiskState.checkModifyAdmission_eq_ok_iff h.config hentry).mp hgate).1
  obtain ⟨hbalanced, hheld⟩ := h.balanced.onQuantityUpdate h.config hentry
    ((h.balanced.notional_le hentry).trans_lt (h.within.restingNotional_lt ⟨limit, hlimit, hlt⟩ _))
    (hroom.trans_lt hlt)
  have hentries := (RiskState.onQuantityUpdate_spec h.config hentry (h.balanced.count_pos hentry)
    (o.setTranches v k).totalQuantity).2
  refine ⟨?_, fun {s p x} hx => ?_, ?_, fun hlimit' a => ?_, fun hlimit' a => ?_⟩
  · rw [resizeAt_riskState, RiskState.config_onQuantityUpdate, h.config]
  · rw [resizeAt_riskState, Order.setTranches_id, hentries]
    rcases hrests hx with ⟨hx, hne⟩ | ⟨rfl, rfl, rfl⟩
    · rw [AList.lookup_insert_ne hne]
      exact h.entry hx
    · rw [Order.setTranches_id, Order.setTranches_price, Order.setTranches_userId,
        AList.lookup_insert, hsize]
      exact ⟨hprice, rfl⟩
  · rw [resizeAt_riskState]
    exact hbalanced
  · rw [resizeAt_riskState, Order.setTranches_id, RiskState.openCount_of_held (hheld a)]
    split_ifs with ha
    · exact h.within.count hlimit' _
    · exact h.within.count hlimit' a
  · rw [hlimit] at hlimit'
    cases hlimit'
    rw [resizeAt_riskState, Order.setTranches_id, RiskState.restingNotional_of_held (hheld a)]
    split_ifs with ha
    · exact hroom
    · exact h.within.notional hlimit a

end Effects

/-- A configured risk layer without entries tracks an empty book. -/
theorem of_empty (hrests : ∀ {s p x}, ¬ b.Rests s p x) (hconfig : b.riskState.config = some cfg)
    (horders : b.riskState.orders = ∅) (hcounters : b.riskState.counters = ∅) :
    b.RiskTracked cfg fun _ => (0, 0) := by
  have hcount : ∀ a, b.riskState.openCount a = 0 := by
    intro a
    rw [RiskState.openCount, hcounters]
    rfl
  have hnotional : ∀ a, b.riskState.restingNotional a = 0 := by
    intro a
    rw [RiskState.restingNotional, hcounters]
    rfl
  refine ⟨hconfig, fun hx => absurd hx hrests, ⟨fun a => ?_, fun a => ?_⟩, ?_, ?_⟩
  · rw [hcount, RiskState.counted, horders]
    rfl
  · rw [hnotional, RiskState.booked, horders]
    rfl
  · intro limit _ a
    rw [hcount]
    exact Nat.zero_le _
  · intro limit _ a
    rw [hnotional]
    exact Nat.zero_le _

end OrderBook.RiskTracked

end OrderBookRs
