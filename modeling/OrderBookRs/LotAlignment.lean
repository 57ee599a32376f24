import OrderBookRs.Guarded
import OrderBookRs.Uncrossed

/-!
# Whole lots

With a lot size the budget of a sweep is rounded down to whole lots at every level. If the makers of
a level are in whole lots, so is what the sweep trades there and what it leaves, and a limit taker
never ends up with less than a lot that it could not spend. Admission sees to whole lots for every
kind but one: of a reserve order it checks the total, not the tranches a match takes it in.

## Main definitions

* `SweepInLots`, `OrderBook.KeptInLots`: the orders are in whole lots, and so is what was traded.
* `lotGuard`: reserve orders that are stored have whole-lot tranches.
* `OrderBook.LotsKept`: what a call on a book with a lot size should leave.

## Main results

* `dvd_tradedQuantity_match`: a match in whole lots trades whole lots.
* `Plan.dvd_loop`: a sweep asks every level for whole lots.
* `lots_kept`: along runs that meet `lotGuard`, whole lots stay whole lots.
-/

namespace OrderBookRs

open PriceLevel Fallible OrderBook

variable {L : Type} [PriceLevel L] {lot q : ℕ} {o : Order} {l l' : L} {id : OrderId}
  {b : OrderBook L}

/-! ### What a match trades -/

/-- If each maker traded whole lots, the trades add up to whole lots. -/
theorem dvd_tradedQuantity {ts : List Trade} (h : ∀ i, lot ∣ tradedQuantity (tradesOf i ts)) :
    lot ∣ tradedQuantity ts := by
  -- take out the trades of one maker at a time
  induction hn : ts.length using Nat.strong_induction_on generalizing ts with
  | _ n ih =>
    cases ts with
    | nil => exact dvd_zero lot
    | cons t ts =>
      rw [← tradedQuantity_tradesOf_add t.makerOrderId (t :: ts)]
      refine Nat.dvd_add (h t.makerOrderId) (ih _ ?_ (fun i => ?_) rfl)
      · have hle := List.length_filter_le (fun x => decide (x.makerOrderId ≠ t.makerOrderId)) ts
        rw [List.filter_cons_of_neg (by simp), ← hn, List.length_cons]
        omega
      · by_cases hi : i = t.makerOrderId
        · have hnone :
              tradesOf i ((t :: ts).filter fun x => x.makerOrderId ≠ t.makerOrderId) = [] := by
            refine List.filter_eq_nil_iff.mpr fun x hx hmaker => ?_
            have hne := (List.mem_filter.mp hx).2
            rw [of_decide_eq_true hmaker, hi] at hne
            simp at hne
          rw [hnone]
          exact dvd_zero lot
        · have hsame : tradesOf i ((t :: ts).filter fun x => x.makerOrderId ≠ t.makerOrderId) =
              tradesOf i (t :: ts) := by
            rw [tradesOf, tradesOf, List.filter_filter]
            refine List.filter_congr fun x _ => ?_
            by_cases hx : x.makerOrderId = i
            · simp [hx, hi]
            · simp [hx]
          rw [hsame]
          exact h i

/-- **A match in whole lots trades whole lots.** -/
theorem dvd_tradedQuantity_match [MatchAccounting L] [MatchBalance L] [MatchInLots L]
    {taker : OrderId} {r : MatchResult} (hrun : matchOrder l q taker .standard = (r, l'))
    (hq : lot ∣ q) (hlots : ∀ o ∈ orders l, o.InLots lot) : lot ∣ tradedQuantity r.trades := by
  refine dvd_tradedQuantity fun i => ?_
  by_cases hi : i ∈ orderIds l
  · obtain ⟨o, ho, rfl⟩ := mem_orderIds.mp hi
    have hsize := (hlots o ho).size
    by_cases hstays : o.id ∈ orderIds l'
    · obtain ⟨o', ho', hid⟩ := mem_orderIds.mp hstays
      have hkept := (MatchInLots.orders_inLots hrun hq hlots o' ho').size
      rw [← (MatchBalance.stays hrun ho ho' hid).1] at hsize
      exact (Nat.dvd_add_right hkept).mp hsize
    · rcases MatchBalance.leaves hrun ho hstays with hall | ⟨-, hdisplay⟩
      · rwa [hall]
      · rw [hdisplay]
        exact (hlots o ho).visible
  · rw [tradesOf_eq_nil hrun hi]
    exact dvd_zero lot

/-! ### What a sweep asks for -/

theorem dvd_lotFloor (h : 1 < lot) (raw : ℕ) : lot ∣ lotFloor lot raw := by
  rw [lotFloor, if_neg (by omega)]
  exact Nat.dvd_sub_mod raw

theorem lotFloor_eq_self {raw : ℕ} (h : lot ∣ raw) : lotFloor lot raw = raw := by
  rw [lotFloor]
  split_ifs
  · rfl
  · rw [Nat.mod_eq_zero_of_dvd h, Nat.sub_zero]

theorem dvd_levelQtyCap (h : 1 < lot) (stop : StopCondition) (price : ℕ) :
    lot ∣ stop.levelQtyCap price lot := by
  cases stop with
  | baseQty remaining => exact dvd_lotFloor h remaining
  | quoteAmount =>
    rw [StopCondition.levelQtyCap]
    split_ifs
    · exact dvd_zero lot
    · exact dvd_lotFloor h _

/-- The display ahead of the taker's own order is whole lots. -/
theorem dvd_firstOwn {user : Hash32} {queue : List Order} {acc safe : ℕ}
    (hlots : ∀ o ∈ queue, lot ∣ o.visibleQuantity) (hacc : lot ∣ acc)
    (hfits : acc + (queue.map Order.visibleQuantity).sum ≤ u64Max)
    (h : firstOwn user queue acc = some (safe, id)) : lot ∣ safe := by
  induction queue generalizing acc with
  | nil => cases h
  | cons o queue ih =>
    rw [List.map_cons, List.sum_cons] at hfits
    rw [firstOwn] at h
    split_ifs at h
    · cases h
      exact hacc
    · rw [satAdd64_eq (by omega)] at h
      exact ih (List.forall_mem_cons.mp hlots).2
        (Nat.dvd_add hacc (hlots o (List.mem_cons_self ..))) (by omega) h

namespace Plan

variable [LevelCapacity L] {lot : ℕ} {t : Taker} {p : Plan L} {price qtyCap : ℕ} {l : L}

omit [LevelCapacity L] in
theorem dvd_fill (hq : lot ∣ q) : ∀ e ∈ (p.fill t price l q).fills, e ∈ p.fills ∨ lot ∣ e.2 := by
  intro e he
  rcases List.mem_append.mp he with he | he
  · exact Or.inl he
  · rw [List.mem_singleton.mp he]
    exact Or.inr hq

theorem dvd_fillSafely {safe : ℕ} (hlots : ∀ o ∈ orders l, lot ∣ o.visibleQuantity)
    (hcap : lot ∣ qtyCap) (hown : firstOwn t.userId (orders l) 0 = some (safe, id)) :
    ∀ e ∈ (p.fillSafely t price l qtyCap safe).fills, e ∈ p.fills ∨ lot ∣ e.2 := by
  have hsafe : lot ∣ safe := by
    refine dvd_firstOwn hlots (dvd_zero lot) ?_ hown
    rw [Nat.zero_add]
    exact LevelCapacity.sum_visible_le l
  rw [fillSafely]
  split_ifs
  · exact dvd_fill (Order.dvd_min hcap hsafe)
  · exact fun e he => Or.inl he

theorem dvd_visit {sw : Sweep L} {it : Plan L × Bool} {it' : Sweep L × Bool}
    (v : Visit t price l p sw it it') (hlot : t.lot = lot) (h : 1 < lot)
    (hlots : ∀ o ∈ orders l, lot ∣ o.visibleQuantity) :
    ∀ e ∈ it.1.fills, e ∈ p.fills ∨ lot ∣ e.2 := by
  have hcap : lot ∣ p.stop.levelQtyCap price t.lot := by
    rw [hlot]
    exact dvd_levelQtyCap h p.stop price
  cases v with
  | ends | passes | rejects | withdraws => exact fun e he => Or.inl he
  | fills asks | fillsOthers asks => exact dvd_fill (asks.cap ▸ hcap)
  | stopsTaker asks _ _ own | stopsBoth asks _ _ own =>
    exact dvd_fillSafely hlots (asks.cap ▸ hcap) own

/-- **A sweep over orders in whole lots asks every level for whole lots.** -/
theorem dvd_loop (hlot : t.lot = lot) (h : 1 < lot)
    {entries : List (ℕ × L)} (hlots : ∀ e ∈ entries, ∀ o ∈ orders e.2, lot ∣ o.visibleQuantity) :
    ∀ e ∈ (loop t entries p).fills, e ∈ p.fills ∨ lot ∣ e.2 :=
  loop_keeps (J := fun p' => ∀ e ∈ p'.fills, e ∈ p.fills ∨ lot ∣ e.2)
    (fun entry hentry v hJ e he =>
      (dvd_visit v hlot h (hlots entry hentry) e he).elim (hJ e) Or.inr) fun _ he => Or.inl he

end Plan

/-! ### Sweeps -/

/-- The orders on the book are in whole lots, and so is what was traded since it had made the trades
`fills`. -/
structure SweepInLots (lot : ℕ) (fills : List Trade) (sw : Sweep L) : Prop where
  orders : ∀ {side price o}, sw.book.Rests side price o → o.InLots lot
  traded : ∃ trades, sw.book.fills = fills ++ trades ∧ lot ∣ tradedQuantity trades

namespace SweepInLots

variable {lot price : ℕ} {fills : List Trade} {t : Taker} {sw sw' : Sweep L} {l : L}

/-- Steps that ask for whole lots keep whole lots. -/
theorem step [LevelQueue L] [MatchAccounting L] [MatchBalance L] [MatchInLots L]
    {F : L → ℕ → Prop} (hF : ∀ {l q}, F l q → lot ∣ q) (hs : PlannedStep t F price sw sw')
    (h : SweepInLots lot fills sw) : SweepInLots lot fills sw' := by
  cases hs with
  | @fill q l l' r level kind allows pos cap safe run planned =>
    have hq := hF planned
    have hlots : ∀ o ∈ PriceLevel.orders l, o.InLots lot := fun o ho => h.orders ⟨l, level, ho⟩
    refine ⟨fun {s p o} ho => ?_, ?_⟩
    · rw [fillLevel_rests] at ho
      split_ifs at ho
      · exact MatchInLots.orders_inLots run hq hlots o ho
      · exact h.orders ho
    · obtain ⟨trades, heq, hdvd⟩ := h.traded
      refine ⟨trades ++ r.trades, by rw [fillLevel_fills, heq, List.append_assoc], ?_⟩
      rw [tradedQuantity_append]
      exact Nat.dvd_add hdvd (dvd_tradedQuantity_match run hq hlots)
  | @cancel l l' o level mode user mem own orders_eq run =>
    refine ⟨fun {s p x} hx => ?_, by rw [stpCancel_fills]; exact h.traded⟩
    rw [stpCancel_rests] at hx
    split_ifs at hx with hplace
    · obtain ⟨rfl, rfl⟩ := hplace
      rw [orders_eq] at hx
      exact h.orders ⟨l, level, List.mem_of_mem_filter hx⟩
    · exact h.orders hx
  | markEmpty | flag => exact ⟨h.orders, h.traded⟩

variable [LevelQueue L] [LevelMatch L] [MatchAccounting L] [MatchBalance L] [MatchInLots L]
  [LevelCapacity L]

theorem level (hlot : t.lot = lot) (hpos : 1 < lot)
    (hl : (sw.book.levels t.side.opposite).get? price = some l) (h : SweepInLots lot fills sw) :
    SweepInLots lot fills (sweepLevel t sw price l).1 := by
  have v := sweepLevel_visit (p := { stop := sw.stop }) t price l rfl
  refine (v.steps hl rfl).run.invariant (fun hs hJ => hJ.step (fun hq => ?_) hs) h
  rcases Plan.dvd_visit v hlot hpos (fun o ho => (h.orders ⟨l, hl, ho⟩).visible) _
    hq with hnil | hdvd
  · cases hnil
  · exact hdvd

omit [LevelQueue L] [LevelMatch L] [MatchAccounting L] [MatchBalance L] [MatchInLots L]
  [LevelCapacity L] in
/-- A budget of whole lots stays one. -/
theorem dvd_remaining {remaining : ℕ} (h : SweepInLots lot fills sw) (hq : lot ∣ q)
    (hacc : BaseAccounts q fills sw remaining) : lot ∣ remaining := by
  obtain ⟨trades, heq, hdvd⟩ := h.traded
  obtain rfl : trades = sw.result.trades := List.append_cancel_left (heq.symm.trans hacc.applied)
  rw [← hacc.traded] at hq
  exact (Nat.dvd_add_right hdvd).mp hq

end SweepInLots

/-! ### Books -/

/-- **A book kept in whole lots**: its orders are, what it traded since it had made the trades
`fills` is, and its sides do not cross. -/
structure OrderBook.KeptInLots (lot : ℕ) (fills : List Trade) (b : OrderBook L) : Prop where
  lotSize : b.lotSize = some lot
  sound : b.Sound
  orders : ∀ {side price o}, b.Rests side price o → o.InLots lot
  uncrossed : b.Uncrossed
  traded : ∃ trades, b.fills = fills ++ trades ∧ lot ∣ tradedQuantity trades

namespace OrderBook

theorem of_bind_eq_ok {x : Except OrderBookError Unit} {f : Unit → Except OrderBookError Unit}
    (h : (x >>= f) = .ok ()) : x = .ok () ∧ f () = .ok () := by
  cases x with
  | error => cases h
  | ok => exact ⟨rfl, h⟩

omit [PriceLevel L] in
theorem checkLot_of_checkShape (hlot : b.lotSize = some lot) (hpos : 0 < lot)
    (h : b.checkShape o = .ok ()) : checkLot lot o = .ok () := by
  rw [checkShape, hlot] at h
  dsimp only at h
  rw [if_pos hpos] at h
  -- the check comes after representability, user and tick
  obtain ⟨-, h⟩ := of_bind_eq_ok h
  obtain ⟨-, h⟩ := of_bind_eq_ok h
  obtain ⟨-, h⟩ := of_bind_eq_ok h
  exact (of_bind_eq_ok h).1

omit [PriceLevel L] in
/-- **Admission sees to whole lots**, of a reserve order only in total. -/
theorem inLots_of_checkShape (hlot : b.lotSize = some lot) (hpos : 0 < lot)
    (hshape : b.checkShape o = .ok ()) (hreserve : o.ReserveInLots lot) : o.InLots lot := by
  have hcheck := checkLot_of_checkShape hlot hpos hshape
  have hsize := Order.size_eq_totalQuantity (checkedTotalQuantity_of_checkShape hshape)
  have hdvd : ∀ {q : ℕ} {e}, refuse (decide (q % lot ≠ 0)) e = .ok () → lot ∣ q := by
    intro q e hok
    have hzero := refuse_eq_ok.mp hok
    exact Nat.dvd_of_mod_eq_zero (by simpa using hzero)
  rw [checkLot] at hcheck
  cases hkind : o.kind with
  | iceberg =>
    rw [hkind] at hcheck
    obtain ⟨hvisible, hhidden⟩ := of_bind_eq_ok hcheck
    refine ⟨hdvd hvisible, ?_, hreserve⟩
    rw [Order.hiddenQuantity, hkind]
    exact hdvd hhidden
  | reserve hidden threshold amount auto =>
    rw [hkind] at hcheck
    have htotal : lot ∣ o.size := hsize ▸ hdvd hcheck
    have hhidden : o.hiddenQuantity = hidden := by rw [Order.hiddenQuantity, hkind]
    have hcases := hreserve
    rw [Order.ReserveInLots, hkind] at hcases
    rcases hcases with hzero | ⟨hv, hh, -⟩
    · rw [Order.size, hhidden, hzero, Nat.add_zero] at htotal
      exact ⟨htotal, by rw [hhidden, hzero]; exact dvd_zero lot, hreserve⟩
    · exact ⟨hv, hhidden ▸ hh, hreserve⟩
  | _ =>
    rw [hkind] at hcheck
    have hhidden : o.hiddenQuantity = 0 := by rw [Order.hiddenQuantity, hkind]
    have htotal : lot ∣ o.size := hsize ▸ hdvd hcheck
    rw [Order.size, hhidden, Nat.add_zero] at htotal
    exact ⟨htotal, by rw [hhidden]; exact dvd_zero lot, hreserve⟩

end OrderBook

namespace OrderBook.KeptInLots

variable {lot : ℕ} {fills : List Trade} {b b' : OrderBook L}

theorem sameOrders (hsame : b.SameOrders b') (h : b.KeptInLots lot fills) :
    b'.KeptInLots lot fills := by
  obtain ⟨_, _, _, _, _, rfl⟩ := hsame
  exact ⟨h.lotSize, h.sound.sameOrders ⟨_, _, _, _, _, rfl⟩, h.orders, h.uncrossed, h.traded⟩

theorem sameState (hsame : b.SameState b') (h : b.KeptInLots lot fills) : b'.KeptInLots lot fills :=
  h.sameOrders hsame.sameOrders

/-- A change that trades nothing, adds no level and leaves the configuration alone. -/
theorem shrink (h : b.KeptInLots lot fills) (hsound : b'.Sound)
    (hsettings : b'.settings = b.settings)
    (hlevels : ∀ {side price}, b'.HasLevel side price → b.HasLevel side price)
    (horders : ∀ {side price o}, b'.Rests side price o → o.InLots lot)
    (hfills : b'.fills = b.fills) : b'.KeptInLots lot fills :=
  ⟨(congrArg BookSettings.lotSize hsettings).trans h.lotSize, hsound, horders,
    h.uncrossed.mono hlevels, by rw [hfills]; exact h.traded⟩

variable [LevelQueue L] {side : Side} {price : ℕ}

/-- An order that is taken off its level. -/
theorem cancelAt (h : b.KeptInLots lot fills) (hout : b.TakesOff side price l l' o) :
    (b.cancelAt side price l' o).KeptInLots lot fills :=
  h.shrink (h.sound.cancelAt hout) (settings_cancelAt ..)
    (hasLevel_of_rewritten hout.level (cancelAt_get? _ _ _ _ _))
    (fun hx => h.orders ((h.sound.rests_removed hout
      (cancelAt_get? _ _ _ _ _)).mp hx).1) (cancelAt_fills ..)

theorem dropAt (h : b.KeptInLots lot fills) (hout : b.TakesOff side price l l' o) :
    (b.dropAt side price l' o.id).KeptInLots lot fills :=
  h.shrink (h.sound.dropAt hout) (settings_dropAt ..)
    (hasLevel_of_rewritten hout.level (dropAt_get? _ _ _ _ _))
    (fun hx => h.orders ((h.sound.rests_removed hout (dropAt_get? _ _ _ _ _)).mp hx).1)
    (dropAt_fills ..)

theorem cancelOrderWithReason (h : b.KeptInLots lot fills) (id : OrderId) (reason : CancelReason) :
    (b.cancelOrderWithReason id reason).1.KeptInLots lot fills := by
  rcases cancelOrderWithReason_cases b id reason with
    ⟨hsame, -, -⟩ | ⟨side, price, l, l', o, -, hout, -, hsame⟩
  · exact h.sameState hsame
  · exact (h.cancelAt hout.off).sameState hsame

omit [LevelQueue L] in
theorem cancelAllOrders (h : b.KeptInLots lot fills) :
    b.cancelAllOrders.1.KeptInLots lot fills := by
  rcases cancelAllOrders_eq b with hsame | ⟨b', hsame, -, hcleared⟩
  · rw [hsame]
    exact h.sameState b.sameState_invalidateCache
  · have hnone : ∀ side price, (b.cancelAllOrders.1.levels side).get? price = none := by
      intro side price
      rw [hcleared]
      cases side <;> rfl
    refine h.shrink h.sound.cancelAllOrders (settings_cancelAllOrders _) ?_ ?_ ?_
    · rintro side price ⟨l, hl⟩
      cases (hnone side price).symm.trans hl
    · rintro side price o ⟨l, hl, -⟩
      cases (hnone side price).symm.trans hl
    · rw [hcleared]
      exact hsame.sameRests.fills_eq

theorem cancelOrdersByUser (h : b.KeptInLots lot fills) (user : Hash32) :
    (b.cancelOrdersByUser user).1.KeptInLots lot fills := by
  refine cancelOrdersByUser_keeps (fun hsame h => h.sameState hsame)
    (fun hout h => h.cancelAt hout.off) user ?_
  exact ⟨h.lotSize, ⟨h.sound.located, h.sound.standing, h.sound.nonempty⟩, h.orders, h.uncrossed,
    h.traded⟩

theorem updateQuantity [LevelResize L] (hpos : 1 < lot) (h : b.KeptInLots lot fills)
    (hreserve : ∀ {side price o}, b.Rests side price o → o.id = id →
      (withReducedQuantity L o q).ReserveInLots lot) :
    (updateQuantity id q b).2.KeptInLots lot fills := by
  rcases updateQuantity_cases b id q with
    hquiet | ⟨side, price, l, l', o, hid, hres, -, hquiet⟩
  · exact h.sameState hquiet.sameState
  · refine sameState hquiet.sameState (h.shrink (h.sound.resizeAt hres.resized)
      (settings_resizeAt ..) (hasLevel_of_rewritten hres.level (resizeAt_get? _ _ _ _ _))
      (fun {s p x} hx => ?_) (resizeAt_fills ..))
    rcases h.sound.rests_resizeAt hres.resized hx with ⟨hx, -⟩ | ⟨-, -, rfl⟩
    · exact h.orders hx
    · exact inLots_of_checkShape h.lotSize (by omega) hres.shape (hreserve hres.rests hid)

variable [LevelMatch L] [MatchAccounting L] [MatchBalance L] [MatchInLots L] [LevelCapacity L]

/-- **A match keeps whole lots**, whatever its budget is measured in. -/
theorem matchOrderInner (hpos : 1 < lot) (h : b.KeptInLots lot fills) (id : OrderId) (side : Side)
    (mode : MatchMode) (user : Hash32) (kind : TakerKind) :
    (matchOrderInner id side mode user kind b).2.KeptInLots lot fills := by
  have hsettings := settings_matchOrderInner (b := b) id side mode user kind rfl
  have htaker : (b.taker id side mode.limitPrice user kind).lot = lot := by
    simp [taker, h.lotSize]
  have hsweep : (∀ {s p o}, (OrderBook.matchOrderInner id side mode user kind b).2.Rests s p o →
      o.InLots lot) ∧ ∃ trades, (OrderBook.matchOrderInner id side mode user kind b).2.fills =
        fills ++ trades ∧ lot ∣ tradedQuantity trades := by
    refine matchOrderInner_planned
      (I := fun b => (∀ {s p o}, b.Rests s p o → o.InLots lot) ∧
        ∃ trades, b.fills = fills ++ trades ∧ lot ∣ tradedQuantity trades)
      (J := SweepInLots lot fills) ?_ rfl ⟨h.orders, h.traded⟩ (fun hs hJ => hJ.step ?_ hs)
      (fun hJ => ?_) ⟨h.orders, h.traded⟩
    · rintro b₁ _ ⟨_, _, _, rfl⟩ hI
      exact hI
    · intro l q hplanned
      rcases Plan.dvd_loop htaker hpos (fun e he o ho =>
        (h.orders ⟨e.2, mem_sweepEntries.mp he, ho⟩).visible) _ hplanned with hnil | hdvd
      · cases hnil
      · exact hdvd
    · have hsound := h.sound.sameState b.sameState_openSweep
      refine ⟨fun ho => hJ.orders (((hsound.sweepSound _ mode).finishSweep_rests).mp ho), ?_⟩
      rw [finishSweep_fills]
      exact hJ.traded
  exact ⟨(congrArg BookSettings.lotSize hsettings).trans h.lotSize,
    h.sound.matchOrderInner id side mode user kind, hsweep.1,
    h.uncrossed.mono (hasLevel_of_matchOrderInner id side mode user kind), hsweep.2⟩

omit [LevelQueue L] [LevelMatch L] [MatchAccounting L] [MatchBalance L] [MatchInLots L]
  [LevelCapacity L] in
/-- The trades so far may be counted from here. -/
theorem rebase (h : b.KeptInLots lot fills) : b.KeptInLots lot b.fills :=
  ⟨h.lotSize, h.sound, h.orders, h.uncrossed, [], (List.append_nil _).symm, dvd_zero lot⟩

/-- The sweep of an order in whole lots leaves whole lots of it. -/
theorem dvd_remaining (hpos : 1 < lot) (h : b.KeptInLots lot fills) (ho : lot ∣ o.totalQuantity)
    {outcome : MatchOutcome} (hrun : sweepOf o b = (.ok outcome, b')) :
    lot ∣ outcome.result.remainingQuantity := by
  have hswept : b'.KeptInLots lot b.fills := by
    have := h.rebase.matchOrderInner hpos o.id o.side (.baseQty o.totalQuantity (some o.price))
      o.userId (takerKind o)
    rwa [← sweepOf, hrun] at this
  obtain ⟨trades, heq, hdvd⟩ := hswept.traded
  obtain ⟨htotal, hfills⟩ := sweepOf_accounts hrun
  obtain rfl : trades = outcome.result.trades := List.append_cancel_left (heq.symm.trans hfills)
  rw [← htotal] at ho
  exact (Nat.dvd_add_right hdvd).mp ho

/-- **What is left of an order in whole lots comes to rest in whole lots**, with no level of the
other side within its limit. -/
theorem restAt [MatchExhausts L] (hpos : 1 < lot) {start : OrderBook L} {remaining : ℕ}
    (hswept : Swept o start remaining b) (hstart : start.KeptInLots lot fills)
    (hreserve : o.ReserveInLots lot) (hl : l = ((b.levels o.side).get? o.price).getD (new o.price))
    (horders : PriceLevel.orders l' = PriceLevel.orders l ++ [residual o remaining])
    (hfresh : b.orderLocations.lookup o.id = none) (himm : o.isImmediate = false)
    (hleft : remaining ≠ 0) (h : b.KeptInLots lot fills) :
    (b.restAt o (residual o remaining) l' remaining).KeptInLots lot fills := by
  obtain @⟨b₀, b₁, outcome, wantResult, haccepted, hsame, hrun, hflag, hstp, rfl, rfl⟩ := hswept
  have hstart' : b₀.KeptInLots lot fills := hstart.sameState hsame
  have hinLots : o.InLots lot :=
    inLots_of_checkShape hstart.lotSize (by omega) haccepted.shape.shape hreserve
  have htotal : lot ∣ o.totalQuantity :=
    Order.size_eq_totalQuantity haccepted.representable ▸ hinLots.size
  have hremaining := hstart'.dvd_remaining hpos htotal hrun
  have hresidual : (residual o outcome.result.remainingQuantity).InLots lot := by
    rw [residual]
    split_ifs
    · exact hinLots.setTotalRemaining haccepted.representable hremaining
    · exact hinLots
  have hsettings := settings_restAt (emitTrades wantResult outcome.result b₁).2 l' o
    (residual o outcome.result.remainingQuantity) outcome.result.remainingQuantity
  refine ⟨(congrArg BookSettings.lotSize hsettings).trans h.lotSize,
    h.sound.restAt hl horders hfresh himm, fun {s p x} hx => ?_,
    h.uncrossed.rest hasLevel_of_restAt ?_, by rw [restAt_fills]; exact h.traded⟩
  · rcases (restAt_rests_iff _ hl horders).mp hx with hx | ⟨-, -, rfl⟩
    · exact h.orders hx
    · exact hresidual
  · rintro p ⟨x, hx⟩
    obtain ⟨_, _, _, _, _, hemit⟩ := sameOrders_emitTrades wantResult outcome.result b₁
    have hfresh' : b₀.orderLocations.lookup o.id = none := by
      obtain ⟨_, _, _, rfl⟩ := hsame
      exact haccepted.fresh
    rw [hemit] at hx
    have htaker : (b₀.takerOf o).lot = lot := by simp [takerOf, taker, hstart'.lotSize]
    have hrebased := hstart'.rebase
    exact sweepOf_leaves_no_cross (J := SweepInLots lot b₀.fills)
      (fun hl hJ => hJ.level htaker hpos hl)
      (fun hJ hacc _ => lotFloor_eq_self (htaker ▸ hJ.dvd_remaining htotal hacc))
      ⟨hrebased.orders, hrebased.traded⟩ hstart'.sound hfresh' hrun hflag hstp hleft hx

/-- **A new order keeps whole lots** if, being a reserve order, its tranches are whole lots. -/
theorem addOrderInner [MatchExhausts L] (hpos : 1 < lot) (h : b.KeptInLots lot fills)
    (hreserve : b.Accepted o → o.ReserveInLots lot) (wantResult : Bool) :
    (addOrderInner o wantResult b).2.KeptInLots lot fills := by
  refine addOrderInner_keeps (fun hsame h => h.sameState hsame)
    (fun wantResult r h => h.sameOrders (sameOrders_emitTrades wantResult r _))
    (fun hswept hl _ horders hfresh himm hleft h' => ?_)
    (fun hl hnil h => absurd hnil (h.sound.nonempty hl))
    (fun _ hsame => (h.sameState hsame).matchOrderInner hpos _ _ _ _ _) wantResult h
  have haccepted : b.Accepted o := by
    obtain ⟨_, haccepted, _⟩ := hswept
    exact haccepted
  exact restAt hpos hswept h (hreserve haccepted) hl horders hfresh himm hleft h'

end OrderBook.KeptInLots

/-! ### Runs -/

/-- What keeps whole lots: a reserve order that is added, moved or resized has whole-lot tranches
and replenishes whole lots, or has nothing hidden. -/
def lotGuard (lot : ℕ) : Guard L where
  add b o := b.Accepted o → o.ReserveInLots lot
  market _ _ _ _ _ := True
  resize b id q := ∀ side price o, b.Rests side price o → o.id = id →
    (withReducedQuantity L o q).ReserveInLots lot
  drop _ _ := True

/-- **What a call on a book with a lot size should leave**: resting orders of whole lots, trades
that add up to whole lots, and no level within the limit of an order at rest. -/
structure OrderBook.LotsKept (lot : ℕ) (b b' : OrderBook L) : Prop where
  resting : ∀ {side price o}, b'.Rests side price o → lot ∣ o.size
  executed : ∃ trades, b'.fills = b.fills ++ trades ∧ lot ∣ tradedQuantity trades
  clear : ∀ {side price o other l}, b'.Rests side price o →
    (b'.levels side.opposite).get? other = some l → side.crosses price other = false

section Runs

variable [LevelQueue L] [LevelMatch L] [LevelResize L] [MatchAccounting L] [MatchBalance L]
  [MatchExhausts L] [MatchInLots L] [LevelCapacity L] {lot : ℕ}

theorem keptInLots_guarded (hpos : 1 < lot) (fills : List Trade) :
    GuardedInvariant (OrderBook.KeptInLots (L := L) lot fills) (lotGuard lot) where
  reads hquiet _ h := h.sameState hquiet.sameState
  forget {b} h := h.sameState b.sameState_invalidateCache
  alike hsame hg ho := hg (hsame.symm.accepted ho)
  add wantResult hg h := h.addOrderInner hpos hg wantResult
  market {b id side mode user} _ _ h := matchMarket_keeps
    (fun {b} h => h.matchOrderInner hpos id side mode user .standard)
    (fun {b} r h => h.sameOrders (sameOrders_emitTrades false r b)) b h
  halt _ h := h.sameState (sameView_trackState ..).sameState
  cancel id reason h := h.cancelOrderWithReason id reason
  resize {b id q} hg h := (h.sameState b.sameState_invalidateCache).updateQuantity hpos
    fun ho hid => hg _ _ _ ho hid
  drop {b id} _ h := by
    have hforget := h.sameState b.sameState_invalidateCache
    rcases cancelByUpdate_cases b.invalidateCache id with
      hrun | ⟨side, price, l, l', o, rfl, hout, hrun⟩
    · rw [hrun]
      exact hforget
    · rw [hrun]
      exact hforget.dropAt hout.off
  clear h := h.cancelAllOrders
  byUser user h := h.cancelOrdersByUser user

omit [LevelQueue L] [LevelMatch L] [LevelResize L] [MatchAccounting L] [MatchBalance L]
  [MatchExhausts L] [MatchInLots L] [LevelCapacity L] in
theorem OrderBook.KeptInLots.lotsKept {b' : OrderBook L} (h : b'.KeptInLots lot b.fills) :
    b.LotsKept lot b' := by
  refine ⟨fun ho => (h.orders ho).size, h.traded, ?_⟩
  rintro side price o other l ⟨l', hl', -⟩ hl
  cases side with
  | buy => simpa [Side.crosses] using h.uncrossed price other ⟨l', hl'⟩ ⟨l, hl⟩
  | sell => simpa [Side.crosses] using h.uncrossed other price ⟨l, hl⟩ ⟨l', hl'⟩

end Runs

/-- An empty book with lots of ten. -/
def lotsOfTen : OrderBook FifoLevel :=
  (withClock "BTC" ⟨fun n => n, 0⟩ : OrderBook FifoLevel).configure (.lotSize (some 10))

/-- A reserve ask without auto-replenish, ten in total. -/
def reserveAsk (visible hidden : ℕ) : Command :=
  .addOrder ⟨1, 100, .sell, 7, 0, .gtc, visible, .reserve hidden 0 none false⟩

/-- A bid for ten at the price of the ask. -/
def bidForTen : Command := .addOrder ⟨2, 100, .buy, 8, 0, .gtc, 10, .standard⟩

end OrderBookRs
