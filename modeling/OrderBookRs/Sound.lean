import OrderBookRs.Located

/-!
# Sound books

What every book reached by public calls satisfies, whatever the calls: an order that rests is found
where `order_locations` says, no resting order is immediate, and no level is without orders. During
a sweep makers leave before the indices follow; `SweepSound` is the form the property takes then.

## Main definitions

* `OrderBook.Sound`, `SweepSound`.

## Main results

* `OrderBook.Sound.steps`, `sound_session`: every call keeps a book sound.
* `OrderBook.Reachable.sound`: every reachable book is sound.
-/

namespace OrderBookRs

open PriceLevel Fallible OrderBook

variable {L : Type} [PriceLevel L] {b b' : OrderBook L} {o o' x : Order} {i : OrderId}
  {s s' side : Side} {p p' q : ℕ} {l l' : L}

/-- Resting orders are where the index says, can stand, and there is one on every level. -/
structure OrderBook.Sound (b : OrderBook L) : Prop where
  located : ∀ {side price o}, b.Rests side price o →
    b.orderLocations.lookup o.id = some (price, side)
  standing : ∀ {side price o}, b.Rests side price o → o.isImmediate = false
  nonempty : ∀ {side price l}, (b.levels side).get? price = some l → orders l ≠ []

theorem OrderBook.Sound.toLocated (h : b.Sound) : b.Located :=
  fun _ _ _ ho => h.located ho

/-- Orders with one id that rest are at one place. -/
theorem OrderBook.Sound.same_place (h : b.Sound) (ho : b.Rests s p o) (ho' : b.Rests s' p' o')
    (hid : o.id = o'.id) : s = s' ∧ p = p' := h.toLocated.same_place ho ho' hid

/-- Orders with one id that rest are one order. -/
theorem OrderBook.Sound.unique [LevelQueue L] (h : b.Sound) (ho : b.Rests s p o)
    (ho' : b.Rests s' p' o') (hid : o.id = o'.id) : o = o' := by
  obtain ⟨rfl, rfl⟩ := h.same_place ho ho' hid
  obtain ⟨l, hl, hmem⟩ := ho'
  exact eq_of_mem_orders (ho.mem_of_get? hl) hmem hid

/-- An id without a location does not rest. -/
theorem OrderBook.Sound.id_ne (h : b.Sound) (hi : b.orderLocations.lookup i = none)
    (ho : b.Rests s p o) : o.id ≠ i := h.toLocated.id_ne hi ho

theorem OrderBook.rests_configure {s : Setting} {price : ℕ} :
    (b.configure s).Rests side price o ↔ b.Rests side price o := by
  rw [Rests, levels_configure, Rests]

theorem OrderBook.Sound.configure (s : Setting) (h : b.Sound) : (b.configure s).Sound where
  located ho := by
    rw [orderLocations_configure]
    exact h.located (rests_configure.mp ho)
  standing ho := h.standing (rests_configure.mp ho)
  nonempty hl := h.nonempty (levels_configure b s _ ▸ hl)

theorem OrderBook.Sound.sameOrders (hsame : b.SameOrders b') (h : b.Sound) : b'.Sound := by
  obtain ⟨_, _, _, _, _, rfl⟩ := hsame
  exact ⟨fun ho => h.located ho, fun ho => h.standing ho, fun hl => h.nonempty hl⟩

/-! ### The list of resting orders -/

namespace OrderBook

theorem mem_queuedOrders {m : SkipMap L} :
    o ∈ queuedOrders m.entries ↔ ∃ price l, m.get? price = some l ∧ o ∈ orders l := by
  rw [queuedOrders, List.mem_flatMap]
  constructor
  · rintro ⟨e, he, ho⟩
    exact ⟨e.1, e.2, SortedMap.mem_entries_iff.mp he, ho⟩
  · rintro ⟨price, l, hl, ho⟩
    exact ⟨(price, l), SortedMap.mem_entries_iff.mpr hl, ho⟩

theorem mem_restingOrders : o ∈ b.restingOrders ↔ ∃ side price, b.Rests side price o := by
  rw [restingOrders, List.mem_append, mem_queuedOrders, mem_queuedOrders]
  refine ⟨?_, ?_⟩
  · rintro (⟨price, hrests⟩ | ⟨price, hrests⟩)
    · exact ⟨.buy, price, hrests⟩
    · exact ⟨.sell, price, hrests⟩
  · rintro ⟨side, price, hrests⟩
    cases side with
    | buy => exact Or.inl ⟨price, hrests⟩
    | sell => exact Or.inr ⟨price, hrests⟩

theorem Sound.not_holds (h : b.Sound) (hi : b.orderLocations.lookup i = none) : ¬ b.Holds i := by
  rintro ⟨side, price, o, ho, hid⟩
  exact h.id_ne hi ho hid

/-- An id that is not found does not rest. -/
theorem Sound.not_holds_of_getOrder [LevelQueue L] (h : b.Sound) (hi : b.getOrder i = none) :
    ¬ b.Holds i := h.toLocated.not_holds_of_getOrder hi

/-- On a sound book no id rests twice. -/
theorem Sound.nodup_restingOrders [LevelQueue L] (h : b.Sound) :
    (b.restingOrders.map Order.id).Nodup := by
  have hside : ∀ side, ((queuedOrders (b.levels side).entries).map Order.id).Nodup := by
    intro side
    rw [queuedOrders, List.map_flatMap, List.nodup_flatMap]
    refine ⟨fun e _ => LevelQueue.nodup_orderIds e.2, ?_⟩
    refine List.Pairwise.imp_of_mem ?_ (List.pairwise_map.mp (b.levels side).nodup_keys)
    intro e e' he he' hne i hi hi'
    obtain ⟨o, ho, rfl⟩ := mem_orderIds.mp hi
    obtain ⟨o', ho', hid⟩ := mem_orderIds.mp hi'
    exact hne (h.same_place ⟨e.2, SortedMap.mem_entries_iff.mp he, ho⟩
      ⟨e'.2, SortedMap.mem_entries_iff.mp he', ho'⟩ hid.symm).2
  rw [restingOrders, List.map_append]
  refine (hside .buy).append (hside .sell) fun i hi hi' => ?_
  obtain ⟨o, ho, rfl⟩ := List.mem_map.mp hi
  obtain ⟨o', ho', hid⟩ := List.mem_map.mp hi'
  obtain ⟨p, hbid⟩ := mem_queuedOrders.mp ho
  obtain ⟨p', hask⟩ := mem_queuedOrders.mp ho'
  have hbid' : b.Rests .buy p o := hbid
  have hask' : b.Rests .sell p' o' := hask
  cases (h.same_place hbid' hask' hid.symm).1

end OrderBook

/-! ### During a sweep -/

/-- The form the property takes during a sweep: makers listed as filled are gone although the index
still holds them, and a level marked as empty is empty. -/
structure SweepSound (t : Taker) (sw : Sweep L) : Prop where
  located : ∀ {side price o}, sw.book.Rests side price o →
    sw.book.orderLocations.lookup o.id = some (price, side)
  standing : ∀ {side price o}, sw.book.Rests side price o → o.isImmediate = false
  filled : ∀ {i}, i ∈ sw.filledOrders.map Prod.fst → ∀ {side price o},
    sw.book.Rests side price o → o.id ≠ i
  marked : ∀ {p l}, p ∈ sw.emptyPriceLevels →
    (sw.book.levels t.side.opposite).get? p = some l → orders l = []

namespace SweepSound

variable {t : Taker} {sw sw' : Sweep L} {price : ℕ}

theorem start (h : b.Sound) (mode : MatchMode) : SweepSound t (b.startSweep t mode) :=
  ⟨fun ho => h.located ho, fun ho => h.standing ho, fun hi => absurd hi List.not_mem_nil,
    fun hp => absurd hp List.not_mem_nil⟩

theorem toLocated (h : SweepSound t sw) : SweepLocated t sw :=
  ⟨fun _ _ _ ho => h.located ho, h.filled, h.marked⟩

/-- Orders left or changed their tranches; that they are in their place is known. -/
theorem ofLocated (h : SweepSound t sw) (hlocated : SweepLocated t sw')
    (hrests : ∀ {s p o}, sw'.book.Rests s p o → ∃ x, sw.book.Rests s p x ∧
      ∃ v k, o = x.setTranches v k) : SweepSound t sw' := by
  refine ⟨fun ho => hlocated.located ho, fun ho => ?_, hlocated.filled, hlocated.marked⟩
  obtain ⟨x, hx, v, k, rfl⟩ := hrests ho
  rw [Order.setTranches_isImmediate]
  exact h.standing hx

theorem same_place (h : SweepSound t sw) (ho : sw.book.Rests s p o) (ho' : sw.book.Rests s' p' o')
    (hid : o.id = o'.id) : s = s' ∧ p = p' := h.toLocated.located.same_place ho ho' hid

/-- Finishing a sweep removes levels without orders only. -/
theorem finishSweep_rests (h : SweepSound t sw) :
    (finishSweep t sw).Rests s p o ↔ sw.book.Rests s p o := h.toLocated.finishSweep_rests

theorem rests_stpCancel (h : SweepSound t sw)
    (hout : sw.book.TakesOff t.side.opposite price l l' o) :
    (sw.book.stpCancel t.side.opposite price l' o).Rests s p x ↔
      sw.book.Rests s p x ∧ x.id ≠ o.id := h.toLocated.rests_stpCancel hout

theorem cancel (h : SweepSound t sw) (hout : sw.book.TakesOff t.side.opposite price l l' o) :
    SweepSound t { sw with book := sw.book.stpCancel t.side.opposite price l' o } :=
  h.ofLocated (h.toLocated.cancel hout) fun {_ _ x} hx =>
    ⟨x, ((h.rests_stpCancel hout).mp hx).1, x.eq_setTranches⟩

variable [LevelMatch L] {r : MatchResult}

theorem fill [LevelQueue L] (h : SweepSound t sw)
    (hl : (sw.book.levels t.side.opposite).get? price = some l)
    (hrun : matchOrder l q t.orderId .standard = (r, l')) :
    SweepSound t (fillLevel t sw price q r l') :=
  h.ofLocated (h.toLocated.fill hl hrun) fun ho => rests_before_fill hl hrun ho

/-- **Every step of a sweep keeps the property.** -/
theorem step [LevelQueue L] (hs : SweepStep t price sw sw') (h : SweepSound t sw) :
    SweepSound t sw' := by
  have hlocated := h.toLocated.step hs
  cases hs with
  | fill level kind allows pos cap safe run => exact h.fill level run
  | cancel level mode user mem own orders_eq run => exact h.cancel ⟨level, mem, orders_eq⟩
  | markEmpty | flag =>
    exact h.ofLocated hlocated fun {_ _ o} ho => ⟨o, ho, o.eq_setTranches⟩

omit [LevelMatch L] in
/-- What rested before a fill still rests, or has left the level. -/
theorem holds_or_left (hl : (sw.book.levels t.side.opposite).get? price = some l)
    (hi : sw.book.Holds i) :
    (fillLevel t sw price q r l').book.Holds i ∨ i ∈ orderIds l ∧ i ∉ orderIds l' := by
  obtain ⟨side, p, o, ho, rfl⟩ := hi
  by_cases hhere : side = t.side.opposite ∧ p = price
  · obtain ⟨rfl, rfl⟩ := hhere
    have hmem := ho.mem_of_get? hl
    by_cases hkept : o.id ∈ orderIds l'
    · obtain ⟨x, hx, hid⟩ := List.mem_map.mp hkept
      exact Or.inl ⟨_, p, x, (fillLevel_rests ..).mpr (by rwa [if_pos ⟨rfl, rfl⟩]), hid⟩
    · exact Or.inr ⟨List.mem_map_of_mem hmem, hkept⟩
  · exact Or.inl ⟨side, p, o, (fillLevel_rests ..).mpr (by rwa [if_neg hhere]), rfl⟩

/-- Nothing comes to rest during a sweep. -/
theorem holds_of_step (hs : SweepStep t price sw sw') (hsound : SweepSound t sw)
    (hi : sw'.book.Holds i) : sw.book.Holds i := by
  obtain ⟨side, p, o, ho, rfl⟩ := hi
  cases hs with
  | fill level kind allows pos cap safe run =>
    obtain ⟨x, hx, v, k, rfl⟩ := rests_before_fill level run ho
    exact ⟨side, p, x, hx, (Order.setTranches_id ..).symm⟩
  | cancel level mode user mem own orders_eq run =>
    exact ⟨side, p, o, ((hsound.rests_stpCancel ⟨level, mem, orders_eq⟩).mp ho).1, rfl⟩
  | markEmpty | flag => exact ⟨side, p, o, ho, rfl⟩

end SweepSound

namespace OrderBook.Sound

variable {b : OrderBook L} {remaining : ℕ}

theorem sameState (hsame : b.SameState b') (h : b.Sound) : b'.Sound :=
  h.sameOrders hsame.sameOrders

section Queue

variable [LevelQueue L]

/-! ### After the sweep -/

theorem sweepSound [LevelMatch L] (h : b.Sound) (t : Taker) (mode : MatchMode) :
    SweepSound t (b.sweep t mode) :=
  (b.sweep_run t mode).invariant (fun hs hJ => SweepSound.step hs hJ) (.start h mode)

theorem finishSweep [LevelMatch L] {t : Taker} {mode : MatchMode} (h : b.Sound)
    (hJ : SweepSound t (b.sweep t mode)) : (finishSweep t (b.sweep t mode)).Sound := by
  refine ⟨fun ho => hJ.toLocated.finishSweep ho,
    fun ho => hJ.standing (hJ.finishSweep_rests.mp ho), fun {s p l} hl hnil => ?_⟩
  rw [finishSweep_get?] at hl
  split_ifs at hl with hgone
  by_cases hs : s = t.side.opposite
  · subst hs
    exact hgone ⟨rfl, b.sweep_marked t mode h.nonempty p l hl hnil⟩
  · obtain rfl : s = t.side := by
      rw [Side.eq_opposite_of_ne hs, Side.opposite_opposite]
    rw [sweep_get?_own] at hl
    exact h.nonempty hl hnil

theorem matchOrderInner [LevelMatch L] (id : OrderId) (side : Side) (mode : MatchMode)
    (user : Hash32) (kind : TakerKind) (h : b.Sound) :
    (matchOrderInner id side mode user kind b).2.Sound :=
  matchOrderInner_invariant (fun hsame h => h.sameState hsame) (fun mode h => .start h mode)
    (fun hs hJ => hJ.step hs) (fun h hJ => h.finishSweep hJ) id side mode user kind h

/-! ### The other effects -/

theorem sweep_holds [LevelMatch L] (h : b.Sound) (t : Taker) (mode : MatchMode)
    (hi : (b.sweep t mode).book.Holds i) : b.Holds i := by
  have hJ : SweepSound t (b.sweep t mode) ∧ ∀ i, (b.sweep t mode).book.Holds i → b.Holds i :=
    (b.sweep_run t mode).invariant
      (J := fun sw => SweepSound t sw ∧ ∀ i, sw.book.Holds i → b.Holds i)
      (fun hs hJ => ⟨hJ.1.step hs, fun i hi => hJ.2 i (SweepSound.holds_of_step hs hJ.1 hi)⟩)
      ⟨.start h mode, fun _ hi => hi⟩
  exact hJ.2 i hi

/-- Nothing comes to rest during a sweep. -/
theorem matchOrderInner_holds [LevelMatch L] (h : b.Sound) (id : OrderId) (side : Side)
    (mode : MatchMode) (user : Hash32) (kind : TakerKind)
    (hi : (OrderBook.matchOrderInner id side mode user kind b).2.Holds i) : b.Holds i := by
  have hopen : b.openSweep.Sound := h.sameState b.sameState_openSweep
  have hfinished : ∀ t : Taker,
      (OrderBookRs.finishSweep t (b.openSweep.sweep t mode)).Holds i → b.Holds i :=
    fun t hi => hopen.sweep_holds t mode
      ((holds_congr (hopen.sweepSound t mode).finishSweep_rests).mp hi)
  rcases matchOrderInner_snd id side mode user kind b with hrun | hrun | ⟨-, -, hrun⟩
  · rw [hrun] at hi
    exact hi
  · rw [hrun] at hi
    exact hfinished _ hi
  · rw [hrun] at hi
    exact hfinished _ hi

/-- A book whose level at one place was rewritten, and removed if empty, is sound when its orders
are in their place and what rests there now can stand. -/
theorem rewritten {price : ℕ} (h : b.Sound) (hget : b.Rewrites b' side price l')
    (hlocated : b'.Located) (hhere : ∀ o ∈ orders l', o.isImmediate = false) : b'.Sound := by
  refine ⟨fun ho => hlocated ho, fun {s p o} ho => ?_, fun {s p l} hl hnil => ?_⟩
  · rw [rests_of_rewritten hget] at ho
    split_ifs at ho
    · exact hhere o ho
    · exact h.standing ho
  · rw [hget] at hl
    split_ifs at hl with hplace hzero
    · cases hl
      exact hzero (orderCount_eq_zero.mpr hnil)
    · exact h.nonempty hl hnil

variable {side : Side} {price : ℕ} {l l' : L} {o : Order}

theorem rests_removed (h : b.Sound) (hout : b.TakesOff side price l l' o)
    (hget : b.Rewrites b' side price l') : b'.Rests s p x ↔ b.Rests s p x ∧ x.id ≠ o.id :=
  h.toLocated.rests_removed hout hget

theorem holds_removed (h : b.Sound) (hout : b.TakesOff side price l l' o)
    (hget : b.Rewrites b' side price l') : b'.Holds i ↔ b.Holds i ∧ i ≠ o.id := by
  constructor
  · rintro ⟨s, p, x, hx, rfl⟩
    obtain ⟨hx, hne⟩ := (h.rests_removed hout hget).mp hx
    exact ⟨⟨s, p, x, hx, rfl⟩, hne⟩
  · rintro ⟨⟨s, p, x, hx, rfl⟩, hne⟩
    exact ⟨s, p, x, (h.rests_removed hout hget).mpr ⟨hx, hne⟩, rfl⟩

/-- Removing one order and its location. -/
theorem removed (h : b.Sound) (hout : b.TakesOff side price l l' o)
    (hget : b.Rewrites b' side price l') (hloc : b'.orderLocations = b.orderLocations.erase o.id) :
    b'.Sound := by
  refine h.rewritten hget (h.toLocated.removed hout hget hloc) fun x hx => ?_
  rw [hout.orders_eq] at hx
  exact h.standing ⟨l, hout.level, List.mem_of_mem_filter hx⟩

theorem cancelAt (h : b.Sound) (hout : b.TakesOff side price l l' o) :
    (b.cancelAt side price l' o).Sound :=
  h.removed hout (cancelAt_get? b side price l' o) (cancelAt_orderLocations ..)

theorem dropAt (h : b.Sound) (hout : b.TakesOff side price l l' o) :
    (b.dropAt side price l' o.id).Sound :=
  h.removed hout (dropAt_get? b side price l' o.id) (dropAt_orderLocations ..)

/-- What rests after a resize: the resized order, if it stayed, and the others. -/
theorem rests_resizeAt [LevelResize L] (h : b.Sound) (hres : b.Resizes side price l l' o q)
    (hx : (b.resizeAt side price l' (withReducedQuantity L o q)).Rests s p x) :
    b.Rests s p x ∧ x.id ≠ o.id ∨ s = side ∧ p = price ∧ x = withReducedQuantity L o q :=
  h.toLocated.rests_resizeAt hres hx

theorem resizeAt [LevelResize L] (h : b.Sound) (hres : b.Resizes side price l l' o q) :
    (b.resizeAt side price l' (withReducedQuantity L o q)).Sound := by
  refine h.rewritten (resizeAt_get? b side price l' _) (h.toLocated.resizeAt hres)
    fun x hx => ?_
  rcases eq_or_mem_of_resized hres.others hres.kept hx with rfl | ⟨hmem, -⟩
  · obtain ⟨v, k, hred⟩ := LevelResize.withReducedQuantity_eq (L := L) o q
    rw [hred, Order.setTranches_isImmediate]
    exact h.standing hres.rests
  · exact h.standing ⟨l, hres.level, hmem⟩

/-- A resize that leaves the order on its level. -/
theorem holds_resizeAt [LevelResize L] (h : b.Sound) (hres : b.Resizes side price l l' o q)
    (hkept : withReducedQuantity L o q ∈ orders l') :
    (b.resizeAt side price l' (withReducedQuantity L o q)).Holds i ↔ b.Holds i := by
  have hrests : ∀ {s p x}, (b.resizeAt side price l' (withReducedQuantity L o q)).Rests s p x ↔
      if s = side ∧ p = price then x ∈ orders l' else b.Rests s p x :=
    rests_of_rewritten (resizeAt_get? b side price l' (withReducedQuantity L o q))
  constructor
  · rintro ⟨s, p, x, hx, rfl⟩
    rcases h.rests_resizeAt hres hx with ⟨hx, -⟩ | ⟨rfl, rfl, rfl⟩
    · exact ⟨s, p, x, hx, rfl⟩
    · exact ⟨_, _, o, hres.rests, (reduced_id o q).symm⟩
  · rintro ⟨s, p, x, hx, rfl⟩
    by_cases hxo : x.id = o.id
    · exact ⟨side, price, _, hrests.mpr (by rwa [if_pos ⟨rfl, rfl⟩]),
        (reduced_id o q).trans hxo.symm⟩
    · refine ⟨s, p, x, hrests.mpr ?_, rfl⟩
      split_ifs with hhere
      · obtain ⟨rfl, rfl⟩ := hhere
        have hmem : x ∈ (orders l).filter fun x => x.id ≠ o.id :=
          List.mem_filter.mpr ⟨hx.mem_of_get? hres.level, decide_eq_true hxo⟩
        rw [← hres.others] at hmem
        exact List.mem_of_mem_filter hmem
      · exact hx

/-- Once the rest of an order has come to rest, its id rests as well. -/
theorem holds_restAt (hlevel : l = ((b.levels o.side).get? o.price).getD (new o.price))
    (horders : orders l' = orders l ++ [residual o remaining]) :
    (b.restAt o (residual o remaining) l' remaining).Holds i ↔ b.Holds i ∨ i = o.id := by
  constructor
  · rintro ⟨s, p, x, hx, rfl⟩
    rcases (restAt_rests_iff remaining hlevel horders).mp hx with hx | ⟨-, -, rfl⟩
    · exact Or.inl ⟨s, p, x, hx, rfl⟩
    · exact Or.inr (residual_id o remaining)
  · rintro (⟨s, p, x, hx, rfl⟩ | rfl)
    · exact ⟨s, p, x, (restAt_rests_iff remaining hlevel horders).mpr (Or.inl hx), rfl⟩
    · exact ⟨_, _, _, (restAt_rests_iff remaining hlevel horders).mpr (Or.inr ⟨rfl, rfl, rfl⟩),
        residual_id o remaining⟩

theorem restAt (h : b.Sound) (hlevel : l = ((b.levels o.side).get? o.price).getD (new o.price))
    (horders : orders l' = orders l ++ [residual o remaining])
    (hfresh : b.orderLocations.lookup o.id = none) (himm : o.isImmediate = false) :
    (b.restAt o (residual o remaining) l' remaining).Sound := by
  refine ⟨fun hx => h.toLocated.restAt hlevel horders hfresh hx, fun {s p x} hx => ?_,
    fun {s p l₀} hl₀ hnil => ?_⟩
  · rcases (restAt_rests_iff remaining hlevel horders).mp hx with hx | ⟨-, -, rfl⟩
    · exact h.standing hx
    · rw [residual_isImmediate, himm]
  · rw [restAt_get?] at hl₀
    split_ifs at hl₀
    · cases hl₀
      rw [horders] at hnil
      exact absurd hnil (by simp)
    · exact h.nonempty hl₀ hnil

omit [LevelQueue L] in
theorem of_no_levels (hlevels : ∀ side price, (b.levels side).get? price = none) : b.Sound := by
  have hnone : ∀ {s p o}, ¬ b.Rests s p o := by
    rintro s p o ⟨l, hl, -⟩
    rw [hlevels] at hl
    cases hl
  refine ⟨fun ho => absurd ho hnone, fun ho => absurd ho hnone, fun hl => ?_⟩
  rw [hlevels] at hl
  cases hl

omit [LevelQueue L] in
theorem configured (symbol : String) (clock : Clock) (settings : List Setting) :
    (configured symbol clock settings : OrderBook L).Sound :=
  of_no_levels fun side price => get?_levels_configured symbol clock settings side price

omit [LevelQueue L] in
theorem cancelAllOrders (h : b.Sound) : b.cancelAllOrders.1.Sound := by
  rw [OrderBook.cancelAllOrders]
  dsimp only
  split_ifs
  · exact h.sameState b.sameState_invalidateCache
  · exact of_no_levels fun side price => by cases side <;> rfl

/-- **Every call keeps a book sound.** -/
theorem steps [LevelMatch L] [LevelResize L] :
    StepInvariant (OrderBook.Sound (L := L)) fun _ => True where
  same hsame h := h.sameState hsame
  emit wantResult r h := h.sameOrders (sameOrders_emitTrades wantResult r _)
  sweep id side mode user kind h := h.matchOrderInner id side mode user kind
  rest _ _ hl _ horders hfresh himm _ h := h.restAt hl horders hfresh himm
  tidy hl hnil h := absurd hnil (h.nonempty hl)
  cancel hout h := h.cancelAt hout.off
  drop hout h := h.dropAt hout.off
  resize _ hres h := h.resizeAt hres.resized
  clear h := h.cancelAllOrders
  byUser user h := by
    refine cancelOrdersByUser_keeps (fun hsame h => h.sameState hsame)
      (fun hout h => h.cancelAt hout.off) user ?_
    exact ⟨fun ho => h.located ho, fun ho => h.standing ho, fun hl => h.nonempty hl⟩

end Queue

end OrderBook.Sound

/-! ### Sessions -/

/-- What a sound book guarantees of a package it produces. -/
def SoundPackage (p : OrderBookSnapshotPackage) : Prop :=
  ∀ snap ∈ p.snapshot.bids ++ p.snapshot.asks,
    snap.orders ≠ [] ∧ ∀ o ∈ snap.orders, o.isImmediate = false

section Session

variable [SnapshotChecksum] [LevelSnapshot L]

theorem OrderBook.Sound.soundPackage {depth : ℕ} {p : OrderBookSnapshotPackage} (h : b.Sound)
    (hrun : createSnapshotPackage depth b = (.ok p, b')) : SoundPackage p := by
  intro snap hsnap
  obtain ⟨side, price, l, hl, horders⟩ := createSnapshotPackage_levels hrun snap hsnap
  rw [horders]
  exact ⟨h.nonempty hl, fun o ho => h.standing ⟨l, hl, ho⟩⟩

omit [SnapshotChecksum] in
/-- The levels a sound package is prepared into. -/
theorem SoundPackage.prepared {p : OrderBookSnapshotPackage} {prepared : PreparedSnapshotLevels L}
    (h : SoundPackage p) (hprep : prepareSnapshotLevels p.snapshot = .ok prepared) {e : ℕ × L}
    (he : e ∈ prepared.levels side) :
    orders e.2 ≠ [] ∧ ∀ o ∈ orders e.2, o.isImmediate = false := by
  obtain ⟨-, -, hfrom⟩ := prepareSnapshotLevels_eq_ok hprep
  obtain ⟨snap, hsnap, -, hlevel⟩ := hfrom side e he
  rw [LevelSnapshot.fromSnapshot_orders hlevel]
  exact h snap hsnap

theorem OrderBook.Sound.restore {p : OrderBookSnapshotPackage} (hp : SoundPackage p) (h : b.Sound) :
    (restoreFromSnapshotPackage p b).2.Sound := by
  rcases restoreFromSnapshotPackage_cases p b with ⟨e, hrun⟩ | ⟨prepared, hprep, hrun⟩
  · rwa [hrun]
  obtain ⟨hprices, -, -⟩ := prepareSnapshotLevels_eq_ok hprep
  have hlocated := h.toLocated.restore p
  rw [hrun] at hlocated ⊢
  refine ⟨fun ho => hlocated ho, fun {s q o} ho => ?_, fun {s q l} hl => ?_⟩
  · obtain ⟨l, hl, hmem⟩ :=
      PreparedSnapshotLevels.mem_placed.mp ((packageRestored_rests hprices).mp ho)
    exact (hp.prepared hprep hl).2 o hmem
  · exact (hp.prepared hprep ((packageRestored_get? hprices).mp hl)).1

/-- **Every public call keeps a book sound.** -/
theorem sound_session [LevelQueue L] [LevelMatch L] [LevelResize L] :
    SessionInvariant (OrderBook.Sound (L := L)) (fun _ => True) SoundPackage where
  calls := OrderBook.Sound.steps.calls
  configure s h := h.configure s
  snapshot hrun h := h.soundPackage hrun
  restore hp h := h.restore hp

/-- **Every reachable book is sound.** -/
theorem OrderBook.Reachable.sound [LevelQueue L] [LevelMatch L] [LevelResize L] (h : b.Reachable) :
    b.Sound := by
  obtain ⟨symbol, clock, ops, rfl⟩ := h
  exact sound_session.run (fun op _ => op.resizesTo_true)
    (OrderBook.Sound.of_no_levels fun side price => by cases side <;> rfl)
    fun p hp => absurd hp List.not_mem_nil

end Session

end OrderBookRs
