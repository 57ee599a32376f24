import OrderBookRs.Restore

/-!
# Orders in their place

An order that rests is found where `order_locations` says. Everything that goes by id rests on this:
it makes an id rest at one place only, and an id without a location rest nowhere. Every call keeps
it, and so does restoring a package, whoever made it. During a sweep makers leave before the index
follows; `SweepLocated` is the form the property takes then.

## Main definitions

* `OrderBook.Located`, `SweepLocated`.
* `OrderBook.Holds`: some order with this id rests.

## Main results

* `SweepLocated.step`, `OrderBook.Located.cancelAt`, `OrderBook.Located.restAt`: calls keep it.
* `OrderBook.Located.restore`: so does every restore.
-/

namespace OrderBookRs

open PriceLevel Fallible OrderBook

variable {L : Type} [PriceLevel L] {b b' : OrderBook L} {s : Side} {p q : ℕ} {o x : Order}
  {l l' : L} {i : OrderId}

namespace OrderBook

/-- Resting orders are where the index says. -/
def Located (b : OrderBook L) : Prop :=
  ∀ ⦃side price o⦄, b.Rests side price o → b.orderLocations.lookup o.id = some (price, side)

/-- Some order with this id rests. -/
def Holds (b : OrderBook L) (i : OrderId) : Prop := ∃ side price o, b.Rests side price o ∧ o.id = i

theorem holds_congr (h : ∀ {side price o}, b'.Rests side price o ↔ b.Rests side price o) :
    b'.Holds i ↔ b.Holds i := by
  simp only [Holds, h]

theorem holds_of_sameOrders (h : b.SameOrders b') : b'.Holds i ↔ b.Holds i := by
  obtain ⟨_, _, _, _, _, rfl⟩ := h
  exact Iff.rfl

theorem getOrder_eq_none (h : ¬ b.Holds i) : b.getOrder i = none := by
  refine Option.eq_none_iff_forall_ne_some.mpr fun o hget => h ?_
  obtain ⟨side, price, l, -, hl, ho, hid⟩ := getOrder_eq_some hget
  exact ⟨side, price, o, ⟨l, hl, ho⟩, hid⟩

namespace Located

variable {b : OrderBook L}

/-- Orders with one id that rest are at one place. -/
theorem same_place (h : b.Located) {s' : Side} {p' : ℕ} {o' : Order} (ho : b.Rests s p o)
    (ho' : b.Rests s' p' o') (hid : o.id = o'.id) : s = s' ∧ p = p' := by
  have hloc := h ho
  rw [hid, h ho'] at hloc
  cases hloc
  exact ⟨rfl, rfl⟩

/-- An id without a location does not rest. -/
theorem id_ne (h : b.Located) (hi : b.orderLocations.lookup i = none) (ho : b.Rests s p o) :
    o.id ≠ i := by
  rintro rfl
  rw [h ho] at hi
  cases hi

/-- An id that is not found does not rest. -/
theorem not_holds_of_getOrder [LevelQueue L] (h : b.Located) (hi : b.getOrder i = none) :
    ¬ b.Holds i := by
  rintro ⟨side, price, o, ⟨l, hl, ho⟩, rfl⟩
  rw [getOrder_of_mem (h ⟨l, hl, ho⟩) hl ho] at hi
  cases hi

theorem sameOrders (hsame : b.SameOrders b') (h : b.Located) : b'.Located := by
  obtain ⟨_, _, _, _, _, rfl⟩ := hsame
  exact h

theorem sameState (hsame : b.SameState b') (h : b.Located) : b'.Located :=
  h.sameOrders hsame.sameOrders

end Located

end OrderBook

/-! ### During a sweep -/

/-- The form the property takes during a sweep: makers listed as filled are gone although the index
still holds them, and a level marked as empty is empty. -/
structure SweepLocated (t : Taker) (sw : Sweep L) : Prop where
  located : sw.book.Located
  filled : ∀ {i}, i ∈ sw.filledOrders.map Prod.fst → ∀ {side price o},
    sw.book.Rests side price o → o.id ≠ i
  marked : ∀ {p l}, p ∈ sw.emptyPriceLevels →
    (sw.book.levels t.side.opposite).get? p = some l → orders l = []

/-- A maker a fill leaves behind was there before the fill, up to its tranches. -/
theorem rests_before_fill [LevelMatch L] {t : Taker} {sw : Sweep L} {price : ℕ} {r : MatchResult}
    (hl : (sw.book.levels t.side.opposite).get? price = some l)
    (hrun : matchOrder l q t.orderId .standard = (r, l'))
    (ho : (fillLevel t sw price q r l').book.Rests s p o) :
    ∃ x, sw.book.Rests s p x ∧ ∃ v h, o = x.setTranches v h := by
  rw [fillLevel_rests] at ho
  split_ifs at ho with hhere
  · obtain ⟨x, hx, v, h, rfl⟩ := LevelMatch.orders_match hrun ho
    exact ⟨x, ⟨l, by rw [hhere.1, hhere.2]; exact hl, hx⟩, v, h, rfl⟩
  · exact ⟨o, ho, o.eq_setTranches⟩

namespace SweepLocated

variable {t : Taker} {sw sw' : Sweep L} {price : ℕ}

theorem start (h : b.Located) (mode : MatchMode) : SweepLocated t (b.startSweep t mode) :=
  ⟨h, fun hi => absurd hi List.not_mem_nil, fun hp => absurd hp List.not_mem_nil⟩

/-- Finishing a sweep removes levels without orders only. -/
theorem finishSweep_rests (h : SweepLocated t sw) :
    (finishSweep t sw).Rests s p o ↔ sw.book.Rests s p o := by
  refine exists_congr fun l => and_congr_left fun ho => ?_
  rw [finishSweep_get?]
  split_ifs with hgone
  · refine iff_of_false (by simp) fun hl => ?_
    rw [hgone.1] at hl
    rw [h.marked hgone.2 hl] at ho
    exact List.not_mem_nil ho
  · rfl

theorem finishSweep (h : SweepLocated t sw) : (finishSweep t sw).Located := by
  intro s p o ho
  have hbefore := h.finishSweep_rests.mp ho
  rw [finishSweep_lookup, if_neg fun hi => h.filled hi hbefore rfl]
  exact h.located hbefore

theorem rests_stpCancel (h : SweepLocated t sw)
    (hout : sw.book.TakesOff t.side.opposite price l l' o) :
    (sw.book.stpCancel t.side.opposite price l' o).Rests s p x ↔
      sw.book.Rests s p x ∧ x.id ≠ o.id :=
  rests_of_removed hout (fun hx hid => h.located.same_place hx hout.rests hid)
    (stpCancel_rests ..)

theorem cancel (h : SweepLocated t sw) (hout : sw.book.TakesOff t.side.opposite price l l' o) :
    SweepLocated t { sw with book := sw.book.stpCancel t.side.opposite price l' o } := by
  have hbefore : ∀ {s p x}, (sw.book.stpCancel t.side.opposite price l' o).Rests s p x →
      sw.book.Rests s p x ∧ x.id ≠ o.id := fun hx => (h.rests_stpCancel hout).mp hx
  refine ⟨?_, fun hi _ _ _ hx => h.filled hi (hbefore hx).1, ?_⟩
  · intro s p x hx
    obtain ⟨hx, hne⟩ := hbefore hx
    rw [stpCancel_orderLocations, AList.lookup_erase_ne hne]
    exact h.located hx
  · intro p l₀ hp hl₀
    rw [stpCancel_get?] at hl₀
    split_ifs at hl₀ with hhere
    · rw [hhere.2] at hp
      exact absurd (h.marked hp hout.level) (List.ne_nil_of_mem hout.mem)
    · exact h.marked hp hl₀

variable [LevelMatch L] [LevelQueue L]

theorem fill (h : SweepLocated t sw) {r : MatchResult}
    (hl : (sw.book.levels t.side.opposite).get? price = some l)
    (hrun : matchOrder l q t.orderId .standard = (r, l')) :
    SweepLocated t (fillLevel t sw price q r l') where
  located s p o ho := by
    obtain ⟨x, hx, v, k, rfl⟩ := rests_before_fill hl hrun ho
    rw [fillLevel_orderLocations, Order.setTranches_id]
    exact h.located hx
  filled {i} hi s p o ho hid := by
    rw [fillLevel_filledIds] at hi
    rcases List.mem_append.mp hi with hi | hi
    · obtain ⟨x, hx, v, k, rfl⟩ := rests_before_fill hl hrun ho
      exact h.filled hi hx hid
    · -- a maker that left this level cannot rest on it, nor, being located here, elsewhere
      obtain ⟨hmem, hgone⟩ := LevelMatch.left_of_filled hrun hi
      obtain ⟨y, hy, rfl⟩ := mem_orderIds.mp hmem
      obtain ⟨x, hx, v, k, rfl⟩ := rests_before_fill hl hrun ho
      obtain ⟨rfl, rfl⟩ := h.located.same_place hx ⟨l, hl, hy⟩ hid
      rw [fillLevel_rests, if_pos ⟨rfl, rfl⟩] at ho
      exact hgone (mem_orderIds.mpr ⟨_, ho, hid⟩)
  marked {p l₀} hp hl₀ := by
    rw [mem_fillLevel_empty] at hp
    rw [fillLevel_get?] at hl₀
    split_ifs at hl₀ with hhere
    · cases hl₀
      rcases hp with hp | ⟨hzero, -⟩
      · rw [hhere.2] at hp
        refine List.eq_nil_iff_forall_not_mem.mpr fun o ho => ?_
        obtain ⟨x, hx, -⟩ := LevelMatch.orders_match hrun ho
        rw [h.marked hp hl] at hx
        exact List.not_mem_nil hx
      · exact orderCount_eq_zero.mp hzero
    · rcases hp with hp | ⟨-, rfl⟩
      · exact h.marked hp hl₀
      · exact absurd ⟨rfl, rfl⟩ hhere

/-- **Every step of a sweep keeps the property.** -/
theorem step (hs : SweepStep t price sw sw') (h : SweepLocated t sw) : SweepLocated t sw' := by
  cases hs with
  | fill level kind allows pos cap safe run => exact h.fill level run
  | cancel level mode user mem own orders_eq run => exact h.cancel ⟨level, mem, orders_eq⟩
  | markEmpty level nil =>
    refine ⟨h.located, h.filled, fun hp hl₀ => ?_⟩
    rcases List.mem_append.mp hp with hp | hp
    · exact h.marked hp hl₀
    · obtain rfl := List.mem_singleton.mp hp
      rw [level] at hl₀
      cases hl₀
      exact nil
  | flag => exact ⟨h.located, h.filled, h.marked⟩

end SweepLocated

/-- An order on a level after a resize is the resized one or was there before. -/
theorem eq_or_mem_of_resized [LevelQueue L] [LevelResize L]
    (hothers : ((orders l').filter fun x => x.id ≠ o.id) = (orders l).filter fun x => x.id ≠ o.id)
    (hkept : withReducedQuantity L o q ∈ orders l' ∨ q = 0 ∧ o.id ∉ orderIds l')
    (hx : x ∈ orders l') : x = withReducedQuantity L o q ∨ x ∈ orders l ∧ x.id ≠ o.id := by
  by_cases hxo : x.id = o.id
  · refine Or.inl ?_
    rcases hkept with hmem | ⟨-, hnot⟩
    · exact eq_of_mem_orders hx hmem (hxo.trans (reduced_id o q).symm)
    · exact absurd (mem_orderIds.mpr ⟨x, hx, hxo⟩) hnot
  · have hmem : x ∈ (orders l').filter fun x => x.id ≠ o.id :=
      List.mem_filter.mpr ⟨hx, by simpa using hxo⟩
    rw [hothers] at hmem
    exact Or.inr ⟨List.mem_of_mem_filter hmem, hxo⟩

/-! ### The other effects -/

namespace OrderBook.Located

variable {b : OrderBook L}

theorem of_no_levels (hlevels : ∀ side price, (b.levels side).get? price = none) : b.Located := by
  rintro s p o ⟨l, hl, -⟩
  rw [hlevels] at hl
  cases hl

theorem removeLevel {side : Side} {price : ℕ} (h : b.Located)
    (hl : (b.levels side).get? price = some l) (hnil : orders l = []) :
    (b.removeLevel side price).Located := by
  intro s p o ho
  have hloc : (b.removeLevel side price).orderLocations = b.orderLocations := by
    cases side <;> rfl
  have hempty : ∀ l', (b.levels side).get? price = some l' → orders l' = [] := fun l' hl' => by
    rw [hl] at hl'
    cases hl'
    exact hnil
  rw [hloc]
  exact h ((rests_removeLevel_of_nil hempty).mp ho)

theorem cancelAllOrders (h : b.Located) : b.cancelAllOrders.1.Located := by
  rw [OrderBook.cancelAllOrders]
  split_ifs
  · exact h.sameState b.sameState_invalidateCache
  · exact of_no_levels fun side price => by cases side <;> rfl

variable {side : Side} {price : ℕ} {l l' : L} {o : Order}

variable [LevelQueue L]

theorem rests_removed (h : b.Located) (hout : b.TakesOff side price l l' o)
    (hget : b.Rewrites b' side price l') : b'.Rests s p x ↔ b.Rests s p x ∧ x.id ≠ o.id :=
  rests_of_removed hout (fun hx hid => h.same_place hx hout.rests hid) (rests_of_rewritten hget)

/-- A book whose level at one place was rewritten, and removed if empty, has its orders in their
place when what rests there now is. -/
theorem rewritten (h : b.Located) (hget : b.Rewrites b' side price l')
    (hhere : ∀ o ∈ orders l', b'.orderLocations.lookup o.id = some (price, side))
    (hthere : ∀ {s p o}, ¬ (s = side ∧ p = price) → b.Rests s p o →
      b'.orderLocations.lookup o.id = b.orderLocations.lookup o.id) : b'.Located := by
  intro s p o ho
  rw [rests_of_rewritten hget] at ho
  split_ifs at ho with hplace
  · rw [hplace.1, hplace.2]
    exact hhere o ho
  · rw [hthere hplace ho]
    exact h ho

/-- Removing one order and its location. -/
theorem removed (h : b.Located) (hout : b.TakesOff side price l l' o)
    (hget : b.Rewrites b' side price l') (hloc : b'.orderLocations = b.orderLocations.erase o.id) :
    b'.Located := by
  refine h.rewritten hget (fun x hx => ?_) fun {s p x} hplace hx => ?_
  · rw [hout.orders_eq, List.mem_filter] at hx
    have hne : x.id ≠ o.id := by simpa using hx.2
    rw [hloc, AList.lookup_erase_ne hne]
    exact h ⟨l, hout.level, hx.1⟩
  · rw [hloc, AList.lookup_erase_ne]
    exact fun hid => hplace (h.same_place hx hout.rests hid)

theorem cancelAt (h : b.Located) (hout : b.TakesOff side price l l' o) :
    (b.cancelAt side price l' o).Located :=
  h.removed hout (cancelAt_get? b side price l' o) (cancelAt_orderLocations ..)

theorem dropAt (h : b.Located) (hout : b.TakesOff side price l l' o) :
    (b.dropAt side price l' o.id).Located :=
  h.removed hout (dropAt_get? b side price l' o.id) (dropAt_orderLocations ..)

/-- What rests after a resize: the resized order, if it stayed, and the others. -/
theorem rests_resizeAt [LevelResize L] (h : b.Located) (hres : b.Resizes side price l l' o q)
    (hx : (b.resizeAt side price l' (withReducedQuantity L o q)).Rests s p x) :
    b.Rests s p x ∧ x.id ≠ o.id ∨ s = side ∧ p = price ∧ x = withReducedQuantity L o q := by
  rw [rests_of_rewritten (resizeAt_get? b side price l' _)] at hx
  split_ifs at hx with hhere
  · obtain ⟨rfl, rfl⟩ := hhere
    rcases eq_or_mem_of_resized hres.others hres.kept hx with rfl | ⟨hmem, hne⟩
    · exact Or.inr ⟨rfl, rfl, rfl⟩
    · exact Or.inl ⟨⟨l, hres.level, hmem⟩, hne⟩
  · exact Or.inl ⟨hx, fun hid => hhere (h.same_place hx hres.rests hid)⟩

theorem resizeAt [LevelResize L] (h : b.Located) (hres : b.Resizes side price l l' o q) :
    (b.resizeAt side price l' (withReducedQuantity L o q)).Located := by
  refine h.rewritten (resizeAt_get? b side price l' _) (fun x hx => ?_) fun {s p x} hplace hx => ?_
  · rw [resizeAt_orderLocations, if_neg (orderCount_ne_zero hx)]
    rcases eq_or_mem_of_resized hres.others hres.kept hx with rfl | ⟨hmem, -⟩
    · rw [reduced_id]
      exact h hres.rests
    · exact h ⟨l, hres.level, hmem⟩
  · rw [resizeAt_orderLocations]
    split_ifs
    · rw [reduced_id, AList.lookup_erase_ne]
      exact fun hxo => hplace (h.same_place hx hres.rests hxo)
    · rfl

theorem restAt {remaining : ℕ} (h : b.Located)
    (hlevel : l = ((b.levels o.side).get? o.price).getD (new o.price))
    (horders : orders l' = orders l ++ [residual o remaining])
    (hfresh : b.orderLocations.lookup o.id = none) :
    (b.restAt o (residual o remaining) l' remaining).Located := by
  intro s p x hx
  rw [restAt_orderLocations]
  rcases (restAt_rests_iff remaining hlevel horders).mp hx with hx | ⟨rfl, rfl, rfl⟩
  · rw [AList.lookup_insert_ne (h.id_ne hfresh hx)]
    exact h hx
  · rw [residual_id, AList.lookup_insert]

omit [LevelQueue L] in
/-- **Restoring a package** puts its orders in their place. -/
theorem restore [SnapshotChecksum] (p : OrderBookSnapshotPackage) (h : b.Located) :
    (restoreFromSnapshotPackage p b).2.Located := by
  rcases restoreFromSnapshotPackage_cases p b with ⟨e, hrun⟩ | ⟨prepared, hprep, hrun⟩
  · rwa [hrun]
  obtain ⟨hprices, hids, -⟩ := prepareSnapshotLevels_eq_ok hprep
  rw [hrun]
  intro s q o ho
  exact (packageRestored_registers hids).lookup.mpr
    ⟨o, (packageRestored_rests hprices).mp ho, rfl⟩

end OrderBook.Located

end OrderBookRs
