import OrderBookRs.Guarded
import OrderBookRs.Sound

/-!
# What holds of every level

A property of a level and the place it is stored at that admissions, cancels, resizes and matches
keep holds of every level of a book through every call. The first such property is that a level is
stored at its own price.

## Main definitions

* `OrderBook.EveryLevel`: every level of the book has the property.
* `LevelPruned`: cancels and matches of a level keep the property.
* `LevelKept`: so do resizes.
* `LevelClosed`: so do admissions.
* `OrderBook.EveryOrder`: every order of the book has the property.
* `Lasting`: a property of an order that changes of quantity and moves keep.
* `OrderBook.Keyed`: every level is stored at its own price.

## Main results

* `LevelClosed.steps`: every call keeps the property of every level.
* `LevelPruned.guarded`: so does a run whose new orders and resizes keep it where they are made.
* `Lasting.execute`: a call that adds no order without the property keeps it of every order.
* `OrderBook.Reachable.keyed`: in a reachable book every level is stored at its own price.
-/

namespace OrderBookRs

open PriceLevel Fallible OrderBook

variable {L : Type} [PriceLevel L] {b : OrderBook L} {l l' : L} {price : ℕ} {side : Side}
  {o : Order}

/-- Every level of the book has the property, at the place it is stored at. -/
def OrderBook.EveryLevel (P : Side → ℕ → L → Prop) (b : OrderBook L) : Prop :=
  ∀ ⦃side price l⦄, (b.levels side).get? price = some l → P side price l

/-- Cancels and matches of a level keep the property. -/
structure LevelPruned (P : Side → ℕ → L → Prop) : Prop where
  fresh : ∀ side price, P side price (new price)
  cancelled : ∀ {side price} {l l' : L} {i o}, P side price l →
    updateOrder l (.cancel i) = (.ok (some o), l') → P side price l'
  matched : ∀ {side price} {l l' : L} {q i r}, P side price l →
    matchOrder l q i .standard = (r, l') → P side price l'

/-- The operations of a level that add no order keep the property. -/
structure LevelKept (P : Side → ℕ → L → Prop) : Prop where
  fresh : ∀ side price, P side price (new price)
  cancelled : ∀ {side price} {l l' : L} {i o}, P side price l →
    updateOrder l (.cancel i) = (.ok (some o), l') → P side price l'
  resized : ∀ {side price} {l l' : L} {i q o}, P side price l →
    updateOrder l (.updateQuantity i q) = (.ok (some o), l') → P side price l'
  matched : ∀ {side price} {l l' : L} {q i r}, P side price l →
    matchOrder l q i .standard = (r, l') → P side price l'

theorem LevelKept.pruned {P : Side → ℕ → L → Prop} (h : LevelKept P) : LevelPruned P :=
  ⟨h.fresh, h.cancelled, h.matched⟩

/-- The operations of a level keep the property. -/
structure LevelClosed (P : Side → ℕ → L → Prop) : Prop extends LevelKept P where
  added : ∀ {l l' : L} {o}, P o.side o.price l → addOrder l o = .ok l' → P o.side o.price l'

namespace OrderBook.EveryLevel

variable {P : Side → ℕ → L → Prop} {b b' : OrderBook L}

omit [PriceLevel L] in
theorem sameOrders (h : b.EveryLevel P) (hsame : b.SameOrders b') : b'.EveryLevel P := by
  obtain ⟨_, _, _, _, _, rfl⟩ := hsame
  exact h

omit [PriceLevel L] in
/-- One level is rewritten, and some levels may go. -/
theorem rewrite (h : b.EveryLevel P) (hl : P side price l)
    (hget : ∀ {s p l'}, (b'.levels s).get? p = some l' →
      s = side ∧ p = price ∧ l' = l ∨ (b.levels s).get? p = some l') : b'.EveryLevel P := by
  intro s p l' hl'
  rcases hget hl' with ⟨rfl, rfl, rfl⟩ | hl'
  · exact hl
  · exact h hl'

omit [PriceLevel L] in
theorem removeLevel (h : b.EveryLevel P) (side : Side) (price : ℕ) :
    (b.removeLevel side price).EveryLevel P := by
  intro s p l hl
  rw [get?_removeLevel] at hl
  split_ifs at hl
  exact h hl

theorem cancelAllOrders (h : b.EveryLevel P) : b.cancelAllOrders.1.EveryLevel P := by
  rw [OrderBook.cancelAllOrders]
  split_ifs
  · exact h
  · intro side price l hl
    cases side <;> cases hl

end OrderBook.EveryLevel

/-- A lookup after a level was written or dropped. -/
theorem get?_of_rewritten {b' : OrderBook L} (hget : b.Rewrites b' side price l) {s : Side} {p : ℕ}
    (hl' : (b'.levels s).get? p = some l') :
    s = side ∧ p = price ∧ l' = l ∨ (b.levels s).get? p = some l' := by
  rw [hget] at hl'
  split_ifs at hl' with hplace
  · cases hl'
    exact Or.inl ⟨hplace.1, hplace.2, rfl⟩
  · exact Or.inr hl'

omit [PriceLevel L] in
/-- A lookup after a level was written. -/
theorem get?_of_written {b' : OrderBook L}
    (hget : ∀ s p, (b'.levels s).get? p =
      if s = side ∧ p = price then some l else (b.levels s).get? p) {s : Side} {p : ℕ}
    (hl' : (b'.levels s).get? p = some l') :
    s = side ∧ p = price ∧ l' = l ∨ (b.levels s).get? p = some l' := by
  rw [hget] at hl'
  split_ifs at hl' with hplace
  · cases hl'
    exact Or.inl ⟨hplace.1, hplace.2, rfl⟩
  · exact Or.inr hl'

namespace LevelPruned

variable {P : Side → ℕ → L → Prop} (h : LevelPruned P)

include h

theorem sweepStep {t : Taker} {sw sw' : Sweep L} (hs : SweepStep t price sw sw')
    (hP : sw.book.EveryLevel P) : sw'.book.EveryLevel P := by
  cases hs with
  | fill level kind allows pos cap safe run =>
    exact hP.rewrite (h.matched (hP level) run) (get?_of_written (fillLevel_get? _ _ _ _ _ _))
  | cancel level mode user mem own orders_eq run =>
    exact hP.rewrite (h.cancelled (hP level) run)
      (get?_of_written fun s p => stpCancel_get? _ _ s _ p _ _)
  | markEmpty | flag => exact hP

/-- An order comes to rest on a level that it keeps the property of. -/
theorem restAt {remaining : ℕ} (hl : l = ((b.levels o.side).get? o.price).getD (new o.price))
    (hadded : P o.side o.price l → P o.side o.price l') (hP : b.EveryLevel P) :
    (b.restAt o (residual o remaining) l' remaining).EveryLevel P := by
  have hheld : P o.side o.price l := by
    rw [hl]
    cases hget : (b.levels o.side).get? o.price with
    | none => exact h.fresh ..
    | some => exact hP hget
  exact hP.rewrite (hadded hheld) (get?_of_written (restAt_get? _ _ _ _ _))

theorem cancelAt (hl : (b.levels side).get? price = some l)
    (hrun : updateOrder l (.cancel o.id) = (.ok (some o), l')) (hP : b.EveryLevel P) :
    (b.cancelAt side price l' o).EveryLevel P :=
  hP.rewrite (h.cancelled (hP hl) hrun) (get?_of_rewritten (cancelAt_get? _ _ _ _ _))

theorem dropAt (hl : (b.levels side).get? price = some l)
    (hrun : updateOrder l (.cancel o.id) = (.ok (some o), l')) (hP : b.EveryLevel P) :
    (b.dropAt side price l' o.id).EveryLevel P :=
  hP.rewrite (h.cancelled (hP hl) hrun) (get?_of_rewritten (dropAt_get? _ _ _ _ _))

variable [LevelQueue L] [LevelMatch L]

theorem matchOrderInner (id : OrderId) (side : Side) (mode : MatchMode) (user : Hash32)
    (kind : TakerKind) (hP : b.EveryLevel P) :
    (matchOrderInner id side mode user kind b).2.EveryLevel P := by
  refine matchOrderInner_invariant (I := OrderBook.EveryLevel P)
    (J := fun _ sw => sw.book.EveryLevel P) (fun hsame hP => hP.sameOrders hsame.sameOrders)
    (fun _ hP => hP) (fun hs hP => h.sweepStep hs hP) (fun {b t mode} _ hJ => ?_) id side mode user
    kind hP
  intro s p l hl
  rw [finishSweep_get?] at hl
  split_ifs at hl
  exact hJ hl

omit [LevelMatch L] in
theorem cancelOrdersByUser (user : Hash32) (hP : b.EveryLevel P) :
    (b.cancelOrdersByUser user).1.EveryLevel P :=
  cancelOrdersByUser_keeps (I := OrderBook.EveryLevel P)
    (fun hsame hP => hP.sameOrders hsame.sameOrders)
    (fun hout hP => h.cancelAt hout.level hout.run hP) user hP

/-- **A run keeps the property of every level** if each new order keeps it of the level it rests on,
and each resize of the level it resizes on. -/
theorem guarded [LevelResize L] {g : Guard L}
    (halike : ∀ {b b' o}, SameAnswers b b' → g.add b o → g.add b' o)
    (hadded : ∀ {b b' l l' o remaining}, g.add b o → Swept o b remaining b' →
      l = ((b'.levels o.side).get? o.price).getD (new o.price) →
      addOrder l (residual o remaining) = .ok l' → o.isImmediate = false → remaining ≠ 0 →
      P o.side o.price l → P o.side o.price l')
    (hresized : ∀ {b : OrderBook L} {id q side price l l' o}, g.resize b id q →
      (b.levels side).get? price = some l →
      updateOrder l (.updateQuantity id q) = (.ok (some o), l') → P side price l →
      P side price l') :
    GuardedInvariant (OrderBook.EveryLevel P) g where
  reads hquiet _ hP := hP.sameOrders hquiet.sameState.sameOrders
  forget {b} hP := hP.sameOrders b.sameState_invalidateCache.sameOrders
  alike := halike
  add {b o} wantResult hg hP := addOrderInner_keeps (I := OrderBook.EveryLevel P)
    (fun hsame hP => hP.sameOrders hsame.sameOrders)
    (fun wantResult r hP => hP.sameOrders (sameOrders_emitTrades wantResult r _))
    (fun hswept hl hadd _ _ himm hleft hP =>
      h.restAt hl (fun hheld => hadded hg hswept hl hadd himm hleft hheld) hP)
    (fun _ _ hP => hP.removeLevel _ _)
    (fun _ hsame => h.matchOrderInner _ _ _ _ _ (hP.sameOrders hsame.sameOrders)) wantResult hP
  market {b id side mode user} _ _ hP :=
    matchMarket_keeps (fun hP => h.matchOrderInner _ _ _ _ _ hP)
      (fun r hP => hP.sameOrders (sameOrders_emitTrades false r _)) b hP
  halt _ hP := hP.sameOrders (sameView_trackState ..).sameState.sameOrders
  cancel {b} id reason hP := by
    rcases cancelOrderWithReason_cases b id reason with
      ⟨hsame, -, -⟩ | ⟨side, price, l, l', o, rfl, hout, -, hstate⟩
    · exact hP.sameOrders hsame.sameOrders
    · exact (h.cancelAt hout.level hout.run hP).sameOrders hstate.sameOrders
  resize {b id q} hg hP := by
    have hforget := hP.sameOrders b.sameState_invalidateCache.sameOrders
    rcases updateQuantity_cases b.invalidateCache id q with
      hsame | ⟨side, price, l, l', o, rfl, hres, -, hstate⟩
    · exact hforget.sameOrders hsame.sameState.sameOrders
    · refine EveryLevel.sameOrders (hforget.rewrite
        (hresized hg hres.level hres.run (hP hres.level)) ?_) hstate.sameState.sameOrders
      exact get?_of_rewritten (resizeAt_get? _ _ _ _ _)
  drop {b id} _ hP := by
    have hforget := hP.sameOrders b.sameState_invalidateCache.sameOrders
    rcases cancelByUpdate_cases b.invalidateCache id with
      hrun | ⟨side, price, l, l', o, rfl, hout, hrun⟩
    · rw [hrun]
      exact hforget
    · rw [hrun]
      exact h.dropAt hout.level hout.run hforget
  clear hP := hP.cancelAllOrders
  byUser user hP := h.cancelOrdersByUser user hP

end LevelPruned

namespace LevelKept

variable {P : Side → ℕ → L → Prop}

/-- New orders keep the property of the level they come to rest on. -/
def admitting (P : Side → ℕ → L → Prop) : Guard L where
  add _ o := ∀ {l l' : L} {remaining}, P o.side o.price l →
    addOrder l (residual o remaining) = .ok l' → P o.side o.price l'
  market _ _ _ _ _ := True
  resize _ _ _ := True
  drop _ _ := True

theorem guarded [LevelQueue L] [LevelMatch L] [LevelResize L] (h : LevelKept P) :
    GuardedInvariant (OrderBook.EveryLevel P) (admitting P) :=
  h.pruned.guarded (fun _ hg => hg) (fun hg _ _ hadd _ _ hheld => hg hheld hadd)
    fun _ _ hrun hheld => h.resized hheld hrun

end LevelKept

namespace LevelClosed

variable {P : Side → ℕ → L → Prop} [LevelQueue L] [LevelMatch L]

/-- **Every call keeps the property of every level.** -/
theorem steps (h : LevelClosed P) : StepInvariant (OrderBook.EveryLevel P) fun _ => True where
  same hsame hP := hP.sameOrders hsame.sameOrders
  emit wantResult r hP := hP.sameOrders (sameOrders_emitTrades wantResult r _)
  sweep id side mode user kind hP := h.pruned.matchOrderInner id side mode user kind hP
  rest {start b l l' o remaining} _ _ hl hadd _ _ _ _ hP := by
    refine h.pruned.restAt hl (fun hheld => ?_) hP
    have hadded := h.added (o := residual o remaining) (by simpa using hheld) hadd
    simpa using hadded
  tidy _ _ hP := hP.removeLevel _ _
  cancel hout hP := h.pruned.cancelAt hout.level hout.run hP
  drop hout hP := h.pruned.dropAt hout.level hout.run hP
  resize _ hres hP := hP.rewrite (h.resized (hP hres.level) hres.run)
    (get?_of_rewritten (resizeAt_get? _ _ _ _ _))
  clear hP := hP.cancelAllOrders
  byUser user hP := h.pruned.cancelOrdersByUser user hP

end LevelClosed

/-! ### Orders -/

/-- Every order on the book has the property. -/
abbrev OrderBook.EveryOrder (Q : Order → Prop) (b : OrderBook L) : Prop :=
  b.EveryLevel fun _ _ l => ∀ o ∈ orders l, Q o

/-- A cancel leaves no new order on the level. -/
theorem mem_of_cancelled [LevelQueue L] {i : OrderId} {x : Order}
    (hrun : updateOrder l (.cancel i) = (.ok (some o), l')) (hx : x ∈ orders l') :
    x ∈ orders l := by
  by_cases hi : i ∈ orderIds l
  · obtain ⟨y, hy, rfl⟩ := mem_orderIds.mp hi
    obtain ⟨l₁, hcancel, horders⟩ := LevelQueue.cancel_of_mem hy
    rw [hrun] at hcancel
    cases hcancel
    rw [horders] at hx
    exact List.mem_of_mem_filter hx
  · rw [LevelQueue.cancel_of_notMem hi] at hrun
    cases hrun

/-- A property of an order and its place that changes of quantity keep. -/
theorem LevelKept.of_tranches [LevelQueue L] [LevelResize L] [LevelMatch L]
    {Q : Side → ℕ → Order → Prop} (hQ : ∀ {side price o} visible hidden, Q side price o →
      Q side price (o.setTranches visible hidden)) :
    LevelKept fun side price (l : L) => ∀ o ∈ orders l, Q side price o where
  fresh side price o ho := by
    rw [LevelQueue.orders_new] at ho
    cases ho
  cancelled hl hrun x hx := hl x (mem_of_cancelled hrun hx)
  resized {_ _ l l' i q o} hl hrun x hx := by
    by_cases hi : i ∈ orderIds l
    · obtain ⟨y, hy, rfl⟩ := mem_orderIds.mp hi
      rcases LevelResize.resize_of_mem (q := q) hy with
        ⟨e, hresize⟩ | ⟨l₁, hresize, hothers, hkept⟩
      · rw [hrun] at hresize
        cases hresize
      · rw [hrun] at hresize
        cases hresize
        rcases eq_or_mem_of_resized hothers hkept hx with rfl | ⟨hmem, -⟩
        · obtain ⟨v, k, hred⟩ := LevelResize.withReducedQuantity_eq (L := L) y q
          rw [hred]
          exact hQ v k (hl y hy)
        · exact hl x hmem
    · rw [LevelResize.resize_of_notMem hi] at hrun
      cases hrun
  matched hl hrun x hx := by
    obtain ⟨o, ho, v, k, rfl⟩ := LevelMatch.orders_match hrun hx
    exact hQ v k (hl o ho)

/-- A property of an order that lasts while its tranches change and when a request moves it. -/
structure Lasting (Q : Order → Prop) : Prop where
  tranches : ∀ {o} visible hidden, Q o → Q (o.setTranches visible hidden)
  moved : ∀ {o newOrder u}, movedOrder o u = some newOrder → target u = o.id → Q o → Q newOrder

namespace Lasting

/-- A property of the kind and the id lasts if a change of the tranches keeps it. -/
theorem of_kind {Q : Order → Prop}
    (htranches : ∀ {o} visible hidden, Q o → Q (o.setTranches visible hidden))
    (hkind : ∀ {o o' : Order}, o'.kind = o.kind → o'.id = o.id → Q o → Q o') : Lasting Q where
  tranches := htranches
  moved {o newOrder u} hmoved htarget ho := by
    cases u with
    | updatePrice =>
      cases hmoved
      exact hkind (o := o) rfl rfl ho
    | updatePriceAndQuantity id newPrice newQuantity =>
      obtain ⟨v, h, hset⟩ := { o with price := newPrice }.setQuantity_eq_setTranches newQuantity
      cases hmoved
      rw [hset]
      exact htranches v h (hkind (o := o) rfl rfl ho)
    | replace =>
      cases hmoved
      exact hkind (o := o) rfl htarget ho
    | updateQuantity | cancel => cases hmoved

theorem and {Q R : Order → Prop} (hQ : Lasting Q) (hR : Lasting R) :
    Lasting fun o => Q o ∧ R o where
  tranches v h ho := ⟨hQ.tranches v h ho.1, hR.tranches v h ho.2⟩
  moved hmoved htarget ho := ⟨hQ.moved hmoved htarget ho.1, hR.moved hmoved htarget ho.2⟩

variable {Q : Order → Prop} (hQ : Lasting Q)

include hQ

variable [LevelQueue L] [LevelResize L] [LevelMatch L]

theorem levelKept : LevelKept fun (_ : Side) (_ : ℕ) (l : L) => ∀ o ∈ orders l, Q o :=
  .of_tranches fun v h ho => hQ.tranches v h ho

/-- **Only a new order brings an order without the property onto the book.** -/
theorem execute (h : b.EveryOrder Q) {c : Command}
    (hadd : ∀ o, c = .addOrder o ∨ c = .addOrderWithResult o → Q o) :
    (b.execute c).EveryOrder Q := by
  have hnew : ∀ {o : Order} {l l' : L} {remaining : ℕ}, Q o → (∀ x ∈ orders l, Q x) →
      PriceLevel.addOrder l (residual o remaining) = .ok l' → ∀ x ∈ orders l', Q x := by
    intro o l l' remaining ho hl hrun x hx
    rw [LevelQueue.orders_addOrder hrun] at hx
    rcases List.mem_append.mp hx with hx | hx
    · exact hl x hx
    · obtain ⟨v, k, hres⟩ := residual_eq_setTranches o remaining
      rw [List.mem_singleton.mp hx, hres]
      exact hQ.tranches v k ho
  refine hQ.levelKept.guarded.execute ?_ h
  cases c with
  | addOrder o => exact hnew (hadd o (Or.inl rfl))
  | addOrderWithResult o => exact hnew (hadd o (Or.inr rfl))
  | updateOrder =>
    refine ⟨fun _ _ _ => trivial, fun _ _ => trivial, fun newOrder hmoves _ => hnew ?_⟩
    obtain ⟨original, hget, hmoved⟩ := hmoves.moved
    obtain ⟨side, price, l, -, hl, ho, hid⟩ := getOrder_eq_some hget
    exact hQ.moved hmoved hid.symm (h hl original ho)
  | _ => trivial

end Lasting

/-! ### Levels are stored at their own price -/

/-- Every level is stored at its own price. -/
abbrev OrderBook.Keyed (b : OrderBook L) : Prop :=
  b.EveryLevel fun _ price l => PriceLevel.price l = price

theorem levelClosed_keyed [LevelDisplay L] :
    LevelClosed fun (_ : Side) (price : ℕ) (l : L) => PriceLevel.price l = price where
  fresh _ price := LevelDisplay.price_new price
  added hl hrun := (LevelDisplay.price_addOrder hrun).trans hl
  cancelled {_ _ l _ i _} hl hrun := by
    have hprice := LevelDisplay.price_updateOrder l (.cancel i)
    rw [hrun] at hprice
    exact hprice.trans hl
  resized {_ _ l _ i q _} hl hrun := by
    have hprice := LevelDisplay.price_updateOrder l (.updateQuantity i q)
    rw [hrun] at hprice
    exact hprice.trans hl
  matched {_ _ l _ q i _} hl hrun := by
    have hprice := LevelDisplay.price_matchOrder l q i .standard
    rw [hrun] at hprice
    exact hprice.trans hl

variable [LevelQueue L] [LevelMatch L] [LevelResize L] [LevelDisplay L] [LevelSnapshot L]
  [SnapshotChecksum]

omit [LevelQueue L] [LevelMatch L] [LevelResize L] [LevelDisplay L] in
theorem OrderBook.Keyed.restore (p : OrderBookSnapshotPackage) (h : b.Keyed) :
    (restoreFromSnapshotPackage p b).2.Keyed := by
  rcases restoreFromSnapshotPackage_cases p b with ⟨e, hrun⟩ | ⟨prepared, hprep, hrun⟩
  · rwa [hrun]
  · obtain ⟨hprices, -, hfrom⟩ := prepareSnapshotLevels_eq_ok hprep
    rw [hrun]
    intro side price l hl
    obtain ⟨snap, -, rfl, hlevel⟩ := hfrom side _ ((packageRestored_get? hprices).mp hl)
    exact LevelSnapshot.fromSnapshot_price hlevel

theorem keyed_session : SessionInvariant (OrderBook.Keyed (L := L)) (fun _ => True)
    fun _ => True where
  calls := levelClosed_keyed.steps.calls
  configure s h := by
    cases s with
    | marketClose timestamp => cases timestamp <;> exact h
    | _ => exact h
  snapshot _ _ := trivial
  restore {b p} _ h := h.restore p

/-- **In a reachable book every level is stored at its own price.** -/
theorem OrderBook.Reachable.keyed (h : b.Reachable) : b.Keyed := by
  obtain ⟨symbol, clock, ops, rfl⟩ := h
  refine keyed_session.run (fun op _ => op.resizesTo_true) (fun side price l hl => ?_)
    fun p hp => absurd hp List.not_mem_nil
  cases side <;> cases hl

end OrderBookRs
