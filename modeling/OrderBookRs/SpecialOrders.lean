import OrderBookRs.EveryLevel
import OrderBookRs.FifoLevel
import OrderBookRs.Repricing

/-!
# Special orders stay registered

A loop of `repricing.rs` visits the ids of a registry, not the orders on the book. Every pegged
order and every trailing stop that rests is registered, whatever calls were made; ids that no longer
rest may be registered as well, and a loop drops them when it meets them.

## Main definitions

* `SpecialKind`: the two kinds of order that are re-priced.
* `OrderBook.Registered`: every resting order of either kind is registered.
* `RepriceLoop.Serves`: the loop re-prices orders of one kind and only reads the book to do so.

## Main results

* `OrderBook.Registered.steps`, `registered_session`: every call keeps the orders registered.
* `reprice_keeps`: what `UpdatePrice` requests keep, a re-pricing keeps.
* `OrderBook.ReachableByCalls.registered`, `OrderBook.ReachableByCalls.keyed`.
* `special_orders_registered`: no special order is lost to re-pricing.
-/

namespace OrderBookRs

open PriceLevel Fallible OrderBook

variable {o : Order} {k : SpecialKind} {i : OrderId} {price : ℕ}

/-! ### Kinds and registries -/

/-- The kinds of order that are re-priced. -/
inductive SpecialKind
  | pegged
  | trailingStop
  deriving DecidableEq, Repr

/-- The order is of this kind. -/
def SpecialKind.includes : SpecialKind → Order → Bool
  | .pegged, o => match o.kind with | .pegged .. => true | _ => false
  | .trailingStop, o => match o.kind with | .trailingStop .. => true | _ => false

@[simp] theorem SpecialKind.includes_setTranches (k : SpecialKind) (o : Order) (v h : ℕ) :
    k.includes (o.setTranches v h) = k.includes o := by
  obtain ⟨id, price, side, user, timestamp, tif, visible, kind⟩ := o
  cases k <;> cases kind <;> rfl

theorem SpecialKind.includes_congr (k : SpecialKind) {o' : Order} (h : o'.kind = o.kind) :
    k.includes o' = k.includes o := by
  cases k <;> rw [includes, includes, h]

namespace SpecialOrderTracker

/-- The registered ids of a kind. -/
def ids (t : SpecialOrderTracker) : SpecialKind → Finset OrderId
  | .pegged => t.peggedOrders
  | .trailingStop => t.trailingStopOrders

theorem mem_ids_register {t : SpecialOrderTracker} :
    i ∈ (t.register o).ids k ↔ i ∈ t.ids k ∨ k.includes o ∧ i = o.id := by
  obtain ⟨id, price, side, user, timestamp, tif, visible, kind⟩ := o
  cases k <;> cases kind <;> simp [register, ids, SpecialKind.includes, or_comm]

theorem mem_ids_unregister {t : SpecialOrderTracker} {j : OrderId} :
    i ∈ (t.unregister j).ids k ↔ i ≠ j ∧ i ∈ t.ids k := by
  cases k <;> exact Finset.mem_erase

/-- At most the id `i` was unregistered. -/
def Forgets (t : SpecialOrderTracker) (i : OrderId) (t' : SpecialOrderTracker) : Prop :=
  ∀ k j, j ∈ t.ids k → j ≠ i → j ∈ t'.ids k

end SpecialOrderTracker

variable {L : Type} [PriceLevel L] {b : OrderBook L} {l l' : L}

/-! ### Registered orders -/

/-- Every resting order of a re-priced kind is registered. -/
def OrderBook.Registered (b : OrderBook L) : Prop :=
  ∀ ⦃k side price o⦄, b.Rests side price o → k.includes o → o.id ∈ b.specialOrderTracker.ids k

namespace OrderBook.Registered

variable {b b' : OrderBook L} {id : OrderId} {t : Taker} {sw : Sweep L} {side : Side}

/-- Orders left or changed their tranches, and those that stay are still registered. -/
theorem shrink (h : b.Registered)
    (hrests : ∀ {s p x}, b'.Rests s p x → ∃ y v w, b.Rests s p y ∧ x = y.setTranches v w ∧
      ∀ k, y.id ∈ b.specialOrderTracker.ids k → y.id ∈ b'.specialOrderTracker.ids k) :
    b'.Registered := by
  intro k s p x hx hk
  obtain ⟨y, v, w, hy, rfl, hkept⟩ := hrests hx
  rw [SpecialKind.includes_setTranches] at hk
  exact hkept k (h hy hk)

theorem sameOrders (hsame : b.SameOrders b') (h : b.Registered) : b'.Registered := by
  obtain ⟨_, _, _, _, _, rfl⟩ := hsame
  exact h

theorem sameState (hsame : b.SameState b') (h : b.Registered) : b'.Registered :=
  h.sameOrders hsame.sameOrders

/-- An order left, and its id was unregistered. -/
theorem unregister (h : b.Registered)
    (hspecial : b'.specialOrderTracker = b.specialOrderTracker.unregister id)
    (hrests : ∀ {s p x}, b'.Rests s p x → b.Rests s p x ∧ x.id ≠ id) : b'.Registered := by
  intro k s p x hx hk
  obtain ⟨hx, hne⟩ := hrests hx
  rw [hspecial, SpecialOrderTracker.mem_ids_unregister]
  exact ⟨hne, h hx hk⟩

/-- An id that does not rest is unregistered. -/
theorem forget (h : b.Registered) {special : SpecialOrderTracker}
    (hforgets : b.specialOrderTracker.Forgets id special) (hid : ¬ b.Holds id) :
    ({ b with specialOrderTracker := special } : OrderBook L).Registered := by
  intro k s p x hx hk
  exact hforgets k x.id (h hx hk) fun heq => hid ⟨s, p, x, hx, heq⟩

theorem step [LevelMatch L] {sw' : Sweep L} (hs : SweepStep t price sw sw')
    (hlocated : SweepLocated t sw) (h : sw.book.Registered) : sw'.book.Registered := by
  cases hs with
  | fill level kind allows pos cap safe run =>
    refine h.shrink fun {s p x} hx => ?_
    obtain ⟨y, hy, v, w, rfl⟩ := rests_before_fill level run hx
    refine ⟨y, v, w, hy, rfl, fun k hk => ?_⟩
    rwa [fillLevel_specialOrderTracker]
  | cancel level mode user mem own orders_eq run =>
    exact h.unregister (stpCancel_specialOrderTracker ..)
      fun hx => (hlocated.rests_stpCancel ⟨level, mem, orders_eq⟩).mp hx
  | markEmpty | flag => exact h

/-- Filled makers stay registered. -/
theorem finishSweep (hlocated : SweepLocated t sw) (h : sw.book.Registered) :
    (finishSweep t sw).Registered := by
  obtain ⟨_, _, _, hframe⟩ := finishSweep_frame t sw
  have hspecial : (OrderBookRs.finishSweep t sw).specialOrderTracker =
      sw.book.specialOrderTracker := by
    rw [hframe]
  intro k s p x hx hk
  rw [hspecial]
  exact h (hlocated.finishSweep_rests.mp hx) hk

section Queue

variable [LevelQueue L]

theorem restAt {remaining : ℕ} (hlevel : l = ((b.levels o.side).get? o.price).getD (new o.price))
    (horders : orders l' = orders l ++ [residual o remaining]) (h : b.Registered) :
    (b.restAt o (residual o remaining) l' remaining).Registered := by
  intro k s p x hx hk
  rw [restAt_specialOrderTracker, SpecialOrderTracker.mem_ids_register]
  rcases (restAt_rests_iff remaining hlevel horders).mp hx with hx | ⟨-, -, rfl⟩
  · exact Or.inl (h hx hk)
  · exact Or.inr ⟨hk, rfl⟩

theorem resizeAt [LevelResize L] {q : ℕ} (hlocated : b.Located)
    (hres : b.Resizes side price l l' o q) (h : b.Registered) :
    (b.resizeAt side price l' (withReducedQuantity L o q)).Registered := by
  obtain ⟨v, w, hred⟩ := LevelResize.withReducedQuantity_eq (L := L) o q
  intro k s p x hx hk
  rw [resizeAt_specialOrderTracker]
  rcases hlocated.rests_resizeAt hres hx with ⟨hx, -⟩ | ⟨rfl, rfl, rfl⟩
  · exact h hx hk
  · rw [hred, SpecialKind.includes_setTranches] at hk
    rw [hred, Order.setTranches_id]
    exact h hres.rests hk

theorem cancelAt (hlocated : b.Located) (hout : b.TakesOff side price l l' o) (h : b.Registered) :
    (b.cancelAt side price l' o).Registered :=
  h.unregister (cancelAt_specialOrderTracker ..) fun hx =>
    (hlocated.rests_removed hout (cancelAt_get? _ _ _ _ _)).mp hx

/-- **Every call keeps the orders in their place registered.** -/
theorem locatedSteps [LevelMatch L] [LevelResize L] :
    StepInvariant (fun b : OrderBook L => b.Located ∧ b.Registered) fun _ => True where
  same hsame h := ⟨h.1.sameState hsame, h.2.sameState hsame⟩
  emit wantResult r h :=
    ⟨h.1.sameOrders (sameOrders_emitTrades wantResult r _),
      h.2.sameOrders (sameOrders_emitTrades wantResult r _)⟩
  sweep id side mode user kind h :=
    matchOrderInner_invariant (I := fun b : OrderBook L => b.Located ∧ b.Registered)
      (J := fun t sw => SweepLocated t sw ∧ sw.book.Registered)
      (fun hsame h => ⟨h.1.sameState hsame, h.2.sameState hsame⟩)
      (fun mode h => ⟨.start h.1 mode, h.2⟩) (fun hs hJ => ⟨hJ.1.step hs, hJ.2.step hs hJ.1⟩)
      (fun _ hJ => ⟨hJ.1.finishSweep, hJ.2.finishSweep hJ.1⟩) id side mode user kind h
  rest _ _ hl _ horders hfresh _ _ h := ⟨h.1.restAt hl horders hfresh, h.2.restAt hl horders⟩
  tidy {b side price l} hl hnil h := by
    refine ⟨h.1.removeLevel hl hnil, fun k s p x hx hk => ?_⟩
    have hspecial : (b.removeLevel side price).specialOrderTracker = b.specialOrderTracker := by
      cases side <;> rfl
    rw [hspecial]
    exact h.2 (rests_removeLevel.mp hx).2 hk
  cancel hout h := ⟨h.1.cancelAt hout.off, h.2.cancelAt h.1 hout.off⟩
  drop hout h := by
    refine ⟨h.1.dropAt hout.off, fun k s p x hx hk => ?_⟩
    rw [dropAt_specialOrderTracker]
    exact h.2 ((h.1.rests_removed hout.off (dropAt_get? _ _ _ _ _)).mp hx).1 hk
  resize _ hres h :=
    ⟨h.1.resizeAt hres.resized, h.2.resizeAt h.1 hres.resized⟩
  clear {b} h := by
    refine ⟨h.1.cancelAllOrders, ?_⟩
    rw [OrderBook.cancelAllOrders]
    dsimp only
    split_ifs
    · exact h.2.sameState b.sameState_invalidateCache
    · rintro k side price o ⟨l, hl, -⟩
      cases side <;> cases hl
  byUser user h :=
    cancelOrdersByUser_keeps (I := fun b : OrderBook L => b.Located ∧ b.Registered)
      (fun hsame h => ⟨h.1.sameState hsame, h.2.sameState hsame⟩)
      (fun hout h => ⟨h.1.cancelAt hout.off, h.2.cancelAt h.1 hout.off⟩)
      user h

theorem steps [LevelMatch L] [LevelResize L] :
    StepInvariant (fun b : OrderBook L => b.Sound ∧ b.Registered) fun _ => True := by
  have hboth : (fun b : OrderBook L => b.Sound ∧ b.Registered) =
      fun b => b.Sound ∧ b.Located ∧ b.Registered := funext fun b => propext
    ⟨fun h => ⟨h.1, h.1.toLocated, h.2⟩, fun h => ⟨h.1, h.2.2⟩⟩
  rw [hboth]
  exact Sound.steps.and locatedSteps

end Queue

end OrderBook.Registered

/-! ### The loops -/

/-- The loop re-prices orders of kind `k`, reads the book to find their new price, and unregisters
the id it is asked to. -/
structure RepriceLoop.Serves (loop : RepriceLoop L) (k : SpecialKind) : Prop where
  other : ∀ {o b}, k.includes o = false → loop.newPrice o b = (none, b)
  reads : ∀ o (b : OrderBook L), b.SameView (loop.newPrice o b).2
  forgets : ∀ (t : SpecialOrderTracker) i, t.Forgets i (loop.unregister t i)

omit [PriceLevel L] in
theorem sameView_midPrice (b : OrderBook L) : b.SameView b.midPrice.2 := by
  have hreads := (sameView_bestPrice b .buy).trans (sameView_bestPrice b.bestBid.2 .sell)
  rw [midPrice]
  split
  · exact hreads
  · exact hreads

omit [PriceLevel L] in
theorem serves_peggedLoop (bestBid bestAsk midPrice lastTrade : Option ℕ) :
    (peggedLoop bestBid bestAsk midPrice lastTrade : RepriceLoop L).Serves .pegged where
  other {o b} ho := by
    obtain ⟨id, price, side, user, timestamp, tif, visible, kind⟩ := o
    cases kind with
    | pegged => cases ho
    | _ => rfl
  reads o b := by
    rw [peggedLoop]
    dsimp only
    split
    · exact .refl b
    · exact .refl b
  forgets t i k j hj hne := by
    cases k with
    | pegged => exact Finset.mem_erase.mpr ⟨hne, hj⟩
    | trailingStop => exact hj

omit [PriceLevel L] in
theorem serves_trailingLoop : (trailingLoop : RepriceLoop L).Serves .trailingStop where
  other {o b} ho := by
    obtain ⟨id, price, side, user, timestamp, tif, visible, kind⟩ := o
    cases kind with
    | trailingStop => cases ho
    | _ => rfl
  reads o b := by
    rw [trailingLoop]
    dsimp only
    split
    · exact sameView_bestPrice ..
    · exact .refl b
  forgets t i k j hj hne := by
    cases k with
    | pegged => exact hj
    | trailingStop => exact Finset.mem_erase.mpr ⟨hne, hj⟩

/-- A property that reading the book, an `UpdatePrice` request and unregistering an id that is not
found keep. -/
structure RepriceInvariant (I : OrderBook L → Prop) : Prop where
  same : ∀ {b b'}, SameState b b' → I b → I b'
  update : ∀ id newPrice, Keeps I (OrderBook.updateOrder (.updatePrice id newPrice))
  forget : ∀ {b id special}, b.getOrder id = none → b.specialOrderTracker.Forgets id special → I b →
    I { b with specialOrderTracker := special }

namespace RepriceInvariant

variable {I : OrderBook L → Prop} (h : RepriceInvariant I)

include h

theorem repriceOrder {loop : RepriceLoop L} (hloop : loop.Serves k) (s : RepriceTally × OrderBook L)
    (id : OrderId) (hI : I s.2) : I (OrderBook.repriceOrder loop s id).2 := by
  rw [OrderBook.repriceOrder]
  cases hget : s.2.getOrder id with
  | none => exact h.forget hget (hloop.forgets _ id) hI
  | some o =>
    have hread := h.same (hloop.reads o s.2).sameState hI
    dsimp only
    rcases hprice : loop.newPrice o s.2 with ⟨_ | newPrice, b⟩
    · rw [hprice] at hread
      exact hread
    · rw [hprice] at hread
      have hupdated := h.update id newPrice b hread
      dsimp only
      rcases hrun : OrderBook.updateOrder (.updatePrice id newPrice) b with ⟨e | result, b'⟩
      · rw [hrun] at hupdated
        exact hupdated
      · rw [hrun] at hupdated
        exact hupdated

theorem foldl_repriceOrder {loop : RepriceLoop L} (hloop : loop.Serves k) (ids : List OrderId)
    (s : RepriceTally × OrderBook L) (hI : I s.2) :
    I (ids.foldl (OrderBook.repriceOrder loop) s).2 := by
  induction ids generalizing s with
  | nil => exact hI
  | cons id ids ih => exact ih _ (h.repriceOrder hloop s id hI)

variable [DisplayId]

theorem repricePeggedCollecting (failures : List (OrderId × RepriceReason)) (hI : I b) :
    I (b.repricePeggedCollecting failures).2 := by
  rw [OrderBook.repricePeggedCollecting]
  dsimp only
  split_ifs
  · exact hI
  · refine h.foldl_repriceOrder (serves_peggedLoop ..) _ _ (h.same (SameView.sameState ?_) hI)
    exact ((sameView_bestPrice b .buy).trans (sameView_bestPrice _ .sell)).trans
      (sameView_midPrice _)

theorem repriceTrailingCollecting (failures : List (OrderId × RepriceReason)) (hI : I b) :
    I (b.repriceTrailingCollecting failures).2 :=
  h.foldl_repriceOrder serves_trailingLoop _ _ hI

/-- **A re-pricing keeps the property.** -/
theorem reprice (r : Repricing) (hI : I b) : I (b.reprice r).2 := by
  cases r with
  | peggedOrders => exact h.repricePeggedCollecting [] hI
  | trailingStops => exact h.repriceTrailingCollecting [] hI
  | specialOrders => exact h.repriceTrailingCollecting _ (h.repricePeggedCollecting [] hI)

end RepriceInvariant

/-- **Re-pricing keeps the special orders registered.** -/
theorem OrderBook.Registered.repricing [LevelQueue L] [LevelMatch L] [LevelResize L] :
    RepriceInvariant fun b : OrderBook L => b.Sound ∧ b.Registered where
  same hsame h := Registered.steps.same hsame h
  update _ _ := Registered.steps.calls.update _ fun _ _ hu => nomatch hu
  forget hget hforgets h :=
    ⟨⟨h.1.located, h.1.standing, h.1.nonempty⟩,
      h.2.forget hforgets (h.1.not_holds_of_getOrder hget)⟩

/-- **Re-pricing keeps the orders in their place registered.** -/
theorem OrderBook.Registered.locatedRepricing [LevelQueue L] [LevelMatch L] [LevelResize L] :
    RepriceInvariant fun b : OrderBook L => b.Located ∧ b.Registered where
  same hsame h := Registered.locatedSteps.same hsame h
  update _ _ := Registered.locatedSteps.calls.update _ fun _ _ hu => nomatch hu
  forget hget hforgets h := ⟨h.1, h.2.forget hforgets (h.1.not_holds_of_getOrder hget)⟩

/-! ### Sessions -/

omit [PriceLevel L] in
/-- Registering orders one by one registers each special one. -/
theorem mem_ids_foldl_reindexPlaced {rebuildRisk : Bool} (rest : List (Side × ℕ × Order))
    (b : OrderBook L) :
    i ∈ (rest.foldl (reindexPlaced rebuildRisk) b).specialOrderTracker.ids k ↔
      i ∈ b.specialOrderTracker.ids k ∨ ∃ x ∈ rest, k.includes x.2.2 ∧ i = x.2.2.id := by
  induction rest generalizing b with
  | nil => simp
  | cons x rest ih =>
    rw [List.foldl_cons, ih]
    have hone : i ∈ (reindexPlaced rebuildRisk b x).specialOrderTracker.ids k ↔
        i ∈ b.specialOrderTracker.ids k ∨ k.includes x.2.2 ∧ i = x.2.2.id :=
      SpecialOrderTracker.mem_ids_register
    rw [hone, or_assoc, List.exists_mem_cons_iff]

section Session

variable [SnapshotChecksum] [LevelSnapshot L] [LevelQueue L] [LevelMatch L] [LevelResize L]

omit [LevelSnapshot L] [LevelQueue L] [LevelMatch L] [LevelResize L] in
theorem OrderBook.Registered.restore (p : OrderBookSnapshotPackage) (h : b.Registered) :
    (restoreFromSnapshotPackage p b).2.Registered := by
  rcases restoreFromSnapshotPackage_cases p b with ⟨e, hrun⟩ | ⟨prepared, hprep, hrun⟩
  · rwa [hrun]
  obtain ⟨hprices, -, -⟩ := prepareSnapshotLevels_eq_ok hprep
  rw [hrun]
  intro k side price o ho hk
  have hspecial : (b.packageRestored p prepared).specialOrderTracker =
      (prepared.placed.foldl (reindexPlaced true)
        (({ b with riskState := { config := p.riskConfig } } : OrderBook L).installed
          prepared)).specialOrderTracker := by
    rw [packageRestored, commitRestoredLevels_eq]
  rw [hspecial, mem_ids_foldl_reindexPlaced]
  exact Or.inr ⟨_, (packageRestored_rests hprices).mp ho, hk, rfl⟩

omit [SnapshotChecksum] [LevelSnapshot L] [LevelQueue L] [LevelMatch L] [LevelResize L] in
theorem OrderBook.Registered.configure (s : Setting) (h : b.Registered) :
    (b.configure s).Registered := by
  cases s with
  | marketClose timestamp => cases timestamp <;> exact h
  | _ => exact h

omit [LevelSnapshot L] in
/-- **A session keeps the orders in their place registered**, whatever packages it restores. -/
theorem located_session :
    SessionInvariant (fun b : OrderBook L => b.Located ∧ b.Registered) (fun _ => True)
      (fun _ => True) where
  calls := Registered.locatedSteps.calls
  configure s h := by
    refine ⟨fun side price o ho => ?_, h.2.configure s⟩
    rw [orderLocations_configure]
    exact h.1 (rests_configure.mp ho)
  snapshot _ _ := trivial
  restore {_ p} _ h := ⟨h.1.restore p, h.2.restore p⟩

theorem registered_session :
    SessionInvariant (fun b : OrderBook L => b.Sound ∧ b.Registered) (fun _ => True)
      SoundPackage where
  calls := Registered.steps.calls
  configure s h := ⟨sound_session.configure s h.1, h.2.configure s⟩
  snapshot hrun h := h.1.soundPackage hrun
  restore {_ p} hp h := ⟨h.1.restore hp, h.2.restore p⟩

omit [LevelSnapshot L] [SnapshotChecksum] in
/-- Re-pricing keeps what every call keeps of every level. -/
theorem LevelClosed.repricing {P : Side → ℕ → L → Prop} (h : LevelClosed P) :
    RepriceInvariant (OrderBook.EveryLevel P) where
  same hsame hP := h.steps.same hsame hP
  update _ _ := h.steps.calls.update _ fun _ _ hu => nomatch hu
  forget _ _ hP := hP

omit [LevelSnapshot L] [LevelQueue L] [LevelMatch L] [LevelResize L] in
/-- A session with re-pricing keeps what both keep. -/
theorem SessionInvariant.calls_run [DisplayId] {I : OrderBook L → Prop}
    {S : OrderBookSnapshotPackage → Prop} (h : SessionInvariant I (fun _ => True) S)
    (hreprice : RepriceInvariant I) (calls : List PublicCall) {s : Session L} (hI : I s.book)
    (hS : ∀ p ∈ s.packages, S p) : I (calls.foldl Session.call s).book := by
  induction calls generalizing s with
  | nil => exact hI
  | cons call calls ih =>
    cases call with
    | op op =>
      obtain ⟨hI', hS'⟩ := h.step op.resizesTo_true hI hS
      exact ih hI' hS'
    | reprice r => exact ih (hreprice.reprice r hI) hS

omit [LevelSnapshot L] [LevelQueue L] [LevelMatch L] [LevelResize L] in
/-- What commands alone reach is reachable. -/
theorem OrderBook.reachableByCalls_run [DisplayId] (symbol : String) (clock : Clock)
    (commands : List Command) :
    ((OrderBook.withClock symbol clock : OrderBook L).run commands).ReachableByCalls := by
  refine ⟨symbol, clock, commands.map fun c => .op (.command c), ?_⟩
  suffices hrun : ∀ s : Session L, s.book.run commands =
      ((commands.map fun c => PublicCall.op (.command c)).foldl Session.call s).book from
    hrun { book := .withClock symbol clock }
  intro s
  induction commands generalizing s with
  | nil => rfl
  | cons c commands ih => exact ih (s.call (.op (.command c)))

/-- **Every reachable book is sound and has its special orders registered.** -/
theorem OrderBook.ReachableByCalls.registered [DisplayId] (h : b.ReachableByCalls) :
    b.Sound ∧ b.Registered := by
  obtain ⟨symbol, clock, calls, rfl⟩ := h
  refine registered_session.calls_run Registered.repricing calls ⟨?_, ?_⟩
    fun p hp => absurd hp List.not_mem_nil
  · exact OrderBook.Sound.of_no_levels fun side price => by cases side <;> rfl
  · rintro k side price o ⟨l, hl, -⟩
    cases side <;> cases hl

/-- **Every reachable book stores its levels at their own price.** -/
theorem OrderBook.ReachableByCalls.keyed [DisplayId] [LevelDisplay L] (h : b.ReachableByCalls) :
    b.Keyed := by
  obtain ⟨symbol, clock, calls, rfl⟩ := h
  refine keyed_session.calls_run levelClosed_keyed.repricing calls (fun side price l hl => ?_)
    fun p hp => absurd hp List.not_mem_nil
  cases side <;> cases hl

omit [LevelSnapshot L] in
/-- **No special order is lost to re-pricing.** After every run of public calls on an empty book,
re-pricing and restores of any packages among them, each resting pegged order is in the pegged set
of the tracker and each resting trailing stop in the trailing set. -/
theorem special_orders_registered [DisplayId] (symbol : String) (clock : Clock)
    (packages : List OrderBookSnapshotPackage) (calls : List PublicCall) :
    let b := (calls.foldl Session.call
      ({ book := .withClock symbol clock, packages := packages } : Session L)).book
    (∀ side price o, b.Rests side price o → SpecialKind.pegged.includes o →
        o.id ∈ b.specialOrderTracker.peggedOrders) ∧
      ∀ side price o, b.Rests side price o → SpecialKind.trailingStop.includes o →
        o.id ∈ b.specialOrderTracker.trailingStopOrders := by
  intro b
  have hstart : (OrderBook.withClock symbol clock : OrderBook L).Located ∧
      (OrderBook.withClock symbol clock : OrderBook L).Registered := by
    refine ⟨.of_no_levels fun side price => by cases side <;> rfl, ?_⟩
    rintro k side price o ⟨l, hl, -⟩
    cases side <;> cases hl
  have h : b.Located ∧ b.Registered :=
    located_session.calls_run Registered.locatedRepricing calls hstart fun _ _ => trivial
  exact ⟨fun side price o ho hk => h.2 ho hk, fun side price o ho hk => h.2 ho hk⟩

end Session

/-- A package made elsewhere, with a pegged order that no book would have let rest. -/
def foreignPackage : OrderBookSnapshotPackage where
  version := 3
  snapshot :=
    { symbol := "BTC"
      timestamp := 0
      bids := [⟨99, 3, 0, 1, [⟨5, 99, .buy, 7, 0, .ioc, 3, .pegged 1 .bestBid⟩],
        ⟨0, 0, 0, 0, 0, false⟩⟩]
      asks := [] }
  checksum := "digest"

/-- Its order is registered after the restore. -/
theorem foreignPackage_registered :
    letI := sampleDigest
    letI := tallyIds
    let b := ([PublicCall.op (.restoreFromSnapshotPackage 0)].foldl Session.call
      ({ book := .withClock "BTC" ⟨fun n => n, 0⟩, packages := [foreignPackage] } :
        Session FifoLevel)).book
    ∃ side price o, b.Rests side price o ∧ o.id ∈ b.specialOrderTracker.peggedOrders := by
  let _ := sampleDigest
  let _ := tallyIds
  have hrests : (⟨5, 99, .buy, 7, 0, .ioc, 3, .pegged 1 .bestBid⟩ : Order) ∈
      ([PublicCall.op (.restoreFromSnapshotPackage 0)].foldl Session.call
        ({ book := .withClock "BTC" ⟨fun n => n, 0⟩, packages := [foreignPackage] } :
          Session FifoLevel)).book.restingOrders := by decide
  obtain ⟨side, price, ho⟩ := mem_restingOrders.mp hrests
  exact ⟨side, price, _, ho, (special_orders_registered "BTC" ⟨fun n => n, 0⟩ [foreignPackage]
    [.op (.restoreFromSnapshotPackage 0)]).1 side price _ ho rfl⟩

end OrderBookRs
