import OrderBookRs.Records

/-!
# What the public calls do to a book

One lemma per method says everything the method can do to the state, with the guards under which it
does so; the checks a method makes are absorbed by `SameState`. On top of these lemmas stands the
induction over runs: `CallInvariant` lists what has to be shown of a property once per method, and
`CallInvariant.run` concludes for every sequence of calls.

## Main definitions

* `OrderBook.cancelAt`, `OrderBook.resizeAt`, `OrderBook.dropAt`, `OrderBook.restAt`: the effects of
  a cancel, a resize, a cancel request and of an order coming to rest.
* `OrderBook.CancelsAt`, `OrderBook.ResizesAt`: an order is found and cancelled, or resized.
* `StepInvariant`, `CallInvariant`: a property kept by every effect, by every method.

## Main results

* `OrderBook.cancelOrderWithReason_cases`, `OrderBook.updateQuantity_cases`,
  `OrderBook.cancelByUpdate_cases`, `OrderBook.restResidual_cases`, `OrderBook.updateOrder_cases`.
* `StepInvariant.calls`, `CallInvariant.execute`, `CallInvariant.run`, `SessionInvariant.run`.
-/

namespace OrderBookRs

open PriceLevel Fallible

variable {newOrder o original x : Order} {u : OrderUpdate} {side side' : Side} {price' : ℕ}

namespace OrderBook

variable {L : Type} [PriceLevel L] {b b' : OrderBook L} {price : ℕ} {l : L}

/-! ### Effects -/

/-- A cancelled order leaves its level and all indices; a level left without orders goes too. -/
def cancelAt (b : OrderBook L) (side : Side) (price : ℕ) (l : L) (o : Order) : OrderBook L :=
  if orderCount l = 0 then (b.stpCancel side price l o).removeLevel side price
  else b.stpCancel side price l o

/-- A cancel request through `update_order` drops the order from its level, the locations and the
user index only. -/
def dropAt (b : OrderBook L) (side : Side) (price : ℕ) (l : L) (id : OrderId) : OrderBook L :=
  let b := (b.setLevel side price l).deliverLevelChange side (PriceLevel.price l)
    (visibleQuantity l)
  let b : OrderBook L :=
    { b with
      orderLocations := b.orderLocations.erase id
      userOrders := b.userOrders.untrackById id }
  if orderCount l = 0 then b.removeLevel side price else b

/-- A resized order keeps its place in the indices unless its level ran empty. -/
def resizeAt (b : OrderBook L) (side : Side) (price : ℕ) (l : L) (o : Order) : OrderBook L :=
  let b : OrderBook L :=
    { b.setLevel side price l with
      riskState := b.riskState.onQuantityUpdate o.id o.totalQuantity }
  let b := b.deliverLevelChange side (PriceLevel.price l) (visibleQuantity l)
  if orderCount l = 0 then
    { b.removeLevel side price with
      orderLocations := b.orderLocations.erase o.id
      userOrders := b.userOrders.untrackById o.id }
  else b

/-- An order that came to rest is on its level and in all indices. -/
def restAt (b : OrderBook L) (o : Order) (resting : Order) (l : L) (remaining : ℕ) : OrderBook L :=
  let b := (b.setLevel o.side o.price l).deliverLevelChange o.side (PriceLevel.price l)
    (visibleQuantity l)
  { b with
    orderLocations := b.orderLocations.insert o.id (o.price, o.side)
    riskState := b.riskState.onAdmission o.id o.userId o.price remaining
    userOrders := b.userOrders.track o.userId o.id
    specialOrderTracker := b.specialOrderTracker.register resting }

theorem dropAt_sameOrders (b : OrderBook L) (side : Side) (price : ℕ) (l : L) (id : OrderId) :
    (let b' : OrderBook L :=
        { b.setLevel side price l with
          orderLocations := b.orderLocations.erase id
          userOrders := b.userOrders.untrackById id }
      if orderCount l = 0 then b'.removeLevel side price else b').SameOrders
      (b.dropAt side price l id) := by
  obtain ⟨cache, h⟩ := (b.setLevel side price l).deliverLevelChange_eq side (PriceLevel.price l)
    (visibleQuantity l)
  rw [dropAt, h]
  split_ifs
  · exact ⟨cache, _, _, _, _, rfl⟩
  · exact ⟨cache, _, _, _, _, rfl⟩

theorem resizeAt_sameOrders (b : OrderBook L) (side : Side) (price : ℕ) (l : L) (o : Order) :
    (let b' : OrderBook L :=
        { b.setLevel side price l with
          riskState := b.riskState.onQuantityUpdate o.id o.totalQuantity }
      if orderCount l = 0 then
        { b'.removeLevel side price with
          orderLocations := b.orderLocations.erase o.id
          userOrders := b.userOrders.untrackById o.id }
      else b').SameOrders (b.resizeAt side price l o) := by
  obtain ⟨cache, h⟩ := ({ b.setLevel side price l with
    riskState := b.riskState.onQuantityUpdate o.id o.totalQuantity } :
      OrderBook L).deliverLevelChange_eq side (PriceLevel.price l) (visibleQuantity l)
  rw [resizeAt, h]
  split_ifs
  · exact ⟨cache, _, _, _, _, rfl⟩
  · exact ⟨cache, _, _, _, _, rfl⟩

theorem restAt_sameOrders (b : OrderBook L) (o resting : Order) (l : L) (remaining : ℕ) :
    ({ b.setLevel o.side o.price l with
        orderLocations := b.orderLocations.insert o.id (o.price, o.side)
        riskState := b.riskState.onAdmission o.id o.userId o.price remaining
        userOrders := b.userOrders.track o.userId o.id
        specialOrderTracker := b.specialOrderTracker.register resting } : OrderBook L).SameOrders
      (b.restAt o resting l remaining) := by
  obtain ⟨cache, h⟩ := (b.setLevel o.side o.price l).deliverLevelChange_eq o.side
    (PriceLevel.price l) (visibleQuantity l)
  rw [restAt, h]
  exact ⟨cache, _, _, _, _, rfl⟩

section EffectFields

variable (b : OrderBook L) (side : Side) (price : ℕ) (l : L) (o resting : Order) (remaining : ℕ)

theorem cancelAt_get? : b.Rewrites (b.cancelAt side price l o) side price l :=
  .of_setLevel fun _ _ => stpCancel_get? ..

theorem dropAt_get? (id : OrderId) : b.Rewrites (b.dropAt side price l id) side price l := by
  obtain ⟨_, _, _, _, _, h⟩ := b.dropAt_sameOrders side price l id
  rw [h]
  exact .of_setLevel fun _ _ => get?_setLevel ..

theorem resizeAt_get? : b.Rewrites (b.resizeAt side price l o) side price l := by
  obtain ⟨_, _, _, _, _, h⟩ := b.resizeAt_sameOrders side price l o
  have hset : b.Rewrites (if orderCount l = 0 then (b.setLevel side price l).removeLevel side price
    else b.setLevel side price l) side price l := .of_setLevel fun _ _ => get?_setLevel ..
  rw [h]
  split_ifs at hset ⊢ <;> exact hset

theorem restAt_get? (side' : Side) (price' : ℕ) :
    ((b.restAt o resting l remaining).levels side').get? price' =
      if side' = o.side ∧ price' = o.price then some l else (b.levels side').get? price' := by
  obtain ⟨_, _, _, _, _, h⟩ := b.restAt_sameOrders o resting l remaining
  rw [h]
  exact get?_setLevel ..

@[simp] theorem cancelAt_orderLocations :
    (b.cancelAt side price l o).orderLocations = b.orderLocations.erase o.id := by
  rw [cancelAt]
  split_ifs
  · exact stpCancel_orderLocations ..
  · exact stpCancel_orderLocations ..

@[simp] theorem cancelAt_userOrders :
    (b.cancelAt side price l o).userOrders = b.userOrders.untrackUser o.userId o.id := by
  rw [cancelAt]
  split_ifs
  · exact stpCancel_userOrders ..
  · exact stpCancel_userOrders ..

@[simp] theorem cancelAt_specialOrderTracker :
    (b.cancelAt side price l o).specialOrderTracker = b.specialOrderTracker.unregister o.id := by
  rw [cancelAt]
  split_ifs
  · exact stpCancel_specialOrderTracker ..
  · exact stpCancel_specialOrderTracker ..

@[simp] theorem dropAt_orderLocations (id : OrderId) :
    (b.dropAt side price l id).orderLocations = b.orderLocations.erase id := by
  obtain ⟨_, _, _, _, _, h⟩ := b.dropAt_sameOrders side price l id
  rw [h]
  split_ifs <;> rfl

@[simp] theorem dropAt_userOrders (id : OrderId) :
    (b.dropAt side price l id).userOrders = b.userOrders.untrackById id := by
  obtain ⟨_, _, _, _, _, h⟩ := b.dropAt_sameOrders side price l id
  rw [h]
  split_ifs <;> rfl

@[simp] theorem dropAt_specialOrderTracker (id : OrderId) :
    (b.dropAt side price l id).specialOrderTracker = b.specialOrderTracker := by
  obtain ⟨_, _, _, _, _, h⟩ := b.dropAt_sameOrders side price l id
  rw [h]
  split_ifs <;> rfl

theorem dropAt_orderStateTracker (id : OrderId) :
    (b.dropAt side price l id).orderStateTracker = b.orderStateTracker := by
  obtain ⟨cache, h⟩ := (b.setLevel side price l).deliverLevelChange_eq side (PriceLevel.price l)
    (visibleQuantity l)
  rw [OrderBook.dropAt, h]
  split_ifs
  · rfl
  · rfl

theorem resizeAt_orderLocations : (b.resizeAt side price l o).orderLocations =
    if orderCount l = 0 then b.orderLocations.erase o.id else b.orderLocations := by
  obtain ⟨_, _, _, _, _, h⟩ := b.resizeAt_sameOrders side price l o
  rw [h]
  split_ifs <;> rfl

theorem resizeAt_userOrders : (b.resizeAt side price l o).userOrders =
    if orderCount l = 0 then b.userOrders.untrackById o.id else b.userOrders := by
  obtain ⟨_, _, _, _, _, h⟩ := b.resizeAt_sameOrders side price l o
  rw [h]
  split_ifs <;> rfl

@[simp] theorem resizeAt_specialOrderTracker :
    (b.resizeAt side price l o).specialOrderTracker = b.specialOrderTracker := by
  obtain ⟨_, _, _, _, _, h⟩ := b.resizeAt_sameOrders side price l o
  rw [h]
  split_ifs <;> rfl

@[simp] theorem restAt_orderLocations : (b.restAt o resting l remaining).orderLocations =
    b.orderLocations.insert o.id (o.price, o.side) := by
  obtain ⟨_, _, _, _, _, h⟩ := b.restAt_sameOrders o resting l remaining
  rw [h]

@[simp] theorem restAt_userOrders : (b.restAt o resting l remaining).userOrders =
    b.userOrders.track o.userId o.id := by
  obtain ⟨_, _, _, _, _, h⟩ := b.restAt_sameOrders o resting l remaining
  rw [h]

@[simp] theorem restAt_specialOrderTracker : (b.restAt o resting l remaining).specialOrderTracker =
    b.specialOrderTracker.register resting := by
  obtain ⟨_, _, _, _, _, h⟩ := b.restAt_sameOrders o resting l remaining
  rw [h]

@[simp] theorem restAt_riskState : (b.restAt o resting l remaining).riskState =
    b.riskState.onAdmission o.id o.userId o.price remaining := by
  obtain ⟨_, _, _, _, _, h⟩ := b.restAt_sameOrders o resting l remaining
  rw [h]

@[simp] theorem cancelAt_riskState :
    (b.cancelAt side price l o).riskState = b.riskState.onCancel o.id := by
  rw [cancelAt]
  split_ifs
  · exact stpCancel_riskState ..
  · exact stpCancel_riskState ..

@[simp] theorem dropAt_riskState (id : OrderId) :
    (b.dropAt side price l id).riskState = b.riskState := by
  obtain ⟨_, _, _, _, _, h⟩ := b.dropAt_sameOrders side price l id
  rw [h]
  split_ifs <;> rfl

@[simp] theorem resizeAt_riskState : (b.resizeAt side price l o).riskState =
    b.riskState.onQuantityUpdate o.id o.totalQuantity := by
  obtain ⟨_, _, _, _, _, h⟩ := b.resizeAt_sameOrders side price l o
  rw [h]
  split_ifs <;> rfl

theorem restAt_rests :
    (b.restAt o resting l remaining).Rests side' price' x ↔
      if side' = o.side ∧ price' = o.price then x ∈ orders l else b.Rests side' price' x := by
  simp only [Rests, restAt_get?]
  split_ifs
  · simp
  · rfl

variable {b l o resting}

/-- An order that came to rest joined the others. -/
theorem restAt_rests_iff [LevelQueue L] {l' : L} (remaining : ℕ)
    (hl : l = ((b.levels o.side).get? o.price).getD (new o.price))
    (horders : orders l' = orders l ++ [resting]) :
    (b.restAt o resting l' remaining).Rests side' price' x ↔
      b.Rests side' price' x ∨ side' = o.side ∧ price' = o.price ∧ x = resting := by
  rw [restAt_rests]
  split_ifs with hhere
  · obtain ⟨rfl, rfl⟩ := hhere
    have hold : x ∈ orders l ↔ b.Rests o.side o.price x := by
      rw [hl, Rests]
      cases (b.levels o.side).get? o.price with
      | none => simp [LevelQueue.orders_new]
      | some => simp
    rw [horders, List.mem_append, List.mem_singleton, hold]
    simp
  · refine ⟨Or.inl, fun h => h.resolve_right fun hnew => hhere ⟨hnew.1, hnew.2.1⟩⟩

/-- Where a level was rewritten and removed if empty, its orders rest and nothing else changed. -/
theorem rests_of_rewritten [LevelQueue L] {side : Side} {price : ℕ}
    (h : b.Rewrites b' side price l) :
    b'.Rests side' price' x ↔
      if side' = side ∧ price' = price then x ∈ orders l else b.Rests side' price' x := by
  simp only [Rests, h]
  split_ifs with hhere hzero
  · simp [orderCount_eq_zero.mp hzero]
  · simp
  · rfl

end EffectFields

theorem Quiet.resizeAt (h : b.Quiet b') (side : Side) (price : ℕ) (l : L) (o : Order) :
    (b.resizeAt side price l o).Quiet (b'.resizeAt side price l o) := by
  obtain ⟨cache, clock, rfl⟩ := h
  obtain ⟨c, hc⟩ := deliverLevelChange_eq
    ({ b.setLevel side price l with
      riskState := b.riskState.onQuantityUpdate o.id o.totalQuantity } : OrderBook L) side
    (PriceLevel.price l) (visibleQuantity l)
  obtain ⟨c', hc'⟩ := deliverLevelChange_eq
    ({ ({ b with cache := cache, clock := clock } : OrderBook L).setLevel side price l with
      riskState := b.riskState.onQuantityUpdate o.id o.totalQuantity } : OrderBook L) side
    (PriceLevel.price l) (visibleQuantity l)
  rw [OrderBook.resizeAt, OrderBook.resizeAt]
  rw [hc, hc']
  split_ifs
  · exact ⟨_, _, rfl⟩
  · exact ⟨_, _, rfl⟩

/-! ### Cancels -/

theorem getOrder_eq_some {id : OrderId} (h : b.getOrder id = some o) :
    ∃ side price l, b.orderLocations.lookup id = some (price, side) ∧
      (b.levels side).get? price = some l ∧ o ∈ orders l ∧ o.id = id := by
  simp only [getOrder, Option.bind_eq_bind, Option.bind_eq_some_iff] at h
  obtain ⟨⟨price, side⟩, hloc, l, hl, hfind⟩ := h
  exact ⟨side, price, l, hloc, hl, List.mem_of_find?_eq_some hfind,
    by simpa using List.find?_some hfind⟩

section Queue

variable [LevelQueue L]

/-- An order is found at the place it is registered at. -/
theorem getOrder_of_mem (hplace : b.orderLocations.lookup o.id = some (price, side))
    (hl : (b.levels side).get? price = some l) (ho : o ∈ orders l) : b.getOrder o.id = some o := by
  have hfind : (orders l).find? (fun x => x.id = o.id) = some o := by
    cases hf : (orders l).find? (fun x => x.id = o.id) with
    | none => exact absurd (List.find?_eq_none.mp hf o ho) (by simp)
    | some =>
      rw [eq_of_mem_orders (List.mem_of_find?_eq_some hf) ho (by simpa using List.find?_some hf)]
  simp only [getOrder, hplace, hl, Option.bind_eq_bind, Option.bind_some, hfind]

/-- The order `o` is found where it is registered and cancelled there. -/
structure CancelsAt (b : OrderBook L) (side : Side) (price : ℕ) (l l' : L) (o : Order) : Prop
    extends off : b.TakesOff side price l l' o where
  place : b.orderLocations.lookup o.id = some (price, side)
  run : PriceLevel.updateOrder l (.cancel o.id) = (.ok (some o), l')

/-- **`cancel_order_with_reason`** finds the order, takes it off the book and records the cancel, or
does nothing. -/
theorem cancelOrderWithReason_step (b : OrderBook L) (id : OrderId) (reason : CancelReason) :
    (b.Quiet (b.cancelOrderWithReason id reason).1 ∧
        (b.cancelOrderWithReason id reason).2 = none ∧
        ∀ side price o, b.orderLocations.lookup id = some (price, side) →
          b.Rests side price o → o.id ≠ id) ∨
      ∃ side price l l' o, o.id = id ∧ b.CancelsAt side price l l' o ∧
        (b.cancelOrderWithReason id reason).2 = some o ∧
        Quiet { b.cancelAt side price l' o with
          orderStateTracker :=
            (b.trackState id (.cancelled (b.trackedFilled id) reason)).orderStateTracker }
          (b.cancelOrderWithReason id reason).1 := by
  rw [cancelOrderWithReason]
  cases hloc : b.orderLocations.lookup id with
  | none =>
    have hloc' : b.invalidateCache.orderLocations.lookup id = none := hloc
    simp only [hloc']
    exact Or.inl ⟨b.quiet_invalidateCache, trivial, fun _ _ _ h => by cases h⟩
  | some loc =>
    obtain ⟨price, side⟩ := loc
    have hloc' : b.invalidateCache.orderLocations.lookup id = some (price, side) := hloc
    simp only [hloc']
    cases hlevel : (b.levels side).get? price with
    | none =>
      have hlevel' : (b.invalidateCache.levels side).get? price = none := hlevel
      simp only [hlevel']
      refine Or.inl ⟨⟨_, _, rfl⟩, trivial, ?_⟩
      rintro _ _ o ⟨rfl, rfl⟩ ⟨l, hl, -⟩
      rw [hlevel] at hl
      cases hl
    | some l =>
      have hlevel' : (b.invalidateCache.levels side).get? price = some l := hlevel
      simp only [hlevel']
      by_cases hid : id ∈ orderIds l
      · obtain ⟨o, ho, rfl⟩ := mem_orderIds.mp hid
        obtain ⟨l', hrun, horders⟩ := LevelQueue.cancel_of_mem ho
        refine Or.inr ⟨side, price, l, l', o, rfl, ⟨⟨hlevel, ho, horders⟩, hloc, hrun⟩, ?_⟩
        rw [hrun]
        obtain ⟨c₁, h₁⟩ := (b.invalidateCache.setLevel side price l').deliverLevelChange_eq side
          (PriceLevel.price l') (visibleQuantity l')
        obtain ⟨c₂, h₂⟩ := (b.setLevel side price l').invalidateCache.deliverLevelChange_eq side
          (PriceLevel.price l') (visibleQuantity l')
        simp only [cancelAt, stpCancel, h₁, h₂]
        split_ifs
        · exact ⟨trivial, _, _, rfl⟩
        · exact ⟨trivial, _, _, rfl⟩
      · rw [LevelQueue.cancel_of_notMem hid]
        refine Or.inl ⟨?_, rfl, ?_⟩
        · show b.Quiet (b.invalidateCache.setLevel side price l).invalidateCache
          rw [setLevel_self hlevel']
          exact ⟨_, _, rfl⟩
        · rintro _ _ o ⟨rfl, rfl⟩ hrests rfl
          exact hid (mem_orderIds.mpr ⟨o, hrests.mem_of_get? hlevel, rfl⟩)

theorem cancelOrderWithReason_cases (b : OrderBook L) (id : OrderId) (reason : CancelReason) :
    (b.SameState (b.cancelOrderWithReason id reason).1 ∧
        (b.cancelOrderWithReason id reason).2 = none ∧
        ∀ side price o, b.orderLocations.lookup id = some (price, side) →
          b.Rests side price o → o.id ≠ id) ∨
      ∃ side price l l' o, o.id = id ∧ b.CancelsAt side price l l' o ∧
        (b.cancelOrderWithReason id reason).2 = some o ∧
        (b.cancelAt side price l' o).SameState (b.cancelOrderWithReason id reason).1 := by
  rcases b.cancelOrderWithReason_step id reason with
    ⟨hquiet, hnone⟩ | ⟨side, price, l, l', o, hid, hout, hsome, hquiet⟩
  · exact Or.inl ⟨hquiet.sameState, hnone⟩
  · exact Or.inr ⟨side, price, l, l', o, hid, hout, hsome,
      SameState.trans ⟨_, _, _, rfl⟩ hquiet.sameState⟩

/-- **A `Cancel` request** finds the order and drops it, or does nothing. -/
theorem cancelByUpdate_cases (b : OrderBook L) (id : OrderId) :
    (cancelByUpdate id b = (.ok none, b)) ∨
      ∃ side price l l' o, o.id = id ∧ b.CancelsAt side price l l' o ∧
        cancelByUpdate id b = (.ok (some o), b.dropAt side price l' id) := by
  rw [cancelByUpdate]
  cases hget : b.getOrder id with
  | none =>
    refine Or.inl ?_
    cases b.orderLocations.lookup id with
    | none | some => rfl
  | some o =>
    obtain ⟨side, price, l, hloc, hl, ho, rfl⟩ := getOrder_eq_some hget
    obtain ⟨l', hrun, horders⟩ := LevelQueue.cancel_of_mem ho
    refine Or.inr ⟨side, price, l, l', o, rfl, ⟨⟨hl, ho, horders⟩, hloc, hrun⟩, ?_⟩
    simp only [hloc, cancelOnLevel, hl, hrun, decide_eq_true_eq]
    rfl

end Queue

/-! ### Resizes -/

section Resize

/-- The level `l` at this place holds the order `o`, and `l'` is that level with `o` resized to `q`:
the order is still there unless `q` is zero, and the others are as they were. -/
structure Resizes (b : OrderBook L) (side : Side) (price : ℕ) (l l' : L) (o : Order)
    (q : ℕ) : Prop where
  level : (b.levels side).get? price = some l
  mem : o ∈ orders l
  others : ((orders l').filter fun x => x.id ≠ o.id) = (orders l).filter fun x => x.id ≠ o.id
  kept : withReducedQuantity L o q ∈ orders l' ∨ q = 0 ∧ o.id ∉ orderIds l'

theorem Resizes.rests {l' : L} {q : ℕ} (h : b.Resizes side price l l' o q) :
    b.Rests side price o :=
  ⟨l, h.level, h.mem⟩

/-- The order `o` is found where it is registered, passes the checks for its new size and is resized
there. -/
structure ResizesAt (b : OrderBook L) (side : Side) (price : ℕ) (l l' : L) (o : Order)
    (q : ℕ) : Prop extends resized : b.Resizes side price l l' o q where
  place : b.orderLocations.lookup o.id = some (price, side)
  run : PriceLevel.updateOrder l (.updateQuantity o.id q) =
    (.ok (some (withReducedQuantity L o q)), l')
  shape : b.checkShape (withReducedQuantity L o q) = .ok ()
  risk : ∃ reference, b.riskState.checkModifyAdmission o.id (withReducedQuantity L o q).userId price
    (withReducedQuantity L o q).totalQuantity reference = .ok ()

variable [LevelResize L]

theorem applyResize_cases {q : ℕ} (hl : (b.levels side).get? price = some l) (ho : o ∈ orders l) :
    (∃ e, applyResize o.id price side l q b = (.error (.priceLevelError e), b)) ∨
      ∃ l', PriceLevel.updateOrder l (.updateQuantity o.id q) =
          (.ok (some (withReducedQuantity L o q)), l') ∧
        (((orders l').filter fun x => x.id ≠ o.id) = (orders l).filter fun x => x.id ≠ o.id) ∧
        (withReducedQuantity L o q ∈ orders l' ∨ q = 0 ∧ o.id ∉ orderIds l') ∧
        (applyResize o.id price side l q b).1 = .ok (some (withReducedQuantity L o q)) ∧
        (b.resizeAt side price l' (withReducedQuantity L o q)).Quiet
          (applyResize o.id price side l q b).2 := by
  rcases LevelResize.resize_of_mem (q := q) ho with ⟨e, hrun⟩ | ⟨l', hrun, hothers, hkept⟩
  · refine Or.inl ⟨e, ?_⟩
    rw [applyResize, hrun]
    simp only [setLevel_self hl]
  · refine Or.inr ⟨l', hrun, hothers, hkept, ?_⟩
    rw [applyResize, hrun, resizeAt, reduced_id]
    split_ifs
    · exact ⟨rfl, _, _, rfl⟩
    · exact ⟨rfl, _, _, rfl⟩

/-- **`UpdateQuantity`** passes its checks and resizes the order in place, or does nothing. -/
theorem updateQuantity_cases (b : OrderBook L) (id : OrderId) (q : ℕ) :
    b.Quiet (updateQuantity id q b).2 ∨
      ∃ side price l l' o, o.id = id ∧ b.ResizesAt side price l l' o q ∧
        (updateQuantity id q b).1 = .ok (some (withReducedQuantity L o q)) ∧
        (b.resizeAt side price l' (withReducedQuantity L o q)).Quiet
          (updateQuantity id q b).2 := by
  rw [updateQuantity, bind_run_of_ok (get_run b)]
  cases hloc : b.orderLocations.lookup id with
  | none => exact Or.inl (.refl b)
  | some loc =>
    obtain ⟨price, side⟩ := loc
    dsimp only
    cases hl : (b.levels side).get? price with
    | none => exact Or.inl b.quiet_invalidateCache
    | some l =>
      dsimp only
      cases hfind : (orders l).find? fun o => o.id = id with
      | none => exact Or.inl (.refl b)
      | some o =>
        have ho := List.mem_of_find?_eq_some hfind
        obtain rfl : o.id = id := by simpa using List.find?_some hfind
        dsimp only
        rcases (quiet_validateOrderShape _).bind_cases _ b with
          ⟨_, b₁, -, hquiet₁, hrun⟩ | ⟨u, b₁, hshape, hquiet₁, hrun⟩
        · rw [hrun]
          exact Or.inl hquiet₁
        rw [hrun]
        rcases (quiet_checkRiskModifyAdmission _ _ _ _).bind_cases _ b₁ with
          ⟨_, b₂, -, hquiet₂, hrun⟩ | ⟨u', b₂, hrisk, hquiet₂, hrun⟩
        · rw [hrun]
          exact Or.inl (hquiet₁.trans hquiet₂)
        rw [hrun]
        have haccept := (succeeds_validateOrderShape.mp ⟨u, b₁, hshape⟩).shape
        have hrisk' : ∃ reference, b.riskState.checkModifyAdmission o.id
            (withReducedQuantity L o q).userId price (withReducedQuantity L o q).totalQuantity
              reference = .ok () := by
          obtain ⟨_, _, rfl⟩ := hquiet₁
          exact ⟨_, (Prod.mk.inj hrisk).1⟩
        have hsame := hquiet₁.trans hquiet₂
        have hl₂ : (b₂.levels side).get? price = some l := by
          obtain ⟨_, _, rfl⟩ := hsame
          exact hl
        rcases applyResize_cases hl₂ ho with ⟨e, hrun⟩ | ⟨l', hlevel, hothers, hkept, hok, hstate⟩
        · rw [hrun]
          exact Or.inl hsame
        · exact Or.inr ⟨side, price, l, l', o, rfl,
            ⟨⟨hl, ho, hothers, hkept⟩, hloc, hlevel, haccept, hrisk'⟩, hok,
            (hsame.resizeAt ..).trans hstate⟩

end Resize

/-! ### Coming to rest -/

theorem residual_eq_setTranches (o : Order) (remaining : ℕ) :
    ∃ v h, residual o remaining = o.setTranches v h := by
  rw [residual]
  split_ifs
  · exact o.setTotalRemaining_eq_setTranches remaining
  · exact o.eq_setTranches

@[simp] theorem residual_id (o : Order) (remaining : ℕ) : (residual o remaining).id = o.id := by
  obtain ⟨v, h, e⟩ := residual_eq_setTranches o remaining
  rw [e, Order.setTranches_id]

@[simp] theorem residual_userId (o : Order) (remaining : ℕ) :
    (residual o remaining).userId = o.userId := by
  obtain ⟨v, h, e⟩ := residual_eq_setTranches o remaining
  rw [e, Order.setTranches_userId]

@[simp] theorem residual_isImmediate (o : Order) (remaining : ℕ) :
    (residual o remaining).isImmediate = o.isImmediate := by
  obtain ⟨v, h, e⟩ := residual_eq_setTranches o remaining
  rw [e, Order.setTranches_isImmediate]

@[simp] theorem residual_side (o : Order) (remaining : ℕ) :
    (residual o remaining).side = o.side := by
  obtain ⟨v, h, heq⟩ := residual_eq_setTranches o remaining
  rw [heq, Order.setTranches_side]

@[simp] theorem residual_price (o : Order) (remaining : ℕ) :
    (residual o remaining).price = o.price := by
  obtain ⟨v, h, e⟩ := residual_eq_setTranches o remaining
  rw [e, Order.setTranches_price]

/-- A residual has exactly the quantity that was not matched. -/
theorem size_residual {remaining : ℕ} (hfits : o.checkedTotalQuantity.isNone = false)
    (hle : remaining ≤ o.totalQuantity) : (residual o remaining).size = remaining := by
  obtain ⟨q, hq⟩ := Option.isSome_iff_exists.mp (Option.isNone_eq_false_iff.mp hfits)
  obtain ⟨hsize, htotal⟩ := Order.checkedTotalQuantity_eq_some hq
  rw [residual]
  split_ifs with hlt
  · exact Order.total_setTotalRemaining hq (by omega)
  · rw [Order.size]
    omega

/-- **A residual** comes to rest, or its level refuses it; a level that refuses it is kept as it was
unless it has no orders. -/
theorem restResidual_cases [LevelQueue L] (o : Order) (remaining : ℕ) (b : OrderBook L) :
    (∃ l l', l = ((b.levels o.side).get? o.price).getD (new o.price) ∧
        PriceLevel.addOrder l (residual o remaining) = .ok l' ∧
        orders l' = orders l ++ [residual o remaining] ∧
        (restResidual o remaining b).1 = .ok (residual o remaining) ∧
        (b.restAt o (residual o remaining) l' remaining).SameState
          (restResidual o remaining b).2) ∨
      ∃ e, PriceLevel.addOrder (((b.levels o.side).get? o.price).getD (new o.price))
          (residual o remaining) = .error e ∧
        (restResidual o remaining b).1 = .error (.priceLevelError e) ∧
        (b.SameState (restResidual o remaining b).2 ∨
          (∃ l, (b.levels o.side).get? o.price = some l ∧ orders l = []) ∧
            (b.removeLevel o.side o.price).SameState (restResidual o remaining b).2) := by
  rw [restResidual]
  cases hadd : PriceLevel.addOrder (((b.levels o.side).get? o.price).getD (new o.price))
      (residual o remaining) with
  | ok l' =>
    exact Or.inl ⟨_, l', rfl, hadd, LevelQueue.orders_addOrder hadd, rfl, ⟨_, _, _, rfl⟩⟩
  | error e =>
    refine Or.inr ⟨e, rfl, rfl, ?_⟩
    dsimp only
    cases hl : (b.levels o.side).get? o.price with
    | none =>
      -- the level made for the order is removed again
      have hzero : orderCount (new o.price : L) = 0 :=
        orderCount_eq_zero.mpr (LevelQueue.orders_new o.price)
      rw [Option.getD_none, if_pos hzero]
      have hback : (b.setLevel o.side o.price (new o.price)).removeLevel o.side o.price = b := by
        have hmap : ((b.levels o.side).insert o.price (new o.price)).erase o.price =
            b.levels o.side := by
          refine SortedMap.ext_get? fun p => ?_
          rw [SortedMap.get?_erase, SortedMap.get?_insert]
          split_ifs with hp
          · rw [hp, hl]
          · rfl
        rw [removeLevel, setLevel, levels_setLevels_self, hmap]
        cases o.side <;> rfl
      rw [hback]
      exact Or.inl (sameState_invalidateCache b)
    | some l =>
      rw [Option.getD_some, setLevel_self hl]
      split_ifs with hzero
      · exact Or.inr ⟨⟨l, rfl, orderCount_eq_zero.mp hzero⟩, sameState_invalidateCache _⟩
      · exact Or.inl (sameState_invalidateCache b)

/-! ### Adding an order -/

/-- An order that is not accepted leaves the state alone. -/
theorem addOrderInner_of_not_accepted (h : ¬ b.Accepted o) (wantResult : Bool) :
    (∃ e, (addOrderInner o wantResult b).1 = .error e) ∧
      b.SameState (addOrderInner o wantResult b).2 := by
  have hstep := addOrderInner_step o wantResult b
  generalize (addOrderInner o wantResult b).1 = result at hstep ⊢
  generalize (addOrderInner o wantResult b).2 = b' at hstep ⊢
  cases hstep with
  | refused refusal how view => exact ⟨⟨_, rfl⟩, view.sameState⟩
  | failed accepted | rejected accepted | stpCancelled accepted | filled accepted
  | dropped accepted | levelRefused accepted | rests accepted => exact absurd accepted h

theorem addOrder_fst (o : Order) (b : OrderBook L) :
    (OrderBook.addOrder o b).1 = (addOrderInner o false b).1.map Prod.fst := by
  rw [OrderBook.addOrder, bind_run]
  rcases addOrderInner o false b with ⟨e | r, b'⟩ <;> rfl

theorem addOrder_snd (o : Order) (b : OrderBook L) :
    (OrderBook.addOrder o b).2 = (addOrderInner o false b).2 := by
  rw [OrderBook.addOrder, bind_run]
  split
  · next h =>
    rw [h]
    rfl
  · next h => rw [h]

/-! ### Requests -/

/-- The order a request is about. -/
def target : OrderUpdate → OrderId
  | .updatePrice id _ => id
  | .updateQuantity id _ => id
  | .updatePriceAndQuantity id _ _ => id
  | .cancel id => id
  | .replace id _ _ _ => id

/-- The order a moving request replaces the original with. -/
def movedOrder (original : Order) : OrderUpdate → Option Order
  | .updatePrice _ newPrice => some { original with price := newPrice }
  | .updatePriceAndQuantity _ newPrice newQuantity =>
    some ({ original with price := newPrice }.setQuantity newQuantity)
  | .replace id price quantity side => some (original.replaceWith id price quantity side)
  | .updateQuantity _ _ => none
  | .cancel _ => none

/-- A moved order keeps its owner, its time in force and its timestamp. -/
theorem movedOrder_eq (h : movedOrder original u = some newOrder) : ∃ id price side visible kind,
      newOrder = { original with
        id := id, price := price, side := side, visibleQuantity := visible, kind := kind } := by
  cases u with
  | updatePriceAndQuantity id newPrice newQuantity =>
    obtain ⟨v, k, hset⟩ :=
      { original with price := newPrice }.setQuantity_eq_setTranches newQuantity
    cases h
    rw [hset]
    exact ⟨_, _, _, _, _, rfl⟩
  | updatePrice | replace =>
    cases h
    exact ⟨_, _, _, _, _, rfl⟩
  | updateQuantity | cancel => cases h

theorem movedOrder_userId (h : movedOrder original u = some newOrder) :
    newOrder.userId = original.userId := by
  obtain ⟨_, _, _, _, _, rfl⟩ := movedOrder_eq h
  rfl

theorem movedOrder_timeInForce (h : movedOrder original u = some newOrder) :
    newOrder.timeInForce = original.timeInForce := by
  obtain ⟨_, _, _, _, _, rfl⟩ := movedOrder_eq h
  rfl

/-- The request moves an order: it passes the kill switch, its target rests, and the price it asks
for is not the one the target rests at. -/
structure Moves (b : OrderBook L) (u : OrderUpdate) (newOrder : Order) : Prop where
  running : b.killSwitch = false
  moved : ∃ original, b.getOrder (target u) = some original ∧ movedOrder original u = some newOrder
  elsewhere : ∀ id price, u = .updatePrice id price →
    (b.orderLocations.lookup id).map Prod.fst ≠ some price

theorem Moves.unique {y : Order} (hx : b.Moves u x) (hy : b.Moves u y) : x = y := by
  obtain ⟨original, hget, hmoved⟩ := hx.moved
  obtain ⟨original', hget', hmoved'⟩ := hy.moved
  obtain rfl : original = original' := Option.some.inj (hget.symm.trans hget')
  exact Option.some.inj (hmoved.symm.trans hmoved')

theorem not_moves_of_none (h : b.getOrder (target u) = none) (newOrder : Order) :
    ¬ b.Moves u newOrder := by
  rintro ⟨-, ⟨original, hget, -⟩, -⟩
  rw [h] at hget
  cases hget

/-- **What `update_order` can do**: nothing, resize an order in place, drop it, or move it. -/
theorem updateOrder_cases (u : OrderUpdate) (b : OrderBook L) :
    ((∀ newOrder, ¬ b.Moves u newOrder) ∧ ((OrderBook.updateOrder u b).2 = b ∨
        (OrderBook.updateOrder u b).2 = b.invalidateCache)) ∨
      (∃ id q, u = .updateQuantity id q ∧
        OrderBook.updateOrder u b = updateQuantity id q b.invalidateCache) ∨
      (∃ id, u = .cancel id ∧
        OrderBook.updateOrder u b = cancelByUpdate id b.invalidateCache) ∨
      ∃ newOrder, b.Moves u newOrder ∧
        OrderBook.updateOrder u b = modifyOrder (target u) newOrder b.invalidateCache := by
  by_cases hkill : isModify u ∧ b.killSwitch
  · have hon : checkKillSwitch b = (.error .killSwitchActive, b) := if_pos hkill.2
    refine Or.inl ⟨fun newOrder hmoves => ?_, Or.inl ?_⟩
    · rw [hmoves.running] at hkill
      cases hkill.2
    · rw [OrderBook.updateOrder, if_pos hkill.1, bind_run_of_error hon]
  have hoff : isModify u → b.killSwitch = false := fun hmod => by simpa [hmod] using hkill
  have hrun : OrderBook.updateOrder u b = applyUpdate u b.invalidateCache := by
    rw [OrderBook.updateOrder]
    split_ifs with hmod
    · have hpass : checkKillSwitch b = (.ok (), b) := if_neg (by simp [hoff hmod])
      rw [bind_run_of_ok hpass]
      exact bind_run_of_ok (modify_run _ b)
    · exact bind_run_of_ok (modify_run _ b)
  rw [hrun]
  cases u with
  | updateQuantity id q => exact Or.inr (Or.inl ⟨id, q, rfl, rfl⟩)
  | cancel id => exact Or.inr (Or.inr (Or.inl ⟨id, rfl, rfl⟩))
  | updatePrice id newPrice =>
    rw [applyUpdate, updatePrice, bind_run_of_ok (get_run _)]
    cases hget : b.getOrder id with
    | none =>
      have hget' : b.invalidateCache.getOrder id = none := hget
      refine Or.inl ⟨not_moves_of_none hget, Or.inr ?_⟩
      simp only [hget']
      cases b.invalidateCache.orderLocations.lookup id with
      | none => rfl
      | some =>
        dsimp only
        split_ifs
        · rfl
        · rfl
    | some original =>
      obtain ⟨side, price, l, hloc, -⟩ := getOrder_eq_some hget
      have hget' : b.invalidateCache.getOrder id = some original := hget
      have hloc' : b.invalidateCache.orderLocations.lookup id = some (price, side) := hloc
      simp only [hget', hloc']
      split_ifs with hsame
      · refine Or.inl ⟨fun newOrder hmoves => hmoves.elsewhere id newPrice rfl ?_, Or.inr rfl⟩
        rw [hloc, hsame]
        rfl
      · refine Or.inr (Or.inr (Or.inr ⟨_, ⟨hoff rfl, ⟨original, hget, rfl⟩, ?_⟩, rfl⟩))
        rintro id' price' ⟨⟩ hprice
        rw [hloc] at hprice
        exact hsame (Option.some.inj hprice)
  | updatePriceAndQuantity id newPrice newQuantity =>
    rw [applyUpdate, updatePriceAndQuantity, bind_run_of_ok (get_run _)]
    cases hget : b.getOrder id with
    | none =>
      have hget' : b.invalidateCache.getOrder id = none := hget
      refine Or.inl ⟨not_moves_of_none hget, Or.inr ?_⟩
      simp only [hget']
      cases b.invalidateCache.orderLocations.lookup id with
      | none | some => rfl
    | some original =>
      obtain ⟨side, price, l, hloc, -⟩ := getOrder_eq_some hget
      have hget' : b.invalidateCache.getOrder id = some original := hget
      have hloc' : b.invalidateCache.orderLocations.lookup id = some (price, side) := hloc
      simp only [hget', hloc']
      exact Or.inr (Or.inr (Or.inr
        ⟨_, ⟨hoff rfl, ⟨original, hget, rfl⟩, fun _ _ hu => nomatch hu⟩, rfl⟩))
  | replace id price quantity side =>
    rw [applyUpdate, replace, bind_run_of_ok (get_run _)]
    cases hget : b.getOrder id with
    | none =>
      have hget' : b.invalidateCache.getOrder id = none := hget
      simp only [hget']
      exact Or.inl ⟨not_moves_of_none hget, Or.inr rfl⟩
    | some original =>
      have hget' : b.invalidateCache.getOrder id = some original := hget
      simp only [hget']
      exact Or.inr (Or.inr (Or.inr
        ⟨_, ⟨hoff rfl, ⟨original, hget, rfl⟩, fun _ _ hu => nomatch hu⟩, rfl⟩))

omit [PriceLevel L] in
/-- A request that changes nothing drops the cache at most. -/
theorem quiet_of_unchanged (h : b' = b ∨ b' = b.invalidateCache) : b.Quiet b' := by
  rcases h with rfl | rfl
  · exact .refl b'
  · exact b.quiet_invalidateCache

end OrderBook

/-! ### Runs -/

open OrderBook

variable {L : Type} [PriceLevel L] {I : OrderBook L → Prop}

/-- `m` keeps the property `I`, whether it succeeds or fails. -/
abbrev Keeps {α : Type} (I : OrderBook L → Prop) (m : BookM L α) : Prop :=
  Rel (fun b b' => I b → I b') m

theorem OrderBook.cancelOrderBatchWithReason_nil (b : OrderBook L) (reason : CancelReason) :
    b.cancelOrderBatchWithReason [] reason = (b, []) := rfl

theorem OrderBook.cancelOrderBatchWithReason_cons (b : OrderBook L) (id : OrderId)
    (ids : List OrderId) (reason : CancelReason) :
    b.cancelOrderBatchWithReason (id :: ids) reason =
      (((b.cancelOrderWithReason id reason).1.cancelOrderBatchWithReason ids reason).1,
        (b.cancelOrderWithReason id reason).2.toList.map (fun o => (id, o)) ++
          ((b.cancelOrderWithReason id reason).1.cancelOrderBatchWithReason ids reason).2) := by
  -- what is collected so far only stands in front
  have hfold : ∀ (ids : List OrderId) (b : OrderBook L) (done : List (OrderId × Order)),
      ids.foldl (fun st id =>
        ((st.1.cancelOrderWithReason id reason).1,
          st.2 ++ (st.1.cancelOrderWithReason id reason).2.toList.map fun o => (id, o)))
            (b, done) =
        ((b.cancelOrderBatchWithReason ids reason).1,
          done ++ (b.cancelOrderBatchWithReason ids reason).2) := by
    intro ids
    induction ids with
    | nil =>
      exact fun b done => by rw [cancelOrderBatchWithReason_nil, List.foldl_nil, List.append_nil]
    | cons id ids ih =>
      intro b done
      rw [cancelOrderBatchWithReason, List.foldl_cons, List.foldl_cons, ih, ih, List.nil_append,
        List.append_assoc]
  exact hfold ids _ _

/-- Cancelling ids one by one keeps what each cancel keeps. -/
theorem cancelOrderBatch_keeps {reason : CancelReason}
    (hcancel : ∀ {b} id, I b → I (b.cancelOrderWithReason id reason).1) (ids : List OrderId)
    {b : OrderBook L} (hI : I b) : I (b.cancelOrderBatchWithReason ids reason).1 := by
  induction ids generalizing b with
  | nil => exact hI
  | cons id ids ih =>
    rw [cancelOrderBatchWithReason_cons]
    exact ih (hcancel id hI)

/-- Cancelling a user's orders keeps what each cancel keeps, if dropping the user's list does. -/
theorem cancelOrdersByUser_keeps [LevelQueue L] (hsame : ∀ {b b'}, SameState b b' → I b → I b')
    (hcancel : ∀ {b side price l l' o}, b.CancelsAt side price l l' o → I b →
      I (b.cancelAt side price l' o)) (user : Hash32) {b : OrderBook L}
    (hI : I { b with userOrders := b.userOrders.erase user }) :
    I (b.cancelOrdersByUser user).1 := by
  refine cancelOrderBatch_keeps (fun {b} id hb => ?_) _ hI
  rcases cancelOrderWithReason_cases b id _ with
    ⟨hstate, -, -⟩ | ⟨side, price, l, l', o, rfl, hout, -, hstate⟩
  · exact hsame hstate hb
  · exact hsame hstate (hcancel hout hb)

/-- The book after a market order: the sweep, and then its trades delivered unless it failed. -/
theorem matchMarket_book (id : OrderId) (side : Side) (mode : MatchMode) (user : Hash32)
    (b : OrderBook L) :
    (OrderBook.matchMarket id side mode user b).2 =
        (matchOrderInner id side mode user .standard b).2 ∨
      ∃ r, (OrderBook.matchMarket id side mode user b).2 =
        (emitTrades false r (matchOrderInner id side mode user .standard b).2).2 := by
  rw [OrderBook.matchMarket]
  rcases hrun : matchOrderInner id side mode user .standard b with ⟨e | outcome, b₁⟩
  · exact Or.inl (by rw [bind_run_of_error hrun])
  · obtain ⟨result, hemit⟩ := emitTrades_run false outcome.result b₁
    exact Or.inr ⟨outcome.result, by rw [bind_run_of_ok hrun, bind_run_of_ok hemit]; rfl⟩

/-- A market order keeps what its sweep and the delivery of its trades keep. -/
theorem matchMarket_keeps {id : OrderId} {mode : MatchMode} {user : Hash32}
    (hsweep : ∀ {b}, I b → I (matchOrderInner id side mode user .standard b).2)
    (hemit : ∀ {b} r, I b → I (emitTrades false r b).2) :
    Keeps I (OrderBook.matchMarket id side mode user) := by
  have hframe := IsFrame.preserves I
  refine .bind hframe (fun b hI => hsweep hI) fun outcome => ?_
  exact .bind hframe (fun b hI => hemit outcome.result hI) fun _ => .pure hframe _

/-- A property kept by every method of the book; resizes may be restricted to quantities in `Q`. -/
structure CallInvariant (I : OrderBook L → Prop) (Q : ℕ → Prop) : Prop where
  same : ∀ {b b'}, SameState b b' → I b → I b'
  add : ∀ o wantResult, Keeps I (addOrderInner o wantResult)
  market : ∀ id side mode user, Keeps I (matchMarket id side mode user)
  cancel : ∀ {b} id reason, I b → I (b.cancelOrderWithReason id reason).1
  resize : ∀ id q, Q q → Keeps I (updateQuantity id q)
  drop : ∀ id, Keeps I (cancelByUpdate id)
  clear : ∀ {b}, I b → I b.cancelAllOrders.1
  byUser : ∀ {b} user, I b → I (b.cancelOrdersByUser user).1

/-- A resize this command asks for is to a quantity in `Q`. -/
def Command.ResizesTo (Q : ℕ → Prop) (c : Command) : Prop :=
  ∀ id q, c = .updateOrder (.updateQuantity id q) → Q q

namespace CallInvariant

variable {I : OrderBook L → Prop} {Q : ℕ → Prop} (h : CallInvariant I Q) {b : OrderBook L}

include h

theorem checks {α : Type} {m : BookM L α} (hm : Checks m) : Keeps I m :=
  fun b => h.same (hm b).sameState

theorem modify (id : OrderId) (newOrder : Order) : Keeps I (modifyOrder id newOrder) := by
  intro b hI
  rcases modifyOrder_step id newOrder b with ⟨-, e, b', hquiet, -, hrun⟩ | ⟨-, b₀, hquiet, -, hrun⟩
  · rw [hrun]
    exact h.same hquiet.sameState hI
  · rw [hrun]
    exact h.add newOrder false _ (h.cancel id _ (h.same hquiet.sameState hI))

theorem batch (ids : List OrderId) (reason : CancelReason) (hI : I b) :
    I (b.cancelOrderBatchWithReason ids reason).1 :=
  cancelOrderBatch_keeps (fun id => h.cancel id reason) ids hI

theorem update (u : OrderUpdate) (hu : (Command.updateOrder u).ResizesTo Q) :
    Keeps I (OrderBook.updateOrder u) := by
  intro b hI
  have hI' := h.same b.sameState_invalidateCache hI
  rcases updateOrder_cases u b with
    ⟨-, hsame⟩ | ⟨id, q, rfl, hrun⟩ | ⟨id, rfl, hrun⟩ | ⟨newOrder, -, hrun⟩
  · exact h.same (quiet_of_unchanged hsame).sameState hI
  · rw [hrun]
    exact h.resize id q (hu id q rfl) _ hI'
  · rw [hrun]
    exact h.drop id _ hI'
  · rw [hrun]
    exact h.modify (target u) newOrder _ hI'

/-- **One call keeps the property.** -/
theorem execute {c : Command} (hc : c.ResizesTo Q) (hI : I b) : I (b.execute c) := by
  have hframe := IsFrame.preserves I
  have hmarket : ∀ id side mode user, Keeps I (do
      checkKillSwitchOrReject id
      matchMarket id side mode user : BookM L MatchResult) := fun id side mode user =>
    .bind hframe (h.checks (checks_checkKillSwitchOrReject id)) fun _ => h.market id side mode user
  cases c with
  | addOrder o =>
    rw [OrderBook.execute, addOrder_snd]
    exact h.add o false b hI
  | addOrderWithResult o => exact h.add o true b hI
  | submitMarketOrder id quantity side user | submitMarketOrderByAmount id amount side user =>
    exact hmarket id side _ user b hI
  | updateOrder u => exact h.update u hc b hI
  | cancelOrder id => exact h.cancel id _ hI
  | cancelAllOrders => exact h.clear hI
  | cancelOrdersBySide => exact h.batch _ _ hI
  | cancelOrdersByUser user => exact h.byUser user hI
  | cancelOrdersByPriceRange =>
    rw [OrderBook.execute, cancelOrdersByPriceRange]
    split_ifs
    · exact hI
    · exact h.batch _ _ hI
  | evictExpiredOrders =>
    rw [OrderBook.execute, evictExpiredOrders]
    split_ifs
    · exact hI
    · exact h.batch _ _ hI

/-- **A run keeps the property.** -/
theorem run {commands : List Command} (hc : ∀ c ∈ commands, c.ResizesTo Q) (hI : I b) :
    I (b.run commands) := by
  induction commands generalizing b with
  | nil => exact hI
  | cons c commands ih =>
    exact ih (List.forall_mem_cons.mp hc).2
      (h.execute (hc c (List.mem_cons_self ..)) hI)

end CallInvariant

/-! ### Invariants by effect -/

section Effects

variable [LevelQueue L] [LevelMatch L] {b : OrderBook L}

/-- A match registers no order. -/
theorem matchOrderInner_lookup_eq_none {i : OrderId} (id : OrderId) (side : Side) (mode : MatchMode)
    (user : Hash32) (kind : TakerKind) (h : b.orderLocations.lookup i = none) :
    (matchOrderInner id side mode user kind b).2.orderLocations.lookup i = none := by
  refine matchOrderInner_invariant (I := fun b => b.orderLocations.lookup i = none)
    (J := fun _ sw => sw.book.orderLocations.lookup i = none) ?_ (fun _ h => h) ?_ ?_ id side mode
    user kind h
  · rintro b _ ⟨_, _, _, rfl⟩ h
    exact h
  · intro t price sw sw' hs hJ
    cases hs with
    | fill => rwa [fillLevel_orderLocations]
    | @cancel l l' o level mode user mem own orders_eq run =>
      rw [stpCancel_orderLocations]
      by_cases hi : i = o.id
      · rw [hi, AList.lookup_erase]
      · rwa [AList.lookup_erase_ne hi]
    | markEmpty | flag => exact hJ
  · intro b t mode _ hJ
    rw [finishSweep_lookup]
    split_ifs
    · rfl
    · exact hJ

/-- The order `o` passed every check on the book `b`, its sweep raised no flag and left `remaining`,
and its trades are reported: the book is now `b'` and what remains may come to rest. -/
inductive Swept (o : Order) (b : OrderBook L) (remaining : ℕ) (b' : OrderBook L) : Prop
  | intro {b₀ b₁ : OrderBook L} {outcome : MatchOutcome} (wantResult : Bool)
      (accepted : b.Accepted o) (same : b.SameState b₀)
      (run : sweepOf o b₀ = (.ok outcome, b₁)) (flag : outcome.takerPostOnlyRejected = false)
      (stp : outcome.takerStpCancelled = false)
      (left : outcome.result.remainingQuantity = remaining)
      (emitted : (emitTrades wantResult outcome.result b₁).2 = b')

/-- What `add_order_inner` does besides its checks and its sweep. -/
structure AddEffects (I : OrderBook L → Prop) : Prop where
  same : ∀ {b b'}, SameState b b' → I b → I b'
  emit : ∀ {b} wantResult r, I b → I (emitTrades wantResult r b).2
  rest : ∀ {start b l l' o remaining}, Swept o start remaining b → I start →
    l = ((b.levels o.side).get? o.price).getD (new o.price) →
    PriceLevel.addOrder l (residual o remaining) = .ok l' →
    orders l' = orders l ++ [residual o remaining] → b.orderLocations.lookup o.id = none →
    o.isImmediate = false → remaining ≠ 0 → I b → I (b.restAt o (residual o remaining) l' remaining)
  tidy : ∀ {b side price l}, (b.levels side).get? price = some l → orders l = [] → I b →
    I (b.removeLevel side price)

/-- **A property is kept by a new order** if the sweep of the order keeps it, and so does coming to
rest. -/
theorem addOrderInner_keeps (hsame : ∀ {b b'}, SameState b b' → I b → I b')
    (hemit : ∀ {b} wantResult r, I b → I (emitTrades wantResult r b).2)
    (hrest : ∀ {b' l l' remaining}, Swept o b remaining b' →
      l = ((b'.levels o.side).get? o.price).getD (new o.price) →
      PriceLevel.addOrder l (residual o remaining) = .ok l' →
      orders l' = orders l ++ [residual o remaining] → b'.orderLocations.lookup o.id = none →
      o.isImmediate = false → remaining ≠ 0 → I b' →
      I (b'.restAt o (residual o remaining) l' remaining))
    (htidy : ∀ {b side price l}, (b.levels side).get? price = some l → orders l = [] → I b →
      I (b.removeLevel side price))
    (hsweep : ∀ {b₀ : OrderBook L}, b.Accepted o → b.SameState b₀ → I (sweepOf o b₀).2)
    (wantResult : Bool) (hI : I b) : I (addOrderInner o wantResult b).2 := by
  have hswept : ∀ {b₀ b₁ : OrderBook L} {outcome}, b.Accepted o → b.SameState b₀ →
      sweepOf o b₀ = (.ok outcome, b₁) → I b₁ := by
    intro b₀ b₁ outcome hacc hstate₀ hrun
    have := hsweep hacc hstate₀
    rwa [hrun] at this
  have hrests : ∀ {b₀ b₁ : OrderBook L} {outcome}, b.Accepted o → b.SameState b₀ →
      sweepOf o b₀ = (.ok outcome, b₁) → o.isImmediate = false →
      outcome.takerPostOnlyRejected = false → outcome.takerStpCancelled = false →
      outcome.result.remainingQuantity ≠ 0 → I (restResidual o outcome.result.remainingQuantity
        (emitTrades wantResult outcome.result b₁).2).2 := by
    intro b₀ b₁ outcome hacc hstate₀ hrun himm hflag hstp hpos
    have hnone : (emitTrades wantResult outcome.result b₁).2.orderLocations.lookup o.id = none := by
      obtain ⟨_, _, _, _, _, hreport⟩ := sameOrders_emitTrades wantResult outcome.result b₁
      rw [hreport]
      have hfresh : b₀.orderLocations.lookup o.id = none := by
        obtain ⟨_, _, _, rfl⟩ := hstate₀
        exact hacc.fresh
      have := matchOrderInner_lookup_eq_none o.id o.side
        (.baseQty o.totalQuantity (some o.price)) o.userId (takerKind o) hfresh
      rwa [← sweepOf, hrun] at this
    have hemitted := hemit wantResult outcome.result (hswept hacc hstate₀ hrun)
    rcases restResidual_cases o outcome.result.remainingQuantity
        (emitTrades wantResult outcome.result b₁).2 with
      ⟨l, l', hl, hadd, horders, -, hstate⟩ | ⟨e, -, -, hstate | ⟨⟨l, hl, hnil⟩, hstate⟩⟩
    · exact hsame hstate (hrest (.intro wantResult hacc hstate₀ hrun hflag hstp rfl rfl) hl hadd
        horders hnone himm hpos hemitted)
    · exact hsame hstate hemitted
    · exact hsame hstate (htidy hl hnil hemitted)
  have hstep := addOrderInner_step o wantResult b
  generalize (addOrderInner o wantResult b).1 = result at hstep
  generalize (addOrderInner o wantResult b).2 = b' at hstep ⊢
  cases hstep with
  | refused refusal how view => exact hsame view.sameState hI
  | failed accepted quiet run =>
    have := hsweep accepted quiet.sameState
    rwa [run] at this
  | rejected accepted quiet run flag recorded =>
    exact hsame (sameState_of_rejected recorded) (hswept accepted quiet.sameState run)
  | stpCancelled accepted quiet run | filled accepted quiet run | dropped accepted quiet run =>
    exact hsame (sameView_trackState ..).sameState
      (hemit wantResult _ (hswept accepted quiet.sameState run))
  | levelRefused accepted quiet run flag stp pos resting rest
  | rests accepted quiet run flag stp pos resting rest =>
    have := hrests accepted quiet.sameState run resting flag stp pos
    rwa [rest] at this

theorem AddEffects.add (h : AddEffects I)
    (hsweep : ∀ {b₀ : OrderBook L}, b.Accepted o → b.SameState b₀ → I (sweepOf o b₀).2)
    (wantResult : Bool) (hI : I b) : I (addOrderInner o wantResult b).2 :=
  addOrderInner_keeps h.same h.emit (fun hswept => h.rest hswept hI) h.tidy hsweep wantResult hI

/-- The effects of the methods, one by one, each with what is known when it happens. A property kept
by all of them is kept by every call. -/
structure StepInvariant (I : OrderBook L → Prop) (Q : ℕ → Prop) : Prop
    extends effects : AddEffects I where
  sweep : ∀ {b} id side mode user kind, I b → I (matchOrderInner id side mode user kind b).2
  cancel : ∀ {b side price l l' o}, b.CancelsAt side price l l' o → I b →
    I (b.cancelAt side price l' o)
  drop : ∀ {b side price l l' o}, b.CancelsAt side price l l' o → I b →
    I (b.dropAt side price l' o.id)
  resize : ∀ {b side price l l' o q}, Q q → b.ResizesAt side price l l' o q → I b →
    I (b.resizeAt side price l' (withReducedQuantity L o q))
  clear : ∀ {b}, I b → I b.cancelAllOrders.1
  byUser : ∀ {b} user, I b → I (b.cancelOrdersByUser user).1

namespace StepInvariant

variable {I : OrderBook L → Prop} {Q : ℕ → Prop}

omit [LevelQueue L] [LevelMatch L] in
/-- Two properties kept by every effect are kept together. -/
theorem and {I' : OrderBook L → Prop} (h : StepInvariant I Q) (h' : StepInvariant I' Q) :
    StepInvariant (fun b => I b ∧ I' b) Q where
  same hsame hI := ⟨h.same hsame hI.1, h'.same hsame hI.2⟩
  emit wantResult r hI := ⟨h.emit wantResult r hI.1, h'.emit wantResult r hI.2⟩
  sweep id side mode user kind hI :=
    ⟨h.sweep id side mode user kind hI.1, h'.sweep id side mode user kind hI.2⟩
  rest hswept hstart hl hadd horders hfresh himm hleft hI :=
    ⟨h.rest hswept hstart.1 hl hadd horders hfresh himm hleft hI.1,
      h'.rest hswept hstart.2 hl hadd horders hfresh himm hleft hI.2⟩
  tidy hl hnil hI := ⟨h.tidy hl hnil hI.1, h'.tidy hl hnil hI.2⟩
  cancel hout hI := ⟨h.cancel hout hI.1, h'.cancel hout hI.2⟩
  drop hout hI := ⟨h.drop hout hI.1, h'.drop hout hI.2⟩
  resize hq hres hI := ⟨h.resize hq hres hI.1, h'.resize hq hres hI.2⟩
  clear hI := ⟨h.clear hI.1, h'.clear hI.2⟩
  byUser user hI := ⟨h.byUser user hI.1, h'.byUser user hI.2⟩

theorem add (h : StepInvariant I Q) (o : Order) (wantResult : Bool) :
    Keeps I (addOrderInner o wantResult) := fun _ hI =>
  h.effects.add (fun _ hsame => h.sweep _ _ _ _ _ (h.same hsame hI)) wantResult hI

omit [LevelMatch L] in
theorem cancelOrderWithReason (h : StepInvariant I Q) (id : OrderId) (reason : CancelReason)
    (hI : I b) : I (b.cancelOrderWithReason id reason).1 := by
  rcases cancelOrderWithReason_cases b id reason with
    ⟨hsame, -, -⟩ | ⟨side, price, l, l', o, rfl, hout, -, hstate⟩
  · exact h.same hsame hI
  · exact h.same hstate (h.cancel hout hI)

omit [LevelQueue L] [LevelMatch L] in
theorem matchMarket (h : StepInvariant I Q) (id : OrderId) (side : Side) (mode : MatchMode)
    (user : Hash32) : Keeps I (OrderBook.matchMarket id side mode user) :=
  matchMarket_keeps (h.sweep id side mode user .standard) (h.emit false)

/-- **A property kept by every effect is kept by every call.** -/
theorem calls [LevelResize L] (h : StepInvariant I Q) : CallInvariant I Q where
  same := h.same
  add := h.add
  market := h.matchMarket
  cancel id reason hI := h.cancelOrderWithReason id reason hI
  resize id q hq b hI := by
    rcases updateQuantity_cases b id q with
      hsame | ⟨side, price, l, l', o, rfl, hres, -, hstate⟩
    · exact h.same hsame.sameState hI
    · exact h.same hstate.sameState (h.resize hq hres hI)
  drop id b hI := by
    rcases cancelByUpdate_cases b id with
      hrun | ⟨side, price, l, l', o, rfl, hout, hrun⟩
    · rw [hrun]
      exact hI
    · rw [hrun]
      exact h.drop hout hI
  clear := h.clear
  byUser := h.byUser

end StepInvariant

end Effects

/-! ### Sessions -/

/-- A property of the book kept by every public call of a session, together with what it guarantees
of the snapshot packages taken on the way. -/
structure SessionInvariant [SnapshotChecksum] (I : OrderBook L → Prop) (Q : ℕ → Prop)
    (S : OrderBookSnapshotPackage → Prop) : Prop where
  calls : CallInvariant I Q
  configure : ∀ {b} s, I b → I (b.configure s)
  snapshot : ∀ {b b' depth p}, OrderBook.createSnapshotPackage depth b = (.ok p, b') → I b → S p
  restore : ∀ {b p}, S p → I b → I (OrderBook.restoreFromSnapshotPackage p b).2

/-- A resize this operation asks for is to a quantity in `Q`. -/
def Op.ResizesTo (Q : ℕ → Prop) : Op → Prop
  | .command c => c.ResizesTo Q
  | _ => True

theorem Op.resizesTo_true (op : Op) : op.ResizesTo fun _ => True := by
  cases op with
  | command => exact fun _ _ _ => trivial
  | _ => trivial

namespace SessionInvariant

variable [SnapshotChecksum] {I : OrderBook L → Prop} {Q : ℕ → Prop}
  {S : OrderBookSnapshotPackage → Prop} (h : SessionInvariant I Q S)

include h

theorem step {s : Session L} {op : Op} (hop : op.ResizesTo Q) (hI : I s.book)
    (hS : ∀ p ∈ s.packages, S p) : I (s.step op).book ∧ ∀ p ∈ (s.step op).packages, S p := by
  cases op with
  | command => exact ⟨h.calls.execute hop hI, hS⟩
  | configure setting => exact ⟨h.configure setting hI, hS⟩
  | createSnapshotPackage depth =>
    rw [Session.step]
    have hclock : s.book.SameState (OrderBook.createSnapshotPackage depth s.book).2 :=
      ⟨_, _, _, rfl⟩
    rcases hrun : OrderBook.createSnapshotPackage depth s.book with ⟨e | p, b⟩
    · rw [hrun] at hclock
      exact ⟨h.calls.same hclock hI, hS⟩
    · rw [hrun] at hclock
      refine ⟨h.calls.same hclock hI, fun p' hp' => ?_⟩
      rcases List.mem_append.mp hp' with hp' | hp'
      · exact hS p' hp'
      · obtain rfl := List.mem_singleton.mp hp'
        exact h.snapshot hrun hI
  | restoreFromSnapshotPackage index =>
    rw [Session.step]
    cases hp : s.packages[index]? with
    | none => exact ⟨hI, hS⟩
    | some p => exact ⟨h.restore (hS p (List.mem_of_getElem? hp)) hI, hS⟩

/-- **A session keeps the property.** -/
theorem run {ops : List Op} (hops : ∀ op ∈ ops, op.ResizesTo Q) {s : Session L} (hI : I s.book)
    (hS : ∀ p ∈ s.packages, S p) : I (s.run ops).book := by
  induction ops generalizing s with
  | nil => exact hI
  | cons op ops ih =>
    obtain ⟨hI', hS'⟩ := h.step (hops op (List.mem_cons_self ..)) hI hS
    exact ih (List.forall_mem_cons.mp hops).2 hI' hS'

end SessionInvariant

end OrderBookRs
