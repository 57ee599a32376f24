import OrderBookRs.Calls

/-!
# Guarded runs

Some properties hold along a run only if each call finds the book in a suitable state. A `Guard`
says which state each kind of call needs: a new order, a market order, a resize, a `Cancel`
request. The requests that move an order cancel the original and add the new one, so their
guard is the one of the new order, on the book without the original.

## Main definitions

* `OrderBook.SameAnswers`: the books differ in the cache only, and best-price queries agree.
* `OrderBook.withdrawn`: the book a moved order is added on.
* `OrderBook.KeepsResized`: a resize leaves the order on its level.
* `Guard`, `Guard.Meets`: conditions on the book a call is made on.
* `GuardedInvariant`: a property kept by every method whose guard is met.

## Main results

* `GuardedInvariant.execute`, `GuardedInvariant.run`.
-/

namespace OrderBookRs

open PriceLevel Fallible

namespace OrderBook

variable {L : Type} {o : Order} {b : OrderBook L}

/-! ### Books that answer alike -/

/-- The books differ in the cache only, and best-price queries return the same. -/
structure SameAnswers (b b' : OrderBook L) : Prop where
  cache_only : ∃ cache, b' = { b with cache := cache }
  bestPrice_eq : ∀ side, (b'.bestPrice side).1 = (b.bestPrice side).1

namespace SameAnswers

variable {b b' : OrderBook L}

theorem view (h : b.SameAnswers b') : b.SameView b' := by
  obtain ⟨cache, heq⟩ := h.cache_only
  exact ⟨⟨cache, b.clock, b.orderStateTracker, heq⟩, h.bestPrice_eq⟩

theorem symm (h : b.SameAnswers b') : b'.SameAnswers b := by
  obtain ⟨cache, rfl⟩ := h.cache_only
  exact ⟨⟨b.cache, rfl⟩, fun side => (h.bestPrice_eq side).symm⟩

variable [PriceLevel L]

theorem shapeAccepted (h : b.SameAnswers b') (ho : b.ShapeAccepted o) : b'.ShapeAccepted o := by
  have hview := h.view
  obtain ⟨cache, rfl⟩ := h.cache_only
  refine ⟨ho.shape, ho.notExpired, fun hpost => ?_, ho.fillOrKill⟩
  rw [hview.willCrossMarket_eq]
  exact ho.postOnly hpost

/-- Books that answer alike admit the same orders. -/
theorem accepted (h : b.SameAnswers b') (ho : b.Accepted o) : b'.Accepted o := by
  have hview := h.view
  refine ⟨?_, ho.representable, ?_, ?_, h.shapeAccepted ho.shape, fun himm hcross => ?_⟩
  · obtain ⟨cache, rfl⟩ := h.cache_only
    exact ho.running
  · rw [hview.riskReference_eq]
    obtain ⟨cache, rfl⟩ := h.cache_only
    exact ho.risk
  · obtain ⟨cache, rfl⟩ := h.cache_only
    exact ho.fresh
  · rw [hview.willCrossMarket_eq] at hcross
    obtain ⟨cache, rfl⟩ := h.cache_only
    exact ho.headroom himm hcross

end SameAnswers

/-- The slot of a side is invalid. -/
def Unread (b : OrderBook L) (side : Side) : Prop := b.cache.cached side = none

theorem unread_invalidateCache (b : OrderBook L) (side : Side) : b.invalidateCache.Unread side :=
  b.cache.cached_invalidate side

theorem Unread.bestPrice_fst {side : Side} (h : b.Unread side) :
    (b.bestPrice side).1 = bestKey side (b.levels side) := by
  rw [OrderBook.bestPrice_fst, h]
  rfl

variable [PriceLevel L]

/-- A cancel ends with both slots invalid. -/
theorem unread_cancelOrderWithReason (b : OrderBook L) (id : OrderId) (reason : CancelReason)
    (side : Side) : (b.cancelOrderWithReason id reason).1.Unread side := by
  rw [cancelOrderWithReason]
  split
  · exact unread_invalidateCache b side
  split
  · exact unread_invalidateCache _ side
  split
  · split_ifs
    · exact unread_invalidateCache _ side
    · exact unread_invalidateCache _ side
  · exact unread_invalidateCache _ side

/-- What a cancel does does not depend on the cache. -/
theorem cancelOrderWithReason_cache (b : OrderBook L) (cache : PriceLevelCache) (id : OrderId)
    (reason : CancelReason) :
    ∃ cache', ({ b with cache := cache }.cancelOrderWithReason id reason).1 =
      { (b.cancelOrderWithReason id reason).1 with cache := cache' } := by
  rw [cancelOrderWithReason, cancelOrderWithReason]
  dsimp only [OrderBook.invalidateCache]
  cases hloc : b.orderLocations.lookup id with
  | none => exact ⟨_, rfl⟩
  | some place =>
    obtain ⟨price, s⟩ := place
    have hlevels : ({ b with cache := cache.invalidate } : OrderBook L).levels =
        ({ b with cache := b.cache.invalidate } : OrderBook L).levels := rfl
    dsimp only
    rw [hlevels]
    cases (({ b with cache := b.cache.invalidate } : OrderBook L).levels s).get? price with
    | none => exact ⟨_, rfl⟩
    | some l =>
      dsimp only
      rcases hrun : PriceLevel.updateOrder l (.cancel id) with ⟨_ | _ | cancelled, l'⟩
      · exact ⟨_, rfl⟩
      · exact ⟨_, rfl⟩
      · obtain ⟨c, hc⟩ := deliverLevelChange_eq
          (({ b with cache := cache.invalidate } : OrderBook L).setLevel s price l') s
          (PriceLevel.price l') (visibleQuantity l')
        obtain ⟨c', hc'⟩ := deliverLevelChange_eq
          (({ b with cache := b.cache.invalidate } : OrderBook L).setLevel s price l') s
          (PriceLevel.price l') (visibleQuantity l')
        dsimp only
        rw [hc, hc']
        split_ifs
        · exact ⟨_, rfl⟩
        · exact ⟨_, rfl⟩

/-- The book a moved order is added on: one clock reading later and without the original. -/
def withdrawn (b : OrderBook L) (id : OrderId) : OrderBook L :=
  ({ b with clock := b.clock.tick }.cancelOrderWithReason id .userRequested).1

theorem Quiet.withdrawn {b₀ : OrderBook L} (h : b.Quiet b₀) (hclock : b₀.clock = b.clock.tick)
    (id : OrderId) :
    (b.withdrawn id).SameAnswers (b₀.cancelOrderWithReason id .userRequested).1 := by
  obtain ⟨cache, clock, rfl⟩ := h
  obtain rfl : clock = b.clock.tick := hclock
  obtain ⟨cache', heq⟩ := cancelOrderWithReason_cache { b with clock := b.clock.tick } cache id
    .userRequested
  refine ⟨⟨cache', heq⟩, fun side => ?_⟩
  have hunread : (b.withdrawn id).Unread side := unread_cancelOrderWithReason ..
  rw [hunread.bestPrice_fst, (unread_cancelOrderWithReason ..).bestPrice_fst, heq]
  rfl

/-- A resize leaves the order on its level. -/
def KeepsResized (b : OrderBook L) (id : OrderId) (q : ℕ) : Prop :=
  ∀ side price l, b.orderLocations.lookup id = some (price, side) →
    (b.levels side).get? price = some l → id ∈ orderIds l →
    id ∈ orderIds (PriceLevel.updateOrder l (.updateQuantity id q)).2

end OrderBook

/-! ### Guards -/

open OrderBook

variable {L : Type} [PriceLevel L]

/-- What each kind of call needs of the book it is made on. -/
structure Guard (L : Type) where
  add : OrderBook L → Order → Prop
  market : OrderBook L → OrderId → Side → MatchMode → Hash32 → Prop
  resize : OrderBook L → OrderId → ℕ → Prop
  drop : OrderBook L → OrderId → Prop

/-- The book meets the guard of a call. A request that moves an order has the guard of the new
order, once it has passed the checks made while the original still rests. -/
def Guard.Meets (g : Guard L) (b : OrderBook L) : Command → Prop
  | .addOrder o => g.add b o
  | .addOrderWithResult o => g.add b o
  | .submitMarketOrder id quantity side user => g.market b id side (.baseQty quantity none) user
  | .submitMarketOrderByAmount id amount side user => g.market b id side (.quoteAmount amount) user
  | .updateOrder u =>
    (∀ id q, u = .updateQuantity id q → g.resize b id q) ∧ (∀ id, u = .cancel id → g.drop b id) ∧
      ∀ newOrder, b.Moves u newOrder → b.invalidateCache.MoveAccepted (target u) newOrder →
        g.add (b.withdrawn (target u)) newOrder
  | _ => True

/-- A property kept by every method of the book whose guard is met. -/
structure GuardedInvariant (I : OrderBook L → Prop) (g : Guard L) : Prop where
  reads : ∀ {b b'}, Quiet b b' → SameView b b' → I b → I b'
  forget : ∀ {b}, I b → I b.invalidateCache
  alike : ∀ {b b' o}, SameAnswers b b' → g.add b o → g.add b' o
  add : ∀ {b o} wantResult, g.add b o → I b → I (addOrderInner o wantResult b).2
  market : ∀ {b id side mode user}, b.killSwitch = false → g.market b id side mode user → I b →
    I (matchMarket id side mode user b).2
  halt : ∀ {b id side mode user}, g.market b id side mode user → I b →
    I (b.trackState id (.rejected .killSwitchActive))
  cancel : ∀ {b} id reason, I b → I (b.cancelOrderWithReason id reason).1
  resize : ∀ {b id q}, g.resize b id q → I b → I (updateQuantity id q b.invalidateCache).2
  drop : ∀ {b id}, g.drop b id → I b → I (cancelByUpdate id b.invalidateCache).2
  clear : ∀ {b}, I b → I b.cancelAllOrders.1
  byUser : ∀ {b} user, I b → I (b.cancelOrdersByUser user).1

namespace GuardedInvariant

variable {I : OrderBook L → Prop} {g : Guard L} {b : OrderBook L} (h : GuardedInvariant I g)
  {id : OrderId}

include h

theorem batch (ids : List OrderId) (reason : CancelReason) (hI : I b) :
    I (b.cancelOrderBatchWithReason ids reason).1 :=
  cancelOrderBatch_keeps (fun id => h.cancel id reason) ids hI

theorem submitMarket {side : Side} {mode : MatchMode} {user : Hash32}
    (hg : g.market b id side mode user) (hI : I b) :
    I ((do
      checkKillSwitchOrReject id
      matchMarket id side mode user : BookM L MatchResult) b).2 := by
  by_cases hkill : b.killSwitch
  · have hstop : checkKillSwitchOrReject id b = (.error .killSwitchActive,
        b.trackState id (.rejected .killSwitchActive)) := if_pos hkill
    rw [bind_run_of_error hstop]
    exact h.halt hg hI
  · have hgo : checkKillSwitchOrReject id b = (.ok (), b) := if_neg hkill
    rw [bind_run_of_ok hgo]
    exact h.market (Bool.eq_false_iff.mpr hkill) hg hI

/-- A move keeps the property if the new order meets its guard without the original. -/
theorem modify {newOrder : Order}
    (hg : b.invalidateCache.MoveAccepted id newOrder → g.add (b.withdrawn id) newOrder) (hI : I b) :
    I (modifyOrder id newOrder b.invalidateCache).2 := by
  rcases modifyOrder_step id newOrder b.invalidateCache with
    ⟨-, e, b', hquiet, hview, hrun⟩ | ⟨haccepted, b₀, hquiet, hclock, hrun⟩
  · rw [hrun]
    exact h.reads hquiet hview (h.forget hI)
  · have hanswers : (b.withdrawn id).SameAnswers (b₀.cancelOrderWithReason id .userRequested).1 :=
      (b.quiet_invalidateCache.trans hquiet).withdrawn hclock id
    have hcancelled : I (b₀.cancelOrderWithReason id .userRequested).1 := by
      obtain ⟨cache, clock, rfl⟩ := hquiet
      refine h.reads ?_ hanswers.view (b := b.withdrawn id) (h.cancel id _ ?_)
      · obtain ⟨cache', heq⟩ := hanswers.cache_only
        exact ⟨cache', _, heq⟩
      · exact h.reads ⟨b.cache, _, rfl⟩ ⟨⟨_, _, _, rfl⟩, bestPrice_congr rfl rfl⟩ hI
    rw [hrun]
    exact h.add false (h.alike hanswers (hg haccepted)) hcancelled

theorem update {u : OrderUpdate} (hg : g.Meets b (.updateOrder u)) (hI : I b) :
    I (updateOrder u b).2 := by
  rcases updateOrder_cases u b with
    ⟨-, hsame⟩ | ⟨id, q, rfl, hrun⟩ | ⟨id, rfl, hrun⟩ | ⟨newOrder, hmoves, hrun⟩
  · rcases hsame with hsame | hsame
    · rwa [hsame]
    · rw [hsame]
      exact h.forget hI
  · rw [hrun]
    exact h.resize (hg.1 id q rfl) hI
  · rw [hrun]
    exact h.drop (hg.2.1 id rfl) hI
  · rw [hrun]
    exact h.modify (hg.2.2 newOrder hmoves) hI

/-- **One call keeps the property if its guard is met.** -/
theorem execute {c : Command} (hg : g.Meets b c) (hI : I b) : I (b.execute c) := by
  cases c with
  | addOrder =>
    rw [OrderBook.execute, addOrder_snd]
    exact h.add false hg hI
  | addOrderWithResult => exact h.add true hg hI
  | submitMarketOrder | submitMarketOrderByAmount =>
    exact h.submitMarket hg hI
  | updateOrder => exact h.update hg hI
  | cancelOrder id => exact h.cancel id _ hI
  | cancelAllOrders => exact h.clear hI
  | cancelOrdersBySide => exact h.batch _ _ hI
  | cancelOrdersByUser user => exact h.byUser user hI
  | cancelOrdersByPriceRange =>
    rw [OrderBook.execute, cancelOrdersByPriceRange]
    split_ifs
    · exact hI
    · exact h.batch _ _ hI
  | evictExpiredOrders =>
    rw [OrderBook.execute, evictExpiredOrders]
    split_ifs
    · exact hI
    · exact h.batch _ _ hI

/-- **A run keeps the property if each of its calls meets its guard.** -/
theorem run {commands : List Command} (hg : RunMeets OrderBook.execute g.Meets b commands)
    (hI : I b) : I (b.run commands) :=
  hg.invariant (fun hmeets hI => h.execute hmeets hI) hI

end GuardedInvariant

end OrderBookRs
