import OrderBookRs.FifoLevel
import OrderBookRs.RiskCounters
import OrderBookRs.Sound

/-!
# The two cancel paths

`cancel_order` and a `Cancel` request of `update_order` are separate implementations. Both take the
order off its level and out of `order_locations`; the request leaves the risk entry, the tracked
status and the registration of a special order behind, and it swap-removes the id from the user's
list where `cancel_order` closes the gap.

## Main definitions

* `OrderBook.UsersIndexed`: what every reachable book has of the user lists, resizes to zero
  included.
* `CancelsAlike`: the two calls leave the same state and return the same order.

## Main results

* `OrderBook.Reachable.usersIndexed`.
* `cancels_alike_iff`: the two calls agree iff there is nothing for the request to forget and the id
  is one of the last two of its list.
-/

namespace OrderBookRs

open PriceLevel Fallible OrderBook

variable {L : Type} [PriceLevel L] {price : ℕ} {o : Order} {side : Side} {l l' : L} {id : OrderId}

/-! ### User lists of reachable books -/

/-- The lists are well formed, list located ids only, and list a resting order for its own user
only. -/
structure OrderBook.UsersIndexed (b : OrderBook L) : Prop where
  lists : b.userOrders.WellFormed
  located : ∀ {user i}, b.userOrders.Listed user i → b.orderLocations.lookup i ≠ none
  owner : ∀ {side price o user}, b.Rests side price o → b.userOrders.Listed user o.id →
    user = o.userId

theorem foldl_untrackById {m : UserOrders} (hm : m.WellFormed) (filled : List (OrderId × ℕ)) :
    (filled.foldl (fun m f => m.untrackById f.1) m).WellFormed ∧ ∀ {user i},
      (filled.foldl (fun m f => m.untrackById f.1) m).Listed user i ↔
        m.Listed user i ∧ i ∉ filled.map Prod.fst := by
  induction filled generalizing m with
  | nil => exact ⟨hm, by simp⟩
  | cons f filled ih =>
    have hm' : (m.untrackById f.1).WellFormed := hm.untrackById
    obtain ⟨hwf, hlisted⟩ := ih hm'
    refine ⟨hwf, fun {user i} => hlisted.trans ?_⟩
    rw [UserOrders.listed_untrackById hm, List.map_cons, List.mem_cons, not_or, and_assoc]

namespace OrderBook.UsersIndexed

variable {b b' : OrderBook L} {t : Taker} {sw : Sweep L}

/-- Fewer listings and fewer orders, with every location that is still needed. -/
theorem shrink (h : b.UsersIndexed) (hlists : b'.userOrders.WellFormed)
    (hlisted : ∀ {user i}, b'.userOrders.Listed user i → b.userOrders.Listed user i ∧
      b'.orderLocations.lookup i = b.orderLocations.lookup i)
    (hrests : ∀ {s p x}, b'.Rests s p x →
      ∃ y, b.Rests s p y ∧ y.id = x.id ∧ y.userId = x.userId) : b'.UsersIndexed where
  lists := hlists
  located hu := by
    obtain ⟨hold, hlookup⟩ := hlisted hu
    rw [hlookup]
    exact h.located hold
  owner hx hu := by
    obtain ⟨y, hy, hid, huser⟩ := hrests hx
    rw [← huser]
    exact h.owner hy (hid ▸ (hlisted hu).1)

theorem sameOrders (hsame : b.SameOrders b') (h : b.UsersIndexed) : b'.UsersIndexed := by
  obtain ⟨_, _, _, _, _, rfl⟩ := hsame
  exact ⟨h.lists, h.located, h.owner⟩

theorem sameState (hsame : b.SameState b') (h : b.UsersIndexed) : b'.UsersIndexed :=
  h.sameOrders hsame.sameOrders

/-- An order leaves its level, its location and the list of its user. -/
theorem untrackUser (h : b.UsersIndexed) (ho : b.Rests side price o)
    (hloc : b'.orderLocations = b.orderLocations.erase o.id)
    (husers : b'.userOrders = b.userOrders.untrackUser o.userId o.id)
    (hrests : ∀ {s p x}, b'.Rests s p x → b.Rests s p x) : b'.UsersIndexed := by
  refine h.shrink (by rw [husers]; exact h.lists.untrackUser) (fun {user i} hu => ?_)
    fun {s p x} hx => ⟨x, hrests hx, rfl, rfl⟩
  rw [husers, UserOrders.listed_untrackUser] at hu
  have hne : i ≠ o.id := by
    rintro rfl
    exact hu.2 ⟨h.owner ho hu.1, rfl⟩
  rw [hloc, AList.lookup_erase_ne hne]
  exact ⟨hu.1, rfl⟩

/-- An id leaves its location and the lists. -/
theorem untrackById (h : b.UsersIndexed) (hloc : b'.orderLocations = b.orderLocations.erase id)
    (husers : b'.userOrders = b.userOrders.untrackById id)
    (hrests : ∀ {s p x}, b'.Rests s p x → ∃ y, b.Rests s p y ∧ y.id = x.id ∧ y.userId = x.userId) :
    b'.UsersIndexed := by
  refine h.shrink (by rw [husers]; exact h.lists.untrackById) (fun {user i} hu => ?_) hrests
  rw [husers, UserOrders.listed_untrackById h.lists] at hu
  rw [hloc, AList.lookup_erase_ne hu.2]
  exact ⟨hu.1, rfl⟩

theorem step [LevelMatch L] {sw' : Sweep L} (hs : SweepStep t price sw sw')
    (hsound : SweepSound t sw) (h : sw.book.UsersIndexed) : sw'.book.UsersIndexed := by
  cases hs with
  | fill level kind allows pos cap safe run =>
    refine h.shrink (by rw [fillLevel_userOrders]; exact h.lists) (fun {user i} hu => ?_)
      fun {s p x} hx => ?_
    · rw [fillLevel_userOrders] at hu
      rw [fillLevel_orderLocations]
      exact ⟨hu, rfl⟩
    · obtain ⟨y, hy, v, k, rfl⟩ := rests_before_fill level run hx
      exact ⟨y, hy, (Order.setTranches_id ..).symm, (Order.setTranches_userId ..).symm⟩
  | cancel level mode user mem own orders_eq run =>
    exact h.untrackUser ⟨_, level, mem⟩ (stpCancel_orderLocations ..) (stpCancel_userOrders ..)
      fun hx => ((hsound.rests_stpCancel ⟨level, mem, orders_eq⟩).mp hx).1
  | markEmpty | flag => exact h

theorem finishSweep (hsound : SweepSound t sw) (h : sw.book.UsersIndexed) :
    (finishSweep t sw).UsersIndexed := by
  obtain ⟨_, _, _, hframe⟩ := finishSweep_frame t sw
  obtain ⟨hlists, hlisted⟩ := foldl_untrackById h.lists sw.filledOrders
  have husers : (OrderBookRs.finishSweep t sw).userOrders =
      sw.filledOrders.foldl (fun m f => m.untrackById f.1) sw.book.userOrders := by rw [hframe]
  refine h.shrink (by rw [husers]; exact hlists) (fun {user i} hu => ?_)
    fun {s p x} hx => ⟨x, hsound.finishSweep_rests.mp hx, rfl, rfl⟩
  rw [husers, hlisted] at hu
  rw [finishSweep_lookup, if_neg hu.2]
  exact ⟨hu.1, rfl⟩

section Queue

variable [LevelQueue L]

theorem cancelAt (hsound : b.Sound) (hout : b.TakesOff side price l l' o) (h : b.UsersIndexed) :
    (b.cancelAt side price l' o).UsersIndexed :=
  h.untrackUser hout.rests (cancelAt_orderLocations ..) (cancelAt_userOrders ..) fun hx =>
    ((hsound.rests_removed hout (cancelAt_get? _ _ _ _ _)).mp hx).1

theorem restAt {remaining : ℕ} (hsound : b.Sound)
    (hlevel : l = ((b.levels o.side).get? o.price).getD (new o.price))
    (horders : orders l' = orders l ++ [residual o remaining])
    (hfresh : b.orderLocations.lookup o.id = none) (h : b.UsersIndexed) :
    (b.restAt o (residual o remaining) l' remaining).UsersIndexed := by
  have hnew : ∀ user, ¬ b.userOrders.Listed user o.id := fun user hu => h.located hu hfresh
  refine ⟨?_, fun {user i} hu => ?_, fun {s p x user} hx hu => ?_⟩
  · rw [restAt_userOrders]
    exact h.lists.track hnew
  · rw [restAt_userOrders, UserOrders.listed_track] at hu
    rw [restAt_orderLocations]
    by_cases hi : i = o.id
    · rw [hi, AList.lookup_insert]
      exact Option.some_ne_none _
    · rw [AList.lookup_insert_ne hi]
      exact h.located (hu.resolve_right fun hboth => hi hboth.2)
  · rw [restAt_userOrders, UserOrders.listed_track] at hu
    rcases (restAt_rests_iff remaining hlevel horders).mp hx with hx | ⟨-, -, rfl⟩
    · exact h.owner hx (hu.resolve_right fun hboth => hsound.id_ne hfresh hx hboth.2)
    · rw [residual_id] at hu
      rw [residual_userId]
      exact (hu.resolve_left (hnew user)).1

theorem resizeAt [LevelResize L] {q : ℕ} (hsound : b.Sound) (hres : b.Resizes side price l l' o q)
    (h : b.UsersIndexed) : (b.resizeAt side price l' (withReducedQuantity L o q)).UsersIndexed := by
  have hrests : ∀ {s p x}, (b.resizeAt side price l' (withReducedQuantity L o q)).Rests s p x →
      ∃ y, b.Rests s p y ∧ y.id = x.id ∧ y.userId = x.userId := by
    intro s p x hx
    rcases hsound.rests_resizeAt hres hx with ⟨hx, -⟩ | ⟨rfl, rfl, rfl⟩
    · exact ⟨x, hx, rfl, rfl⟩
    · exact ⟨o, hres.rests, (reduced_id o q).symm, (reduced_userId o q).symm⟩
  have hloc := resizeAt_orderLocations b side price l' (withReducedQuantity L o q)
  have husers := resizeAt_userOrders b side price l' (withReducedQuantity L o q)
  split_ifs at hloc husers
  · exact h.untrackById hloc husers hrests
  · refine h.shrink (by rw [husers]; exact h.lists) (fun {user i} hu => ?_) hrests
    rw [husers] at hu
    rw [hloc]
    exact ⟨hu, rfl⟩

theorem steps [LevelMatch L] [LevelResize L] :
    StepInvariant (fun b : OrderBook L => b.Sound ∧ b.UsersIndexed) fun _ => True where
  same hsame h := ⟨h.1.sameState hsame, h.2.sameState hsame⟩
  emit wantResult r h :=
    ⟨h.1.sameOrders (sameOrders_emitTrades wantResult r _),
      h.2.sameOrders (sameOrders_emitTrades wantResult r _)⟩
  sweep id side mode user kind h :=
    matchOrderInner_invariant (I := fun b : OrderBook L => b.Sound ∧ b.UsersIndexed)
      (J := fun t sw => SweepSound t sw ∧ sw.book.UsersIndexed)
      (fun hsame h => ⟨h.1.sameState hsame, h.2.sameState hsame⟩)
      (fun mode h => ⟨.start h.1 mode, h.2⟩) (fun hs hJ => ⟨hJ.1.step hs, hJ.2.step hs hJ.1⟩)
      (fun h hJ => ⟨h.1.finishSweep hJ.1, hJ.2.finishSweep hJ.1⟩) id side mode user kind h
  rest _ _ hl _ horders hfresh himm _ h :=
    ⟨h.1.restAt hl horders hfresh himm, h.2.restAt h.1 hl horders hfresh⟩
  tidy hl hnil h := absurd hnil (h.1.nonempty hl)
  cancel hout h := ⟨h.1.cancelAt hout.off, h.2.cancelAt h.1 hout.off⟩
  drop hout h :=
    ⟨h.1.dropAt hout.off, h.2.untrackById (dropAt_orderLocations ..) (dropAt_userOrders ..)
      fun {s p x} hx => ⟨x, ((h.1.rests_removed hout.off
        (dropAt_get? _ _ _ _ _)).mp hx).1, rfl, rfl⟩⟩
  resize _ hres h :=
    ⟨h.1.resizeAt hres.resized, h.2.resizeAt h.1 hres.resized⟩
  clear {b} h := by
    refine ⟨h.1.cancelAllOrders, ?_⟩
    rw [OrderBook.cancelAllOrders]
    split_ifs
    · exact h.2.sameState b.sameState_invalidateCache
    · refine ⟨UserOrders.wellFormed_empty, fun hu => absurd hu UserOrders.not_listed_empty,
        fun _ hu => absurd hu UserOrders.not_listed_empty⟩
  byUser user h := by
    refine cancelOrdersByUser_keeps
      (I := fun b : OrderBook L => b.Sound ∧ b.UsersIndexed)
      (fun hsame h => ⟨h.1.sameState hsame, h.2.sameState hsame⟩)
      (fun hout h =>
        ⟨h.1.cancelAt hout.off, h.2.cancelAt h.1 hout.off⟩) user ⟨?_, ?_⟩
    · exact ⟨h.1.located, h.1.standing, h.1.nonempty⟩
    · exact h.2.shrink h.2.lists.erase (fun hu => ⟨(UserOrders.listed_erase.mp hu).2, rfl⟩)
        fun {s p x} hx => ⟨x, hx, rfl, rfl⟩

end Queue

end OrderBook.UsersIndexed

section Session

variable [SnapshotChecksum] [LevelSnapshot L] [LevelQueue L] [LevelMatch L] [LevelResize L]

theorem usersIndexed_session :
    SessionInvariant (fun b : OrderBook L => b.Sound ∧ b.UsersIndexed) (fun _ => True)
      SoundPackage where
  calls := OrderBook.UsersIndexed.steps.calls
  configure s h := by
    refine ⟨sound_session.configure s h.1, ?_⟩
    cases s with
    | marketClose timestamp => cases timestamp <;> exact ⟨h.2.lists, h.2.located, h.2.owner⟩
    | _ => exact ⟨h.2.lists, h.2.located, h.2.owner⟩
  snapshot hrun h := h.1.soundPackage hrun
  restore {b p} hp h := by
    refine ⟨h.1.restore hp, ?_⟩
    rcases restoreFromSnapshotPackage_cases p b with ⟨e, hrun⟩ | ⟨prepared, hprep, hrun⟩
    · rw [hrun]
      exact h.2
    · obtain ⟨hprices, hids, -⟩ := prepareSnapshotLevels_eq_ok hprep
      have hregisters := packageRestored_registers (b := b) (p := p) hids
      rw [hrun]
      refine ⟨hregisters.wellFormed, fun {user i} hu => ?_, fun {s q o user} ho hu => ?_⟩
      · obtain ⟨side, price, o, ho, hid, -⟩ := hregisters.listed.mp hu
        rw [hregisters.lookup.mpr ⟨o, ho, hid⟩]
        exact Option.some_ne_none _
      · obtain ⟨side, price, o', ho', hid, rfl⟩ := hregisters.listed.mp hu
        have heq := List.inj_on_of_nodup_map hids ho' ((packageRestored_rests hprices).mp ho) hid
        exact congrArg (fun x => x.2.2.userId) heq

/-- **Every reachable book has its user lists in order**, whatever was resized. -/
theorem OrderBook.Reachable.usersIndexed {b : OrderBook L} (h : b.Reachable) :
    b.UsersIndexed := by
  obtain ⟨symbol, clock, ops, rfl⟩ := h
  refine (usersIndexed_session.run (fun op _ => op.resizesTo_true) ⟨?_, ?_⟩
    fun p hp => absurd hp List.not_mem_nil).2
  · exact OrderBook.Sound.of_no_levels fun side price => by cases side <;> rfl
  · exact ⟨UserOrders.wellFormed_empty, fun hu => absurd hu UserOrders.not_listed_empty,
      fun _ hu => absurd hu UserOrders.not_listed_empty⟩

end Session

/-! ### Comparing the two calls -/

/-- A `Cancel` request and `cancel_order` return the same order and leave the same levels, indices,
risk entries, counters, tracked statuses and special orders. -/
structure CancelsAlike (id : OrderId) (b : OrderBook L) : Prop where
  returned : (OrderBook.updateOrder (.cancel id) b).1 = .ok (b.cancelOrder id).2
  levels : ∀ side, (OrderBook.updateOrder (.cancel id) b).2.levels side =
    (b.cancelOrder id).1.levels side
  locations : ∀ i, (OrderBook.updateOrder (.cancel id) b).2.orderLocations.lookup i =
    (b.cancelOrder id).1.orderLocations.lookup i
  users : ∀ user, (OrderBook.updateOrder (.cancel id) b).2.userOrders.lookup user =
    (b.cancelOrder id).1.userOrders.lookup user
  riskEntries : ∀ i, (OrderBook.updateOrder (.cancel id) b).2.riskState.orders.lookup i =
    (b.cancelOrder id).1.riskState.orders.lookup i
  riskCounters : ∀ account,
    (OrderBook.updateOrder (.cancel id) b).2.riskState.counters.lookup account =
      (b.cancelOrder id).1.riskState.counters.lookup account
  statuses : ∀ i, (OrderBook.updateOrder (.cancel id) b).2.orderStatus i =
    (b.cancelOrder id).1.orderStatus i
  special : (OrderBook.updateOrder (.cancel id) b).2.specialOrderTracker =
    (b.cancelOrder id).1.specialOrderTracker

/-- There is nothing that a `Cancel` request for the order would forget, and its id is one of the
last two of its user's list. -/
structure NothingToForget (b : OrderBook L) (o : Order) : Prop where
  risk : b.riskState.config = none ∨ b.riskState.orders.lookup o.id = none
  status : ∀ t, b.orderStateTracker = some t → ∀ i,
    (t.transition o.id (.cancelled (b.trackedFilled o.id) .userRequested)).get i = t.get i
  special : o.id ∉ b.specialOrderTracker.peggedOrders ∧
    o.id ∉ b.specialOrderTracker.trailingStopOrders
  listed : ∀ ids, b.userOrders.lookup o.userId = some ids → ids.length ≤ ids.idxOf o.id + 2

theorem updateOrder_cancel (id : OrderId) (b : OrderBook L) :
    OrderBook.updateOrder (.cancel id) b = cancelByUpdate id b.invalidateCache := rfl

theorem unregister_eq_self_iff {t : SpecialOrderTracker} :
    t = t.unregister id ↔ id ∉ t.peggedOrders ∧ id ∉ t.trailingStopOrders := by
  rw [SpecialOrderTracker.unregister, SpecialOrderTracker.mk.injEq, eq_comm,
    Finset.erase_eq_self, eq_comm, Finset.erase_eq_self]

theorem onCancel_alike_iff {r : RiskState} :
    ((∀ i, r.orders.lookup i = (r.onCancel id).orders.lookup i) ∧
        ∀ account, r.counters.lookup account = (r.onCancel id).counters.lookup account) ↔
      r.config = none ∨ r.orders.lookup id = none := by
  constructor
  · rintro ⟨horders, -⟩
    cases hconfig : r.config with
    | none => exact Or.inl rfl
    | some =>
      refine Or.inr ?_
      rw [horders id, RiskState.orders_onCancel hconfig, if_pos rfl]
  · rintro (h | h)
    · have hsame : r.onCancel id = r := by rw [RiskState.onCancel, h]
      rw [hsame]
      exact ⟨fun _ => rfl, fun _ => rfl⟩
    · rw [RiskState.onCancel_of_none h]
      exact ⟨fun _ => rfl, fun _ => rfl⟩

omit [PriceLevel L] in
theorem statuses_alike_iff {b : OrderBook L} {status : OrderStatus} :
    (∀ i, b.orderStatus i = (b.trackState id status).orderStatus i) ↔
      ∀ t, b.orderStateTracker = some t → ∀ i, (t.transition id status).get i = t.get i := by
  cases htracker : b.orderStateTracker with
  | none => simp [OrderBook.orderStatus, OrderBook.trackState, htracker]
  | some =>
    simp only [OrderBook.orderStatus, OrderBook.trackState, htracker, Option.map_some,
      Option.bind_some, Option.some.injEq, forall_eq']
    exact forall_congr' fun i => eq_comm

section Main

variable [LevelQueue L] {b : OrderBook L} {id : OrderId}

theorem cancelsAlike_of_no_order (h : ∀ {side price o}, b.Rests side price o → o.id ≠ id) :
    CancelsAlike id b := by
  have hrequest : OrderBook.updateOrder (.cancel id) b = (.ok none, b.invalidateCache) := by
    rw [updateOrder_cancel]
    rcases cancelByUpdate_cases b.invalidateCache id with
      hrun | ⟨side, price, l, l', o, hid, hout, -⟩
    · exact hrun
    · exact absurd hid (h hout.rests)
  rcases b.cancelOrderWithReason_step id .userRequested with
    ⟨⟨cache, clock, hbook⟩, hnone, -⟩ | ⟨side, price, l, l', o, hid, hout, -⟩
  · rw [← OrderBook.cancelOrder] at hbook hnone
    constructor
    case returned => rw [hrequest, hnone]
    all_goals
      rw [hrequest, hbook]
      intros
      rfl
  · exact absurd hid (h hout.rests)

/-- A `Cancel` request for a resting order. -/
theorem updateOrder_cancel_of_rests (hplace : b.orderLocations.lookup o.id = some (price, side))
    (hl : (b.levels side).get? price = some l) (ho : o ∈ orders l)
    (hrun : PriceLevel.updateOrder l (.cancel o.id) = (.ok (some o), l')) :
    OrderBook.updateOrder (.cancel o.id) b =
      (.ok (some o), b.invalidateCache.dropAt side price l' o.id) := by
  rw [updateOrder_cancel]
  have hplace' : b.invalidateCache.orderLocations.lookup o.id = some (price, side) := hplace
  have hl' : (b.invalidateCache.levels side).get? price = some l := hl
  have hget : b.invalidateCache.getOrder o.id = some o := getOrder_of_mem hplace' hl' ho
  rw [cancelByUpdate]
  simp only [hplace', hget, cancelOnLevel, hl', hrun, decide_eq_true_eq]
  rfl

/-- `cancel_order` of a resting order. -/
theorem cancelOrder_of_rests (hplace : b.orderLocations.lookup o.id = some (price, side))
    (hl : (b.levels side).get? price = some l) (ho : o ∈ orders l)
    (hrun : PriceLevel.updateOrder l (.cancel o.id) = (.ok (some o), l')) :
    (b.cancelOrder o.id).2 = some o ∧ Quiet { b.cancelAt side price l' o with
      orderStateTracker := (b.trackState o.id
        (.cancelled (b.trackedFilled o.id) .userRequested)).orderStateTracker }
      (b.cancelOrder o.id).1 := by
  rcases b.cancelOrderWithReason_step o.id .userRequested with
    ⟨-, -, hnone⟩ | ⟨side', price', l₁, l₁', o', hid, hout, hsome, hquiet⟩
  · exact absurd rfl (hnone side price o hplace ⟨l, hl, ho⟩)
  · obtain ⟨⟨hl', ho', -⟩, hplace', hrun'⟩ := hout
    rw [hid, hplace, Option.some.injEq, Prod.mk.injEq] at hplace'
    obtain ⟨rfl, rfl⟩ := hplace'
    rw [hl, Option.some.injEq] at hl'
    subst hl'
    obtain rfl := eq_of_mem_orders ho' ho hid
    obtain rfl : l₁' = l' := congrArg Prod.snd (hrun'.symm.trans hrun)
    exact ⟨hsome, hquiet⟩

/-- **The two calls on a resting order**, field by field. -/
theorem cancelsAlike_iff_of_rests (hsound : b.Sound) (husers : b.UsersIndexed)
    (ho : b.Rests side price o) : CancelsAlike o.id b ↔ NothingToForget b o := by
  obtain ⟨l, hl, hmem⟩ := ho
  have hplace := hsound.located ⟨l, hl, hmem⟩
  obtain ⟨l', hrun, -⟩ := LevelQueue.cancel_of_mem hmem
  have hrequest := updateOrder_cancel_of_rests hplace hl hmem hrun
  obtain ⟨hreturned, cache, clock, hbook⟩ := cancelOrder_of_rests hplace hl hmem hrun
  have hspecial := b.invalidateCache.dropAt_specialOrderTracker side price l' o.id
  have htracker := dropAt_orderStateTracker b.invalidateCache side price l' o.id
  -- what the request leaves in each field, and what `cancel_order` leaves there
  have hlists : (OrderBook.updateOrder (.cancel o.id) b).2.userOrders =
      b.userOrders.untrackById o.id := by
    rw [hrequest]
    exact dropAt_userOrders ..
  have hlists' : (b.cancelOrder o.id).1.userOrders = b.userOrders.untrackUser o.userId o.id := by
    rw [hbook]
    exact cancelAt_userOrders ..
  have hrisk : (OrderBook.updateOrder (.cancel o.id) b).2.riskState = b.riskState := by
    rw [hrequest]
    exact dropAt_riskState ..
  have hrisk' : (b.cancelOrder o.id).1.riskState = b.riskState.onCancel o.id := by
    rw [hbook]
    exact cancelAt_riskState ..
  have hstatus : (OrderBook.updateOrder (.cancel o.id) b).2.orderStatus = b.orderStatus := by
    funext i
    rw [hrequest, OrderBook.orderStatus, htracker]
    rfl
  have hstatus' : (b.cancelOrder o.id).1.orderStatus = (b.trackState o.id
      (.cancelled (b.trackedFilled o.id) .userRequested)).orderStatus := by
    rw [hbook]
    rfl
  have hspecial' : (b.cancelOrder o.id).1.specialOrderTracker =
      b.specialOrderTracker.unregister o.id := by
    rw [hbook]
    exact cancelAt_specialOrderTracker ..
  have huserLists := UserOrders.lookup_untrack_eq_iff husers.lists
    (fun {v} hv => husers.owner ⟨l, hl, hmem⟩ hv)
  constructor
  · intro h
    have hentries := h.riskEntries
    have hcounters := h.riskCounters
    have hstatuses := h.statuses
    have hregistered := h.special
    have hlisted := h.users
    rw [hrisk, hrisk'] at hentries hcounters
    rw [hstatus, hstatus'] at hstatuses
    rw [hlists, hlists'] at hlisted
    rw [hrequest, hspecial'] at hregistered
    exact ⟨onCancel_alike_iff.mp ⟨hentries, hcounters⟩, statuses_alike_iff.mp hstatuses,
      unregister_eq_self_iff.mp (hspecial.symm.trans hregistered), huserLists.mp hlisted⟩
  · intro h
    obtain ⟨hentries, hcounters⟩ := onCancel_alike_iff.mpr h.risk
    refine ⟨?_, fun side' => SortedMap.ext_get? fun p => ?_, fun i => ?_, ?_, ?_, ?_, ?_, ?_⟩
    · rw [hrequest, hreturned]
    · rw [hrequest, hbook]
      exact (dropAt_get? ..).trans (cancelAt_get? b side price l' o side' p).symm
    · rw [hrequest, hbook]
      exact congrArg (AList.lookup i)
        ((dropAt_orderLocations ..).trans (cancelAt_orderLocations b side price l' o).symm)
    · rw [hlists, hlists']
      exact huserLists.mpr h.listed
    · rw [hrisk, hrisk']
      exact hentries
    · rw [hrisk, hrisk']
      exact hcounters
    · rw [hstatus, hstatus']
      exact statuses_alike_iff.mpr h.status
    · rw [hrequest, hspecial']
      exact hspecial.trans (unregister_eq_self_iff.mpr h.special)

/-- **A `Cancel` request equals `cancel_order`** exactly when the order does not rest, or there is
nothing for the request to forget. -/
theorem cancels_alike_iff [LevelMatch L] [LevelResize L] [LevelSnapshot L] [SnapshotChecksum]
    (hreach : b.Reachable) (id : OrderId) :
    CancelsAlike id b ↔
      ∀ {side price o}, b.Rests side price o → o.id = id → NothingToForget b o := by
  constructor
  · rintro h side price o ho rfl
    exact (cancelsAlike_iff_of_rests hreach.sound hreach.usersIndexed ho).mp h
  · intro h
    by_cases hrests : ∃ side price o, b.Rests side price o ∧ o.id = id
    · obtain ⟨side, price, o, ho, rfl⟩ := hrests
      exact (cancelsAlike_iff_of_rests hreach.sound hreach.usersIndexed ho).mpr (h ho rfl)
    · exact cancelsAlike_of_no_order fun ho hid => hrests ⟨_, _, _, ho, hid⟩

end Main

/-- Two bids of one user under the given limits. -/
def twoBids (config : Option RiskConfig) : List Op :=
  [.configure (.riskConfig config),
    .command (.addOrder ⟨1, 100, .buy, 7, 0, .gtc, 5, .standard⟩),
    .command (.addOrder ⟨2, 100, .buy, 7, 0, .gtc, 5, .standard⟩)]

/-- The book those bids leave. -/
def twoBidsBook (config : Option RiskConfig) : OrderBook FifoLevel :=
  letI := noDigest
  (Session.run { book := (withClock "BTC" ⟨fun n => n, 0⟩ : OrderBook FifoLevel) }
    (twoBids config)).book

/-- Without limits the first bid is cancelled alike. -/
theorem twoBids_cancels_alike : CancelsAlike 1 (twoBidsBook none) := by
  let _ := noDigest
  have hreach : (twoBidsBook none).Reachable := ⟨"BTC", ⟨fun n => n, 0⟩, twoBids none, rfl⟩
  refine (cancels_alike_iff hreach 1).mpr fun {side price o} ho hid => ?_
  have hfirst : (twoBidsBook none).Rests .buy 100 ⟨1, 100, .buy, 7, 0, .gtc, 5, .standard⟩ :=
    ⟨_, rfl, by decide⟩
  obtain rfl := hreach.sound.unique ho hfirst hid
  refine ⟨Or.inl rfl, (fun t ht => by cases ht), ⟨Finset.notMem_empty 1, Finset.notMem_empty 1⟩,
    fun ids hids => ?_⟩
  obtain rfl : [1, 2] = ids := Option.some.inj hids
  decide

/-- With limits the request keeps the risk entry of the order it cancels. -/
theorem twoBids_not_cancels_alike :
    ¬ CancelsAlike 1 (twoBidsBook (some ⟨some 10, none, none, none⟩)) := by
  intro h
  exact absurd (h.riskEntries 1) (by decide)

end OrderBookRs
