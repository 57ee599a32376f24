import OrderBookRs.CancelBatches

/-!
# No resting order is missing from its user's list

`cancel_orders_by_user` reads the ids to cancel off `user_orders`, so it can only be complete if the
list of a user names every order of that user that rests. Every reachable book has this, resizes to
zero and re-pricings included. The lists may name ids that no longer rest: a cancel of such an id
finds nothing.

## Main definitions

* `OrderBook.Catalogued`: sound levels, and user lists that miss no resting order.

## Main results

* `OrderBook.ReachableByCalls.catalogued`.
-/

namespace OrderBookRs

open PriceLevel Fallible OrderBook

variable {L : Type} [PriceLevel L] {price : ℕ} {l l' : L} {o : Order} {side : Side}
  {b : OrderBook L}

/-- Whatever rests is listed for its user. -/
def OrderBook.OrdersListed (b : OrderBook L) : Prop :=
  ∀ ⦃side price o⦄, b.Rests side price o → b.userOrders.Listed o.userId o.id

/-- The levels are sound, the user lists are in order, and they miss no resting order. -/
structure OrderBook.Catalogued (b : OrderBook L) : Prop where
  sound : b.Sound
  users : b.UsersIndexed
  listed : b.OrdersListed

/-! ### Listings through the calls -/

namespace OrderBook.OrdersListed

variable {b b' : OrderBook L} {t : Taker} {sw : Sweep L}

/-- Orders left or changed their tranches, and those that stay are still listed. -/
theorem shrink (h : b.OrdersListed)
    (hrests : ∀ {s p x}, b'.Rests s p x → ∃ y, b.Rests s p y ∧ y.id = x.id ∧ y.userId = x.userId ∧
      (b.userOrders.Listed y.userId y.id → b'.userOrders.Listed y.userId y.id)) :
    b'.OrdersListed := by
  intro s p x hx
  obtain ⟨y, hy, hid, huser, hkept⟩ := hrests hx
  rw [← hid, ← huser]
  exact hkept (h hy)

/-- Orders left, and those that stay are still listed. -/
theorem subset (h : b.OrdersListed)
    (hrests : ∀ {s p x}, b'.Rests s p x → b.Rests s p x ∧
      (b.userOrders.Listed x.userId x.id → b'.userOrders.Listed x.userId x.id)) :
    b'.OrdersListed :=
  h.shrink fun hx => ⟨_, (hrests hx).1, rfl, rfl, (hrests hx).2⟩

theorem sameOrders (hsame : b.SameOrders b') (h : b.OrdersListed) : b'.OrdersListed := by
  obtain ⟨_, _, _, _, _, rfl⟩ := hsame
  exact h

theorem step [LevelMatch L] {sw' : Sweep L} (hs : SweepStep t price sw sw')
    (hsound : SweepSound t sw) (h : sw.book.OrdersListed) : sw'.book.OrdersListed := by
  cases hs with
  | fill level kind allows pos cap safe run =>
    refine h.shrink fun {s p x} hx => ?_
    obtain ⟨y, hy, v, w, rfl⟩ := rests_before_fill level run hx
    refine ⟨y, hy, (Order.setTranches_id ..).symm, (Order.setTranches_userId ..).symm, fun hu => ?_⟩
    rwa [fillLevel_userOrders]
  | cancel level mode user mem own orders_eq run =>
    refine h.subset fun {s p x} hx => ?_
    obtain ⟨hx, hne⟩ := (hsound.rests_stpCancel ⟨level, mem, orders_eq⟩).mp hx
    rw [stpCancel_userOrders, UserOrders.listed_untrackUser]
    exact ⟨hx, fun hu => ⟨hu, fun hboth => hne hboth.2⟩⟩
  | markEmpty | flag => exact h

/-- Only makers that no longer rest are untracked. -/
theorem finishSweep (hsound : SweepSound t sw) (husers : sw.book.UsersIndexed)
    (h : sw.book.OrdersListed) : (finishSweep t sw).OrdersListed := by
  obtain ⟨_, _, _, hframe⟩ := finishSweep_frame t sw
  have hlists : (OrderBookRs.finishSweep t sw).userOrders =
      sw.filledOrders.foldl (fun m f => m.untrackById f.1) sw.book.userOrders := by rw [hframe]
  refine h.subset fun {s p x} hx => ?_
  have hx := hsound.finishSweep_rests.mp hx
  rw [hlists, (foldl_untrackById husers.lists sw.filledOrders).2]
  exact ⟨hx, fun hu => ⟨hu, fun hfilled => hsound.filled hfilled hx rfl⟩⟩

/-- An order left, and no other id was untracked. -/
theorem remove (h : b.OrdersListed) (id : OrderId)
    (hlisted : ∀ {user i}, i ≠ id → b.userOrders.Listed user i → b'.userOrders.Listed user i)
    (hrests : ∀ {s p x}, b'.Rests s p x → b.Rests s p x ∧ x.id ≠ id) : b'.OrdersListed :=
  h.subset fun hx => ⟨(hrests hx).1, hlisted (hrests hx).2⟩

section Queue

variable [LevelQueue L]

theorem restAt {remaining : ℕ} (hlevel : l = ((b.levels o.side).get? o.price).getD (new o.price))
    (horders : orders l' = orders l ++ [residual o remaining]) (h : b.OrdersListed) :
    (b.restAt o (residual o remaining) l' remaining).OrdersListed := by
  intro s p x hx
  rw [restAt_userOrders, UserOrders.listed_track]
  rcases (restAt_rests_iff remaining hlevel horders).mp hx with hx | ⟨-, -, rfl⟩
  · exact Or.inl (h hx)
  · exact Or.inr ⟨residual_userId o remaining, residual_id o remaining⟩

theorem cancelAt (hsound : b.Sound) (hout : b.TakesOff side price l l' o) (h : b.OrdersListed) :
    (b.cancelAt side price l' o).OrdersListed := by
  refine h.remove o.id (fun {user i} hne hu => ?_)
    (hsound.rests_removed hout (cancelAt_get? _ _ _ _ _)).mp
  rw [cancelAt_userOrders, UserOrders.listed_untrackUser]
  exact ⟨hu, fun hboth => hne hboth.2⟩

theorem dropAt (hsound : b.Sound) (husers : b.UsersIndexed) (hout : b.TakesOff side price l l' o)
    (h : b.OrdersListed) : (b.dropAt side price l' o.id).OrdersListed := by
  refine h.remove o.id (fun {user i} hne hu => ?_)
    (hsound.rests_removed hout (dropAt_get? _ _ _ _ _)).mp
  rw [dropAt_userOrders, UserOrders.listed_untrackById husers.lists]
  exact ⟨hu, hne⟩

/-- A resized order is untracked only with its level, and then it is not there any more. -/
theorem resizeAt [LevelResize L] {q : ℕ} (hsound : b.Sound) (husers : b.UsersIndexed)
    (hres : b.Resizes side price l l' o q) (h : b.OrdersListed) :
    (b.resizeAt side price l' (withReducedQuantity L o q)).OrdersListed := by
  refine h.shrink fun {s p x} hx => ?_
  rw [resizeAt_userOrders, reduced_id]
  rcases hsound.rests_resizeAt hres hx with ⟨hold, hne⟩ | ⟨rfl, rfl, rfl⟩
  · refine ⟨x, hold, rfl, rfl, fun hu => ?_⟩
    split_ifs
    · exact (UserOrders.listed_untrackById husers.lists).mpr ⟨hu, hne⟩
    · exact hu
  · refine ⟨o, hres.rests, (reduced_id o q).symm, (reduced_userId o q).symm, fun hu => ?_⟩
    rw [rests_of_rewritten (resizeAt_get? b s p l' _), if_pos ⟨rfl, rfl⟩] at hx
    rwa [if_neg (orderCount_ne_zero hx)]

end Queue

end OrderBook.OrdersListed

/-! ### Catalogued books -/

/-- The list of a user can be taken out. -/
theorem OrderBook.UsersIndexed.erase (h : b.UsersIndexed) (user : Hash32) :
    ({ b with userOrders := b.userOrders.erase user } : OrderBook L).UsersIndexed :=
  h.shrink h.lists.erase (fun hu => ⟨(UserOrders.listed_erase.mp hu).2, rfl⟩)
    fun {_ _ x} hx => ⟨x, hx, rfl, rfl⟩

theorem OrderBook.UsersIndexed.nodup_list (h : b.UsersIndexed) (user : Hash32) :
    ((b.userOrders.lookup user).getD []).Nodup := by
  cases hl : b.userOrders.lookup user with
  | none => exact List.nodup_nil
  | some => exact h.lists.nodup hl

namespace OrderBook.Catalogued

variable {b b' : OrderBook L}

theorem mk_of (h : b.Sound ∧ b.UsersIndexed) (hlisted : b.OrdersListed) : b.Catalogued :=
  ⟨h.1, h.2, hlisted⟩

theorem indexed (h : b.Catalogued) : b.Sound ∧ b.UsersIndexed := ⟨h.sound, h.users⟩

theorem sameState (hsame : b.SameState b') (h : b.Catalogued) : b'.Catalogued :=
  ⟨h.sound.sameState hsame, h.users.sameState hsame, h.listed.sameOrders hsame.sameOrders⟩

/-- A book without levels and lists. -/
theorem of_nothing (hlevels : ∀ side price, (b.levels side).get? price = none)
    (husers : b.userOrders = ∅) : b.Catalogued := by
  refine ⟨.of_no_levels hlevels, ⟨?_, fun hu => ?_, fun _ hu => ?_⟩, ?_⟩
  · rw [husers]
    exact UserOrders.wellFormed_empty
  · rw [husers] at hu
    exact absurd hu UserOrders.not_listed_empty
  · rw [husers] at hu
    exact absurd hu UserOrders.not_listed_empty
  · rintro s p o ⟨l, hl, -⟩
    rw [hlevels] at hl
    cases hl

variable [LevelQueue L]

/-- The list of a user names what the cancels then take off the book, and nothing else is left
without its listing. -/
theorem cancelOrdersByUser (h : b.Catalogued) (user : Hash32) :
    (b.cancelOrdersByUser user).1.Catalogued := by
  have hsound : ({ b with userOrders := b.userOrders.erase user } : OrderBook L).Sound :=
    ⟨h.sound.located, h.sound.standing, h.sound.nonempty⟩
  obtain ⟨-, hsheds, hend⟩ := hsound.sheds_batch (h.users.erase user) (h.users.nodup_list user)
    .massCancelByUser
  refine mk_of hend fun s p x hx => ?_
  obtain ⟨hx, hkept⟩ := hsheds.rests_iff.mp hx
  have hlisted := h.listed hx
  have hother : x.userId ≠ user := by
    rintro rfl
    obtain ⟨ids, hids, hmem⟩ := hlisted
    refine hkept (mem_found.mpr ⟨?_, hsound.isSome_getOrder_iff.mpr ⟨s, p, x, hx, rfl⟩⟩)
    rw [hids]
    exact hmem
  obtain ⟨ids, hids, hmem⟩ := UserOrders.listed_erase.mpr ⟨hother, hlisted⟩
  have hstays : x.id ∈ ids.filter fun i =>
      i ∉ ({ b with userOrders := b.userOrders.erase user } : OrderBook L).found
        ((b.userOrders.lookup user).getD []) :=
    List.mem_filter.mpr ⟨hmem, decide_eq_true hkept⟩
  refine ⟨_, (hsheds.users x.userId).trans ?_, hstays⟩
  rw [hids, trimmed, Option.map_some]
  exact Option.filter_some_pos (by simpa using List.ne_nil_of_mem hstays)

/-- **Every call keeps the user lists complete.** -/
theorem steps [LevelMatch L] [LevelResize L] :
    StepInvariant (fun b : OrderBook L => b.Catalogued) fun _ => True where
  same hsame h := h.sameState hsame
  emit wantResult r h :=
    mk_of (UsersIndexed.steps.emit wantResult r h.indexed)
      (h.listed.sameOrders (sameOrders_emitTrades wantResult r _))
  sweep id side mode user kind h :=
    matchOrderInner_invariant (I := fun b : OrderBook L => b.Catalogued)
      (J := fun t sw => SweepSound t sw ∧ sw.book.UsersIndexed ∧ sw.book.OrdersListed)
      (fun hsame h => h.sameState hsame) (fun mode h => ⟨.start h.sound mode, h.users, h.listed⟩)
      (fun hs hJ => ⟨hJ.1.step hs, hJ.2.1.step hs hJ.1, hJ.2.2.step hs hJ.1⟩)
      (fun h hJ => ⟨h.sound.finishSweep hJ.1, hJ.2.1.finishSweep hJ.1,
        hJ.2.2.finishSweep hJ.1 hJ.2.1⟩) id side mode user kind h
  rest hswept hstart hl hadd horders hfresh himm hrem h :=
    mk_of (UsersIndexed.steps.rest hswept hstart.indexed hl hadd horders hfresh himm hrem h.indexed)
      (h.listed.restAt hl horders)
  tidy hl hnil h := absurd hnil (h.sound.nonempty hl)
  cancel hout h :=
    mk_of (UsersIndexed.steps.cancel hout h.indexed) (h.listed.cancelAt h.sound hout.off)
  drop hout h :=
    mk_of (UsersIndexed.steps.drop hout h.indexed) (h.listed.dropAt h.sound h.users hout.off)
  resize hq hres h := mk_of (UsersIndexed.steps.resize hq hres h.indexed)
    (h.listed.resizeAt h.sound h.users hres.resized)
  clear {b} h := by
    rw [cancelAllOrders]
    dsimp only
    split_ifs
    · exact h.sameState b.sameState_invalidateCache
    · exact of_nothing (fun side price => by cases side <;> rfl) rfl
  byUser user h := h.cancelOrdersByUser user

theorem repricing [LevelMatch L] [LevelResize L] :
    RepriceInvariant fun b : OrderBook L => b.Catalogued where
  same hsame h := h.sameState hsame
  update _ _ := steps.calls.update _ fun _ _ hu => nomatch hu
  forget _ _ h :=
    ⟨⟨h.sound.located, h.sound.standing, h.sound.nonempty⟩,
      ⟨h.users.lists, h.users.located, h.users.owner⟩, h.listed⟩

end OrderBook.Catalogued

section Session

variable [SnapshotChecksum] [LevelSnapshot L] [LevelQueue L] [LevelMatch L] [LevelResize L]

theorem catalogued_session :
    SessionInvariant (fun b : OrderBook L => b.Catalogued) (fun _ => True) SoundPackage where
  calls := OrderBook.Catalogued.steps.calls
  configure s h := by
    refine .mk_of (usersIndexed_session.configure s h.indexed) ?_
    cases s with
    | marketClose timestamp => cases timestamp <;> exact h.listed
    | _ => exact h.listed
  snapshot hrun h := h.sound.soundPackage hrun
  restore {b p} hp h := by
    refine .mk_of (usersIndexed_session.restore hp h.indexed) ?_
    rcases restoreFromSnapshotPackage_cases p b with ⟨e, hrun⟩ | ⟨prepared, hprep, hrun⟩
    · rw [hrun]
      exact h.listed
    · obtain ⟨hprices, hids, -⟩ := prepareSnapshotLevels_eq_ok hprep
      rw [hrun]
      intro s q o ho
      exact (packageRestored_registers hids).listed.mpr
        ⟨s, q, o, (packageRestored_rests hprices).mp ho, rfl, rfl⟩

/-- **The user lists of every reachable book miss no resting order.** -/
theorem OrderBook.ReachableByCalls.catalogued [DisplayId] (h : b.ReachableByCalls) :
    b.Catalogued := by
  obtain ⟨symbol, clock, calls, rfl⟩ := h
  refine catalogued_session.calls_run Catalogued.repricing calls ?_
    fun p hp => absurd hp List.not_mem_nil
  exact Catalogued.of_nothing (fun side price => by cases side <;> rfl) rfl

end Session

end OrderBookRs
