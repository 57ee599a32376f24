import OrderBookRs.AppliedPlan
import OrderBookRs.UserLists

/-!
# The order of a user's list

`cancel_orders_by_user` returns ids in the order of the user's list. An order that comes to rest is
appended to it, and a cancel or self-trade prevention takes an id out of it and closes the gap. A
fill takes the id out by `swap_remove`, so the last id of the list moves into the gap. A sweep
thereby reorders what it leaves of the list, unless it leaves at most one id behind the first it
fills.

## Main definitions

* `swapOut`, `FillsAtTail`: swap-removal of an id, and a list that it does not reorder.
* `admissions`: the ids that came to rest in a run, the latest last.
* `OrderBook.TailFills`: the condition on a call.

## Main results

* `foldl_swapOut_eq_filter`: swap-removals at the tail of a list close the gaps.
* `OrderBook.ListsWithin`: what one call does to the lists.
* `cancel_by_user_in_admission_order`.
-/

namespace OrderBookRs

open PriceLevel Fallible OrderBook

variable {i : OrderId} {ids : List OrderId} {c : Command}

/-! ### Swap-removals from a list -/

/-- Swap-remove an id, if it is listed. -/
def swapOut (ids : List OrderId) (i : OrderId) : List OrderId :=
  if i ∈ ids then swapRemove ids (ids.idxOf i) else ids

theorem swapOut_perm (ids : List OrderId) (i : OrderId) : (swapOut ids i).Perm (ids.erase i) := by
  rw [swapOut]
  split_ifs with hi
  · exact swapRemove_idxOf_perm hi
  · rw [List.erase_of_not_mem hi]

/-- What stands before the id stays. -/
theorem swapOut_cons {a : OrderId} (ids : List OrderId) (hne : a ≠ i) :
    swapOut (a :: ids) i = a :: swapOut ids i := by
  rw [swapOut, swapOut]
  simp only [List.mem_cons, hne.symm, false_or]
  split_ifs with hi
  · obtain ⟨l₁, l₂, hnot, rfl, -⟩ := List.exists_erase_eq hi
    have hidx : (l₁ ++ i :: l₂).idxOf i = l₁.length := by
      rw [List.idxOf_append_of_notMem hnot, List.idxOf_cons_self, Nat.add_zero]
    rw [List.idxOf_cons_ne _ hne, hidx]
    rcases List.eq_nil_or_concat l₂ with rfl | ⟨l₃, z, rfl⟩
    · rw [swapRemove_last]
      exact swapRemove_last (a :: l₁) i
    · rw [List.concat_eq_append, swapRemove_concat]
      exact swapRemove_concat (a :: l₁) l₃ i z
  · rfl

theorem foldl_swapOut_cons {a : OrderId} {filled : List OrderId} (ids : List OrderId)
    (hnot : a ∉ filled) : filled.foldl swapOut (a :: ids) = a :: filled.foldl swapOut ids := by
  induction filled generalizing ids with
  | nil => rfl
  | cons i filled ih =>
    obtain ⟨hne, hnot⟩ := not_or.mp (List.mem_cons.not.mp hnot)
    rw [List.foldl_cons, List.foldl_cons, swapOut_cons ids hne, ih _ hnot]

/-- Swap-removals leave the other ids, in some order. -/
theorem foldl_swapOut_perm (filled : List OrderId) (hnodup : ids.Nodup) :
    (filled.foldl swapOut ids).Perm (ids.filter fun i => i ∉ filled) := by
  induction filled generalizing ids with
  | nil => rw [List.foldl_nil, List.filter_eq_self.mpr fun i _ => by simp]
  | cons i filled ih =>
    have hperm := swapOut_perm ids i
    refine (ih (hperm.nodup_iff.mpr (hnodup.erase i))).trans ((hperm.filter _).trans ?_)
    rw [hnodup.erase_eq_filter, List.filter_filter]
    refine .of_eq (List.filter_congr fun x _ => ?_)
    by_cases hx : x = i <;> simp [hx]

/-- At most one id behind the first filled one is not filled. -/
def FillsAtTail (filled : List OrderId) : List OrderId → Prop
  | [] => True
  | i :: ids => if i ∈ filled then ids.countP (· ∉ filled) ≤ 1 else FillsAtTail filled ids

instance decidableFillsAtTail (filled : List OrderId) :
    (ids : List OrderId) → Decidable (FillsAtTail filled ids)
  | [] => inferInstanceAs (Decidable True)
  | i :: ids =>
    have := decidableFillsAtTail filled ids
    inferInstanceAs (Decidable (if i ∈ filled then ids.countP (· ∉ filled) ≤ 1
      else FillsAtTail filled ids))

namespace FillsAtTail

variable {filled ids ids' : List OrderId}

theorem of_countP (h : ids.countP (· ∉ filled) ≤ 1) : FillsAtTail filled ids := by
  induction ids with
  | nil => trivial
  | cons i ids ih =>
    have htail : ids.countP (· ∉ filled) ≤ 1 := ((List.sublist_cons_self i ids).countP_le).trans h
    rw [FillsAtTail]
    split_ifs
    · exact htail
    · exact ih htail

/-- Fewer ids leave fewer behind. -/
theorem sublist (hsub : ids'.Sublist ids) (h : FillsAtTail filled ids) :
    FillsAtTail filled ids' := by
  induction hsub with
  | slnil => exact h
  | cons a hsub ih =>
    rw [FillsAtTail] at h
    split_ifs at h
    · exact of_countP ((hsub.countP_le).trans h)
    · exact ih h
  | cons_cons a hsub ih =>
    rw [FillsAtTail] at h ⊢
    split_ifs at h ⊢
    · exact (hsub.countP_le).trans h
    · exact ih h

end FillsAtTail

/-- **Swap-removals at the tail close the gaps.** -/
theorem foldl_swapOut_eq_filter {filled : List OrderId} (h : FillsAtTail filled ids)
    (hnodup : ids.Nodup) : filled.foldl swapOut ids = ids.filter fun i => i ∉ filled := by
  induction ids with
  | nil => exact (foldl_swapOut_perm filled hnodup).eq_nil
  | cons i ids ih =>
    rw [FillsAtTail] at h
    split_ifs at h with hi
    · -- at most one id is left
      have hperm := foldl_swapOut_perm filled hnodup
      rw [List.filter_cons_of_neg (by simpa using hi)] at hperm ⊢
      rw [List.countP_eq_length_filter] at h
      cases hleft : ids.filter fun i => i ∉ filled with
      | nil =>
        rw [hleft] at hperm
        exact hperm.eq_nil
      | cons j rest =>
        rw [hleft, List.length_cons] at h
        obtain rfl : rest = [] := List.eq_nil_of_length_eq_zero (by omega)
        rw [hleft] at hperm
        exact List.perm_singleton.mp hperm
    · rw [foldl_swapOut_cons ids hi, ih h (List.nodup_cons.mp hnodup).2,
        List.filter_cons_of_pos (by simpa using hi)]

/-! ### Swap-removals from the user lists -/

namespace UserOrders

variable {m : UserOrders}

/-- `untrack_order_by_id` swap-removes the id from every list: one list at most has it. -/
theorem getD_lookup_untrackById (h : m.WellFormed) (i : OrderId) (user : Hash32) :
    ((m.untrackById i).lookup user).getD [] = swapOut ((m.lookup user).getD []) i := by
  rw [untrackById]
  cases hfind : m.entries.find? fun e => i ∈ e.2 with
  | none =>
    have hnot : i ∉ (m.lookup user).getD [] := by
      cases hids : m.lookup user with
      | none => exact List.not_mem_nil
      | some =>
        have hnone := List.find?_eq_none.mp hfind _ (AssocMap.mem_entries_iff_lookup.mpr hids)
        simpa using hnone
    rw [swapOut, if_neg hnot]
  | some e =>
    obtain ⟨hids, hmem⟩ := find?_listed hfind
    rw [lookup_store]
    by_cases huser : user = e.1
    · rw [if_pos huser, huser, hids, Option.getD_some, swapOut, if_pos hmem]
      cases swapRemove e.2 (e.2.idxOf i) <;> rfl
    · have hnot : i ∉ (m.lookup user).getD [] := by
        cases hother : m.lookup user with
        | none => exact List.not_mem_nil
        | some ids => exact fun hi => huser (h.unique ⟨ids, hother, hi⟩ ⟨e.2, hids, hmem⟩)
      rw [if_neg huser, swapOut, if_neg hnot]

theorem getD_lookup_foldl_untrackById (h : m.WellFormed) (filled : List OrderId) (user : Hash32) :
    ((filled.foldl untrackById m).lookup user).getD [] =
      filled.foldl swapOut ((m.lookup user).getD []) := by
  induction filled generalizing m with
  | nil => rfl
  | cons i filled ih =>
    rw [List.foldl_cons, List.foldl_cons, ih h.untrackById, getD_lookup_untrackById h]

end UserOrders

theorem trimmed_sublist (ids : List OrderId) (list : Option (List OrderId)) :
    ((trimmed ids list).getD []).Sublist (list.getD []) := by
  cases list with
  | none => exact List.Sublist.refl _
  | some l =>
    rw [trimmed, Option.map_some]
    cases hkept : (some (l.filter fun i => i ∉ ids)).filter fun l => !l.isEmpty with
    | none => exact List.nil_sublist _
    | some =>
      obtain ⟨heq, -⟩ := Option.filter_eq_some_iff.mp hkept
      obtain rfl := Option.some.inj heq
      exact List.filter_sublist

/-! ### Calls that list nothing -/

variable {L : Type} [PriceLevel L] {b : OrderBook L}

namespace OrderBook

variable {user : Hash32} {t : Taker} {mode : MatchMode}

/-- The ids listed for a user, in the order of the list. -/
def listOf (b : OrderBook L) (user : Hash32) : List OrderId := (b.userOrders.lookup user).getD []

omit [PriceLevel L] in
theorem mem_listOf : i ∈ b.listOf user ↔ b.userOrders.Listed user i := by
  rw [listOf]
  constructor
  · intro hi
    cases hids : b.userOrders.lookup user with
    | none => rw [hids] at hi; cases hi
    | some ids => rw [hids] at hi; exact ⟨ids, hids, hi⟩
  · rintro ⟨ids, hids, hi⟩
    rwa [hids]

/-- No list gains an id or changes the order of those it keeps. -/
def ListsWithin (b b' : OrderBook L) : Prop :=
  ∀ user, (b'.listOf user).Sublist (b.listOf user)

namespace ListsWithin

variable {b b' b'' : OrderBook L}

section

omit [PriceLevel L]

theorem of_eq (h : b'.userOrders = b.userOrders) : b.ListsWithin b' := fun user => by
  rw [listOf, listOf, h]

theorem trans (h : b.ListsWithin b') (h' : b'.ListsWithin b'') : b.ListsWithin b'' :=
  fun user => (h' user).trans (h user)

theorem sameOrders (hsame : b'.SameOrders b'') (h : b.ListsWithin b') : b.ListsWithin b'' := by
  obtain ⟨_, _, _, _, _, rfl⟩ := hsame
  exact h

theorem sameState (hsame : b'.SameState b'') (h : b.ListsWithin b') : b.ListsWithin b'' :=
  h.sameOrders hsame.sameOrders

end

theorem of_sheds (h : b.Sheds ids b') : b.ListsWithin b' := fun user => by
  rw [listOf, listOf, h.users]
  exact trimmed_sublist ..

omit [PriceLevel L] in
theorem erase (user : Hash32) :
    b.ListsWithin { b with userOrders := b.userOrders.erase user } := fun v => by
  by_cases hv : v = user
  · rw [hv, listOf, AList.lookup_erase]
    exact List.nil_sublist _
  · rw [listOf, listOf, AList.lookup_erase_ne hv]

/-- One step of a sweep takes ids out by cancels only. -/
theorem step [LevelMatch L] {price : ℕ} {sw sw' : Sweep L} (hs : SweepStep t price sw sw')
    (husers : sw.book.UsersIndexed) : sw.book.ListsWithin sw'.book := by
  cases hs with
  | fill => exact of_eq (fillLevel_userOrders ..)
  | cancel level mode user mem own orders_eq run =>
    intro v
    rw [listOf, listOf, stpCancel_userOrders, UserOrders.lookup_untrackUser husers.lists
      fun hu => husers.owner ⟨_, level, mem⟩ hu]
    exact trimmed_sublist ..
  | markEmpty | flag => exact of_eq rfl

end ListsWithin

/-- The sweep leaves at most one id of each list behind the first it fills. -/
def TailSwept (b : OrderBook L) (t : Taker) (mode : MatchMode) : Prop :=
  ∀ e ∈ b.userOrders.entries, FillsAtTail ((b.dryRun t mode).filledIds t) e.2

instance (b : OrderBook L) (t : Taker) (mode : MatchMode) : Decidable (b.TailSwept t mode) :=
  inferInstanceAs (Decidable (∀ e ∈ b.userOrders.entries, _))

theorem TailSwept.list (h : b.TailSwept t mode) (user : Hash32) :
    FillsAtTail ((b.dryRun t mode).filledIds t) (b.listOf user) := by
  rw [listOf]
  cases hids : b.userOrders.lookup user with
  | none => trivial
  | some ids => exact h ⟨user, ids⟩ (AssocMap.mem_entries_iff_lookup.mpr hids)

section Sweep

variable [LevelQueue L] [LevelMatch L] {b : OrderBook L}

/-- **A sweep at the tails keeps the order of every list.** -/
theorem TailSwept.listsWithin {id : OrderId} {side : Side} {kind : TakerKind}
    (h : b.TailSwept (b.taker id side mode.limitPrice user kind) mode) (hcat : b.Catalogued) :
    b.ListsWithin (matchOrderInner id side mode user kind b).2 := by
  have hopen := hcat.sameState b.sameState_openSweep
  refine matchOrderInner_planned (t := b.taker id side mode.limitPrice user kind)
    (J := fun sw => SweepSound (b.taker id side mode.limitPrice user kind) sw ∧
      sw.book.UsersIndexed ∧ b.ListsWithin sw.book)
    (fun hsame h => h.sameState hsame) rfl ⟨.start hopen.sound mode, hopen.users, .of_eq rfl⟩
    (fun hs hJ => ⟨hJ.1.step hs.step, hJ.2.1.step hs.step hJ.1,
      hJ.2.2.trans (.step hs.step hJ.2.1)⟩) (fun hJ v => ?_) (.of_eq rfl)
  obtain ⟨-, husers, hwithin⟩ := hJ
  obtain ⟨_, _, _, hframe⟩ := finishSweep_frame (b.taker id side mode.limitPrice user kind)
    (b.openSweep.sweep (b.taker id side mode.limitPrice user kind) mode)
  have hfilled := (sweep_applies b.openSweep (b.taker id side mode.limitPrice user kind) mode).2
  -- the makers are swap-removed from lists that are parts of the lists before the sweep
  have htail := (h.list v).sublist (hwithin v)
  have hfinish : (finishSweep (b.taker id side mode.limitPrice user kind)
      (b.openSweep.sweep (b.taker id side mode.limitPrice user kind) mode)).listOf v =
      ((b.openSweep.sweep (b.taker id side mode.limitPrice user kind) mode).book.listOf v).filter
        fun i => i ∉ (b.dryRun (b.taker id side mode.limitPrice user kind) mode).filledIds
          (b.taker id side mode.limitPrice user kind) := by
    rw [← foldl_swapOut_eq_filter htail (husers.nodup_list v), listOf, listOf, hframe,
      ← UserOrders.getD_lookup_foldl_untrackById husers.lists]
    refine congrArg (fun m : UserOrders => (m.lookup v).getD []) ?_
    exact (List.foldl_map ..).symm.trans
      (congrArg (fun ids => List.foldl UserOrders.untrackById _ ids) hfilled)
  rw [hfinish]
  exact List.filter_sublist.trans (hwithin v)

end Sweep

end OrderBook

/-- Market orders sweep at the tails; nothing is added, resized or dropped. -/
def tailGuard : Guard L where
  add _ _ := False
  market b id side mode user := b.killSwitch = false →
    b.TailSwept (b.taker id side mode.limitPrice user .standard) mode
  resize _ _ _ := False
  drop _ _ := False

section Calls

variable [LevelQueue L] [LevelMatch L] [LevelResize L]

/-- **Market orders, cancels and evictions keep the order of every list.** -/
theorem listsWithin_guarded (b₀ : OrderBook L) :
    GuardedInvariant (fun b => b.Catalogued ∧ b₀.ListsWithin b) tailGuard where
  reads hquiet _ h := ⟨h.1.sameState hquiet.sameState, h.2.sameState hquiet.sameState⟩
  forget {b} h := ⟨h.1.sameState b.sameState_invalidateCache,
    h.2.sameState b.sameState_invalidateCache⟩
  alike _ hg := hg.elim
  add _ hg _ := hg.elim
  market {b id side mode user} hrunning hg h := by
    have hwithin := h.2.trans ((hg hrunning).listsWithin h.1)
    refine ⟨Catalogued.steps.matchMarket id side mode user b h.1, ?_⟩
    rcases matchMarket_book id side mode user b with hrun | ⟨r, hrun⟩
    · rwa [hrun]
    · rw [hrun]
      exact hwithin.sameOrders (sameOrders_emitTrades false r _)
  halt _ h := ⟨h.1.sameState (sameView_trackState ..).sameState,
    h.2.sameState (sameView_trackState ..).sameState⟩
  cancel id reason h := by
    obtain ⟨-, hsheds, -⟩ := h.1.sound.sheds_cancel h.1.users id reason
    exact ⟨Catalogued.steps.cancelOrderWithReason id reason h.1, h.2.trans (.of_sheds hsheds)⟩
  resize hg _ := hg.elim
  drop hg _ := hg.elim
  clear {b} h := by
    refine ⟨Catalogued.steps.clear h.1, h.2.trans ?_⟩
    rcases b.cancelAllOrders_eq with hrun | ⟨b', -, -, hrun⟩
    · rw [hrun]
      exact .of_eq rfl
    · rw [hrun]
      exact fun v => List.nil_sublist _
  byUser {b} user h := by
    obtain ⟨-, hsheds, -⟩ := Sound.sheds_batch (b := { b with
      userOrders := b.userOrders.erase user }) ⟨h.1.sound.located, h.1.sound.standing,
        h.1.sound.nonempty⟩ (h.1.users.erase user) (h.1.users.nodup_list user) .massCancelByUser
    exact ⟨h.1.cancelOrdersByUser user,
      h.2.trans ((ListsWithin.erase user).trans (.of_sheds hsheds))⟩

/-! ### Admissions -/

omit [LevelResize L] in
/-- **An admission goes to the end of its list.** A new order lists nothing, or it comes to rest
under an id that had no location and is listed last. -/
theorem OrderBook.Catalogued.addOrderInner_lists (h : b.Catalogued) {o : Order}
    (htail : b.Accepted o → b.TailSwept (b.takerOf o) (.baseQty o.totalQuantity (some o.price)))
    (wantResult : Bool) :
    b.ListsWithin (addOrderInner o wantResult b).2 ∨
      b.orderLocations.lookup o.id = none ∧
        (addOrderInner o wantResult b).2.orderLocations.lookup o.id ≠ none ∧
        ∀ user, ((addOrderInner o wantResult b).2.listOf user).Sublist
          (b.listOf user ++ [o.id]) := by
  refine addOrderInner_keeps (o := o) (b := b)
    (I := fun b' => b.ListsWithin b' ∨ b.orderLocations.lookup o.id = none ∧
      b'.orderLocations.lookup o.id ≠ none ∧
      ∀ user, (b'.listOf user).Sublist (b.listOf user ++ [o.id]))
    ?_ ?_ (fun {b' l l' remaining} hswept _ _ _ hfresh _ _ hI => Or.inr ?_) ?_
    (fun {b₀} haccepted hsame => Or.inl ?_) wantResult (Or.inl (.of_eq rfl))
  · rintro b₁ _ ⟨_, _, _, rfl⟩ hI
    exact hI
  · intro b₁ w r hI
    obtain ⟨_, _, _, _, _, hemit⟩ := sameOrders_emitTrades w r b₁
    rw [hemit]
    exact hI
  · obtain ⟨w, haccepted, -⟩ := hswept
    have hwithin := hI.resolve_right fun hrest => hrest.2.1 hfresh
    refine ⟨haccepted.fresh, ?_, fun user => ?_⟩
    · rw [restAt_orderLocations, AList.lookup_insert]
      exact Option.some_ne_none _
    · rw [listOf, restAt_userOrders, UserOrders.track]
      by_cases huser : user = o.userId
      · rw [huser, AList.lookup_insert]
        exact (hwithin o.userId).append (.refl _)
      · rw [AList.lookup_insert_ne huser]
        exact (hwithin user).trans (List.sublist_append_left ..)
  · intro b₁ side price l _ _ hI
    cases side <;> exact hI
  · obtain ⟨_, _, _, rfl⟩ := hsame
    exact TailSwept.listsWithin (htail haccepted) (h.sameState ⟨_, _, _, rfl⟩)

end Calls

/-- The order a call adds. -/
def Command.newOrder : Command → Option Order
  | .addOrder o => some o
  | .addOrderWithResult o => some o
  | _ => none

/-- The id that a call brings to rest: it is located afterwards and was not before. -/
def OrderBook.admits (b : OrderBook L) (c : Command) : Option OrderId :=
  (c.newOrder.map Order.id).filter fun i =>
    (b.orderLocations.lookup i).isNone && ((b.execute c).orderLocations.lookup i).isSome

theorem OrderBook.admits_eq_some_iff :
    b.admits c = some i ↔ (∃ o, c.newOrder = some o ∧ o.id = i) ∧
      b.orderLocations.lookup i = none ∧ (b.execute c).orderLocations.lookup i ≠ none := by
  rw [admits, Option.filter_eq_some_iff, Option.map_eq_some_iff, Bool.and_eq_true,
    Option.isNone_iff_eq_none, Option.isSome_iff_ne_none]

/-- The log with an admission at its end; an id counts from its latest admission. -/
def logged (log : List OrderId) : Option OrderId → List OrderId
  | none => log
  | some i => log.filter (· ≠ i) ++ [i]

/-- The ids that come to rest in a run, appended to a log. -/
def admissions (b : OrderBook L) (log : List OrderId) : List Command → List OrderId
  | [] => log
  | c :: commands => admissions (b.execute c) (logged log (b.admits c)) commands

/-- The sweep of the call leaves at most one id of each list behind the first it fills; the call is
no request to modify an order. -/
def OrderBook.TailFills (b : OrderBook L) : Command → Prop
  | .addOrder o =>
    b.Accepted o → b.TailSwept (b.takerOf o) (.baseQty o.totalQuantity (some o.price))
  | .addOrderWithResult o =>
    b.Accepted o → b.TailSwept (b.takerOf o) (.baseQty o.totalQuantity (some o.price))
  | .updateOrder _ => False
  | c => tailGuard.Meets b c

/-- Every list is in the order of the log. -/
structure InLogOrder (b : OrderBook L) (log : List OrderId) : Prop where
  catalogued : b.Catalogued
  nodup : log.Nodup
  listed : ∀ user, (b.listOf user).Sublist log

namespace InLogOrder

variable {b b' : OrderBook L} {log : List OrderId}

theorem nodup_logged (h : log.Nodup) (admitted : Option OrderId) : (logged log admitted).Nodup := by
  cases admitted with
  | none => exact h
  | some i =>
    refine List.nodup_append.mpr ⟨h.filter _, List.nodup_singleton i, fun x hx y hy => ?_⟩
    rw [List.mem_singleton.mp hy]
    simpa using (List.mem_filter.mp hx).2

/-- An id without a location is on no list. -/
theorem listed_without (h : InLogOrder b log) (hfresh : b.orderLocations.lookup i = none)
    (user : Hash32) : (b.listOf user).Sublist (log.filter (· ≠ i)) := by
  have hnot : i ∉ b.listOf user := fun hi => h.catalogued.users.located (mem_listOf.mp hi) hfresh
  have hself : (b.listOf user).filter (· ≠ i) = b.listOf user :=
    List.filter_eq_self.mpr fun x hx => by simpa using ne_of_mem_of_not_mem hx hnot
  rw [← hself]
  exact (h.listed user).filter _

/-- A call that lists nothing. -/
theorem within (h : InLogOrder b log) (hcat : b'.Catalogued) (hwithin : b.ListsWithin b')
    {admitted : Option OrderId}
    (hfresh : ∀ i, admitted = some i → b.orderLocations.lookup i = none) :
    InLogOrder b' (logged log admitted) := by
  refine ⟨hcat, nodup_logged h.nodup admitted, fun user => (hwithin user).trans ?_⟩
  cases admitted with
  | none => exact h.listed user
  | some i => exact (h.listed_without (hfresh i rfl) user).trans (List.sublist_append_left ..)

variable [LevelQueue L] [LevelMatch L] [LevelResize L]

/-- A new order. -/
theorem add (h : InLogOrder b log) {o : Order} {wantResult : Bool} (hnew : c.newOrder = some o)
    (hrun : b.execute c = (addOrderInner o wantResult b).2)
    (htail : b.Accepted o → b.TailSwept (b.takerOf o) (.baseQty o.totalQuantity (some o.price))) :
    InLogOrder (b.execute c) (logged log (b.admits c)) := by
  have hcat : (b.execute c).Catalogued := hrun ▸ Catalogued.steps.add o wantResult b h.catalogued
  rcases h.catalogued.addOrderInner_lists htail wantResult with hwithin | ⟨hfresh, hrests, hlists⟩
  · exact h.within hcat (hrun ▸ hwithin) fun i hi => (admits_eq_some_iff.mp hi).2.1
  · rw [← hrun] at hrests hlists
    have hadmits : b.admits c = some o.id :=
      admits_eq_some_iff.mpr ⟨⟨o, hnew, rfl⟩, hfresh, hrests⟩
    rw [hadmits]
    exact ⟨hcat, nodup_logged h.nodup _, fun user =>
      (hlists user).trans ((h.listed_without hfresh user).append (.refl _))⟩

/-- **One call** keeps the lists in the order of the log. -/
theorem execute (h : InLogOrder b log) (htail : b.TailFills c) :
    InLogOrder (b.execute c) (logged log (b.admits c)) := by
  have hother (hmeets : tailGuard.Meets b c) :
      InLogOrder (b.execute c) (logged log (b.admits c)) := by
    obtain ⟨hcat, hwithin⟩ :=
      (listsWithin_guarded b).execute hmeets ⟨h.catalogued, .of_eq rfl⟩
    exact h.within hcat hwithin fun i hi => (admits_eq_some_iff.mp hi).2.1
  cases c with
  | addOrder o => exact h.add rfl (addOrder_snd o b) htail
  | addOrderWithResult => exact h.add rfl rfl htail
  | updateOrder => exact htail.elim
  | submitMarketOrder | submitMarketOrderByAmount | cancelOrder | cancelAllOrders
  | cancelOrdersBySide | cancelOrdersByUser | cancelOrdersByPriceRange | evictExpiredOrders =>
    exact hother htail

/-- **A run** keeps the lists in the order of its admissions. -/
theorem run {commands : List Command} (h : InLogOrder b log)
    (hmeets : RunMeets OrderBook.execute OrderBook.TailFills b commands) :
    InLogOrder (b.run commands) (admissions b log commands) := by
  induction commands generalizing b log with
  | nil => exact h
  | cons c commands ih => exact ih (h.execute hmeets.1) hmeets.2

end InLogOrder

/-- **Ids are cancelled in the order of admission.** After every run of new orders, market orders,
cancels and evictions from an empty book, each of whose sweeps leaves at most one id of each user
list behind the first it fills, `cancel_orders_by_user` returns ids in the order in which they came
to rest. -/
theorem cancel_by_user_in_admission_order [LevelQueue L] [LevelMatch L] [LevelResize L]
    {b : OrderBook L} (hbids : b.bids = ∅) (hasks : b.asks = ∅) (husers : b.userOrders = ∅)
    {commands : List Command} (hmeets : RunMeets execute OrderBook.TailFills b commands)
    (user : Hash32) :
    (admissions b [] commands).Nodup ∧
      ((b.run commands).cancelOrdersByUser user).2.Sublist (admissions b [] commands) := by
  have hstart : InLogOrder b [] := by
    refine ⟨.of_nothing (get?_levels_of_empty hbids hasks) husers, List.nodup_nil, fun v => ?_⟩
    rw [listOf, husers]
    exact List.Sublist.refl _
  have hend := hstart.run hmeets
  have hcat := hend.catalogued
  obtain ⟨hreturned, -⟩ := Sound.sheds_batch (b := { b.run commands with
    userOrders := (b.run commands).userOrders.erase user }) ⟨hcat.sound.located,
      hcat.sound.standing, hcat.sound.nonempty⟩ (hcat.users.erase user)
    (hcat.users.nodup_list user) .massCancelByUser
  refine ⟨hend.nodup, ?_⟩
  rw [cancelOrdersByUser, hreturned, map_fst_foundOrders]
  exact List.filter_sublist.trans (hend.listed user)

/-- Three asks of user 7, and a market buy of the size of one. -/
def threeAsks (first second third : ℕ) : List Command :=
  [.addOrder ⟨1, first, .sell, 7, 0, .gtc, 5, .standard⟩,
    .addOrder ⟨2, second, .sell, 7, 0, .gtc, 5, .standard⟩,
    .addOrder ⟨3, third, .sell, 7, 0, .gtc, 5, .standard⟩,
    .submitMarketOrder 4 5 .buy 8]

/-- The order in the middle is filled, and the last moves up to its place. -/
theorem threeAsks_in_admission_order :
    let b : OrderBook FifoLevel := withClock "BTC" ⟨fun n => n, 0⟩
    admissions b [] (threeAsks 102 101 103) = [1, 2, 3] ∧
      ((b.run (threeAsks 102 101 103)).cancelOrdersByUser 7).2 = [1, 3] ∧
      ((b.run (threeAsks 102 101 103)).cancelOrdersByUser 7).2.Sublist
        (admissions b [] (threeAsks 102 101 103)) := by
  have hmeets : RunMeets execute OrderBook.TailFills
      (withClock "BTC" ⟨fun n => n, 0⟩ : OrderBook FifoLevel) (threeAsks 102 101 103) :=
    ⟨fun _ => by decide, fun _ => by decide, fun _ => by decide, fun _ => by decide, trivial⟩
  exact ⟨by decide, by decide, (cancel_by_user_in_admission_order rfl rfl rfl hmeets 7).2⟩

/-- **A fill reorders the list.** The first order is filled, the last moves to the front, and the
two orders left are cancelled in the reverse of the order in which they were admitted. -/
theorem threeAsks_reordered :
    let b : OrderBook FifoLevel := withClock "BTC" ⟨fun n => n, 0⟩
    admissions b [] (threeAsks 100 101 102) = [1, 2, 3] ∧
      ((b.run (threeAsks 100 101 102)).cancelOrdersByUser 7).2 = [3, 2] ∧
      ¬ ((b.run (threeAsks 100 101 102)).cancelOrdersByUser 7).2.Sublist
        (admissions b [] (threeAsks 100 101 102)) := by
  have hadmitted : admissions (withClock "BTC" ⟨fun n => n, 0⟩ : OrderBook FifoLevel) []
      (threeAsks 100 101 102) = [1, 2, 3] := by decide
  have hreturned : (((withClock "BTC" ⟨fun n => n, 0⟩ : OrderBook FifoLevel).run
      (threeAsks 100 101 102)).cancelOrdersByUser 7).2 = [3, 2] := by decide
  refine ⟨hadmitted, hreturned, ?_⟩
  rw [hadmitted, hreturned]
  decide

end OrderBookRs
