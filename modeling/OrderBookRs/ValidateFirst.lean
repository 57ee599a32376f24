import OrderBookRs.CleanFailure
import OrderBookRs.Uncrossed

/-!
# Validating before the cancel

A request that moves an order checks the new order while the original still rests, so that a refused
request loses nothing. The source argues that the presence of the original cannot matter: the checks
read the opposite side. That is right as long as the new order stays on the original's side. A
`Replace` may change the side, and then the original itself is on the side the checks read.

Removing an order can only clear the way, so the new order passes after the cancel whenever it
passes before. The converse fails exactly when the original is what stands in the way.

## Main definitions

* `OrderBook.WithinReach`: an order on the opposite side that a new order's price crosses.
* `OrderBook.ReachesOwn`: a sweep arrives at an order of its own user with quantity left.
* `OrderBook.NotInOwnWay`: whatever stands in the way, something other than the original does too.

## Main results

* `selfCrossWalk_iff`: what `check_modify_stp_self_cross` finds, without its walk.
* `validate_first_iff`: when the verdicts before and after the cancel agree.
-/

namespace OrderBookRs

open PriceLevel Fallible OrderBook

variable {L : Type} [PriceLevel L] {o : Order} {b : OrderBook L} {remaining : ℕ}
  {entries : List (ℕ × L)}

/-! ### The self-trade walk -/

/-- The orders on the levels met before a price. -/
def ordersAhead (entries : List (ℕ × L)) (price : ℕ) : List Order :=
  queuedOrders (entries.takeWhile fun e => e.1 ≠ price)

/-- What a sweep can draw from some orders. -/
def depthOf (orders : List Order) : ℕ := (orders.map Order.matchableQty).sum

theorem depthOf_append (xs ys : List Order) : depthOf (xs ++ ys) = depthOf xs + depthOf ys := by
  rw [depthOf, List.map_append, List.sum_append, depthOf, depthOf]

/-- The walk of `check_modify_stp_self_cross` over the orders that count. -/
def ownWalk (o : Order) (counted : Order → Bool) : List (ℕ × L) → ℕ → Prop
  | [], _ => False
  | e :: rest, remaining =>
    remaining ≠ 0 ∧ o.side.crosses o.price e.1 ∧
      ((∃ x ∈ orders e.2, counted x ∧ x.userId = o.userId) ∨
        ownWalk o counted rest (remaining - depthOf ((orders e.2).filter counted)))

/-- **The walk finds an own order** iff one that counts stands within the limit, behind less than
the quantity. -/
theorem ownWalk_iff {counted : Order → Bool} (hnodup : (entries.map Prod.fst).Nodup)
    (hsorted : entries.Pairwise fun e e' =>
      o.side.crosses o.price e'.1 → o.side.crosses o.price e.1) :
    ownWalk o counted entries remaining ↔ ∃ e ∈ entries, o.side.crosses o.price e.1 ∧
      (∃ x ∈ orders e.2, counted x ∧ x.userId = o.userId) ∧
      depthOf ((ordersAhead entries e.1).filter counted) < remaining := by
  induction entries generalizing remaining with
  | nil => simp [ownWalk]
  | cons e₀ entries ih =>
    rw [List.map_cons, List.nodup_cons] at hnodup
    rw [List.pairwise_cons] at hsorted
    have hhead : ordersAhead (e₀ :: entries) e₀.1 = [] := by simp [ordersAhead, queuedOrders]
    have htail : ∀ e ∈ entries, ordersAhead (e₀ :: entries) e.1 =
        orders e₀.2 ++ ordersAhead entries e.1 := by
      intro e he
      have hne : e₀.1 ≠ e.1 := fun heq => hnodup.1 (heq ▸ List.mem_map_of_mem he)
      rw [ordersAhead, List.takeWhile_cons_of_pos (by simpa using hne), queuedOrders,
        List.flatMap_cons]
      rfl
    rw [ownWalk, ih hnodup.2 hsorted.2]
    constructor
    · rintro ⟨hleft, hcross, hown | ⟨e, he, hcross', hown, hdepth⟩⟩
      · exact ⟨e₀, List.mem_cons_self .., hcross, hown, by
          rw [hhead]
          exact Nat.pos_of_ne_zero hleft⟩
      · refine ⟨e, List.mem_cons_of_mem _ he, hcross', hown, ?_⟩
        rw [htail e he, List.filter_append, depthOf_append]
        omega
    · rintro ⟨e, he, hcross, hown, hdepth⟩
      rcases List.mem_cons.mp he with rfl | he
      · exact ⟨by omega, hcross, Or.inl hown⟩
      · rw [htail e he, List.filter_append, depthOf_append] at hdepth
        exact ⟨by omega, hsorted.1 e he hcross, Or.inr ⟨e, he, hcross, hown, by omega⟩⟩

/-- The source's walk counts every order. Only levels without own orders are matched against, and on
those the taker's id does not rest. -/
theorem selfCrossWalk_iff_ownWalk [MatchableDryRun L]
    (hfree : ∀ e ∈ entries, (∀ x ∈ orders e.2, x.userId ≠ o.userId) → o.id ∉ orderIds e.2) :
    selfCrossWalk o entries remaining = true ↔ ownWalk o (fun _ => true) entries remaining := by
  induction entries generalizing remaining with
  | nil => simp [selfCrossWalk, ownWalk]
  | cons e entries ih =>
    obtain ⟨price, l⟩ := e
    rw [selfCrossWalk, ownWalk]
    by_cases hleft : remaining = 0
    · simp [hleft]
    by_cases hcross : o.side.crosses o.price price
    swap
    · simp [hleft, hcross]
    by_cases hany : ((orders l).any fun x => x.userId = o.userId) = true
    · have hown : ∃ x ∈ orders l, true = true ∧ x.userId = o.userId := by simpa using hany
      rw [if_neg hleft, if_neg (by simpa using hcross), if_pos hany]
      exact iff_of_true rfl ⟨hleft, hcross, Or.inl hown⟩
    · have hforeign : ∀ x ∈ orders l, x.userId ≠ o.userId := by simpa using hany
      have hdepth : remaining - matchableQuantity l remaining o.id =
          remaining - depthOf ((orders l).filter fun _ => true) := by
        have hlaw : min remaining (matchableQuantity l remaining o.id) =
            min remaining ((orders l).map Order.matchableQty).sum :=
          MatchableDryRun.matchableQuantity_eq (hfree _ (List.mem_cons_self ..) hforeign)
        rw [List.filter_true, depthOf]
        omega
      rw [if_neg hleft, if_neg (by simpa using hcross), if_neg hany, hdepth,
        ih fun e he => hfree e (List.mem_cons_of_mem _ he)]
      constructor
      · exact fun h => ⟨hleft, hcross, Or.inr h⟩
      · rintro ⟨-, -, ⟨x, hx, -, hmine⟩ | h⟩
        · exact absurd hmine (hforeign x hx)
        · exact h

/-- Where every order of the first level counts. -/
theorem ownWalk_cons_of_counted {counted : Order → Bool} {e : ℕ × L}
    (hall : ∀ x ∈ orders e.2, counted x = true) :
    ownWalk o counted (e :: entries) remaining ↔ remaining ≠ 0 ∧ o.side.crosses o.price e.1 ∧
      ((∃ x ∈ orders e.2, true = true ∧ x.userId = o.userId) ∨
        ownWalk o counted entries (remaining - depthOf ((orders e.2).filter fun _ => true))) := by
  have hown : (∃ x ∈ orders e.2, counted x ∧ x.userId = o.userId) ↔
      ∃ x ∈ orders e.2, true = true ∧ x.userId = o.userId := by
    refine exists_congr fun x => and_congr_right fun hx => ?_
    rw [hall x hx]
  rw [ownWalk, hown, List.filter_true, List.filter_eq_self.mpr hall]

/-- Orders that all count are all there. -/
theorem ownWalk_congr {counted : Order → Bool}
    (hall : ∀ e ∈ entries, ∀ x ∈ orders e.2, counted x = true) :
    ownWalk o counted entries remaining ↔ ownWalk o (fun _ => true) entries remaining := by
  induction entries generalizing remaining with
  | nil => exact Iff.rfl
  | cons e entries ih =>
    rw [ownWalk_cons_of_counted (hall e (List.mem_cons_self ..)), ownWalk,
      ih fun e he => hall e (List.mem_cons_of_mem _ he)]

/-- **Taking an order off its level** is not counting it, whether the level stays or goes with it.
-/
theorem ownWalk_thin {counted : Order → Bool} {before after : List (ℕ × L)} {price : ℕ} {l l' : L}
    (horders : orders l' = (orders l).filter counted)
    (hbefore : ∀ e ∈ before, ∀ x ∈ orders e.2, counted x = true)
    (hafter : ∀ e ∈ after, ∀ x ∈ orders e.2, counted x = true)
    (hsorted : ∀ e ∈ after, o.side.crosses o.price e.1 → o.side.crosses o.price price) :
    (ownWalk o (fun _ => true) (before ++ (price, l') :: after) remaining ↔
        ownWalk o counted (before ++ (price, l) :: after) remaining) ∧
      (orders l' = [] → (ownWalk o (fun _ => true) (before ++ after) remaining ↔
        ownWalk o counted (before ++ (price, l) :: after) remaining)) := by
  induction before generalizing remaining with
  | nil =>
    have hcounted : (∃ x ∈ orders l, counted x ∧ x.userId = o.userId) ↔
        ∃ x ∈ orders l', true = true ∧ x.userId = o.userId := by
      simp [horders, and_assoc]
    rw [List.nil_append, List.nil_append, List.nil_append]
    refine ⟨?_, fun hnil => ?_⟩
    · rw [ownWalk, ownWalk, hcounted, ← horders, List.filter_true, ownWalk_congr hafter]
    · rw [ownWalk, hcounted, ← horders, hnil, depthOf, ownWalk_congr hafter]
      simp only [List.not_mem_nil, false_and, exists_false, false_or, List.map_nil, List.sum_nil,
        Nat.sub_zero]
      cases after with
      | nil => simp [ownWalk]
      | cons e after =>
        refine ⟨fun h => ⟨h.1, hsorted e (List.mem_cons_self ..) h.2.1, h⟩, fun h => h.2.2⟩
  | cons e before ih =>
    have hrest := fun remaining' => @ih remaining'
      (List.forall_mem_cons.mp hbefore).2
    simp only [List.cons_append]
    refine ⟨?_, fun hnil => ?_⟩
    · rw [ownWalk_cons_of_counted (hbefore e (List.mem_cons_self ..)), ownWalk, (hrest _).1]
    · rw [ownWalk_cons_of_counted (hbefore e (List.mem_cons_self ..)), ownWalk, (hrest _).2 hnil]

/-! ### What stands in the way -/

namespace OrderBook

/-- An order on the opposite side, at a price the new order crosses. -/
def WithinReach (b : OrderBook L) (o x : Order) : Prop :=
  ∃ price, b.Rests o.side.opposite price x ∧ o.side.crosses o.price price

/-- Among the orders that count, one of the new order's user stands within its limit, behind less
than its quantity. -/
def ReachesOwn (b : OrderBook L) (o : Order) (counted : Order → Bool) : Prop :=
  ∃ e ∈ b.sweepEntries o.side, o.side.crosses o.price e.1 ∧
    (∃ x ∈ orders e.2, counted x ∧ x.userId = o.userId) ∧
    depthOf ((ordersAhead (b.sweepEntries o.side) e.1).filter counted) < o.totalQuantity

/-- The original, which has the new order's id, is not what makes the difference: if a post-only
order crosses any order, it crosses another one; if self-trade prevention would stop the sweep, it
would also do so with the original not counted. -/
structure NotInOwnWay (b : OrderBook L) (o : Order) : Prop where
  postOnly : o.isPostOnly → (∃ x, b.WithinReach o x) → ∃ x, x.id ≠ o.id ∧ b.WithinReach o x
  selfCross : o.isPostOnly = false → (b.stpMode = .cancelTaker ∨ b.stpMode = .cancelBoth) →
    o.userId ≠ 0 → b.ReachesOwn o (fun _ => true) → b.ReachesOwn o fun x => x.id ≠ o.id

omit [PriceLevel L] in
/-- The limit of an order crosses a level only if it crosses every level met before it. -/
theorem pairwise_crosses (b : OrderBook L) (o : Order) :
    (b.sweepEntries o.side).Pairwise fun e e' =>
      o.side.crosses o.price e'.1 → o.side.crosses o.price e.1 :=
  b.pairwise_allows (b.takerOf o)

/-- **What `check_modify_stp_self_cross` finds**: an own order within the limit, behind less than
the quantity. -/
theorem selfCrossWalk_iff [MatchableDryRun L]
    (hfree : ∀ e ∈ b.sweepEntries o.side, (∀ x ∈ orders e.2, x.userId ≠ o.userId) →
      o.id ∉ orderIds e.2) :
    selfCrossWalk o (b.sweepEntries o.side) o.totalQuantity = true ↔
      b.ReachesOwn o fun _ => true := by
  rw [selfCrossWalk_iff_ownWalk hfree,
    ownWalk_iff (b.nodup_sweepEntries o.side) (b.pairwise_crosses o)]
  rfl

theorem checkModifyStpSelfCross_eq_ok :
    b.checkModifyStpSelfCross o = .ok () ↔
      ((b.stpMode = .cancelTaker ∨ b.stpMode = .cancelBoth) → o.userId ≠ 0 →
        ¬ selfCrossWalk o (b.sweepEntries o.side) o.totalQuantity = true) := by
  rw [checkModifyStpSelfCross, refuse_eq_ok, decide_eq_false_iff_not]
  exact ⟨fun h hmode huser hwalk => h ⟨hmode, huser, hwalk⟩, fun h h' => h h'.1 h'.2.1 h'.2.2⟩

/-- On a sound book an order is out of reach iff it crosses no order. -/
theorem Sound.outOfReach_iff (hb : b.Sound) : b.OutOfReach o ↔ ¬ ∃ x, b.WithinReach o x := by
  constructor
  · rintro hout ⟨x, price, ⟨l, hl, -⟩, hcross⟩
    rw [hout price l hl] at hcross
    cases hcross
  · intro hnone price l hl
    obtain ⟨x, hx⟩ := List.exists_mem_of_ne_nil _ (hb.nonempty hl)
    by_contra hcross
    exact hnone ⟨x, price, ⟨l, hl, hx⟩, by simpa using hcross⟩

namespace Withdraws

variable [LevelQueue L] {b b' : OrderBook L} {original o : Order} (hb : b.Sound)
  (h : b.Withdraws b' original)

include hb h

/-- The orders left after the original was cancelled. -/
theorem rests_iff {side : Side} {price : ℕ} {x : Order} :
    b'.Rests side price x ↔ b.Rests side price x ∧ x.id ≠ original.id := by
  obtain ⟨side₀, price₀, l, l', hl, hmem, horders, hlevels⟩ := h.place
  have hrests₀ : b.Rests side₀ price₀ original := ⟨l, hl, hmem⟩
  have helsewhere : ¬ (side = side₀ ∧ price = price₀) → b.Rests side price x →
      x.id ≠ original.id := by
    rintro hne hx hid
    exact hne (hb.same_place hx hrests₀ hid)
  have hget : (b'.levels side).get? price =
      if side = side₀ ∧ price = price₀ then (if orderCount l' = 0 then none else some l')
      else (b.levels side).get? price := by
    rw [hlevels side]
    by_cases hside : side = side₀
    · subst hside
      by_cases hempty : orderCount l' = 0
      · simp [hempty, SortedMap.get?_erase]
      · simp [hempty, SortedMap.get?_insert]
    · simp [hside]
  by_cases hplace : side = side₀ ∧ price = price₀
  · obtain ⟨rfl, rfl⟩ := hplace
    have hrest : b.Rests side price x ↔ x ∈ orders l :=
      ⟨fun hx => hx.mem_of_get? hl, fun hx => ⟨l, hl, hx⟩⟩
    have hleft : x ∈ orders l' ↔ x ∈ orders l ∧ x.id ≠ original.id := by
      rw [horders, List.mem_filter, decide_eq_true_eq]
    rw [Rests, hget, if_pos ⟨rfl, rfl⟩, hrest, ← hleft, LevelQueue.orderCount_eq]
    split_ifs with hempty
    · rw [List.length_eq_zero_iff] at hempty
      simp [hempty]
    · simp
  · rw [Rests, hget, if_neg hplace]
    exact ⟨fun hx => ⟨hx, helsewhere hplace hx⟩, fun hx => hx.1⟩

/-- **After the cancel the walk finds** what it would have found with the original not counted. -/
theorem selfCrossWalk_iff [MatchableDryRun L] (hid : o.id = original.id) :
    selfCrossWalk o (b'.sweepEntries o.side) o.totalQuantity = true ↔
      b.ReachesOwn o fun x => x.id ≠ o.id := by
  have hfree : ∀ e ∈ b'.sweepEntries o.side, o.id ∉ orderIds e.2 :=
    fun e he => h.sound.free (hid ▸ h.fresh) he
  have hcounted : ∀ {side price x}, b'.Rests side price x → decide (x.id ≠ o.id) = true := by
    intro side price x hx
    rw [hid]
    simpa using ((h.rests_iff hb).mp hx).2
  rw [selfCrossWalk_iff_ownWalk fun e he _ => hfree e he]
  have hgoal : b.ReachesOwn o (fun x => x.id ≠ o.id) ↔
      ownWalk o (fun x => x.id ≠ o.id) (b.sweepEntries o.side) o.totalQuantity :=
    (ownWalk_iff (b.nodup_sweepEntries o.side) (b.pairwise_crosses o)).symm
  rw [hgoal]
  obtain ⟨side, price, l, l', hl, -, horders, hlevels⟩ := h.place
  by_cases hside : o.side.opposite = side
  · subst hside
    obtain ⟨before, after, hsplit, hsorted, hrewrite⟩ := sweepEntries_split hl
    have hopposite := hlevels o.side.opposite
    rw [if_pos rfl] at hopposite
    -- the orders of the other levels are still there
    have hother : ∀ e ∈ before ++ after, ∀ x ∈ orders e.2, decide (x.id ≠ o.id) = true := by
      intro e he x hx
      have hmem : e ∈ b'.sweepEntries o.side := by
        split_ifs at hopposite
        · rw [(hrewrite b').2 hopposite]
          exact he
        · rw [(hrewrite b').1 l' hopposite]
          rcases List.mem_append.mp he with he | he
          · exact List.mem_append_left _ he
          · exact List.mem_append_right _ (List.mem_cons_of_mem _ he)
      exact hcounted ⟨e.2, mem_sweepEntries.mp hmem, hx⟩
    have hthin : orders l' = (orders l).filter fun x => x.id ≠ o.id := by rw [horders, hid]
    rw [hsplit]
    split_ifs at hopposite with hempty
    · rw [LevelQueue.orderCount_eq, List.length_eq_zero_iff] at hempty
      rw [(hrewrite b').2 hopposite]
      exact (ownWalk_thin hthin (fun e he => hother e (List.mem_append_left _ he))
        (fun e he => hother e (List.mem_append_right _ he))
        fun e he => hsorted e he o.price).2 hempty
    · rw [(hrewrite b').1 l' hopposite]
      exact (ownWalk_thin hthin (fun e he => hother e (List.mem_append_left _ he))
        (fun e he => hother e (List.mem_append_right _ he))
        fun e he => hsorted e he o.price).1
  · have hopposite := hlevels o.side.opposite
    rw [if_neg hside] at hopposite
    have hentries : b'.sweepEntries o.side = b.sweepEntries o.side := by
      cases hs : o.side with
      | buy =>
        rw [hs] at hopposite
        exact congrArg SortedMap.entries hopposite
      | sell =>
        rw [hs] at hopposite
        exact congrArg (fun m => (SortedMap.entries m).reverse) hopposite
    rw [hentries]
    refine (ownWalk_congr fun e he x hx => ?_).symm
    rw [← hentries] at he
    exact hcounted ⟨e.2, mem_sweepEntries.mp he, hx⟩

/-- After the cancel the order crosses something iff it crossed another order than the original. -/
theorem withinReach_iff (hid : o.id = original.id) :
    (∃ x, b'.WithinReach o x) ↔ ∃ x, x.id ≠ o.id ∧ b.WithinReach o x := by
  simp only [WithinReach, h.rests_iff hb, hid]
  constructor
  · rintro ⟨x, price, ⟨hx, hne⟩, hcross⟩
    exact ⟨x, hne, price, hx, hcross⟩
  · rintro ⟨x, hne, price, hx, hcross⟩
    exact ⟨x, price, ⟨hx, hne⟩, hcross⟩

end Withdraws

/-! ### The two verdicts -/

/-- A cancel does not read the clock. -/
theorem clock_cancelOrderWithReason (b : OrderBook L) (id : OrderId) (reason : CancelReason) :
    (b.cancelOrderWithReason id reason).1.clock = b.clock := by
  have hdeliver : ∀ (b : OrderBook L) side price q,
      (b.deliverLevelChange side price q).clock = b.clock := by
    intro b side price q
    obtain ⟨_, h⟩ := b.deliverLevelChange_eq side price q
    rw [h]
  rw [cancelOrderWithReason]
  dsimp only
  split
  · rfl
  split
  · rfl
  split
  · split_ifs <;> exact hdeliver ..
  · rfl

/-- The checks of a move, for an order that may rest and no risk limits. -/
theorem moveAccepted_iff (hb : b.Sound) (htruthful : b.Truthful) (hrisk : b.riskState.config = none)
    (himm : o.isImmediate = false) (id : OrderId) :
    b.MoveAccepted id o ↔ (b.checkShape o = .ok () ∧
        isExpired L o.timeInForce b.clock.nowMillis b.marketCloseForExpiry = false) ∧
      (o.isPostOnly → ¬ ∃ x, b.WithinReach o x) ∧ b.checkModifyStpSelfCross o = .ok () := by
  have hpost : (b.willCrossMarket o.price o.side).1 = false ↔ ¬ ∃ x, b.WithinReach o x :=
    htruthful.willCross_iff.trans hb.outOfReach_iff
  constructor
  · rintro ⟨⟨hshape, hexpired, hcross, -⟩, -, hself⟩
    exact ⟨⟨hshape, hexpired⟩, fun h => hpost.mp (hcross h), hself⟩
  · rintro ⟨⟨hshape, hexpired⟩, hcross, hself⟩
    refine ⟨⟨hshape, hexpired, fun h => hpost.mpr (hcross h), fun hfok => ?_⟩, ?_, hself⟩
    · rw [isImmediate_of_isFillOrKill hfok] at himm
      cases himm
    · rw [RiskState.checkModifyAdmission, hrisk]

theorem ReachesOwn.withinReach {counted : Order → Bool} (h : b.ReachesOwn o counted) :
    ∃ x, counted x ∧ b.WithinReach o x := by
  obtain ⟨e, he, hcross, ⟨x, hx, hcounted, -⟩, -⟩ := h
  exact ⟨x, hcounted, e.1, ⟨e.2, mem_sweepEntries.mp he, hx⟩, hcross⟩

end OrderBook

section Main

variable [LevelQueue L] [LevelMatch L] [LevelResize L] [MatchableDryRun L] {b : OrderBook L}
  {u : OrderUpdate} {original o : Order}

/-- **Validating first gives the verdict of cancel-then-add** exactly when the original is not what
stands in the way of its own replacement, for an order that is valid at all. -/
theorem validate_first_iff [LevelSnapshot L] [SnapshotChecksum] (hreach : b.Reachable)
    (hrisk : b.riskState.config = none) (hclock : ∀ m n, b.clock.reading m = b.clock.reading n)
    {side : Side} {price : ℕ} (hrests : b.Rests side price original)
    (htarget : original.id = target u) (hmoved : movedOrder original u = some o) :
    (b.invalidateCache.MoveAccepted (target u) o ↔
        (b.withdrawn (target u)).MoveAccepted (target u) o) ↔
      (b.checkShape o = .ok () →
        isExpired L o.timeInForce b.clock.nowMillis b.marketCloseForExpiry = false →
        b.NotInOwnWay o) := by
  have hb := hreach.sound
  obtain ⟨l, hl, hmem⟩ := hrests
  have hget : b.getOrder (target u) = some original :=
    htarget ▸ getOrder_of_mem (hb.located ⟨l, hl, hmem⟩) hl hmem
  have hid := movedOrder_id hmoved htarget
  have howner := movedOrder_userId hmoved
  have himm : o.isImmediate = false :=
    (movedOrder_isImmediate hmoved).trans (hb.standing ⟨l, hl, hmem⟩)
  have hwithdraws : b.Withdraws (b.withdrawn (target u)) original :=
    withdraws_of_getOrder hb ⟨b.cache, b.clock.tick, b.orderStateTracker, rfl⟩ hget
  have hclock' : (b.withdrawn (target u)).clock.nowMillis = b.clock.nowMillis := by
    rw [withdrawn, clock_cancelOrderWithReason]
    exact hclock _ _
  have hbefore := moveAccepted_iff (hb.sameState (sameState_invalidateCache b))
    (.of_unread (unread_invalidateCache b)) hrisk himm (target u)
  have hafter := moveAccepted_iff hwithdraws.sound hwithdraws.truthful
    ((congrArg BookSettings.riskConfig hwithdraws.settings_eq).trans hrisk) himm (target u)
  have hshape : (b.withdrawn (target u)).checkShape o = b.checkShape o :=
    checkShape_congr hwithdraws.settings_eq o
  have hclose : (b.withdrawn (target u)).marketCloseForExpiry = b.marketCloseForExpiry :=
    congrArg BookSettings.marketCloseForExpiry hwithdraws.settings_eq
  have hmode : (b.withdrawn (target u)).stpMode = b.stpMode :=
    congrArg BookSettings.stpMode hwithdraws.settings_eq
  rw [hshape, hclock', hclose, hwithdraws.withinReach_iff hb hid,
    checkModifyStpSelfCross_eq_ok, hmode, hwithdraws.selfCrossWalk_iff hb hid] at hafter
  -- the original is registered under the new order's user, so a foreign level does not hold it
  have hfree : ∀ e ∈ b.sweepEntries o.side, (∀ x ∈ orders e.2, x.userId ≠ o.userId) →
      o.id ∉ orderIds e.2 := by
    intro e he hforeign hheld
    obtain ⟨x, hx, hxid⟩ := List.mem_map.mp hheld
    have hsame : x = original :=
      hb.unique ⟨e.2, mem_sweepEntries.mp he, hx⟩ ⟨l, hl, hmem⟩ (hxid.trans hid)
    exact hforeign x hx (hsame ▸ howner.symm)
  have hself : b.invalidateCache.checkModifyStpSelfCross o = .ok () ↔
      ((b.stpMode = .cancelTaker ∨ b.stpMode = .cancelBoth) → o.userId ≠ 0 →
        ¬ b.ReachesOwn o fun _ => true) := by
    rw [← selfCrossWalk_iff hfree]
    exact checkModifyStpSelfCross_eq_ok
  have hbefore' : b.invalidateCache.MoveAccepted (target u) o ↔ (b.checkShape o = .ok () ∧
        isExpired L o.timeInForce b.clock.nowMillis b.marketCloseForExpiry = false) ∧
      (o.isPostOnly → ¬ ∃ x, b.WithinReach o x) ∧
      ((b.stpMode = .cancelTaker ∨ b.stpMode = .cancelBoth) → o.userId ≠ 0 →
        ¬ b.ReachesOwn o fun _ => true) := by
    rw [← hself]
    exact hbefore
  -- removing the original clears the way, never blocks it
  have hclears : b.ReachesOwn o (fun x => x.id ≠ o.id) → b.ReachesOwn o fun _ => true := by
    rw [← selfCrossWalk_iff hfree, ← hwithdraws.selfCrossWalk_iff hb hid]
    intro hwalk
    by_contra hnot
    rw [hwithdraws.selfCrossWalk_eq_false howner (by simpa using hnot)] at hwalk
    cases hwalk
  rw [hbefore', hafter]
  constructor
  · rintro hsame hvalid hlive
    constructor
    · intro hpost hreach
      by_contra hnone
      have hpassed := hsame.mpr ⟨⟨hvalid, hlive⟩, fun _ => hnone, fun _ _ hown => by
        obtain ⟨x, hne, hx⟩ := hown.withinReach
        exact hnone ⟨x, by simpa using hne, hx⟩⟩
      exact hpassed.2.1 hpost hreach
    · intro hkind hstp huser hown
      by_contra hnone
      have hpassed := hsame.mpr ⟨⟨hvalid, hlive⟩, by simp [hkind], fun _ _ => hnone⟩
      exact hpassed.2.2 hstp huser hown
  · intro hway
    constructor
    · rintro ⟨hvalid, hpost, hown⟩
      exact ⟨hvalid, fun h ⟨x, _, hx⟩ => hpost h ⟨x, hx⟩,
        fun h h' hothers => hown h h' (hclears hothers)⟩
    · rintro ⟨hvalid, hpost, hown⟩
      obtain ⟨hreaches, hcrosses⟩ := hway hvalid.1 hvalid.2
      refine ⟨hvalid, fun h hx => hpost h (hreaches h hx), fun hstp huser hall => ?_⟩
      by_cases hkind : o.isPostOnly = true
      · obtain ⟨x, -, hx⟩ := hall.withinReach
        exact hpost hkind (hreaches hkind ⟨x, hx⟩)
      · exact hown hstp huser (hcrosses (by simpa using hkind) hstp huser hall)

end Main

/-- A bid under self-trade prevention. -/
def ownBid : List Op :=
  [.configure (.stpMode .cancelTaker),
    .command (.addOrder ⟨1, 100, .buy, 7, 0, .gtc, 5, .standard⟩)]

/-- The book of that bid. -/
def ownBidBook : OrderBook FifoLevel :=
  letI := noDigest
  (Session.run { book := (withClock "BTC" ⟨fun _ => 0, 0⟩ : OrderBook FifoLevel) } ownBid).book

/-- Replaced by an offer above its own price, the bid is not in the way. -/
theorem ownBid_replaced_above :
    ownBidBook.invalidateCache.MoveAccepted 1 ⟨1, 110, .sell, 7, 0, .gtc, 5, .standard⟩ ↔
      (ownBidBook.withdrawn 1).MoveAccepted 1 ⟨1, 110, .sell, 7, 0, .gtc, 5, .standard⟩ := by
  let _ := noDigest
  have hreach : ownBidBook.Reachable := ⟨"BTC", ⟨fun _ => 0, 0⟩, ownBid, rfl⟩
  have hrests : ownBidBook.Rests .buy 100 ⟨1, 100, .buy, 7, 0, .gtc, 5, .standard⟩ :=
    ⟨_, rfl, by decide⟩
  -- the only bid is at 100, below the offer
  have hcrosses : ∀ e ∈ ownBidBook.sweepEntries .sell, ¬ Side.sell.crosses 110 e.1 := by decide
  refine (validate_first_iff (u := .replace 1 110 5 .sell) hreach rfl (fun _ _ => rfl) hrests rfl
    rfl).mpr fun _ _ => ⟨fun h => (by cases h), fun _ _ _ hown => ?_⟩
  obtain ⟨e, he, hcross, -⟩ := hown
  exact absurd hcross (hcrosses e he)

/-- **The original stands in its own way.** A bid at 100 is replaced by an offer at 100: before the
cancel the offer crosses the bid of its own user and is refused, after it there is no bid. -/
theorem ownBid_replaced_across :
    letI : SnapshotChecksum := noDigest
    ownBidBook.Reachable ∧ ownBidBook.riskState.config = none ∧
      (∀ m n, ownBidBook.clock.reading m = ownBidBook.clock.reading n) ∧
      ownBidBook.Rests .buy 100 ⟨1, 100, .buy, 7, 0, .gtc, 5, .standard⟩ ∧
      movedOrder ⟨1, 100, .buy, 7, 0, .gtc, 5, .standard⟩ (.replace 1 100 5 .sell) =
        some ⟨1, 100, .sell, 7, 0, .gtc, 5, .standard⟩ ∧
      ¬ (ownBidBook.invalidateCache.MoveAccepted 1 ⟨1, 100, .sell, 7, 0, .gtc, 5, .standard⟩ ↔
        (ownBidBook.withdrawn 1).MoveAccepted 1 ⟨1, 100, .sell, 7, 0, .gtc, 5, .standard⟩) := by
  refine ⟨⟨"BTC", ⟨fun _ => 0, 0⟩, ownBid, rfl⟩, rfl, fun _ _ => rfl, ⟨_, rfl, by decide⟩, rfl,
    fun hsame => ?_⟩
  have hrefused : (ownBidBook.invalidateCache.checkModifyStpSelfCross
      ⟨1, 100, .sell, 7, 0, .gtc, 5, .standard⟩).isOk = false := by decide
  have hpasses : (ownBidBook.withdrawn 1).MoveAccepted 1
      ⟨1, 100, .sell, 7, 0, .gtc, 5, .standard⟩ :=
    ⟨⟨rfl, rfl, fun h => (by cases h), fun h => (by cases h)⟩, rfl, rfl⟩
  rw [(hsame.mpr hpasses).selfCross] at hrefused
  cases hrefused

end OrderBookRs
