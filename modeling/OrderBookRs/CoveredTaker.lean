import OrderBookRs.Conservation
import OrderBookRs.FillOrKill

/-!
# Takers covered ahead of their own orders

Self-trade prevention is there for takers that would trade with themselves. A taker whose quantity
is displayed ahead of its own orders would not; the check nevertheless looks at a whole level
before it is matched, so such a taker is cancelled when its last fill is on a level that also holds
an own order.

## Main definitions

* `OrderBook.aheadOfOwn`: the orders within the limit that stand ahead of every own order.
* `TakenInFull`: the call fills the order, records it as filled and cancels nobody.

## Main results

* `taken_in_full_iff`: a covered taker is taken in full iff it is accepted, no own order is on a
  level it reaches, and the lot size does not strand a remainder.
-/

namespace OrderBookRs

open PriceLevel Fallible OrderBook

variable {L : Type} [PriceLevel L]

/-- The orders a new order meets within its limit, in price then queue order, up to the first order
of its own user. -/
def OrderBook.aheadOfOwn (b : OrderBook L) (o : Order) : List Order :=
  (queuedOrders ((b.sweepEntries o.side).takeWhile fun e => o.side.crosses o.price e.1)).takeWhile
    fun x => x.userId ≠ o.userId

/-- The display of those orders covers the whole order. -/
def OrderBook.CoveredAhead (b : OrderBook L) (o : Order) : Prop :=
  o.size ≤ ((b.aheadOfOwn o).map Order.visibleQuantity).sum

instance (b : OrderBook L) (o : Order) : Decidable (b.CoveredAhead o) :=
  inferInstanceAs (Decidable (_ ≤ _))

/-- The order is gone and had traded everything a sweep can draw from it. -/
def LeftByFills (trades : List Trade) (m : Order) : Prop :=
  tradesOf m.id trades ≠ [] ∧ (tradedQuantity (tradesOf m.id trades) = m.size ∨
    m.keepsHidden ∧ tradedQuantity (tradesOf m.id trades) = m.visibleQuantity)

/-- The call succeeds, its last record says that the order is filled, the order traded in full, and
every order that left the book left through those trades. -/
structure TakenInFull (o : Order) (b : OrderBook L) : Prop where
  ok : Succeeds (addOrder o) b
  recorded : ∃ b₁ : OrderBook L, (addOrder o b).2 = b₁.trackState o.id (.filled o.totalQuantity)
  traded : ∃ trades, (addOrder o b).2.fills = b.fills ++ trades ∧ tradedQuantity trades = o.size ∧
    ∀ {side price m}, b.Rests side price m →
      (∃ x, (addOrder o b).2.Rests side price x ∧ x.id = m.id) ∨ LeftByFills trades m

/-! ### The display ahead of the own orders is depth -/

theorem le_firstOwn {user : Hash32} {queue : List Order} {acc safe : ℕ} {id : OrderId}
    (h : firstOwn user queue acc = some (safe, id)) (rest : List Order) :
    min u64Max (acc + (((queue ++ rest).takeWhile fun x => x.userId ≠ user).map
      Order.visibleQuantity).sum) ≤ safe := by
  induction queue generalizing acc with
  | nil => cases h
  | cons o queue ih =>
    rw [firstOwn] at h
    rw [List.cons_append, List.takeWhile_cons]
    split_ifs at h with ho
    · cases h
      simp [ho]
    · have hrest := ih h
      rw [if_pos (by simpa using ho), List.map_cons, List.sum_cons]
      rw [satAdd64] at hrest
      omega

theorem min_le_sum_matchableQty (queue : List Order) :
    min u64Max (queue.map Order.visibleQuantity).sum ≤ (queue.map Order.matchableQty).sum := by
  induction queue with
  | nil => exact Nat.zero_le _
  | cons o queue ih =>
    have hdepth := o.min_visibleQuantity_le_matchableQty
    rw [List.map_cons, List.sum_cons, List.map_cons, List.sum_cons]
    omega

/-- **Without lots the walk finds what is displayed ahead of the own orders.** -/
theorem fokWalk_of_covered [LevelQueue L] [MatchableDryRun L] {t : Taker}
    (hmode : t.stpMode = .cancelTaker ∨ t.stpMode = .cancelBoth) (huser : t.userId ≠ 0)
    (hlot : t.lot ≤ 1) {entries : List (ℕ × L)} {quantity matched : ℕ}
    (hfree : ∀ e ∈ entries, t.orderId ∉ orderIds e.2) (hmax : quantity ≤ u64Max)
    (hle : matched ≤ quantity)
    (hcovered : quantity ≤ matched + (((queuedOrders (entries.takeWhile fun e =>
      t.allows e.1)).takeWhile fun x => x.userId ≠ t.userId).map Order.visibleQuantity).sum) :
    fokWalk t quantity entries matched = quantity := by
  induction entries generalizing matched with
  | nil =>
    simp only [List.takeWhile_nil, queuedOrders, List.flatMap_nil, List.map_nil, List.sum_nil]
      at hcovered
    exact le_antisymm hle hcovered
  | cons e entries ih =>
    obtain ⟨price, l⟩ := e
    rw [fokWalk]
    by_cases hdone : quantity ≤ matched
    · rw [if_pos hdone]
      exact le_antisymm hle hdone
    rw [if_neg hdone]
    by_cases hallows : t.allows price
    swap
    · rw [List.takeWhile_cons, if_neg hallows] at hcovered
      exact absurd hcovered hdone
    have hcap : lotFloor t.lot (quantity - matched) = quantity - matched := if_pos hlot
    rw [if_neg (by simpa using hallows), hcap, if_neg (by omega)]
    rw [List.takeWhile_cons, if_pos hallows, queuedOrders, List.flatMap_cons] at hcovered
    dsimp only at hcovered
    have hactive : t.stpActive :=
      t.stpActive_iff.mpr ⟨huser, by rcases hmode with h | h <;> simp [h]⟩
    -- the walk ends on the level of the first own order, and what is ahead of it there suffices
    have hown : ∀ {safe id}, firstOwn t.userId (orders l) 0 = some (safe, id) →
        satAdd64 matched (min (quantity - matched) safe) = quantity := by
      intro safe id hfirst
      have hsafe := le_firstOwn hfirst (queuedOrders (entries.takeWhile fun e => t.allows e.1))
      rw [queuedOrders, Nat.zero_add] at hsafe
      rw [satAdd64_eq (by omega)]
      omega
    rcases checkStpAtLevel_cases (orders l) huser (t.stpActive_iff.mp hactive).2 with
      ⟨hcheck, hforeign⟩ | ⟨safe, id, hcheck, -, hfirst⟩ | ⟨-, hmaker, -⟩ |
      ⟨safe, id, hcheck, -, hfirst⟩
    · have hreach : fokReachable t l (quantity - matched) =
          (matchableQuantity l (quantity - matched) t.orderId, false) := by
        rw [fokReachable, if_pos hactive, hcheck]
      have hdepth := MatchableDryRun.matchableQuantity_eq (l := l) (q := quantity - matched)
        (hfree _ (List.mem_cons_self ..))
      have hdisplay := min_le_sum_matchableQty (orders l)
      rw [hreach]
      rw [if_neg (by simp), hdepth, satAdd64_eq (by omega)]
      refine ih (List.forall_mem_cons.mp hfree).2 (by omega) ?_
      rw [List.takeWhile_append_of_pos (fun x hx => by simpa using hforeign x hx), List.map_append,
        List.sum_append] at hcovered
      rw [queuedOrders]
      omega
    · have hreach : fokReachable t l (quantity - matched) = (safe, true) := by
        rw [fokReachable, if_pos hactive, hcheck]
      rw [hreach]
      exact hown hfirst
    · rcases hmode with h | h <;> rw [h] at hmaker <;> cases hmaker
    · have hreach : fokReachable t l (quantity - matched) = (safe, true) := by
        rw [fokReachable, if_pos hactive, hcheck]
      rw [hreach]
      exact hown hfirst

/-! ### A sweep that raises no flag prevented nothing -/

section Unflagged

variable {t : Taker} (hmode : t.stpMode = .cancelTaker ∨ t.stpMode = .cancelBoth) {sw : Sweep L}
include hmode

theorem sweepConflict_unflagged (huser : t.userId ≠ 0) {price : ℕ} {l : L} {qtyCap : ℕ} :
    sweepConflict t sw price l qtyCap = matchNormally t sw price l qtyCap ∨
      (sweepConflict t sw price l qtyCap).1.stpTakerCancelled ∧
        (sweepConflict t sw price l qtyCap).2 = false := by
  have hne : t.stpMode ≠ .none := by rcases hmode with h | h <;> simp [h]
  rw [sweepConflict]
  rcases checkStpAtLevel_cases (orders l) huser hne with
    ⟨hcheck, -⟩ | ⟨safe, id, hcheck, -⟩ | ⟨-, hmaker, -⟩ | ⟨safe, id, hcheck, -⟩
  · rw [hcheck]
    exact Or.inl rfl
  · rw [hcheck]
    exact Or.inr ⟨rfl, rfl⟩
  · rcases hmode with h | h <;> rw [h] at hmaker <;> cases hmaker
  · rw [hcheck]
    exact Or.inr ⟨rfl, rfl⟩

/-- **A sweep that raises no flag is the sweep without self-trade prevention**, under the modes that
cancel takers. -/
theorem sweepLoop_unflagged (entries : List (ℕ × L))
    (hflag : (sweepLoop t entries sw).stpTakerCancelled = false) :
    sweepLoop t entries sw = sweepLoop { t with stpMode := .none } entries sw := by
  have hlevel : ∀ (sw : Sweep L) price l,
      sweepLevel t sw price l = sweepLevel { t with stpMode := .none } sw price l ∨
        (sweepLevel t sw price l).1.stpTakerCancelled ∧ (sweepLevel t sw price l).2 = false := by
    intro sw price l
    have hallows : Taker.allows { t with stpMode := .none } price = t.allows price := rfl
    have hoff : Taker.stpActive { t with stpMode := .none } = false := by
      rw [Bool.eq_false_iff, ne_eq, Taker.stpActive_iff]
      simp
    rw [sweepLevel, sweepLevel, hallows, hoff]
    dsimp only
    rw [if_neg Bool.false_ne_true]
    split_ifs with hprice hcap hpost hactive
    · exact Or.inl rfl
    · exact Or.inl rfl
    · exact Or.inl rfl
    · exact sweepConflict_unflagged hmode (t.stpActive_iff.mp hactive).1
    · exact Or.inl rfl
  induction entries generalizing sw with
  | nil => rfl
  | cons e entries ih =>
    obtain ⟨price, l⟩ := e
    rw [sweepLoop] at hflag ⊢
    rw [sweepLoop]
    rcases hlevel sw price l with hsame | ⟨hraised, hends⟩
    · rw [← hsame]
      split_ifs at hflag ⊢
      · exact ih hflag
      · rfl
    · rw [hends] at hflag
      exact absurd (hraised.symm.trans hflag) (by simp)

end Unflagged

/-! ### Covered takers -/

section Covered

variable [LevelQueue L] [LevelMatch L] [MatchAccounting L] [MatchConservation L]
  {b : OrderBook L} {o : Order}

theorem Left.byFills {t : Taker} {trades : List Trade} {m : Order} (h : Left t trades m)
    (hoff : t.stpMode = .none) : LeftByFills trades m := by
  rcases h with ⟨traded, some_trade⟩ | ⟨keeps, traded, some_trade⟩ | ⟨mode, -, -⟩
  · exact ⟨some_trade, Or.inl traded⟩
  · exact ⟨some_trade, Or.inr ⟨keeps, traded⟩⟩
  · rw [hoff] at mode
    rcases mode with h | h <;> cases h

/-- **A completed sweep cancels nobody**, under the modes that cancel takers. -/
theorem leftByFills_of_sweepCompletes (hb : b.Sound)
    (hmode : b.stpMode = .cancelTaker ∨ b.stpMode = .cancelBoth) (h : SweepCompletes o b) :
    ∃ trades, (sweepOf o b).2.fills = b.fills ++ trades ∧
      ∀ {side price m}, b.Rests side price m →
        (∃ x, (sweepOf o b).2.Rests side price x ∧ x.id = m.id) ∨ LeftByFills trades m := by
  obtain ⟨outcome, hresult, -, hstp, -⟩ := h
  rcases sweepOf_eq_ok (show sweepOf o b = (.ok outcome, (sweepOf o b).2) by rw [← hresult]) with
    ⟨-, -, hbook⟩ | ⟨tracker, rfl, hbook⟩
  · rw [hbook]
    exact ⟨[], (List.append_nil _).symm, fun hm => Or.inl ⟨_, hm, rfl⟩⟩
  · have hsweep : b.sweepFor o = b.openSweep.sweep { b.takerOf o with stpMode := .none }
        (.baseQty o.totalQuantity (some o.price)) := sweepLoop_unflagged hmode _ hstp
    obtain ⟨trades, hend⟩ := sweep_conserves hb { b.takerOf o with stpMode := .none }
      (.baseQty o.totalQuantity (some o.price))
    rw [← hsweep] at hend
    rw [hbook]
    exact ⟨trades, hend.applied, fun hm => (hend.gone hm).imp_right fun h => h.byFills rfl⟩

/-- **An accepted order is taken in full** iff its sweep completes, under the modes that cancel
takers. -/
theorem takenInFull_iff_sweepCompletes (hb : b.Sound)
    (hmode : b.stpMode = .cancelTaker ∨ b.stpMode = .cancelBoth) (hacc : b.Accepted o) :
    TakenInFull o b ↔ SweepCompletes o b := by
  have hsize := Order.size_eq_totalQuantity hacc.representable
  obtain ⟨hfills, hrests, -⟩ := rests_after_sweep hacc false
  have hstep := addOrderInner_step o false b
  constructor
  · rintro ⟨hok, -, trades, happlied, htraded, -⟩
    obtain ⟨r, hr⟩ := succeeds_addOrder.mp hok
    rw [addOrder_snd, hfills, (reported_accounts o b).2] at happlied
    have haccounts := (reported_accounts o b).1
    rw [List.append_cancel_left happlied, htraded, hsize] at haccounts
    rw [hr] at hstep
    generalize (addOrderInner o false b).2 = b' at hstep
    cases hstep with
    | filled _ quiet run flag stp zero =>
      exact ⟨_, (quiet.sameState.sweepOf run).1, flag, stp, zero⟩
    | rests _ quiet run flag stp pos _ _ =>
      refine ⟨_, (quiet.sameState.sweepOf run).1, flag, stp, ?_⟩
      rw [reported, (quiet.sameState.sweepOf run).1] at haccounts
      dsimp only at haccounts
      omega
  · intro hdone
    obtain ⟨trades, happlied, hgone⟩ := leftByFills_of_sweepCompletes hb hmode hdone
    obtain ⟨trades', happlied', htraded⟩ := hdone.traded
    rw [happlied, List.append_cancel_left_eq] at happlied'
    rw [← happlied', ← hsize] at htraded
    have hrecorded : (∃ r, (addOrderInner o false b).1 = .ok r) ∧ ∃ b₁ : OrderBook L,
        (addOrderInner o false b).2 = b₁.trackState o.id (.filled o.totalQuantity) := by
      obtain ⟨outcome, hresult, hflag, hstp, hzero⟩ := hdone
      have heq : ∀ {b₀ b₁ : OrderBook L} {out}, b.Quiet b₀ → sweepOf o b₀ = (.ok out, b₁) →
          out = outcome := fun quiet run =>
        Except.ok.inj ((quiet.sameState.sweepOf run).1.symm.trans hresult)
      generalize (addOrderInner o false b).1 = result at hstep ⊢
      generalize (addOrderInner o false b).2 = b' at hstep ⊢
      cases hstep with
      | refused refusal => exact absurd hacc refusal
      | failed _ quiet run =>
        have hfailed := (quiet.sameState.sweepOf run).1.symm.trans hresult
        cases hfailed
      | rejected _ quiet run flag => rw [heq quiet run, hflag] at flag; cases flag
      | stpCancelled _ quiet run _ stp => rw [heq quiet run, hstp] at stp; cases stp
      | filled => exact ⟨⟨_, rfl⟩, _, rfl⟩
      | dropped _ quiet run _ _ pos | levelRefused _ quiet run _ _ pos
      | rests _ quiet run _ _ pos => exact absurd (by rw [heq quiet run, hzero]) pos
    refine ⟨succeeds_addOrder.mpr hrecorded.1, ?_, trades, ?_, htraded, ?_⟩
    · rw [addOrder_snd]
      exact hrecorded.2
    · rw [addOrder_snd, hfills, happlied]
    · intro side price m hm
      rw [addOrder_snd]
      refine (hgone hm).imp_left ?_
      rintro ⟨x, hx, hid⟩
      exact ⟨x, hrests hx, hid⟩

end Covered

end OrderBookRs
