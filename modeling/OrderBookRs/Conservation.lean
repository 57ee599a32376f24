import OrderBookRs.Congruence
import OrderBookRs.FifoLevel
import OrderBookRs.Sound

/-!
# Quantity conservation in a sweep

What a new order trades and what is left of it add up to its quantity, and a maker loses exactly
what it trades. Two things break this for makers: self-trade prevention cancels an order, and a
reserve order without auto-replenish drops its hidden tranche when its display runs out.

## Main definitions

* `Kept`, `Left`: what trades do to a maker that stays and to one that leaves.
* `MakerOutcome`: what a call did to one maker.

## Main results

* `Conserves.step`: conservation through one step of a sweep.
* `quantity_conserved`: conservation through a whole `add_order`.
-/

namespace OrderBookRs

open PriceLevel Fallible OrderBook

variable {L : Type} [PriceLevel L] {trades : List Trade} {m o x : Order} {b b' : OrderBook L}
  {t : Taker} {side : Side} {price : ℕ}

/-! ### One maker -/

/-- The maker `m` made these trades and stayed as `x`. -/
structure Kept (trades : List Trade) (m x : Order) : Prop where
  tranches : ∃ v h, x = m.setTranches v h
  conserved : x.size + tradedQuantity (tradesOf m.id trades) = m.size
  untraded : tradesOf m.id trades = [] → x = m
  hidden : m.keepsHidden → x.hiddenQuantity = m.hiddenQuantity

/-- How the maker `m` left after these trades. -/
inductive Left (t : Taker) (trades : List Trade) (m : Order) : Prop
  /-- It traded everything. -/
  | filled (traded : tradedQuantity (tradesOf m.id trades) = m.size)
      (some_trade : tradesOf m.id trades ≠ [])
  /-- Its display ran out and its hidden tranche was dropped. -/
  | hiddenDropped (keeps : m.keepsHidden)
      (traded : tradedQuantity (tradesOf m.id trades) = m.visibleQuantity)
      (some_trade : tradesOf m.id trades ≠ [])
  /-- Self-trade prevention cancelled it. -/
  | stpCancelled (mode : t.stpMode = .cancelMaker ∨ t.stpMode = .cancelBoth)
      (user : t.userId ≠ 0) (own : m.userId = t.userId)

theorem Kept.id_eq (h : Kept trades m x) : x.id = m.id := by
  obtain ⟨v, k, rfl⟩ := h.tranches
  rfl

theorem Kept.userId_eq (h : Kept trades m x) : x.userId = m.userId := by
  obtain ⟨v, k, rfl⟩ := h.tranches
  rfl

theorem Kept.keepsHidden_eq (h : Kept trades m x) : x.keepsHidden = m.keepsHidden := by
  obtain ⟨v, k, rfl⟩ := h.tranches
  exact m.setTranches_keepsHidden v k

theorem Kept.refl (m : Order) : Kept [] m m :=
  ⟨m.eq_setTranches, rfl, fun _ => rfl, fun _ => rfl⟩

/-- Trades of other makers change nothing. -/
theorem Kept.append_of_nil {new : List Trade} (h : Kept trades m x)
    (hnil : tradesOf m.id new = []) : Kept (trades ++ new) m x := by
  have heq : tradesOf m.id (trades ++ new) = tradesOf m.id trades := by
    rw [tradesOf_append, hnil, List.append_nil]
  exact ⟨h.tranches, by rw [heq]; exact h.conserved, by rw [heq]; exact h.untraded, h.hidden⟩

theorem Left.append_of_nil {new : List Trade} (h : Left t trades m)
    (hnil : tradesOf m.id new = []) : Left t (trades ++ new) m := by
  have heq : tradesOf m.id (trades ++ new) = tradesOf m.id trades := by
    rw [tradesOf_append, hnil, List.append_nil]
  cases h with
  | filled => exact .filled (by rwa [heq]) (by rwa [heq])
  | hiddenDropped keeps traded some_trade =>
    exact .hiddenDropped keeps (by rwa [heq]) (by rwa [heq])
  | stpCancelled mode user own => exact .stpCancelled mode user own

section Match

variable [MatchConservation L] {q : ℕ} {i : OrderId} {l l' : L} {r : MatchResult}
  {trades : List Trade} {m x y : Order}

/-- A maker that stays through one more match. -/
theorem Kept.match_stays [LevelQueue L] [LevelMatch L] (h : Kept trades m x)
    (hrun : matchOrder l q i .standard = (r, l')) (hx : x ∈ orders l) (hy : y ∈ orders l')
    (hid : y.id = x.id) : Kept (trades ++ r.trades) m y := by
  obtain ⟨hsize, -⟩ := MatchBalance.stays hrun hx hy hid
  rw [h.id_eq] at hsize
  refine ⟨?_, ?_, fun hnil => ?_, fun hkeeps => ?_⟩
  · obtain ⟨z, hz, v, k, rfl⟩ := LevelMatch.orders_match hrun hy
    obtain rfl := eq_of_mem_orders hz hx hid
    obtain ⟨v', k', rfl⟩ := h.tranches
    exact ⟨v, k, m.setTranches_setTranches v' k' v k⟩
  · have hconserved := h.conserved
    rw [tradesOf_append, tradedQuantity_append]
    omega
  · rw [tradesOf_append, List.append_eq_nil_iff] at hnil
    have hxm := h.untraded hnil.1
    have hstays : x ∈ orders l' :=
      MatchConservation.untraded hrun hx (by rw [h.id_eq]; exact hnil.2)
    rw [eq_of_mem_orders hy hstays hid, hxm]
  · rw [MatchBalance.hidden_kept hrun hx hy hid (h.keepsHidden_eq.trans hkeeps),
      h.hidden hkeeps]

/-- A maker that leaves through one more match. -/
theorem Kept.match_leaves (h : Kept trades m x) (hrun : matchOrder l q i .standard = (r, l'))
    (hx : x ∈ orders l) (hgone : x.id ∉ orderIds l') (t : Taker) :
    Left t (trades ++ r.trades) m := by
  have hne : tradesOf m.id r.trades ≠ [] := by
    intro hnil
    have hstays : x ∈ orders l' := MatchConservation.untraded hrun hx (by rw [h.id_eq]; exact hnil)
    exact hgone (mem_orderIds.mpr ⟨x, hstays, rfl⟩)
  have hsome : tradesOf m.id (trades ++ r.trades) ≠ [] := by
    rw [tradesOf_append]
    exact List.append_ne_nil_of_right_ne_nil _ hne
  have hconserved := h.conserved
  have htotal : tradedQuantity (tradesOf m.id (trades ++ r.trades)) =
      tradedQuantity (tradesOf m.id trades) + tradedQuantity (tradesOf x.id r.trades) := by
    rw [tradesOf_append, tradedQuantity_append, h.id_eq]
  rcases MatchBalance.leaves hrun hx hgone with hall | ⟨hkeeps, hvisible⟩
  · exact .filled (by omega) hsome
  · have hkeeps' : m.keepsHidden := h.keepsHidden_eq.symm.trans hkeeps
    have hhidden := h.hidden hkeeps'
    simp only [Order.size] at hconserved
    exact .hiddenDropped hkeeps' (by omega) hsome

end Match

/-! ### One sweep -/

/-- From `b` to `b'` the given trades were made, and every maker lost what it traded or left. -/
structure Conserves (t : Taker) (b : OrderBook L) (trades : List Trade) (b' : OrderBook L) :
    Prop where
  applied : b'.fills = b.fills ++ trades
  stays : ∀ {side price x}, b'.Rests side price x → ∃ m, b.Rests side price m ∧ Kept trades m x
  gone : ∀ {side price m}, b.Rests side price m →
    (∃ x, b'.Rests side price x ∧ x.id = m.id) ∨ Left t trades m

theorem Conserves.refl (t : Taker) (b : OrderBook L) : Conserves t b [] b :=
  ⟨by simp, fun {_ _ x} hx => ⟨x, hx, .refl x⟩, fun {_ _ m} hm => Or.inl ⟨m, hm, rfl⟩⟩

section Sweep

variable [LevelQueue L] [LevelMatch L] [MatchAccounting L] [MatchConservation L] {t : Taker}
  {b : OrderBook L} {trades : List Trade} {price : ℕ} {sw sw' : Sweep L} {l l' : L}

theorem Conserves.fill (hb : b.Sound) (hsound : SweepSound t sw) (h : Conserves t b trades sw.book)
    {q : ℕ} {r : MatchResult} (hl : (sw.book.levels t.side.opposite).get? price = some l)
    (hrun : matchOrder l q t.orderId .standard = (r, l')) :
    Conserves t b (trades ++ r.trades) (fillLevel t sw price q r l').book := by
  refine ⟨?_, fun {s p y} hy => ?_, fun {s p m} hm => ?_⟩
  · rw [fillLevel_fills, h.applied, List.append_assoc]
  · rw [fillLevel_rests] at hy
    split_ifs at hy with hhere
    · obtain ⟨rfl, rfl⟩ := hhere
      obtain ⟨x, hx, v, k, rfl⟩ := LevelMatch.orders_match hrun hy
      obtain ⟨m, hm, hkept⟩ := h.stays ⟨l, hl, hx⟩
      exact ⟨m, hm, hkept.match_stays hrun hx hy rfl⟩
    · obtain ⟨m, hm, hkept⟩ := h.stays hy
      refine ⟨m, hm, hkept.append_of_nil (tradesOf_eq_nil hrun fun hmem => hhere ?_)⟩
      obtain ⟨z, hz, hid⟩ := mem_orderIds.mp hmem
      exact hsound.same_place hy ⟨l, hl, hz⟩ (hkept.id_eq.trans hid.symm)
  · by_cases hstill : ∃ x, sw.book.Rests s p x ∧ x.id = m.id
    · obtain ⟨x, hx, hid⟩ := hstill
      by_cases hhere : s = t.side.opposite ∧ p = price
      · obtain ⟨rfl, rfl⟩ := hhere
        have hmem := hx.mem_of_get? hl
        by_cases hstays : x.id ∈ orderIds l'
        · obtain ⟨y, hy, hyid⟩ := mem_orderIds.mp hstays
          refine Or.inl ⟨y, ?_, hyid.trans hid⟩
          rw [fillLevel_rests, if_pos ⟨rfl, rfl⟩]
          exact hy
        · obtain ⟨m', hm', hkept⟩ := h.stays hx
          obtain rfl := hb.unique hm' hm (hkept.id_eq.symm.trans hid)
          exact Or.inr (hkept.match_leaves hrun hmem hstays t)
      · refine Or.inl ⟨x, ?_, hid⟩
        rw [fillLevel_rests, if_neg hhere]
        exact hx
    · refine Or.inr (((h.gone hm).resolve_left hstill).append_of_nil
        (tradesOf_eq_nil hrun fun hmem => ?_))
      obtain ⟨z, hz, hid⟩ := mem_orderIds.mp hmem
      obtain ⟨m', hm', hkept⟩ := h.stays ⟨l, hl, hz⟩
      obtain ⟨rfl, rfl⟩ := hb.same_place hm' hm (hkept.id_eq.symm.trans hid)
      exact hstill ⟨z, ⟨l, hl, hz⟩, hid⟩

omit [LevelMatch L] [MatchAccounting L] [MatchConservation L] in
theorem Conserves.cancel (hb : b.Sound) (h : Conserves t b trades sw.book)
    (hout : sw.book.TakesOff t.side.opposite price l l' o)
    (hmode : t.stpMode = .cancelMaker ∨ t.stpMode = .cancelBoth) (huser : t.userId ≠ 0)
    (hown : o.userId = t.userId) :
    Conserves t b trades (sw.book.stpCancel t.side.opposite price l' o) := by
  refine ⟨by rw [stpCancel_fills]; exact h.applied, fun {s p x} hx => ?_, fun {s p m} hm => ?_⟩
  · rw [stpCancel_rests] at hx
    split_ifs at hx with hhere
    · obtain ⟨rfl, rfl⟩ := hhere
      rw [hout.orders_eq] at hx
      exact h.stays ⟨l, hout.level, List.mem_of_mem_filter hx⟩
    · exact h.stays hx
  · rcases h.gone hm with ⟨x, hx, hid⟩ | hleft
    · by_cases hhere : s = t.side.opposite ∧ p = price
      · obtain ⟨rfl, rfl⟩ := hhere
        have hmem := hx.mem_of_get? hout.level
        by_cases hcancelled : x.id = o.id
        · obtain ⟨m', hm', hkept⟩ := h.stays hx
          obtain rfl := hb.unique hm' hm (hkept.id_eq.symm.trans hid)
          obtain rfl := eq_of_mem_orders hmem hout.mem hcancelled
          exact Or.inr (.stpCancelled hmode huser (hkept.userId_eq.symm.trans hown))
        · refine Or.inl ⟨x, ?_, hid⟩
          rw [stpCancel_rests, if_pos ⟨rfl, rfl⟩, hout.orders_eq]
          exact List.mem_filter.mpr ⟨hmem, by simpa using hcancelled⟩
      · refine Or.inl ⟨x, ?_, hid⟩
        rw [stpCancel_rests, if_neg hhere]
        exact hx
    · exact Or.inr hleft

/-- **Conservation through one step of a sweep.** -/
theorem Conserves.step (hb : b.Sound) (hs : SweepStep t price sw sw') (hsound : SweepSound t sw)
    (h : ∃ trades, Conserves t b trades sw.book) : ∃ trades, Conserves t b trades sw'.book := by
  obtain ⟨trades, h⟩ := h
  cases hs with
  | fill level kind allows pos cap safe run => exact ⟨_, h.fill hb hsound level run⟩
  | cancel level mode user mem own orders_eq run =>
    exact ⟨trades, h.cancel hb ⟨level, mem, orders_eq⟩ mode user own⟩
  | markEmpty | flag => exact ⟨trades, h⟩

end Sweep

theorem Conserves.sameRests {b'' : OrderBook L} (h : Conserves t b trades b')
    (hsame : b'.SameRests b'') : Conserves t b trades b'' :=
  ⟨hsame.fills_eq.trans h.applied, fun hx => h.stays (hsame.rests_iff.mp hx), fun hm =>
    (h.gone hm).imp_left fun ⟨x, hx, hid⟩ => ⟨x, hsame.rests_iff.mpr hx, hid⟩⟩

/-! ### One call -/

/-- What a call did to the maker `m` that rested at `side` and `price`: it still rests there, less
what it traded, or it rests no more. -/
inductive MakerOutcome (t : Taker) (trades : List Trade) (b' : OrderBook L) (side : Side)
    (price : ℕ) (m : Order) : Prop
  | stays {x : Order} (rests : b'.Rests side price x) (kept : Kept trades m x)
  | left (gone : ∀ {s p x}, b'.Rests s p x → x.id ≠ m.id) (how : Left t trades m)

theorem MakerOutcome.mono {b'' : OrderBook L} (h : MakerOutcome t trades b' side price m)
    (hkeeps : ∀ {s p x}, b'.Rests s p x → b''.Rests s p x)
    (hnew : ∀ {s p x}, b''.Rests s p x → b'.Rests s p x ∨ x.id ≠ m.id) :
    MakerOutcome t trades b'' side price m := by
  rcases h with ⟨hx, hkept⟩ | ⟨hgone, hleft⟩
  · exact .stays (hkeeps hx) hkept
  · exact .left (fun hx => (hnew hx).elim hgone id) hleft

section Calls

variable [LevelQueue L] [LevelMatch L] [MatchAccounting L] [MatchConservation L]

omit [LevelMatch L] [MatchAccounting L] [MatchConservation L] in
/-- Ids are unique, so a maker that no longer rests where it did rests nowhere. -/
theorem Conserves.outcome (h : Conserves t b trades b') (hb : b.Sound) (hm : b.Rests side price m) :
    MakerOutcome t trades b' side price m := by
  by_cases hstill : ∃ x, b'.Rests side price x ∧ x.id = m.id
  · obtain ⟨x, hx, hid⟩ := hstill
    obtain ⟨m', hm', hkept⟩ := h.stays hx
    obtain rfl := hb.unique hm' hm (hkept.id_eq.symm.trans hid)
    exact .stays hx hkept
  · refine .left (fun {s p x} hx hid => ?_) ((h.gone hm).resolve_left hstill)
    obtain ⟨m', hm', hkept⟩ := h.stays hx
    obtain ⟨rfl, rfl⟩ := hb.same_place hm' hm (hkept.id_eq.symm.trans hid)
    exact hstill ⟨x, hx, hid⟩

/-- **A finished sweep conserves**, whatever its taker. -/
theorem sweep_conserves (hb : b.Sound) (t : Taker) (mode : MatchMode) :
    ∃ trades, Conserves t b trades (finishSweep t (b.openSweep.sweep t mode)) := by
  have hopen := b.sameState_openSweep
  obtain ⟨hsound, trades, hend⟩ := (sweep_run b.openSweep t mode).invariant
    (J := fun sw => SweepSound t sw ∧ ∃ trades, Conserves t b trades sw.book)
    (fun hs hJ => ⟨hJ.1.step hs, Conserves.step hb hs hJ.1 hJ.2⟩)
    ⟨.start (hb.sameState hopen) _, [], (Conserves.refl _ b).sameRests hopen.sameOrders.sameRests⟩
  exact ⟨trades, hend.sameRests ⟨finishSweep_fills .., hsound.finishSweep_rests⟩⟩

/-- **Conservation through the sweep of a new order.** -/
theorem sweepOf_conserves (hb : b.Sound) (o : Order) :
    ∃ trades, Conserves (b.takerOf o) b trades (sweepOf o b).2 := by
  rcases sweepOf_cases o b with ⟨-, hrun⟩ | ⟨tracker, hrun⟩
  · rw [hrun]
    exact ⟨[], (Conserves.refl _ b).sameRests b.sameState_openSweep.sameOrders.sameRests⟩
  · obtain ⟨trades, hend⟩ := sweep_conserves hb (b.takerOf o)
      (.baseQty o.totalQuantity (some o.price))
    rw [hrun]
    exact ⟨trades, hend.sameRests ⟨rfl, Iff.rfl⟩⟩

/-- The trades and the unmatched quantity the sweep of a new order reports; a sweep that fails made
no trade. -/
def reported (o : Order) (b : OrderBook L) : List Trade × ℕ :=
  match (sweepOf o b).1 with
  | .ok outcome => (outcome.result.trades, outcome.result.remainingQuantity)
  | .error _ => ([], o.totalQuantity)

omit [MatchConservation L] in
theorem reported_accounts (o : Order) (b : OrderBook L) :
    tradedQuantity (reported o b).1 + (reported o b).2 = o.totalQuantity ∧
      (sweepOf o b).2.fills = b.fills ++ (reported o b).1 := by
  rw [reported]
  rcases hrun : sweepOf o b with ⟨e | outcome, b'⟩
  · exact ⟨by simp, by simpa using fills_of_sweepOf_error hrun⟩
  · exact sweepOf_accounts hrun

omit [LevelMatch L] [MatchAccounting L] [MatchConservation L] in
/-- After its sweep an accepted order makes no trade, moves no maker, and rests at most with what is
reported unmatched. -/
theorem rests_after_sweep (hacc : b.Accepted o) (wantResult : Bool) :
    (addOrderInner o wantResult b).2.fills = (sweepOf o b).2.fills ∧
      (∀ {s p x}, (sweepOf o b).2.Rests s p x → (addOrderInner o wantResult b).2.Rests s p x) ∧
      ∀ {s p x}, (addOrderInner o wantResult b).2.Rests s p x →
        (sweepOf o b).2.Rests s p x ∨ x = residual o (reported o b).2 := by
  rcases addOrderInner_rests hacc wantResult with hsame | ⟨outcome, hrun, hjoined⟩
  · exact ⟨hsame.fills_eq, hsame.rests_iff.mpr, fun hx => Or.inl (hsame.rests_iff.mp hx)⟩
  · refine ⟨hjoined.fills_eq, fun hx => hjoined.rests_iff.mpr (Or.inl hx), fun hx => ?_⟩
    rw [reported, hrun]
    exact (hjoined.rests_iff.mp hx).imp_right fun h => h.2.2

/-- **What an accepted order does to the makers.** -/
theorem addOrderInner_makers (hb : b.Sound) (hacc : b.Accepted o) (wantResult : Bool)
    (hm : b.Rests side price m) :
    MakerOutcome (b.takerOf o) (reported o b).1 (addOrderInner o wantResult b).2 side price m := by
  obtain ⟨trades, hcons⟩ := sweepOf_conserves hb o
  obtain rfl : trades = (reported o b).1 :=
    List.append_cancel_left (hcons.applied.symm.trans (reported_accounts o b).2)
  obtain ⟨-, hkeeps, hnew⟩ := rests_after_sweep hacc wantResult
  refine (hcons.outcome hb hm).mono hkeeps fun hx => (hnew hx).imp_right ?_
  rintro rfl
  rw [residual_id]
  exact (hb.id_ne hacc.fresh hm).symm

/-- **Quantity conservation through `add_order`.** For an order that passes every check: what it
trades and what is left unmatched add up to its quantity; if it then rests, it rests with exactly
the unmatched quantity; and every maker lost what it traded or left. -/
theorem quantity_conserved [LevelResize L] [LevelSnapshot L] [SnapshotChecksum] {b : OrderBook L}
    (hreach : b.Reachable) {o : Order} (hmatch : Succeeds (admission o) b) (wantResult : Bool) :
    (addOrderInner o wantResult b).2.fills = b.fills ++ (reported o b).1 ∧
      tradedQuantity (reported o b).1 + (reported o b).2 = o.size ∧
      (∀ {side price x}, (addOrderInner o wantResult b).2.Rests side price x → x.id = o.id →
        x.size = (reported o b).2) ∧
      ∀ {side price m}, b.Rests side price m →
        MakerOutcome (b.takerOf o) (reported o b).1 (addOrderInner o wantResult b).2 side
          price m := by
  have hb := hreach.sound
  have hacc := succeeds_admission.mp hmatch
  obtain ⟨htraded, hfills⟩ := reported_accounts o b
  obtain ⟨trades, hcons⟩ := sweepOf_conserves hb o
  obtain rfl : trades = (reported o b).1 :=
    List.append_cancel_left (hcons.applied.symm.trans hfills)
  obtain ⟨hfills', hkeeps, hnew⟩ := rests_after_sweep hacc wantResult
  have hfresh : ∀ {s p x}, (sweepOf o b).2.Rests s p x → x.id ≠ o.id := by
    intro s p x hx hid
    obtain ⟨m, hm, hkept⟩ := hcons.stays hx
    exact hb.id_ne hacc.fresh hm (hkept.id_eq.symm.trans hid)
  refine ⟨?_, ?_, fun {s p x} hx hid => ?_, fun {s p m} hm => ?_⟩
  · rw [hfills', hfills]
  · have hsize := size_residual hacc.representable le_rfl
    rw [OrderBook.residual, if_neg (lt_irrefl _)] at hsize
    omega
  · rcases hnew hx with hx | rfl
    · exact absurd hid (hfresh hx)
    · exact size_residual hacc.representable (by omega)
  · exact addOrderInner_makers hb hacc wantResult hm

end Calls

/-- Two asks of one user at one price, the second a reserve order that keeps its hidden tranche, and
an ask of another user behind them. -/
def askLadder : List Op :=
  [.configure (.stpMode .cancelMaker),
    .command (.addOrder ⟨1, 100, .sell, 8, 0, .gtc, 4, .standard⟩),
    .command (.addOrder ⟨2, 100, .sell, 8, 0, .gtc, 3, .reserve 6 0 none false⟩),
    .command (.addOrder ⟨3, 101, .sell, 7, 0, .gtc, 5, .standard⟩)]

/-- An iceberg that takes the first two asks, cancels the third as its own, and rests. -/
theorem askLadder_quantity_conserved :
    letI := noDigest
    let b := (Session.run { book := (withClock "BTC" ⟨fun n => n, 0⟩ : OrderBook FifoLevel) }
      askLadder).book
    let o : Order := ⟨4, 101, .buy, 7, 0, .gtc, 6, .iceberg 6⟩
    (addOrderInner o false b).2.fills = [⟨4, 1, 100, 4⟩, ⟨4, 2, 100, 3⟩] ∧
      tradedQuantity (reported o b).1 + (reported o b).2 = 12 ∧
      MakerOutcome (b.takerOf o) (reported o b).1 (addOrderInner o false b).2 .sell 100
        ⟨2, 100, .sell, 8, 0, .gtc, 3, .reserve 6 0 none false⟩ := by
  let _ := noDigest
  intro b o
  have hmatch : Succeeds (admission o) b := ⟨(), (admission o b).2, rfl⟩
  obtain ⟨-, htotal, -, hmakers⟩ :=
    quantity_conserved ⟨"BTC", ⟨fun n => n, 0⟩, askLadder, rfl⟩ hmatch false
  exact ⟨by decide, htotal, hmakers ⟨_, rfl, by decide⟩⟩

end OrderBookRs
