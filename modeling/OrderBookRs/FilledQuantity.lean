import OrderBookRs.TrackedStatus

/-!
# Reported filled quantities

A tracked status carries a filled quantity: the taker's fills at admission, the fills of the match
in which a maker leaves its level, the recorded quantity of an order that is cancelled. The fills of
a maker that stays on its level are never recorded, and a maker that leaves is reported with the
fills of its last match only. This module proves that the reported quantity is the traded one as
long as every maker that trades leaves its level in that match and had no fills before it.

## Main definitions

* `OrderBook.Reports`: every status carries what its order traded.
* `OrderBook.Unused`: an id without a status and without trades.
* `ReportsApart`: both, for the ids that are still to be used.

## Main results

* `filled_quantity_reported`: every run in which ids are used once and makers are taken whole.
-/

namespace OrderBookRs

open PriceLevel Fallible OrderBook

variable {L : Type} [PriceLevel L] {b b' : OrderBook L} {i id : OrderId} {status : OrderStatus}
  {o : Order}

namespace OrderBook

/-- Every tracked status carries what its order traded. -/
structure Reports (b : OrderBook L) : Prop where
  filled_eq : ∀ {i st}, b.orderStatus i = some st → st.filledQuantity = tradedBy i b.fills

/-- The id has no status and no trades. -/
structure Unused (b : OrderBook L) (i : OrderId) : Prop where
  untracked : b.orderStatus i = none
  untraded : tradedBy i b.fills = 0

omit [PriceLevel L] in
theorem Active.not_unused (h : b.Active i) : ¬ b.Unused i := by
  rintro ⟨huntracked, -⟩
  obtain ⟨st, hst, -⟩ := h
  rw [huntracked] at hst
  cases hst

end OrderBook

/-! ### What the calls keep -/

/-- Every status is right, and the given ids have not been used. -/
structure ReportsApart (unusedIds : List OrderId) (b : OrderBook L) : Prop where
  tracks : b.TracksResting
  reports : b.Reports
  unused : ∀ i ∈ unusedIds, b.Unused i

namespace ReportsApart

variable {ids : List OrderId}

theorem silent (hsilent : b.Silent b') (h : ReportsApart ids b) :
    ReportsApart ids b' where
  tracks := h.tracks.silent hsilent
  reports := by
    refine ⟨fun {i st} hst => ?_⟩
    rw [orderStatus_congr hsilent.tracker] at hst
    rw [hsilent.fills]
    exact h.reports.filled_eq hst
  unused i hi := by
    refine ⟨(orderStatus_congr hsilent.tracker i).trans (h.unused i hi).untracked, ?_⟩
    rw [hsilent.fills]
    exact (h.unused i hi).untraded

/-- An unused id does not rest. -/
theorem not_holds (h : ReportsApart ids b) (hi : b.Unused i) : ¬ b.Holds i := fun hheld =>
  ((h.tracks.active_iff i).mpr hheld).not_unused hi

/-- A status of the submitted order, which is not to stay unused. -/
theorem closes (hcloses : b.Closes id status b') (hid : id ∉ ids)
    (hst : status.filledQuantity = tradedBy id b'.fills) (h : ReportsApart ids b) :
    ReportsApart ids b' where
  tracks := h.tracks.closes hcloses
  reports := by
    refine ⟨fun {i st} hi => ?_⟩
    rw [orderStatus_congr hcloses.tracker] at hi
    rcases orderStatus_of_trackState hi with ⟨rfl, rfl⟩ | ⟨-, hi⟩
    · exact hst
    · rw [hcloses.fills]
      exact h.reports.filled_eq hi
  unused i hi := by
    have hne : i ≠ id := by
      rintro rfl
      exact hid hi
    refine ⟨(orderStatus_congr hcloses.tracker i).trans
      (orderStatus_trackState_eq_none hne (h.unused i hi).untracked), ?_⟩
    rw [hcloses.fills]
    exact (h.unused i hi).untraded

variable [MatchAccounting L] [TradeRecords L]

/-- **Orders that retire are recorded with what they traded** if the makers are taken whole and the
taker has not been used, or nothing is traded. -/
theorem retires {p : Plan L} {ws : List (OrderId × OrderStatus)} (hretires : b.Retires id p ws b')
    (hwhole : b.TakesWhole id p)
    (hid : id ∉ ids ∧ b.orderStatus id = none ∨ b'.fills = b.fills) (h : ReportsApart ids b) :
    ReportsApart ids b' := by
  obtain ⟨new, hfills, -, hnew⟩ := hretires.traded
  obtain ⟨hidle, hreport⟩ := hnew hwhole
  have hnothing : b'.fills = b.fills → ∀ i, tradedBy i new = 0 := by
    intro hsame i
    obtain rfl : new = [] := List.append_cancel_left
      (hfills.symm.trans (hsame.trans (List.append_nil _).symm))
    rfl
  refine ⟨h.tracks.retires hretires, ⟨fun {i st} hst => ?_⟩, fun i hi => ?_⟩
  · rw [orderStatus_congr hretires.tracker] at hst
    rw [hfills, tradedBy_append]
    rcases orderStatus_of_recordAll hst with hmem | ⟨hnot, hst⟩
    · obtain ⟨st', hst', -⟩ := (h.tracks.active_iff i).mpr (hretires.held _ hmem)
      rw [hreport _ hmem, trackedFilled_eq hst', h.reports.filled_eq hst']
    · rw [h.reports.filled_eq hst]
      refine (Nat.add_eq_left.mpr ?_).symm
      rcases hid with ⟨-, huntracked⟩ | hsame
      · refine hidle i ?_ hnot
        rintro rfl
        cases huntracked.symm.trans hst
      · exact hnothing hsame i
  · have hunused := h.unused i hi
    have hnot : i ∉ ws.map Prod.fst := fun hmem => by
      obtain ⟨w, hw, rfl⟩ := List.mem_map.mp hmem
      exact h.not_holds hunused (hretires.held w hw)
    refine ⟨(orderStatus_congr hretires.tracker i).trans
      (orderStatus_recordAll_eq_none hnot hunused.untracked), ?_⟩
    rw [hfills, tradedBy_append, hunused.untraded, Nat.zero_add]
    rcases hid with ⟨hid, -⟩ | hsame
    · refine hidle i ?_ hnot
      rintro rfl
      exact hid hi
    · exact hnothing hsame i

theorem cancels (hcancels : b.Cancels b') (h : ReportsApart ids b) :
    ReportsApart ids b' := by
  obtain ⟨hfills, ws, hretires⟩ := hcancels
  exact h.retires hretires (fun e he => absurd he List.not_mem_nil) (Or.inr hfills)

/-- **An order with an unused id that takes its makers whole.** -/
theorem submits {P : Plan L → Prop} (hsubmits : b.Submits id P b')
    (hid : id ∉ ids) (hunused : b.Unused id) (hwhole : ∀ p, P p → b.TakesWhole id p)
    (h : ReportsApart ids b) : ReportsApart ids b' := by
  obtain ⟨p, ws, b₁, hp, hretires, hend⟩ := hsubmits
  have hwhole' : b.TakesWhole id p := by
    rcases hp with hnil | hp
    · intro e he
      rw [hnil] at he
      cases he
    · exact hwhole p hp
  have hretired := h.retires hretires hwhole' (Or.inl ⟨hid, hunused.untracked⟩)
  rcases hend with hsilent | ⟨status, hcloses, hst⟩
  · exact hretired.silent hsilent
  · exact hretired.closes hcloses hid (hst hunused.untraded)

end ReportsApart

/-! ### Runs -/

/-- What a call needs so that ids are used once and makers are taken whole. -/
def wholeGuard (unusedIds : List OrderId) : Guard L where
  add b o := o.id ∉ unusedIds ∧ b.Unused o.id ∧ (b.Accepted o → b.TakesWhole o.id (b.dryRunOf o))
  market b id side mode user := id ∉ unusedIds ∧ b.Unused id ∧ (b.killSwitch = false →
    b.TakesWhole id (b.dryRun (b.taker id side mode.limitPrice user .standard) mode))
  resize _ _ _ := False
  drop _ _ := False

/-- The id under which a call submits an order. -/
def Command.submitted : Command → Option OrderId
  | .addOrder o => some o.id
  | .addOrderWithResult o => some o.id
  | .submitMarketOrder id .. => some id
  | .submitMarketOrderByAmount id .. => some id
  | _ => none

/-- The sweep of a call takes its makers whole. -/
def OrderBook.TakesMakersWhole (b : OrderBook L) : Command → Prop
  | .addOrder o => b.Accepted o → b.TakesWhole o.id (b.dryRunOf o)
  | .addOrderWithResult o => b.Accepted o → b.TakesWhole o.id (b.dryRunOf o)
  | .submitMarketOrder id quantity side user => b.killSwitch = false →
    b.TakesWhole id (b.dryRun (b.taker id side none user .standard) (.baseQty quantity none))
  | .submitMarketOrderByAmount id amount side user => b.killSwitch = false →
    b.TakesWhole id (b.dryRun (b.taker id side none user .standard) (.quoteAmount amount))
  | _ => True

section Run

variable [LevelQueue L] [LevelReports L] [LevelResize L] [MatchAccounting L] [TradeRecords L]

theorem reportsApart_guarded (ids : List OrderId) :
    GuardedInvariant (fun b : OrderBook L => b.Sound ∧ ReportsApart ids b) (wholeGuard ids) := by
  refine guarded_of_records (fun hsilent h => h.silent hsilent) (fun h => h.tracks.live)
    (fun hcancels h => h.cancels hcancels) ?_ (fun {b o} wantResult hg hsound h => ?_)
    (fun {b id side mode user} hrunning hg hsound h => ?_) (fun hg h => ?_) (fun hg => hg.elim)
    fun hg => hg.elim
  · intro b b' o hsame hg
    have haccepted := hsame.symm.accepted (o := o)
    obtain ⟨cache, rfl⟩ := hsame.cache_only
    exact ⟨hg.1, ⟨hg.2.1.untracked, hg.2.1.untraded⟩, fun ho => hg.2.2 (haccepted ho)⟩
  · refine h.submits (addOrderInner_submits hsound h.tracks.live (h.not_holds hg.2.1)
      (fun _ => Plan.lists) wantResult) hg.1 hg.2.1 ?_
    rintro _ ⟨haccepted, rfl⟩
    exact hg.2.2 haccepted
  · refine h.submits (matchMarket_submits hsound h.tracks.live (h.not_holds hg.2.1) side mode user
      Plan.lists) hg.1 hg.2.1 ?_
    rintro _ rfl
    exact hg.2.2 hrunning
  · exact h.closes (closes_trackState (h.not_holds hg.2.1) rfl) hg.1 hg.2.1.untraded.symm

/-- One call, if the id it submits is not used again. -/
theorem ReportsApart.execute {c : Command} {rest : List OrderId}
    (hids : (c.submitted.toList ++ rest).Nodup) (hcall : ∀ u, c ≠ .updateOrder u)
    (hwhole : b.TakesMakersWhole c) (hsound : b.Sound)
    (h : ReportsApart (c.submitted.toList ++ rest) b) :
    (b.execute c).Sound ∧ ReportsApart rest (b.execute c) := by
  have hrest : ReportsApart rest b :=
    ⟨h.tracks, h.reports, fun i hi => h.unused i (List.mem_append_right _ hi)⟩
  have hsubmits : ∀ id, c.submitted = some id → id ∉ rest ∧ b.Unused id := by
    intro id hc
    rw [hc] at hids h
    exact ⟨(List.nodup_cons.mp hids).1, h.unused id List.mem_cons_self⟩
  refine (reportsApart_guarded rest).execute ?_ ⟨hsound, hrest⟩
  cases c with
  | addOrder o | addOrderWithResult o =>
    exact ⟨(hsubmits o.id rfl).1, (hsubmits o.id rfl).2, hwhole⟩
  | submitMarketOrder id quantity side user | submitMarketOrderByAmount id amount side user =>
    exact ⟨(hsubmits id rfl).1, (hsubmits id rfl).2, hwhole⟩
  | updateOrder u => exact absurd rfl (hcall u)
  | _ => trivial

theorem ReportsApart.run {commands : List Command}
    (hids : (commands.flatMap fun c => c.submitted.toList).Nodup)
    (hcalls : ∀ c ∈ commands, ∀ u, c ≠ .updateOrder u)
    (hwhole : RunMeets OrderBook.execute TakesMakersWhole b commands) (hsound : b.Sound)
    (h : ReportsApart (commands.flatMap fun c => c.submitted.toList) b) :
    ReportsApart [] (b.run commands) := by
  induction commands generalizing b with
  | nil => exact h
  | cons c commands ih =>
    obtain ⟨hsound', h'⟩ := h.execute hids (hcalls c List.mem_cons_self) hwhole.1 hsound
    exact ih (List.Nodup.of_append_right hids)
      (fun c' hc' => hcalls c' (List.mem_cons_of_mem c hc')) hwhole.2 hsound' h'

end Run

/-- Two asks, and a bid for some quantity. -/
def asksTaken (quantity : ℕ) : List Command :=
  [.addOrder ⟨1, 101, .sell, 7, 0, .gtc, 5, .standard⟩,
    .addOrder ⟨2, 102, .sell, 7, 0, .gtc, 3, .standard⟩,
    .addOrder ⟨3, 102, .buy, 8, 0, .gtc, quantity, .standard⟩]

end OrderBookRs
