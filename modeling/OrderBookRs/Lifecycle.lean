import OrderBookRs.FilledQuantity

/-!
# Status histories

The tracker accepts every transition, so whether a history respects the lifecycle of its order is up
to the writers. Nothing should follow a terminal status, and the filled quantity should not
decrease. Two kinds of call break this. A request that moves an order cancels it and adds it again
under its id, so `Cancelled` is followed by the status of the new order. A maker that leaves its
level is recorded with the fills of its last match, which may be less than what was recorded when it
came to rest.

## Main definitions

* `RespectsLifecycle`: what a history should be like.
* `OrderStateTracker.Lawful`: every history is like that and ends with the current status.
* `OrderBook.InLifecycle`: so is every history of a book, and no resting order is done.
* `OrderBook.KeepsLifecycle`: what a call needs to keep it so.

## Main results

* `histories_respect_lifecycle`: every history, after every run whose calls are like that.
-/

namespace OrderBookRs

open PriceLevel Fallible OrderBook

variable {id : OrderId} {status : OrderStatus} {o : Order}

/-! ### Histories -/

/-- Nothing follows a terminal status, and the filled quantity does not decrease. -/
structure RespectsLifecycle (history : List (ℕ × OrderStatus)) : Prop where
  terminal_last : ∀ e ∈ history.dropLast, e.2.isTerminal = false
  filled_mono : history.Pairwise fun e e' => e.2.filledQuantity ≤ e'.2.filledQuantity

theorem RespectsLifecycle.append {history : List (ℕ × OrderStatus)} (h : RespectsLifecycle history)
    {e : ℕ × OrderStatus} (hlast : ∀ e' ∈ history.getLast?,
      e'.2.isTerminal = false ∧ e'.2.filledQuantity ≤ e.2.filledQuantity) :
    RespectsLifecycle (history ++ [e]) := by
  rcases List.eq_nil_or_concat' history with rfl | ⟨before, last, rfl⟩
  · exact ⟨by simp, by simp⟩
  obtain ⟨hactive, hle⟩ := hlast last (by simp)
  have hbefore : ∀ x ∈ before, x.2.filledQuantity ≤ last.2.filledQuantity := fun x hx =>
    (List.pairwise_append.mp h.filled_mono).2.2 x hx last (List.mem_singleton_self last)
  refine ⟨fun x hx => ?_, List.pairwise_append.mpr ⟨h.filled_mono, List.pairwise_singleton _ e, ?_⟩⟩
  · rw [List.dropLast_concat] at hx
    rcases List.mem_append.mp hx with hx | hx
    · exact h.terminal_last x (by rwa [List.dropLast_concat])
    · rw [List.mem_singleton.mp hx]
      exact hactive
  · intro x hx y hy
    rw [List.mem_singleton.mp hy]
    rcases List.mem_append.mp hx with hx | hx
    · exact (hbefore x hx).trans hle
    · rw [List.mem_singleton.mp hx]
      exact hle

namespace OrderStateTracker

variable {t : OrderStateTracker}

/-- Every history respects the lifecycle and ends with the current status. -/
def Lawful (t : OrderStateTracker) : Prop := ∀ ⦃i history⦄, t.history.lookup i = some history →
  RespectsLifecycle history ∧ ∃ e ∈ history.getLast?, t.get i = some e.2

theorem Lawful.evict (h : t.Lawful) (id : OrderId) : (t.evict id).Lawful := by
  rw [OrderStateTracker.evict]
  split_ifs
  · intro i history hi
    have hne : i ≠ id := by
      rintro rfl
      simp [AList.lookup_erase] at hi
    rw [AList.lookup_erase_ne hne] at hi
    obtain ⟨hrespects, e, he, hget⟩ := h hi
    exact ⟨hrespects, e, he, (AList.lookup_erase_ne hne).trans hget⟩
  · exact h

theorem Lawful.foldl_evict (ids : List OrderId) (h : t.Lawful) : (ids.foldl .evict t).Lawful := by
  induction ids generalizing t with
  | nil => exact h
  | cons id ids ih => exact ih (h.evict id)

/-- **A transition keeps the histories lawful** if it continues the one it is written to. -/
theorem Lawful.transition (h : t.Lawful)
    (hst : ∀ st, t.get id = some st →
      st.isTerminal = false ∧ st.filledQuantity ≤ status.filledQuantity) :
    (t.transition id status).Lawful := by
  have hrecorded : Lawful { t with
      states := t.states.insert id status
      history := t.history.insert id
        ((t.history.lookup id).getD [] ++ [(t.clock.nowMillis, status)])
      clock := t.clock.tick } := by
    intro i history hi
    by_cases heq : i = id
    · subst heq
      rw [AList.lookup_insert] at hi
      cases hi
      refine ⟨?_, (t.clock.nowMillis, status), by simp, AList.lookup_insert ..⟩
      cases hold : t.history.lookup i with
      | none => exact ⟨by simp, by simp⟩
      | some =>
        obtain ⟨hrespects, e, he, hget⟩ := h hold
        refine hrespects.append fun e' he' => ?_
        obtain rfl : e = e' := Option.some.inj (he.symm.trans he')
        exact hst e.2 hget
    · rw [AList.lookup_insert_ne heq] at hi
      obtain ⟨hrespects, e, he, hget⟩ := h hi
      exact ⟨hrespects, e, he, (AList.lookup_insert_ne heq).trans hget⟩
  rw [OrderStateTracker.transition]
  split_ifs
  · exact Lawful.foldl_evict _ fun _ _ hi => hrecorded hi
  · exact hrecorded

end OrderStateTracker

variable {L : Type} [PriceLevel L] {b : OrderBook L}

/-! ### Books -/

namespace OrderBook

/-- The id rests or is on record. -/
def Known (b : OrderBook L) (i : OrderId) : Prop := b.Holds i ∨ b.orderStatus i ≠ none

/-- Every history is lawful, no resting order is done, and the ids in use are among `S`. -/
structure InLifecycle (S : OrderId → Prop) (b : OrderBook L) : Prop where
  histories : ∀ t ∈ b.orderStateTracker, t.Lawful
  live : ∀ {i st}, b.Holds i → b.orderStatus i = some st → st.isTerminal = false
  known : ∀ {i}, b.Known i → S i

omit [PriceLevel L] in
theorem lawful_trackState (h : ∀ t ∈ b.orderStateTracker, t.Lawful)
    (hst : ∀ st, b.orderStatus id = some st →
      st.isTerminal = false ∧ st.filledQuantity ≤ status.filledQuantity) :
    ∀ t ∈ (b.trackState id status).orderStateTracker, t.Lawful := by
  intro t' ht'
  obtain ⟨t, ht, rfl⟩ := Option.map_eq_some_iff.mp ht'
  refine (h t ht).transition fun st hget => hst st ?_
  rw [orderStatus, ht]
  exact hget

omit [PriceLevel L] in
theorem lawful_recordAll {ws : List (OrderId × OrderStatus)}
    (h : ∀ t ∈ b.orderStateTracker, t.Lawful) (hnodup : (ws.map Prod.fst).Nodup)
    (hst : ∀ w ∈ ws, ∀ st, b.orderStatus w.1 = some st →
      st.isTerminal = false ∧ st.filledQuantity ≤ w.2.filledQuantity) :
    ∀ t ∈ (b.recordAll ws).orderStateTracker, t.Lawful := by
  induction ws generalizing b with
  | nil => exact h
  | cons w ws ih =>
    obtain ⟨hnot, hnodup⟩ := List.nodup_cons.mp hnodup
    refine ih (lawful_trackState h (hst w List.mem_cons_self)) hnodup fun w' hw' st hget =>
      hst w' (List.mem_cons_of_mem w hw') st ?_
    rcases orderStatus_of_trackState hget with ⟨heq, -⟩ | ⟨-, hget⟩
    · exact absurd (heq ▸ List.mem_map_of_mem hw') hnot
    · exact hget

/-- A maker that leaves its level in a planned fill trades at least what is on record for it. -/
def FillsForward (b : OrderBook L) (taker : OrderId) (p : Plan L) : Prop :=
  ∀ e ∈ p.fills, ∀ o ∈ orders e.1, o.id ∉ orderIds (matchOrder e.1 e.2 taker .standard).2 →
    b.trackedFilled o.id ≤
      tradedQuantity (tradesOf o.id (matchOrder e.1 e.2 taker .standard).1.trades)

instance (b : OrderBook L) (taker : OrderId) (p : Plan L) : Decidable (b.FillsForward taker p) :=
  inferInstanceAs (Decidable (∀ e ∈ p.fills, ∀ o ∈ orders e.1, _ ∉ _ → _ ≤ _))

namespace InLifecycle

variable {S S' : OrderId → Prop} {b b' : OrderBook L}

theorem mono (h : b.InLifecycle S) (hS : ∀ {i}, b.Known i → S' i) : b.InLifecycle S' :=
  ⟨h.histories, h.live, hS⟩

theorem congr (h : b.InLifecycle S) (htracker : b'.orderStateTracker = b.orderStateTracker)
    (hholds : ∀ {i}, b'.Holds i → b.Holds i) : b'.InLifecycle S where
  histories := htracker ▸ h.histories
  live hi hst := h.live (hholds hi) ((orderStatus_congr htracker _).symm.trans hst)
  known {i} hi := h.known (hi.imp hholds fun hne => by rwa [← orderStatus_congr htracker i])

theorem silent (hsilent : b.Silent b') (h : b.InLifecycle S) : b'.InLifecycle S :=
  h.congr hsilent.tracker hsilent.holds.mp

/-- The first status of an id. -/
theorem closes (hcloses : b.Closes id status b') (hid : S id) (hnew : ¬ b.Known id)
    (h : b.InLifecycle S) : b'.InLifecycle S where
  histories := hcloses.tracker ▸ lawful_trackState h.histories fun st hst =>
    absurd (Or.inr (by simp [hst])) hnew
  live {i st} hi hget := by
    rw [orderStatus_congr hcloses.tracker] at hget
    rw [hcloses.holds] at hi
    rcases orderStatus_of_trackState hget with ⟨rfl, rfl⟩ | ⟨hne, hget⟩
    · rwa [if_pos rfl] at hi
    · rw [if_neg hne] at hi
      exact h.live hi hget
  known {i} hi := by
    by_cases hne : i = id
    · exact hne ▸ hid
    refine h.known (hi.imp (fun hi => ?_) fun hrecorded hnone => hrecorded ?_)
    · rwa [hcloses.holds, if_neg hne] at hi
    · rw [orderStatus_congr hcloses.tracker]
      exact orderStatus_trackState_eq_none hne hnone

/-- **Orders that retire end their histories** if those that are filled trade at least what is on
record for them. -/
theorem retires [MatchReportsOnce L] {p : Plan L} {ws : List (OrderId × OrderStatus)}
    (hretires : b.Retires id p ws b') (hforward : b.FillsForward id p) (h : b.InLifecycle S) :
    b'.InLifecycle S where
  histories := by
    rw [hretires.tracker]
    refine lawful_recordAll h.histories hretires.nodup fun w hw st hst =>
      ⟨h.live (hretires.held w hw) hst, ?_⟩
    rw [← trackedFilled_eq hst]
    rcases hretires.source w hw with heq | ⟨e, he, o, ho, heq, hleft, hfilled⟩
    · exact heq.ge
    · rw [hfilled, ← heq]
      exact hforward e he o ho hleft
  live {i st} hi hst := by
    rw [orderStatus_congr hretires.tracker] at hst
    obtain ⟨hi, hnot⟩ := hretires.holds.mp hi
    rcases orderStatus_of_recordAll hst with hmem | ⟨-, hst⟩
    · exact absurd (List.mem_map_of_mem hmem) hnot
    · exact h.live hi hst
  known {i} hi := by
    by_cases hmem : i ∈ ws.map Prod.fst
    · obtain ⟨w, hw, rfl⟩ := List.mem_map.mp hmem
      exact h.known (Or.inl (hretires.held w hw))
    refine h.known (hi.imp (fun hi => (hretires.holds.mp hi).1) fun hrecorded hnone => hrecorded ?_)
    rw [orderStatus_congr hretires.tracker]
    exact orderStatus_recordAll_eq_none hmem hnone

theorem submits [MatchReportsOnce L] {P : Plan L → Prop} (hsubmits : b.Submits id P b') (hid : S id)
    (hnew : ¬ b.Known id) (hforward : ∀ p, P p → b.FillsForward id p) (h : b.InLifecycle S) :
    b'.InLifecycle S := by
  obtain ⟨p, ws, b₁, hp, hretires, hend⟩ := hsubmits
  have hforward' : b.FillsForward id p := by
    rcases hp with hnil | hp
    · intro e he
      rw [hnil] at he
      cases he
    · exact hforward p hp
  have hretired := h.retires hretires hforward'
  rcases hend with hsilent | ⟨status, hcloses, -⟩
  · exact hretired.silent hsilent
  · have hown : b.InLifecycle b.Known := h.mono fun hi => hi
    exact hretired.closes hcloses hid fun hi => hnew ((hown.retires hretires hforward').known hi)

end InLifecycle

end OrderBook

/-! ### Runs -/

/-- What keeps the histories lawful: a submitted id is not in use, and a maker that leaves its level
trades at least what is on record for it. -/
def lifecycleGuard (S : OrderId → Prop) : Guard L where
  add b o := S o.id ∧ ¬ b.Known o.id ∧ (b.Accepted o → b.FillsForward o.id (b.dryRunOf o))
  market b id side mode user := S id ∧ ¬ b.Known id ∧ (b.killSwitch = false →
    b.FillsForward id (b.dryRun (b.taker id side mode.limitPrice user .standard) mode))
  resize _ _ _ := True
  drop _ _ := True

section Run

variable [LevelQueue L] [LevelReports L] [LevelResize L] [MatchReportsOnce L]

theorem inLifecycle_guarded (S : OrderId → Prop) :
    GuardedInvariant (fun b : OrderBook L => b.Sound ∧ b.InLifecycle S) (lifecycleGuard S) := by
  refine guarded_of_records (fun hsilent h => h.silent hsilent) (fun h => h.live)
    (fun hcancels h => ?_) ?_ (fun {b o} wantResult hg hsound h => ?_)
    (fun {b id side mode user} hrunning hg hsound h => ?_) (fun hg h => ?_) ?_ ?_
  · exact h.retires hcancels.2.choose_spec fun e he => absurd he List.not_mem_nil
  · intro b b' o hsame hg
    have haccepted := hsame.symm.accepted (o := o)
    obtain ⟨cache, rfl⟩ := hsame.cache_only
    exact ⟨hg.1, hg.2.1, fun ho => hg.2.2 (haccepted ho)⟩
  · refine h.submits (addOrderInner_submits hsound h.live (fun hi => hg.2.1 (Or.inl hi))
      (fun _ => Plan.lists) wantResult) hg.1 hg.2.1 ?_
    rintro _ ⟨haccepted, rfl⟩
    exact hg.2.2 haccepted
  · refine h.submits (matchMarket_submits hsound h.live (fun hi => hg.2.1 (Or.inl hi)) side mode
      user Plan.lists) hg.1 hg.2.1 ?_
    rintro _ rfl
    exact hg.2.2 hrunning
  · exact h.closes (closes_trackState (fun hi => hg.2.1 (Or.inl hi)) rfl) hg.1 hg.2.1
  · intro b id q _ hsound h
    rcases updateQuantity_cases b.invalidateCache id q with
      hquiet | ⟨side, price, l, l', o, rfl, hres, -, hquiet⟩
    · exact h.silent hquiet.silent
    · refine .silent hquiet.silent (h.congr (resizeAt_tracker ..) ?_)
      rintro i ⟨s, p, x, hx, rfl⟩
      rcases hsound.rests_resizeAt hres.resized hx with ⟨hx, -⟩ | ⟨rfl, rfl, rfl⟩
      · exact ⟨s, p, x, hx, rfl⟩
      · exact ⟨s, p, o, hres.rests, (reduced_id o q).symm⟩
  · intro b id _ hsound h
    rcases cancelByUpdate_cases b.invalidateCache id with
      hrun | ⟨side, price, l, l', o, rfl, hout, hrun⟩
    · rwa [hrun]
    · rw [hrun]
      refine h.congr (dropAt_orderStateTracker ..) fun hi => ?_
      exact ((hsound.holds_removed hout.off (dropAt_get? _ _ _ _ _)).mp hi).1

end Run

/-- What a call needs so that the histories respect the lifecycle. A maker that leaves its level
trades at least what is on record for it, a market order has an id that is not in use, and no
request moves an order. -/
def OrderBook.KeepsLifecycle (b : OrderBook L) : Command → Prop
  | .addOrder o => b.Accepted o → b.FillsForward o.id (b.dryRunOf o)
  | .addOrderWithResult o => b.Accepted o → b.FillsForward o.id (b.dryRunOf o)
  | .submitMarketOrder id quantity side user => ¬ b.Known id ∧ (b.killSwitch = false →
      b.FillsForward id (b.dryRun (b.taker id side none user .standard) (.baseQty quantity none)))
  | .submitMarketOrderByAmount id amount side user => ¬ b.Known id ∧ (b.killSwitch = false →
      b.FillsForward id (b.dryRun (b.taker id side none user .standard) (.quoteAmount amount)))
  | .updateOrder u => ∀ newOrder, b.Moves u newOrder →
      ¬ b.invalidateCache.MoveAccepted (target u) newOrder
  | _ => True

/-- Every order that is added has an id that no earlier call submitted. -/
def FreshIds (commands : List Command) : Prop :=
  ∀ done c, done ++ [c] <+: commands → ∀ o, c = .addOrder o ∨ c = .addOrderWithResult o →
    ∀ earlier ∈ done, earlier.submitted ≠ some o.id

theorem freshIds_of_nodup {commands : List Command}
    (h : (commands.flatMap fun c => c.submitted.toList).Nodup) : FreshIds commands := by
  rintro done c ⟨rest, rfl⟩ o ho earlier hmem hid
  have hc : c.submitted = some o.id := by rcases ho with rfl | rfl <;> rfl
  rw [List.flatMap_append, List.flatMap_append] at h
  refine List.disjoint_of_nodup_append (List.Nodup.of_append_left h) (a := o.id) ?_ ?_
  · exact List.mem_flatMap.mpr ⟨earlier, hmem, by simp [hid]⟩
  · exact List.mem_flatMap.mpr ⟨c, List.mem_singleton_self c, by simp [hc]⟩

/-- An empty book whose tracker keeps everything. -/
def keepingBook : OrderBook FifoLevel :=
  trackedBook "BTC" ⟨fun n => n, 0⟩ [] u64Max ⟨fun n => n, 0⟩

/-- An ask, and one more call. -/
def askedThen (c : Command) : List Command :=
  [.addOrder ⟨1, 101, .sell, 7, 0, .gtc, 5, .standard⟩,
    .addOrder ⟨2, 101, .buy, 8, 0, .gtc, 3, .standard⟩, c]

/-- The history of an order on that book. -/
def historyOf (i : OrderId) (commands : List Command) : Option (List (ℕ × OrderStatus)) :=
  (keepingBook.run commands).orderStateTracker.bind fun t => t.history.lookup i

end OrderBookRs
