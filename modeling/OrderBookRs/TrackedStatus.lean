import OrderBookRs.FifoLevel
import OrderBookRs.StatusWrites

/-!
# Tracked statuses of resting orders

An order is tracked as `Open` or `PartiallyFilled` exactly while it rests. Two things break this. A
new order whose id already rests and that fails an early gate (kill switch, representable quantity,
risk limits) is recorded as rejected before the duplicate id is noticed. An order that displays
nothing is dropped by the match that comes to it and not listed as filled, so nothing is recorded.

## Main definitions

* `OrderBook.TracksResting`: the active ids are the resting ones.
* `statusGuard`: adds that reuse a resting id pass the gates, no order is dropped unlisted.

## Main results

* `active_iff_rests`: along every guarded run the active ids are the resting ones.
-/

namespace OrderBookRs

open PriceLevel Fallible OrderBook

variable {L : Type} [PriceLevel L] {b b' : OrderBook L} {l l' : L} {o : Order} {i id : OrderId}
  {status : OrderStatus} {q : ℕ}

/-! ### Active ids and resting ids -/

namespace OrderBook

/-- A tracker is installed, and the active ids are the resting ones. -/
structure TracksResting (b : OrderBook L) : Prop where
  installed : b.orderStateTracker.isSome
  active_iff : ∀ i, b.Active i ↔ b.Holds i

namespace TracksResting

variable {b b' : OrderBook L} {p : Plan L} {ws : List (OrderId × OrderStatus)}

theorem congr (h : b.TracksResting) (htracker : b'.orderStateTracker = b.orderStateTracker)
    (hholds : ∀ i, b'.Holds i ↔ b.Holds i) : b'.TracksResting where
  installed := htracker ▸ h.installed
  active_iff i := by rw [active_congr htracker, h.active_iff, hholds]

theorem silent (hsilent : b.Silent b') (h : b.TracksResting) : b'.TracksResting :=
  h.congr hsilent.tracker fun _ => hsilent.holds

theorem quiet (hquiet : b.Quiet b') (h : b.TracksResting) : b'.TracksResting :=
  h.silent hquiet.silent

theorem live (h : b.TracksResting) : b.Live := by
  intro i st hi hst
  obtain ⟨st', hst', hactive⟩ := (h.active_iff i).mpr hi
  cases hst.symm.trans hst'
  exact hactive

/-- The status of a submitted order fits what happened to it. -/
theorem closes (hcloses : b.Closes id status b') (h : b.TracksResting) : b'.TracksResting where
  installed := by
    rw [hcloses.tracker, isSome_trackState]
    exact h.installed
  active_iff i := by
    rw [active_congr hcloses.tracker, active_trackState h.installed, hcloses.holds]
    split_ifs
    · rfl
    · exact h.active_iff i

theorem retires (hretires : b.Retires id p ws b') (h : b.TracksResting) : b'.TracksResting where
  installed := by
    rw [hretires.tracker, isSome_recordAll]
    exact h.installed
  active_iff i := by
    rw [active_congr hretires.tracker, active_recordAll hretires.terminal h.installed, h.active_iff,
      hretires.holds]

theorem cancels (hcancels : b.Cancels b') (h : b.TracksResting) : b'.TracksResting :=
  h.retires hcancels.2.choose_spec

theorem submits {P : Plan L → Prop} (hsubmits : b.Submits id P b') (h : b.TracksResting) :
    b'.TracksResting := by
  obtain ⟨p, ws, b₁, -, hretires, hsilent | ⟨status, hcloses, -⟩⟩ := hsubmits
  · exact (h.retires hretires).silent hsilent
  · exact (h.retires hretires).closes hcloses

section Calls

variable [LevelQueue L] {side : Side} {price : ℕ}

/-- **A new order keeps the statuses right** if it passes the early gates whenever its id rests and
its sweep lists the makers that leave. -/
theorem addOrderInner [LevelMatch L] (hsound : b.Sound) (h : b.TracksResting)
    (hgates : b.Holds o.id → b.PassesGates o)
    (hlists : b.Accepted o → (b.dryRunOf o).Lists o.id) (wantResult : Bool) :
    (addOrderInner o wantResult b).2.TracksResting := by
  by_cases hheld : b.Holds o.id
  swap
  · exact h.submits (addOrderInner_submits hsound h.live hheld hlists wantResult)
  -- a duplicate that passes the gates is refused without a record
  have hstep := addOrderInner_step o wantResult b
  generalize (OrderBook.addOrderInner o wantResult b).1 = result at hstep
  generalize (OrderBook.addOrderInner o wantResult b).2 = b' at hstep ⊢
  cases hstep with
  | refused refusal how view =>
    rcases how with hquiet | ⟨b₀, status, -, -, -, -, hfree | hfails⟩
    · exact h.quiet hquiet
    · exact absurd hheld (hsound.not_holds hfree)
    · exact absurd (hgates hheld) hfails
  | failed accepted | rejected accepted | stpCancelled accepted | filled accepted | dropped accepted
  | levelRefused accepted | rests accepted => exact absurd hheld (hsound.not_holds accepted.fresh)

/-- A resize that keeps the order on its level. -/
theorem resizeAt [LevelResize L] (hsound : b.Sound) (h : b.TracksResting)
    (hres : b.Resizes side price l l' o q) (hkept : withReducedQuantity L o q ∈ orders l') :
    (b.resizeAt side price l' (withReducedQuantity L o q)).TracksResting :=
  h.congr (resizeAt_tracker ..) fun _ => hsound.holds_resizeAt hres hkept

end Calls

end TracksResting

end OrderBook

/-! ### Runs -/

/-- What keeps the statuses right. A new order whose id rests passes the gates before the duplicate
check, a market order uses an id that does not rest, no sweep comes to an order that displays
nothing, a resize leaves the order on its level, and a `Cancel` request, which records nothing, is
for an id that does not rest. -/
def statusGuard : Guard L where
  add b o := (b.Holds o.id → b.PassesGates o) ∧
    (b.Accepted o → (b.dryRunOf o).Keeps o.id Order.undisplayed)
  market b id side mode user := ¬ b.Holds id ∧ (b.killSwitch = false →
    (b.dryRun (b.taker id side mode.limitPrice user .standard) mode).Keeps id Order.undisplayed)
  resize b id q := b.KeepsResized id q
  drop b id := ¬ b.Holds id

omit [PriceLevel L] in
theorem OrderBook.SameAnswers.passesGates (h : b.SameAnswers b') (ho : b.PassesGates o) :
    b'.PassesGates o := by
  have hview := h.view
  have hreference := hview.riskReference_eq
  obtain ⟨cache, rfl⟩ := h.cache_only
  refine ⟨ho.running, ho.representable, ?_⟩
  rw [hreference]
  exact ho.risk

theorem tracksResting_guarded [LevelQueue L] [LevelMatch L] [LevelResize L] :
    GuardedInvariant (fun b : OrderBook L => b.Sound ∧ b.TracksResting) statusGuard := by
  refine guarded_of_records (fun hsilent h => h.silent hsilent) (fun h => h.live)
    (fun hcancels h => h.cancels hcancels) ?_
    (fun wantResult hg hsound h =>
      h.addOrderInner hsound hg.1 (fun haccepted => (hg.2 haccepted).lists) wantResult)
    (fun hrunning hg hsound h =>
      h.submits (matchMarket_submits hsound h.live hg.1 _ _ _ (hg.2 hrunning).lists))
    (fun hg h => h.closes (closes_trackState hg.1 rfl)) ?_ ?_
  · intro b b' o hsame hg
    refine ⟨fun hi => hsame.passesGates (hg.1 ?_), ?_⟩
    · rwa [holds_of_sameOrders hsame.view.sameState.sameOrders] at hi
    · have haccepted := hsame.symm.accepted (o := o)
      obtain ⟨cache, rfl⟩ := hsame.cache_only
      exact fun ho => hg.2 (haccepted ho)
  · intro b id q hg hsound h
    rcases updateQuantity_cases b.invalidateCache id q with
      hquiet | ⟨side, price, l, l', o, rfl, hres, -, hquiet⟩
    · exact h.quiet hquiet
    · have hstays := hg side price l hres.place hres.level (List.mem_map_of_mem hres.mem)
      rw [hres.run] at hstays
      exact (h.resizeAt hsound hres.resized
        (hres.kept.resolve_right fun hgone => hgone.2 hstays)).quiet hquiet
  · intro b id hg _ h
    rcases cancelByUpdate_cases b.invalidateCache id with
      hrun | ⟨side, price, l, l', o, hid, hout, -⟩
    · rwa [hrun]
    · exact absurd ⟨side, price, o, hout.rests, hid⟩ hg

/-- A call meets its guard; a configuration change does not touch the tracker. -/
def StatusSafe (b : OrderBook L) : Command ⊕ Setting → Prop :=
  Sum.elim (statusGuard.Meets b) fun s => ∀ tracker, s ≠ .orderStateTracker tracker

/-- An empty, configured book with a new tracker. -/
def trackedBook (symbol : String) (clock : Clock) (settings : List Setting) (retentionCapacity : ℕ)
    (trackerClock : Clock) : OrderBook L :=
  (configured symbol clock settings).configure
    (.orderStateTracker (some (.withCapacityAndClock retentionCapacity trackerClock)))

omit [PriceLevel L] in
theorem OrderBook.active_iff : b.Active i ↔
    b.orderStatus i = some .open ∨
      ∃ original filled, b.orderStatus i = some (.partiallyFilled original filled) := by
  constructor
  · rintro ⟨st, hst, hactive⟩
    cases st with
    | «open» => exact Or.inl hst
    | partiallyFilled original filled => exact Or.inr ⟨original, filled, hst⟩
    | filled | cancelled | rejected => cases hactive
  · rintro (hst | ⟨original, filled, hst⟩)
    · exact ⟨_, hst, rfl⟩
    · exact ⟨_, hst, rfl⟩

theorem OrderBook.TracksResting.configure {s : Setting}
    (hs : ∀ tracker, s ≠ .orderStateTracker tracker) (h : b.TracksResting) :
    (b.configure s).TracksResting := by
  refine h.congr ?_ fun _ => holds_congr rests_configure
  cases s with
  | marketClose timestamp => cases timestamp <;> rfl
  | orderStateTracker tracker => exact absurd rfl (hs tracker)
  | _ => rfl

theorem tracksResting_trackedBook (symbol : String) (clock : Clock) (settings : List Setting)
    (retentionCapacity : ℕ) (trackerClock : Clock) :
    (trackedBook symbol clock settings retentionCapacity trackerClock : OrderBook L).TracksResting
    where
  installed := rfl
  active_iff i := by
    refine iff_of_false (fun ⟨st, hst, _⟩ => ?_) ?_
    · cases hst
    · rintro ⟨side, price, o, ⟨l, hl, -⟩, -⟩
      rw [trackedBook, levels_configure, get?_levels_configured] at hl
      cases hl

/-- **The orders tracked as open or partially filled are the resting ones.** This holds after every
run from an empty book with a new tracker whose calls all meet `statusGuard`, whatever the tracker
retains and whatever else is reconfigured on the way. -/
theorem active_iff_rests [LevelQueue L] [LevelMatch L] [LevelResize L] (symbol : String)
    (clock : Clock) (settings : List Setting) (retentionCapacity : ℕ) (trackerClock : Clock)
    {actions : List (Command ⊕ Setting)}
    (hsafe : RunMeets act StatusSafe
      (trackedBook symbol clock settings retentionCapacity trackerClock : OrderBook L) actions)
    (i : OrderId) :
    let b := actions.foldl act
      (trackedBook symbol clock settings retentionCapacity trackerClock : OrderBook L)
    (b.orderStatus i = some .open ∨
        ∃ original filled, b.orderStatus i = some (.partiallyFilled original filled)) ↔
      ∃ side price o, b.Rests side price o ∧ o.id = i := by
  have hrun := hsafe.invariant (I := fun b : OrderBook L => b.Sound ∧ b.TracksResting)
    (fun {b action} hmeets h => ?_) ⟨?_, tracksResting_trackedBook ..⟩
  · exact active_iff.symm.trans (hrun.2.active_iff i)
  · cases action with
    | inl => exact tracksResting_guarded.execute hmeets h
    | inr s => exact ⟨h.1.configure s, h.2.configure hmeets⟩
  · exact (OrderBook.Sound.configured symbol clock settings).configure _

/-- An ask. -/
def quotedAsk (quantity : ℕ) : Order := ⟨1, 101, .sell, 7, 0, .gtc, quantity, .standard⟩

/-- The ask is added twice, the second time with the kill switch engaged or not, and resized. -/
def askedTwice (engaged : Bool) : List (Command ⊕ Setting) :=
  [.inl (.addOrder (quotedAsk 5)), .inr (.killSwitch engaged), .inl (.addOrder (quotedAsk 5)),
    .inl (.updateOrder (.updateQuantity 1 3))]

/-- An empty book with a tracker that keeps ten finished orders. -/
def smallTrackedBook : OrderBook FifoLevel :=
  trackedBook "BTC" ⟨fun n => n, 0⟩ [] 10 ⟨fun n => n, 0⟩

/-- A duplicate that passes the gates is refused without a record. -/
theorem askedTwice_active_iff_rests :
    RunMeets act StatusSafe smallTrackedBook (askedTwice false) ∧
      ((askedTwice false).foldl act smallTrackedBook).orderStatus 1 = some .open ∧
      ∃ side price o, ((askedTwice false).foldl act smallTrackedBook).Rests side price o ∧
        o.id = 1 := by
  have hsafe : RunMeets act StatusSafe smallTrackedBook (askedTwice false) := by
    refine ⟨⟨?_, fun _ => by decide⟩, fun _ h => (by cases h),
      ⟨fun _ => ⟨rfl, rfl, rfl⟩, fun _ => by decide⟩, ⟨?_, ?_, ?_⟩, trivial⟩
    · rintro ⟨side, price, o, ⟨l, hl, -⟩, -⟩
      cases side <;> cases hl
    · rintro id q ⟨rfl, rfl⟩ side price l hloc hl -
      have hplace : (((askedTwice false).take 3).foldl act smallTrackedBook).orderLocations.lookup
          1 = some (101, .sell) := by decide
      have hkept : ∀ l ∈ ((((askedTwice false).take 3).foldl act smallTrackedBook).levels
          .sell).get? 101, 1 ∈ orderIds (PriceLevel.updateOrder l (.updateQuantity 1 3)).2 := by
        decide
      cases hplace.symm.trans hloc
      exact hkept l hl
    · rintro id ⟨⟩
    · rintro newOrder ⟨-, ⟨original, -, hmoved⟩, -⟩
      cases hmoved
  have hopen : ((askedTwice false).foldl act smallTrackedBook).orderStatus 1 = some .open := by
    decide
  exact ⟨hsafe, hopen, (active_iff_rests "BTC" _ [] 10 _ hsafe 1).mp (Or.inl hopen)⟩

/-- **A duplicate stopped by the kill switch marks the resting order as rejected.** -/
theorem askedTwice_rejected :
    ((askedTwice true).foldl act smallTrackedBook).orderStatus 1 =
        some (.rejected .killSwitchActive) ∧
      ∃ side price o, ((askedTwice true).foldl act smallTrackedBook).Rests side price o ∧
        o.id = 1 :=
  ⟨by decide, .sell, 101, quotedAsk 5, ⟨_, rfl, by decide⟩, rfl⟩

end OrderBookRs
