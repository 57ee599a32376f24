import OrderBookRs.Accounting
import OrderBookRs.FifoLevel
import OrderBookRs.Guarded
import OrderBookRs.Settings

/-!
# Cached best prices

The best price of each side is cached by the first query that needs it and dropped by hand wherever
the levels may change. A listener may query inside a callback, so a slot can be filled in the middle
of a call. The answer given then is right, but two paths go on to change the levels of that side
without dropping the cache: the end of a sweep, which removes the emptied levels and rests the
taker, and the `Cancel` request of `update_order`, which removes an emptied level.

## Main definitions

* `OrderBook.Truthful`: both best-price queries return the best key of their side.
* `OrderBook.LevelAsks`, `OrderBook.TradeAsks`: what the listeners may ask.
* `RunMeets`: every call of a run meets a condition on the book it is made on.

## Main results

* `best_prices_right`: in a run whose calls all read safely the cached best prices are right.
-/

namespace OrderBookRs

open PriceLevel Fallible OrderBook

variable {L : Type} {b : OrderBook L} {o : Order} {asked side : Side} {price : ℕ}

/-! ### Truthful caches -/

namespace OrderBook

/-- Both best-price queries return the best key of their side. -/
def Truthful (b : OrderBook L) : Prop :=
  ∀ side, (b.bestPrice side).1 = bestKey side (b.levels side)

theorem truthful_iff : b.Truthful ↔
    ∀ side price, b.cache.cached side = some price → bestKey side (b.levels side) = some price := by
  refine forall_congr' fun side => ?_
  rw [bestPrice_fst]
  cases b.cache.cached side with
  | none => simp
  | some => simp [eq_comm]

theorem Truthful.of_unread (h : ∀ side, b.Unread side) : b.Truthful :=
  truthful_iff.mpr fun side price hprice => by rw [h side] at hprice; cases hprice

/-- The best keys depend on which prices have a level. -/
theorem bestKey_congr {m m' : SkipMap L} (side : Side)
    (h : ∀ price, (m.get? price).isSome ↔ (m'.get? price).isSome) :
    bestKey side m = bestKey side m' := by
  cases side with
  | buy => exact SortedMap.lastKey?_congr h
  | sell => exact SortedMap.firstKey?_congr h

namespace Truthful

variable {b b' : OrderBook L}

/-- Levels may change on a side whose slot is invalid; elsewhere the prices must stay. -/
theorem congr (h : b.Truthful) (hcache : b'.cache = b.cache)
    (hkeys : ∀ side, b.Unread side ∨
      ∀ price, ((b'.levels side).get? price).isSome ↔ ((b.levels side).get? price).isSome) :
    b'.Truthful := by
  refine truthful_iff.mpr fun side price hprice => ?_
  rw [hcache] at hprice
  rcases hkeys side with hunread | hsame
  · rw [hunread] at hprice
    cases hprice
  · rw [bestKey_congr side hsame]
    exact truthful_iff.mp h side price hprice

theorem sameView (h : b.Truthful) (hview : b.SameView b') : b'.Truthful := by
  intro side
  obtain ⟨_, _, _, hstate⟩ := hview.sameState
  rw [hview.bestPrice_eq, h side, hstate]
  rfl

theorem setLevel (h : b.Truthful) {l₀ : L} (hl : (b.levels side).get? price = some l₀) (l : L) :
    (b.setLevel side price l).Truthful := by
  refine h.congr rfl fun s => Or.inr fun p => ?_
  rw [get?_setLevel]
  split_ifs with hhere
  · rw [hhere.1, hhere.2, hl]
    simp
  · rfl

/-- A right best price decides whether an order crosses. -/
theorem willCross_iff [PriceLevel L] (h : b.Truthful) :
    (b.willCrossMarket o.price o.side).1 = false ↔ b.OutOfReach o := by
  have hbest : (b.willCrossMarket o.price o.side).1 =
      (bestKey o.side.opposite (b.levels o.side.opposite)).any (o.side.crosses o.price) := by
    rw [willCrossMarket, ← h o.side.opposite]
  rw [hbest, OutOfReach]
  cases hs : o.side with
  | buy =>
    show ((b.levels .sell).firstKey?.any _) = false ↔ _
    cases hkey : (b.levels .sell).firstKey? with
    | none =>
      have hnone := SortedMap.firstKey?_eq_none_iff.mp hkey
      refine iff_of_true rfl fun price l hl => ?_
      exact absurd ((hnone price).symm.trans hl) (by simp)
    | some best =>
      obtain ⟨hlevel, hleast⟩ := SortedMap.firstKey?_eq_some_iff.mp hkey
      obtain ⟨l₀, hl₀⟩ := Option.isSome_iff_exists.mp hlevel
      simp only [Option.any_some, Side.crosses, decide_eq_false_iff_not]
      refine ⟨fun hout price l hl => ?_, fun hout => hout best l₀ hl₀⟩
      have hle := hleast price (Option.isSome_iff_exists.mpr ⟨l, hl⟩)
      omega
  | sell =>
    show ((b.levels .buy).lastKey?.any _) = false ↔ _
    cases hkey : (b.levels .buy).lastKey? with
    | none =>
      have hnone := SortedMap.lastKey?_eq_none_iff.mp hkey
      refine iff_of_true rfl fun price l hl => ?_
      exact absurd ((hnone price).symm.trans hl) (by simp)
    | some best =>
      obtain ⟨hlevel, hmost⟩ := SortedMap.lastKey?_eq_some_iff.mp hkey
      obtain ⟨l₀, hl₀⟩ := Option.isSome_iff_exists.mp hlevel
      simp only [Option.any_some, Side.crosses, decide_eq_false_iff_not]
      refine ⟨fun hout price l hl => ?_, fun hout => hout best l₀ hl₀⟩
      have hle := hmost price (Option.isSome_iff_exists.mpr ⟨l, hl⟩)
      omega

end Truthful

/-! ### Listeners -/

theorem sameView_answer (queries : List Side) (b : OrderBook L) :
    SameView b (b.answer queries) := by
  induction queries generalizing b with
  | nil => exact .refl b
  | cons side queries ih => exact (b.sameView_bestPrice side).trans (ih _)

/-- A query fills the slot of the side it asks for. -/
theorem Unread.answer (h : b.Unread side) {queries : List Side} (hnot : side ∉ queries) :
    (b.answer queries).Unread side := by
  induction queries generalizing b with
  | nil => exact h
  | cons asked queries ih =>
    rw [List.mem_cons, not_or] at hnot
    refine ih (b := (b.bestPrice asked).2) ?_ hnot.2
    rw [bestPrice]
    cases hcached : b.cache.cached asked with
    | some => exact h
    | none =>
      obtain rfl := Side.eq_opposite_of_ne hnot.1
      exact (PriceLevelCache.cached_update_opposite ..).trans h

/-- The level listener may ask for a best price when a level of `side` changes. -/
def LevelAsks (b : OrderBook L) (side asked : Side) : Prop :=
  ∃ listener ∈ b.priceLevelChangedListener, ∃ e : PriceLevelChangedEvent,
    e.side = side ∧ asked ∈ listener.queries e

/-- The trade listener may ask for a best price. -/
def TradeAsks (b : OrderBook L) (asked : Side) : Prop :=
  ∃ listener ∈ b.tradeListener, ∃ r, asked ∈ listener.queries r

section Stamp

variable {b : OrderBook L} {asked : Side} (engineSeq : UInt64) (stamped : List OutboundEvent)

/-- Stamping an event leaves levels and cache alone, and so do the queries made on it. -/
theorem Truthful.stamp (h : b.Truthful) (queries : List Side) :
    ({ b with engineSeq := engineSeq, stamped := stamped }.answer queries).Truthful :=
  have hstamped : ({ b with engineSeq := engineSeq, stamped := stamped } : OrderBook L).Truthful :=
    h.congr rfl fun _ => Or.inr fun _ => Iff.rfl
  hstamped.sameView (sameView_answer ..)

theorem Unread.stamp (h : b.Unread asked) {queries : List Side} (hnot : asked ∉ queries) :
    ({ b with engineSeq := engineSeq, stamped := stamped }.answer queries).Unread asked :=
  Unread.answer (b := { b with engineSeq := engineSeq, stamped := stamped }) h hnot

end Stamp

theorem Truthful.deliverLevelChange (h : b.Truthful) (side : Side) (price quantity : ℕ) :
    (b.deliverLevelChange side price quantity).Truthful := by
  rw [OrderBook.deliverLevelChange]
  split
  · exact h
  · exact h.stamp _ _ _

theorem Unread.deliverLevelChange (h : b.Unread asked) (hasks : ¬ b.LevelAsks side asked)
    (price quantity : ℕ) : (b.deliverLevelChange side price quantity).Unread asked := by
  rw [OrderBook.deliverLevelChange]
  split
  · exact h
  · next listener hlistener =>
    exact h.stamp _ _ fun hmem => hasks ⟨listener, hlistener, _, rfl, hmem⟩

theorem Truthful.emitTrades (h : b.Truthful) (wantResult : Bool) (r : MatchResult) :
    (emitTrades wantResult r b).2.Truthful := by
  rw [OrderBook.emitTrades]
  split_ifs
  · exact h
  · simp only [deliverTrade]
    split
    · exact h.congr rfl fun _ => Or.inr fun _ => Iff.rfl
    · exact h.stamp _ _ _
  · exact h

theorem Unread.emitTrades (h : b.Unread asked) (hasks : ¬ b.TradeAsks asked) (wantResult : Bool)
    (r : MatchResult) : (emitTrades wantResult r b).2.Unread asked := by
  rw [OrderBook.emitTrades]
  split_ifs
  · exact h
  · simp only [deliverTrade]
    split
    · exact h
    · next listener hlistener =>
      exact h.stamp _ _ fun hmem => hasks ⟨listener, hlistener, _, hmem⟩
  · exact h

end OrderBook

/-! ### The sweep -/

variable [PriceLevel L]

/-- A step of the sweep writes existing levels only, and every event of it is about the side it
meets. -/
theorem SweepStep.truthful {t : Taker} {sw sw' : Sweep L} (hs : SweepStep t price sw sw')
    (h : sw.book.Truthful) : sw'.book.Truthful := by
  cases hs with
  | @fill q l l' r hl _ _ _ _ _ _ _ =>
    have hwritten : (sw.book.setLevel t.side.opposite price l').Truthful := h.setLevel hl l'
    simp only [fillLevel, processLevelMatch]
    split_ifs
    · exact hwritten
    · rw [applyFills]
      refine Truthful.deliverLevelChange ?_ _ _ _
      exact hwritten.congr rfl fun _ => Or.inr fun _ => Iff.rfl
  | @cancel l l' o hl _ _ _ _ _ _ =>
    rw [stpCancel]
    have hwritten : (sw.book.setLevel t.side.opposite price l').invalidateCache.Truthful :=
      .of_unread fun side => unread_invalidateCache _ side
    exact (hwritten.deliverLevelChange _ _ _).congr rfl fun _ => Or.inr fun _ => Iff.rfl
  | markEmpty | flag => exact h

theorem SweepStep.unread {t : Taker} {sw sw' : Sweep L} (hs : SweepStep t price sw sw')
    (hasks : ¬ sw.book.LevelAsks t.side.opposite asked) (h : sw.book.Unread asked) :
    sw'.book.Unread asked := by
  cases hs with
  | @fill q l l' r _ _ _ _ _ _ _ _ =>
    simp only [fillLevel, processLevelMatch]
    split_ifs
    · exact h
    · rw [applyFills]
      refine Unread.deliverLevelChange ?_ ?_ ..
      · exact h
      · exact hasks
  | @cancel l l' o _ _ _ _ _ _ _ =>
    have hdropped : (sw.book.setLevel t.side.opposite price l').invalidateCache.Unread asked :=
      unread_invalidateCache _ asked
    exact hdropped.deliverLevelChange hasks ..
  | markEmpty | flag => exact h

namespace OrderBook

variable [LevelQueue L] [LevelMatch L]

theorem truthful_sweep (t : Taker) (mode : MatchMode) (h : b.Truthful) :
    (b.sweep t mode).book.Truthful :=
  (b.sweep_run t mode).invariant (J := fun sw => sw.book.Truthful)
    (fun hs => SweepStep.truthful hs) h

theorem unread_sweep (t : Taker) (mode : MatchMode) (hasks : ¬ b.LevelAsks t.side.opposite asked)
    (h : b.Unread asked) : (b.sweep t mode).book.Unread asked := by
  refine ((b.sweep_run t mode).invariant (J := fun sw =>
    sw.book.settings = b.settings ∧ sw.book.Unread asked) ?_ ⟨rfl, h⟩).2
  rintro price sw sw' hs ⟨hsettings, hunread⟩
  refine ⟨(SweepStep.settings_eq hs).trans hsettings, SweepStep.unread hs ?_ hunread⟩
  have hlistener : sw.book.priceLevelChangedListener = b.priceLevelChangedListener :=
    congrArg BookSettings.priceLevelChangedListener hsettings
  rwa [LevelAsks, hlistener]

/-- A slot nobody asks for during the sweep is invalid after it. -/
theorem unread_matchOrderInner (id : OrderId) (side : Side) (mode : MatchMode) (user : Hash32)
    (kind : TakerKind)
    (h : (b.dryRun (b.taker id side mode.limitPrice user kind) mode).Idle ∨
      ¬ b.LevelAsks side.opposite asked) :
    (matchOrderInner id side mode user kind b).2.Unread asked := by
  have hopen : b.openSweep.Unread asked := b.cache.cached_invalidate asked
  rcases h with hidle | hasks
  · obtain ⟨tracker, heq⟩ := matchOrderInner_idle_eq id side mode user kind hidle
    rw [heq]
    exact hopen
  · rcases matchOrderInner_cases id side mode user kind b with ⟨-, heq⟩ | ⟨tracker, heq⟩
    · rw [heq]
      exact hopen
    · rw [heq]
      obtain ⟨_, _, _, hfinish⟩ := finishSweep_frame (b.taker id side mode.limitPrice user kind)
        (b.openSweep.sweep (b.taker id side mode.limitPrice user kind) mode)
      rw [hfinish]
      exact unread_sweep (b.taker id side mode.limitPrice user kind) mode hasks hopen

/-- A sweep during which nobody asks for the side it empties leaves right answers. -/
theorem truthful_matchOrderInner (id : OrderId) (side : Side) (mode : MatchMode) (user : Hash32)
    (kind : TakerKind)
    (h : (b.dryRun (b.taker id side mode.limitPrice user kind) mode).Idle ∨
      ¬ b.LevelAsks side.opposite side.opposite) :
    (matchOrderInner id side mode user kind b).2.Truthful := by
  have hopen : b.openSweep.Truthful := .of_unread fun s => b.cache.cached_invalidate s
  rcases h with hidle | hasks
  · exact .of_unread fun s => unread_matchOrderInner id side mode user kind (Or.inl hidle)
  rcases matchOrderInner_cases id side mode user kind b with ⟨-, heq⟩ | ⟨tracker, heq⟩
  · rw [heq]
    exact hopen
  · have hswept := truthful_sweep (b.taker id side mode.limitPrice user kind) mode hopen
    have hunread : (b.openSweep.sweep (b.taker id side mode.limitPrice user kind) mode).book.Unread
        side.opposite :=
      unread_sweep (b.taker id side mode.limitPrice user kind) mode hasks
        (b.cache.cached_invalidate _)
    rw [heq]
    refine hswept.congr ?_ fun s => ?_
    · obtain ⟨_, _, _, hfinish⟩ := finishSweep_frame (b.taker id side mode.limitPrice user kind)
        (b.openSweep.sweep (b.taker id side mode.limitPrice user kind) mode)
      rw [hfinish]
    · by_cases hs : s = side.opposite
      · exact Or.inl (hs ▸ hunread)
      · -- the levels the sweep removes are on the side it met
        refine Or.inr fun price => ?_
        have hkept := finishSweep_get? (b.taker id side mode.limitPrice user kind)
          (b.openSweep.sweep (b.taker id side mode.limitPrice user kind) mode) s price
        rw [if_neg fun hgone => hs hgone.1] at hkept
        exact iff_of_eq (congrArg (fun l => l.isSome = true) hkept)

/-! ### Calls -/

/-- Adding `o` reads safely: no opposite level is within its limit, or no listener asks, while the
sweep runs, for the side it empties nor, if something of `o` may come to rest, for the side it rests
on. -/
def AddsSafely (b : OrderBook L) (o : Order) : Prop :=
  b.OutOfReach o ∨ ¬ b.LevelAsks o.side.opposite o.side.opposite ∧
    (o.isImmediate = false → ¬ b.LevelAsks o.side.opposite o.side ∧ ¬ b.TradeAsks o.side)

omit [PriceLevel L] [LevelQueue L] [LevelMatch L] in
theorem SameState.addsSafely {b' : OrderBook L} (h : b.SameState b') (ho : b.AddsSafely o) :
    b'.AddsSafely o := by
  obtain ⟨_, _, _, rfl⟩ := h
  exact ho

omit [LevelQueue L] [LevelMatch L] in
theorem idle_of_outOfReach (h : b.OutOfReach o) : (b.dryRunOf o).Idle := by
  rw [dryRunOf_of_outOfReach h]
  exact ⟨rfl, rfl⟩

omit [LevelQueue L] [LevelMatch L] in
/-- An order that rests on a side whose slot is invalid leaves right answers. -/
theorem truthful_restResidual (hb : b.Truthful) (h : b.Unread o.side) (remaining : ℕ) :
    (restResidual o remaining b).2.Truthful := by
  rw [restResidual]
  split
  · exact .of_unread fun side => unread_invalidateCache _ side
  · next l' _ =>
    have hwritten : (b.setLevel o.side o.price l').Truthful := by
      refine hb.congr rfl fun side => ?_
      by_cases hside : side = o.side
      · exact Or.inl (hside ▸ h)
      · refine Or.inr fun price => ?_
        rw [get?_setLevel, if_neg fun hhere => hside hhere.1]
    exact (hwritten.deliverLevelChange _ _ _).congr rfl fun _ => Or.inr fun _ => Iff.rfl

/-- The slot of the side an accepted order may rest on is invalid once its trades are reported. -/
theorem unread_emitted {b₀ b₁ : OrderBook L} {outcome : MatchOutcome} (wantResult : Bool)
    (hsafe : b.AddsSafely o) (hresting : o.isImmediate = false) (hquiet : b.Quiet b₀)
    (hrun : sweepOf o b₀ = (.ok outcome, b₁)) :
    (emitTrades wantResult outcome.result b₁).2.Unread o.side := by
  have hsafe₀ := hquiet.sameState.addsSafely hsafe
  have hswept : b₁.Unread o.side := by
    have hmatch : (sweepOf o b₀).2.Unread o.side :=
      unread_matchOrderInner _ _ _ _ _
        (hsafe₀.imp idle_of_outOfReach fun hno => (hno.2 hresting).1)
    rwa [hrun] at hmatch
  rcases hsafe₀ with hreach | hno
  · have hnone : outcome.result.trades = [] :=
      trades_of_idle o.id o.side (.baseQty o.totalQuantity (some o.price)) o.userId (takerKind o)
        (idle_of_outOfReach hreach) (congrArg Prod.fst hrun)
    rw [emitTrades, hnone]
    exact hswept
  · refine hswept.emitTrades ?_ wantResult _
    have hsettings : b₁.settings = b₀.settings := by
      have hmatch : (sweepOf o b₀).2.settings = b₀.settings :=
        settings_matchOrderInner _ _ _ _ _ rfl
      rwa [hrun] at hmatch
    have hlistener : b₁.tradeListener = b₀.tradeListener :=
      congrArg BookSettings.tradeListener hsettings
    rw [TradeAsks, hlistener]
    exact (hno.2 hresting).2

theorem truthful_addOrderInner (wantResult : Bool) (hsafe : b.Accepted o → b.AddsSafely o)
    (h : b.Truthful) : (addOrderInner o wantResult b).2.Truthful := by
  have hstep := addOrderInner_step o wantResult b
  have hswept : b.Accepted o → ∀ {b₀ b₁ r}, b.Quiet b₀ → sweepOf o b₀ = (r, b₁) →
      b₁.Truthful := by
    intro haccepted b₀ b₁ r hquiet hrun
    have hmatch : (sweepOf o b₀).2.Truthful :=
      truthful_matchOrderInner _ _ _ _ _
        ((hquiet.sameState.addsSafely (hsafe haccepted)).imp idle_of_outOfReach And.left)
    rwa [hrun] at hmatch
  have hemitted : b.Accepted o → ∀ {b₀ b₁ outcome}, b.Quiet b₀ →
      sweepOf o b₀ = (.ok outcome, b₁) →
      (emitTrades wantResult outcome.result b₁).2.Truthful := fun haccepted _ _ _ hquiet hrun =>
    (hswept haccepted hquiet hrun).emitTrades wantResult _
  generalize (addOrderInner o wantResult b).1 = r at hstep
  generalize (addOrderInner o wantResult b).2 = b' at hstep ⊢
  cases hstep with
  | refused _ _ view => exact h.sameView view
  | failed accepted quiet run => exact hswept accepted quiet run
  | rejected accepted quiet run _ recorded =>
    subst recorded
    exact ((hswept accepted quiet run).sameView (sameView_trackState _ _ _)).sameView
      (sameView_bestPrice _ _)
  | stpCancelled accepted quiet run _ _ | filled accepted quiet run _ _ _
  | dropped accepted quiet run _ _ _ _ =>
    exact (hemitted accepted quiet run).sameView (sameView_trackState _ _ _)
  | @levelRefused _ b₀ b₁ _ outcome accepted quiet run _ _ _ resting rest
  | @rests _ _ b₀ b₁ _ outcome accepted quiet run _ _ _ resting rest =>
    have hrests := truthful_restResidual (hemitted accepted quiet run)
      (unread_emitted wantResult (hsafe accepted) resting quiet run)
        outcome.result.remainingQuantity
    rwa [rest] at hrests

theorem truthful_matchMarket (id : OrderId) (side : Side) (mode : MatchMode) (user : Hash32)
    (h : (b.levels side.opposite).isEmpty ∨ ¬ b.LevelAsks side.opposite side.opposite) :
    (matchMarket id side mode user b).2.Truthful := by
  have hidle : (b.levels side.opposite).isEmpty →
      (b.dryRun (b.taker id side mode.limitPrice user .standard) mode).Idle := by
    intro hempty
    have hnone : b.sweepEntries (b.taker id side mode.limitPrice user .standard).side = [] :=
      sweepEntries_of_isEmpty hempty
    rw [dryRun, hnone]
    exact ⟨rfl, rfl⟩
  have hswept := truthful_matchOrderInner id side mode user .standard (h.imp_left hidle)
  rcases hrun : matchOrderInner id side mode user .standard b with ⟨e | outcome, b₁⟩
  · rw [hrun] at hswept
    rw [matchMarket, bind_run_of_error hrun]
    exact hswept
  · rw [hrun] at hswept
    obtain ⟨result, hemit⟩ := emitTrades_run false outcome.result b₁
    rw [matchMarket, bind_run_of_ok hrun, bind_run_of_ok hemit]
    exact hswept.emitTrades false outcome.result

omit [LevelQueue L] [LevelMatch L] in
/-- A resize rewrites a level, and drops the cache if it goes through. -/
theorem truthful_updateQuantity (id : OrderId) (q : ℕ) (h : b.Truthful) :
    (updateQuantity id q b).2.Truthful := by
  rw [updateQuantity, bind_run_of_ok (get_run b)]
  cases b.orderLocations.lookup id with
  | none => exact h
  | some place =>
    obtain ⟨price, side⟩ := place
    dsimp only
    cases hl : (b.levels side).get? price with
    | none => exact .of_unread fun side => unread_invalidateCache b side
    | some l =>
      dsimp only
      cases (orders l).find? fun o => o.id = id with
      | none => exact h
      | some =>
        dsimp only
        rcases (checks_validateOrderShape _).bind_cases _ b with
          ⟨_, b₁, -, hview₁, hrun⟩ | ⟨_, b₁, -, hview₁, hrun⟩
        · rw [hrun]
          exact h.sameView hview₁
        rw [hrun]
        rcases (checks_checkRiskModifyAdmission _ _ _ _).bind_cases _ b₁ with
          ⟨_, b₂, -, hview₂, hrun⟩ | ⟨_, b₂, -, hview₂, hrun⟩
        · rw [hrun]
          exact h.sameView (hview₁.trans hview₂)
        have h₂ : b₂.Truthful := h.sameView (hview₁.trans hview₂)
        have hl₂ : (b₂.levels side).get? price = some l := by
          obtain ⟨_, _, _, rfl⟩ := (hview₁.trans hview₂).sameState
          exact hl
        rw [hrun, applyResize]
        split
        · exact h₂.setLevel hl₂ _
        · exact .of_unread fun side => unread_invalidateCache _ side

omit [LevelMatch L] in
/-- A `Cancel` request removes an emptied level after its event. -/
theorem truthful_cancelByUpdate {id : OrderId}
    (hsafe : ∀ price side, b.orderLocations.lookup id = some (price, side) →
      ¬ b.LevelAsks side side ∨ ∃ l, (b.levels side).get? price = some l ∧
        ∃ x ∈ orders l, x.id ≠ id) : (cancelByUpdate id b.invalidateCache).2.Truthful := by
  have hforgot : b.invalidateCache.Truthful := .of_unread fun side => unread_invalidateCache b side
  rcases cancelByUpdate_cases b.invalidateCache id with
    hrun | ⟨side, price, l, l', o, rfl, ⟨⟨hl, -, horders⟩, hplace, -⟩, hrun⟩
  · rw [hrun]
    exact hforgot
  have hwritten := (hforgot.setLevel hl l').deliverLevelChange side (PriceLevel.price l')
    (visibleQuantity l')
  rw [hrun, dropAt]
  split_ifs with hempty
  · refine hwritten.congr rfl fun s => ?_
    by_cases hs : s = side
    · subst hs
      refine Or.inl ?_
      rcases hsafe price s hplace with hasks | ⟨l₀, hl₀, x, hx, hne⟩
      · exact (show (b.invalidateCache.setLevel s price l').Unread s from
          unread_invalidateCache b s).deliverLevelChange hasks _ _
      · -- the order behind keeps the level from being empty
        obtain rfl : l = l₀ := Option.some.inj (hl.symm.trans hl₀)
        have hkept : x ∈ orders l' := by
          rw [horders]
          exact List.mem_filter.mpr ⟨hx, by simpa using hne⟩
        rw [orderCount_eq_zero.mp hempty] at hkept
        cases hkept
    · refine Or.inr fun p => ?_
      rw [get?_removeLevel, if_neg fun hhere => hs hhere.1]
      rfl
  · exact hwritten.congr rfl fun _ => Or.inr fun _ => Iff.rfl

end OrderBook

/-! ### Runs -/

/-- A call reads safely: no listener asks, during the call, for a side whose levels the call still
removes or adds. -/
def readGuard : Guard L where
  add b o := b.Accepted o → b.AddsSafely o
  market b _ side _ _ := b.killSwitch = false →
    (b.levels side.opposite).isEmpty ∨ ¬ b.LevelAsks side.opposite side.opposite
  resize _ _ _ := True
  drop b id := ∀ price side, b.orderLocations.lookup id = some (price, side) →
    ¬ b.LevelAsks side side ∨ ∃ l, (b.levels side).get? price = some l ∧
      ∃ x ∈ orders l, x.id ≠ id

variable [LevelQueue L] [LevelMatch L]

/-- **Calls that read safely leave right answers.** -/
theorem truthful_guarded : GuardedInvariant (Truthful (L := L)) readGuard where
  reads _ hview h := h.sameView hview
  forget _ := .of_unread fun side => unread_invalidateCache _ side
  alike hanswers hg haccepted :=
    hanswers.view.sameState.addsSafely (hg (hanswers.symm.accepted haccepted))
  add wantResult hg h := truthful_addOrderInner wantResult hg h
  market hrunning hg _ := truthful_matchMarket _ _ _ _ (hg hrunning)
  halt _ h := h.sameView (sameView_trackState _ _ _)
  cancel id reason _ := .of_unread fun side => unread_cancelOrderWithReason _ id reason side
  resize _ _ := truthful_updateQuantity _ _ (.of_unread fun side => unread_invalidateCache _ side)
  drop hg _ := truthful_cancelByUpdate hg
  clear {b} _ := by
    rcases b.cancelAllOrders_eq with heq | ⟨b', -, -, heq⟩
    · rw [heq]
      exact .of_unread fun side => unread_invalidateCache b side
    · rw [heq]
      exact .of_unread fun side => b'.cache.cached_invalidate side
  byUser user h := by
    refine cancelOrderBatch_keeps (fun id _ => ?_) _ ?_
    · exact .of_unread fun side => unread_cancelOrderWithReason _ id _ side
    · exact h.congr rfl fun _ => Or.inr fun _ => Iff.rfl

omit [PriceLevel L] [LevelQueue L] [LevelMatch L] in
theorem truthful_configured (symbol : String) (clock : Clock) (settings : List Setting) :
    (configured symbol clock settings : OrderBook L).Truthful := by
  have hfold : ∀ (settings : List Setting) (b : OrderBook L), b.Truthful →
      (settings.foldl configure b).Truthful := by
    intro settings
    induction settings with
    | nil => exact fun b h => h
    | cons setting settings ih =>
      intro b h
      refine ih _ (h.congr ?_ fun side => Or.inr fun price => ?_)
      · rcases setting with _ | (_ | _) | _ | _ | _ | _ | _ | _ | _ | _ | _ | _ <;> rfl
      · rcases setting with _ | (_ | _) | _ | _ | _ | _ | _ | _ | _ | _ | _ | _ <;> exact Iff.rfl
  exact hfold settings _ (.of_unread fun side => by cases side <;> rfl)

/-- What `best_bid` and `best_ask` are to return: the largest bid and the smallest ask, nothing on
an empty side. -/
structure OrderBook.BestPricesRight (b : OrderBook L) : Prop where
  bid : ∀ price, b.bestBid.1 = some price ↔
    (b.bids.get? price).isSome ∧ ∀ p, (b.bids.get? p).isSome → p ≤ price
  ask : ∀ price, b.bestAsk.1 = some price ↔
    (b.asks.get? price).isSome ∧ ∀ p, (b.asks.get? p).isSome → price ≤ p
  noBid : b.bestBid.1 = none ↔ ∀ price, b.bids.get? price = none
  noAsk : b.bestAsk.1 = none ↔ ∀ price, b.asks.get? price = none

omit [PriceLevel L] [LevelQueue L] [LevelMatch L] in
theorem OrderBook.Truthful.bestPricesRight (h : b.Truthful) : b.BestPricesRight := by
  have hbid : b.bestBid.1 = b.bids.lastKey? := h .buy
  have hask : b.bestAsk.1 = b.asks.firstKey? := h .sell
  refine ⟨fun price => ?_, fun price => ?_, ?_, ?_⟩
  · rw [hbid]
    exact SortedMap.lastKey?_eq_some_iff
  · rw [hask]
    exact SortedMap.firstKey?_eq_some_iff
  · rw [hbid]
    exact SortedMap.lastKey?_eq_none_iff
  · rw [hask]
    exact SortedMap.firstKey?_eq_none_iff

/-- **Cached best prices are right.** From an empty book, with any configuration and any listeners,
every run whose calls all read safely ends with `best_bid` the largest bid and `best_ask` the
smallest ask. -/
theorem best_prices_right (symbol : String) (clock : Clock) (settings : List Setting)
    {commands : List Command}
    (hreads : RunMeets execute readGuard.Meets (configured symbol clock settings : OrderBook L)
      commands) :
    ((configured symbol clock settings : OrderBook L).run commands).BestPricesRight :=
  (truthful_guarded.run hreads (truthful_configured symbol clock settings)).bestPricesRight

/-- Two asks, and a bid that takes the lower one. -/
def lowerAskTaken (timeInForce : TimeInForce) : List Command :=
  [.addOrder ⟨1, 101, .sell, 7, 0, .gtc, 5, .standard⟩,
    .addOrder ⟨2, 102, .sell, 7, 0, .gtc, 5, .standard⟩,
    .addOrder ⟨3, 101, .buy, 8, 0, timeInForce, 5, .standard⟩]

/-- The empty book with a level listener that asks for the best price of one side on every event. -/
def watchedBook (asked : Side) : OrderBook FifoLevel :=
  configured "BTC" ⟨fun n => n, 0⟩ [.priceLevelChangedListener (some ⟨fun _ => [asked]⟩)]

/-- A listener that asks for the best bid does not see the asks the sweep is about to remove. -/
theorem lowerAskTaken_best_prices_right :
    RunMeets execute readGuard.Meets (watchedBook .buy) (lowerAskTaken .ioc) ∧
      ((watchedBook .buy).run (lowerAskTaken .ioc)).bestAsk.1 = some 102 ∧
      ((watchedBook .buy).run (lowerAskTaken .ioc)).BestPricesRight := by
  have hmeets : RunMeets execute readGuard.Meets (watchedBook .buy) (lowerAskTaken .ioc) := by
    refine ⟨fun _ => Or.inl ?_, fun _ => Or.inl ?_, fun _ => Or.inr ⟨?_, ?_⟩, trivial⟩
    · intro price l hl
      cases hl
    · intro price l hl
      cases hl
    · rintro ⟨listener, hlistener, e, -, hmem⟩
      obtain rfl : (⟨fun _ => [.buy]⟩ : Listener PriceLevelChangedEvent) = listener :=
        Option.some.inj hlistener
      cases hmem with
      | tail _ hnil => cases hnil
    · intro himm
      cases himm
  exact ⟨hmeets, by decide, best_prices_right "BTC" ⟨fun n => n, 0⟩ _ hmeets⟩

/-- **A query in a callback leaves a stale best ask.** The listener asks for the best ask while the
emptied level is still in the map; the level is removed and its price stays cached. -/
theorem lowerAskTaken_stale :
    ((watchedBook .sell).run (lowerAskTaken .gtc)).bestAsk.1 = some 101 ∧
      ((watchedBook .sell).run (lowerAskTaken .gtc)).asks.get? 101 = none ∧
      ¬ ((watchedBook .sell).run (lowerAskTaken .gtc)).BestPricesRight := by
  have hcached : ((watchedBook .sell).run (lowerAskTaken .gtc)).bestAsk.1 = some 101 := by decide
  have hgone : ((watchedBook .sell).run (lowerAskTaken .gtc)).asks.get? 101 = none := by decide
  refine ⟨hcached, hgone, fun h => ?_⟩
  have hlevel := ((h.ask 101).mp hcached).1
  rw [hgone] at hlevel
  cases hlevel

end OrderBookRs
