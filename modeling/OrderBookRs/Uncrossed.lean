import OrderBookRs.Accounting
import OrderBookRs.FifoLevel
import OrderBookRs.Settings
import OrderBookRs.Sound

/-!
# The book is never locked or crossed

What is left of a limit order comes to rest only after its sweep. The loop of a sweep ends for
several reasons: the limit, the budget, self-trade prevention, a post-only rejection, or because
there are no more levels. With quantity left and no flag raised only the limit and the last level
remain, and every level the limit allowed has been exhausted on the way.

## Main definitions

* `OrderBook.HasLevel`: there is a level at a price.
* `OrderBook.Uncrossed`: every bid is below every ask.

## Main results

* `sweepLoop_exhausts`: a sweep that leaves quantity exhausts every level its limit allows.
* `never_crossed`: no run of trading calls locks or crosses the book.
-/

namespace OrderBookRs

open PriceLevel Fallible OrderBook

variable {L : Type} [PriceLevel L] {p price : ℕ} {l : L} {o : Order} {b : OrderBook L} {side : Side}

/-! ### Exhausted levels -/

section Loop

variable [LevelQueue L] [LevelMatch L] [MatchExhausts L] [MatchAccounting L]
  {t : Taker} {price q r : ℕ} {fills : List Trade} {sw : Sweep L} {l : L}

/-- Only the taker's own id is left at a price. -/
def Exhausted (t : Taker) (price : ℕ) (sw : Sweep L) : Prop :=
  ∀ l, (sw.book.levels t.side.opposite).get? price = some l → ∀ o ∈ orders l, o.id = t.orderId

/-- What one iteration with budget left means: the level is exhausted and the loop goes on, or a
flag is raised and the loop stops. -/
def ExhaustsOrFlags (t : Taker) (price : ℕ) (it : Sweep L × Bool) : Prop :=
  it.2 = true ∧ Exhausted t price it.1 ∨
    it.2 = false ∧ (it.1.stpTakerCancelled = true ∨ it.1.postOnlyRejected = true)

omit [LevelQueue L] [LevelMatch L] in
theorem matchNormally_exhausts (hk : t.kind = .standard) (hstop : sw.stop = .baseQty r)
    (hleft : (matchNormally t sw price l r).1.stop ≠ .baseQty 0) :
    ExhaustsOrFlags t price (matchNormally t sw price l r) := by
  rw [matchNormally, matchAtLevel_eq t sw price l r hk] at hleft ⊢
  -- what the budget has left is what the level left of the request
  have hremains : (fillLevel t sw price r (matchOrder l r t.orderId .standard).1
      (matchOrder l r t.orderId .standard).2).stop =
        .baseQty (matchOrder l r t.orderId .standard).1.remainingQuantity :=
    fillLevel_stop hstop rfl
  have hpos : (matchOrder l r t.orderId .standard).1.remainingQuantity ≠ 0 := by
    intro hzero
    rw [hzero] at hremains
    exact hleft hremains
  refine Or.inl ⟨?_, fun l' hl' o ho => ?_⟩
  · simpa [hremains, StopCondition.isDone] using hpos
  · rw [fillLevel_get?, if_pos ⟨rfl, rfl⟩] at hl'
    cases hl'
    exact MatchExhausts.eq_of_remaining rfl hpos ho

/-- **One iteration** at an allowed price with budget left afterwards. -/
theorem Visit.exhausts {it : Plan L × Bool} {it' : Sweep L × Bool}
    (v : Visit t price l { stop := sw.stop } sw it it')
    (hl : (sw.book.levels t.side.opposite).get? price = some l) (hallows : t.allows price)
    (hlot : lotFloor t.lot r = r) (hstop : sw.stop = .baseQty r) (hr : r ≠ 0)
    (hleft : it'.1.stop ≠ .baseQty 0) : ExhaustsOrFlags t price it' := by
  have hcap : sw.stop.levelQtyCap price t.lot = r := by
    rw [hstop, StopCondition.levelQtyCap, hlot]
  cases v with
  | ends spent =>
    rcases spent with h | h
    · exact absurd hallows (by simp [h])
    · exact absurd (hcap.symm.trans h) hr
  | passes _ pos clear same =>
    refine Or.inl ⟨rfl, fun l' hl' o ho => ?_⟩
    rw [same hl, hl] at hl'
    cases hl'
    exact MatchExhausts.eq_of_not_rejected pos clear ho
  | rejects => exact Or.inr ⟨rfl, Or.inr rfl⟩
  | fills asks | fillsOthers asks =>
    obtain rfl := asks.cap.symm.trans hcap
    exact matchNormally_exhausts asks.kind hstop hleft
  | stopsTaker | stopsBoth => exact Or.inr ⟨rfl, Or.inl rfl⟩
  | withdraws _ _ _ _ off nil =>
    refine Or.inl ⟨rfl, fun l' hl' o ho => ?_⟩
    rw [markEmpty, if_pos nil, (off hl).level] at hl'
    cases hl'
    rw [orderCount_eq_zero.mp nil] at ho
    exact absurd ho List.not_mem_nil

/-- **A sweep that ends with budget left and no flag raised has exhausted every level its limit
allows**, provided that its budget stays a number of whole lots until it is down to what is left.
The induction is over the levels still to visit; the limit allows a level only if it allows all
better ones. -/
theorem sweepLoop_exhausts {J : Sweep L → Prop} {left : ℕ}
    (hkeeps : ∀ {sw price l}, (sw.book.levels t.side.opposite).get? price = some l → J sw →
      J (sweepLevel t sw price l).1)
    (hlot : ∀ {sw r}, J sw → BaseAccounts q fills sw r → left ≤ r → lotFloor t.lot r = r)
    {entries : List (ℕ × L)} (hnodup : (entries.map Prod.fst).Nodup)
    (hlevels : ∀ e ∈ entries, (sw.book.levels t.side.opposite).get? e.1 = some e.2)
    (hsorted : entries.Pairwise fun a b => t.allows b.1 → t.allows a.1) (hJ : J sw)
    (hacc : BaseAccounts q fills sw r)
    (hleft : (sweepLoop t entries sw).result.remainingQuantity = left) (hpos : left ≠ 0)
    (hstp : (sweepLoop t entries sw).stpTakerCancelled = false)
    (hrejected : (sweepLoop t entries sw).postOnlyRejected = false) :
    ∀ e ∈ entries, t.allows e.1 → Exhausted t e.1 (sweepLoop t entries sw) := by
  induction entries generalizing sw r with
  | nil => exact fun e he => absurd he List.not_mem_nil
  | cons e rest ih =>
    obtain ⟨p, l⟩ := e
    rw [List.map_cons, List.nodup_cons] at hnodup
    rw [List.pairwise_cons] at hsorted
    have hl := hlevels (p, l) (List.mem_cons_self ..)
    have v := sweepLevel_visit (p := { stop := sw.stop }) t p l rfl
    have hsteps := v.steps hl rfl
    obtain ⟨r₁, hr₁, hacc₁⟩ := hacc.run (hsteps.run.mono fun _ => trivial)
    have hkeep := hsteps.levels_of_notMem hnodup.1 (List.forall_mem_cons.mp hlevels).2
    -- the budget the loop ends with bounds the one after this iteration from below
    have hbound : left ≤ r₁ := by
      obtain ⟨r₂, hr₂, hacc₂⟩ : ∃ r₂ ≤ r₁, BaseAccounts q fills
          (sweepLoop t ((p, l) :: rest) sw) r₂ := by
        rw [sweepLoop]
        split_ifs
        · exact hacc₁.run (sweepLoop_steps hnodup.2 hkeep)
        · exact ⟨r₁, le_rfl, hacc₁⟩
      rw [hacc₂.result] at hleft
      omega
    have hr₁pos : r₁ ≠ 0 := by omega
    have hhere : t.allows p → ExhaustsOrFlags t p (sweepLevel t sw p l) := fun hallows =>
      v.exhausts hl hallows (hlot hJ hacc (by omega)) hacc.stop (by omega)
        (by rw [hacc₁.stop]; simpa)
    rw [sweepLoop] at hleft hstp hrejected ⊢
    split_ifs at hleft hstp hrejected ⊢ with hgoes
    · intro e he hallows
      rcases List.mem_cons.mp he with rfl | he
      · rcases hhere hallows with ⟨-, hdone⟩ | ⟨hstops, -⟩
        · intro l' hl'
          rw [sweepLoop_get?_of_notMem hnodup.2 hkeep hnodup.1] at hl'
          exact hdone l' hl'
        · exact absurd hgoes (by simp [hstops])
      · exact ih hnodup.2 hkeep hsorted.2 (hkeeps hl hJ) hacc₁ hleft hstp hrejected e he
          hallows
    · intro e he hallows
      have hallows' : t.allows p := by
        rcases List.mem_cons.mp he with rfl | he
        · exact hallows
        · exact hsorted.1 e he hallows
      rcases hhere hallows' with ⟨hon, -⟩ | ⟨-, hflag | hflag⟩
      · exact absurd hon hgoes
      · exact absurd hflag (by simp [hstp])
      · exact absurd hflag (by simp [hrejected])

end Loop

/-! ### Levels in the way of a limit -/

namespace OrderBook

omit [PriceLevel L] in
/-- The limit of a taker allows a level only if it allows every level met before it. -/
theorem pairwise_allows (b : OrderBook L) (t : Taker) :
    (b.sweepEntries t.side).Pairwise fun x y => t.allows y.1 → t.allows x.1 := by
  have hmono : ∀ {near far : ℕ}, (∀ limit, t.side.crosses limit far → t.side.crosses limit near) →
      t.allows far → t.allows near := by
    intro near far hcross hfar
    rw [Taker.allows] at hfar ⊢
    cases hlimit : t.limitPrice with
    | none => rfl
    | some limit =>
      rw [hlimit] at hfar
      exact hcross limit hfar
  cases hside : t.side with
  | buy =>
    refine b.asks.sorted.imp fun {x y} hlt => hmono fun limit => ?_
    rw [hside]
    simp only [Side.crosses, decide_eq_true_eq]
    omega
  | sell =>
    refine List.pairwise_reverse.mpr (b.bids.sorted.imp fun {x y} hlt => hmono fun limit => ?_)
    rw [hside]
    simp only [Side.crosses, decide_eq_true_eq]
    omega

variable [LevelQueue L] [LevelMatch L] [MatchExhausts L] [MatchAccounting L]

/-- **What is left of a limit order crosses nothing**, provided that its budget stays a number of
whole lots until it is down to what is left. -/
theorem sweepOf_leaves_no_cross {J : Sweep L → Prop} {b' : OrderBook L} {outcome : MatchOutcome}
    (hkeeps : ∀ {sw price l}, (sw.book.levels o.side.opposite).get? price = some l → J sw →
      J (sweepLevel (b.takerOf o) sw price l).1)
    (hlot : ∀ {sw r}, J sw → BaseAccounts o.totalQuantity b.fills sw r →
      outcome.result.remainingQuantity ≤ r → lotFloor (b.takerOf o).lot r = r)
    (hJ : J (b.openSweep.startSweep (b.takerOf o) (.baseQty o.totalQuantity (some o.price))))
    (hsound : b.Sound) (hfresh : b.orderLocations.lookup o.id = none)
    (hrun : sweepOf o b = (.ok outcome, b')) (hflag : outcome.takerPostOnlyRejected = false)
    (hstp : outcome.takerStpCancelled = false) (hleft : outcome.result.remainingQuantity ≠ 0)
    (hl : (b'.levels o.side.opposite).get? price = some l) :
    o.side.crosses o.price price = false := by
  have hsound' : b'.Sound := by
    have := hsound.matchOrderInner o.id o.side (.baseQty o.totalQuantity (some o.price)) o.userId
      (takerKind o)
    rwa [← sweepOf, hrun] at this
  have hfresh' : b'.orderLocations.lookup o.id = none := by
    have := matchOrderInner_lookup_eq_none o.id o.side (.baseQty o.totalQuantity (some o.price))
      o.userId (takerKind o) hfresh
    rwa [← sweepOf, hrun] at this
  rcases sweepOf_eq_ok hrun with ⟨hempty, -, rfl⟩ | ⟨tracker, rfl, rfl⟩
  · -- there was no level to begin with
    exact absurd (hl.symm.trans (SortedMap.isEmpty_iff.mp hempty price)) (by simp)
  · by_contra hcross
    have hallows : (b.takerOf o).allows price := by
      simpa [Taker.allows, takerOf, taker] using hcross
    -- the level was met by the sweep, which left nothing but the taker's own id on it
    have hswept : ((b.sweepFor o).book.levels o.side.opposite).get? price = some l := by
      have hget := finishSweep_get? (b.takerOf o) (b.sweepFor o) o.side.opposite price
      split_ifs at hget
      · exact absurd (hl.symm.trans hget) (by simp)
      · exact hget.symm.trans hl
    have hmet : price ∈ (b.openSweep.sweepEntries o.side).map Prod.fst := mem_prices_of_sweep hswept
    obtain ⟨e, he, rfl⟩ := List.mem_map.mp hmet
    have hexhausted := sweepLoop_exhausts hkeeps hlot (nodup_sweepEntries _ _)
      (fun e he => mem_sweepEntries.mp he) (pairwise_allows _ (b.takerOf o)) hJ
      (BaseAccounts.start b.openSweep (b.takerOf o) o.totalQuantity (some o.price)) rfl hleft hstp
      hflag e he hallows
    -- an order left on the level would carry an id the book does not know
    obtain ⟨x, hx⟩ := List.exists_mem_of_ne_nil _ (hsound'.nonempty hl)
    have hid : x.id = o.id := hexhausted l hswept x hx
    have hloc := hsound'.located ⟨l, hl, hx⟩
    rw [hid] at hloc
    exact absurd (hloc.symm.trans hfresh') (by simp)

end OrderBook

/-! ### The invariant -/

namespace OrderBook

/-- There is a level at this price. -/
def HasLevel (b : OrderBook L) (side : Side) (price : ℕ) : Prop :=
  ∃ l, (b.levels side).get? price = some l

/-- Every bid is below every ask. -/
def Uncrossed (b : OrderBook L) : Prop :=
  ∀ bid ask, b.HasLevel .buy bid → b.HasLevel .sell ask → bid < ask

/-- A sound book without a lot size that is neither locked nor crossed. -/
structure Separated (b : OrderBook L) : Prop where
  sound : b.Sound
  lot : b.lotSize = none
  uncrossed : b.Uncrossed

variable {b b' : OrderBook L}

omit [PriceLevel L] in
/-- Levels can only disappear without crossing the book. -/
theorem Uncrossed.mono (h : b.Uncrossed)
    (hlevels : ∀ {side price}, b'.HasLevel side price → b.HasLevel side price) : b'.Uncrossed :=
  fun _ _ hbid hask => h _ _ (hlevels hbid) (hlevels hask)

omit [PriceLevel L] in
/-- A new level crosses nothing if no level of the other side is in the way of its price. -/
theorem Uncrossed.rest (h : b.Uncrossed)
    (hlevels : ∀ {s p}, b'.HasLevel s p → b.HasLevel s p ∨ s = side ∧ p = price)
    (hclear : ∀ {p}, b.HasLevel side.opposite p → side.crosses price p = false) : b'.Uncrossed := by
  intro bid ask hbid hask
  rcases hlevels hbid with hbid | ⟨rfl, rfl⟩
  · rcases hlevels hask with hask | ⟨rfl, rfl⟩
    · exact h _ _ hbid hask
    · simpa [Side.crosses] using hclear hbid
  · rcases hlevels hask with hask | ⟨hside, -⟩
    · simpa [Side.crosses] using hclear hask
    · cases hside

/-- Where a level was rewritten, and removed if empty, no new level appears. -/
theorem hasLevel_of_rewritten {l' : L} (hl : (b.levels side).get? price = some l)
    (h : b.Rewrites b' side price l') {side' : Side} {price' : ℕ}
    (hlevel : b'.HasLevel side' price') : b.HasLevel side' price' := by
  obtain ⟨x, hx⟩ := hlevel
  rw [h] at hx
  split_ifs at hx with hhere
  · obtain ⟨rfl, rfl⟩ := hhere
    exact ⟨l, hl⟩
  · exact ⟨x, hx⟩

/-- Coming to rest adds at most the level of the order. -/
theorem hasLevel_of_restAt {resting : Order} {remaining : ℕ} {s : Side}
    (hlevel : (b.restAt o resting l remaining).HasLevel s p) :
    b.HasLevel s p ∨ s = o.side ∧ p = o.price := by
  obtain ⟨x, hx⟩ := hlevel
  rw [restAt_get?] at hx
  split_ifs at hx with hhere
  · exact Or.inr hhere
  · exact Or.inl ⟨x, hx⟩

end OrderBook

theorem SweepStep.hasLevel {t : Taker} {sw sw' : Sweep L} (hs : SweepStep t price sw sw')
    (h : sw'.book.HasLevel side p) : sw.book.HasLevel side p := by
  by_cases hhere : side = t.side.opposite ∧ p = price
  · obtain ⟨rfl, rfl⟩ := hhere
    cases hs with
    | fill level kind allows pos cap safe run | cancel level mode user mem own orders_eq run =>
      exact ⟨_, level⟩
    | markEmpty | flag => exact h
  · obtain ⟨l, hl⟩ := h
    exact ⟨l, (hs.get?_of_ne hhere).symm.trans hl⟩

/-- A match adds no level. -/
theorem OrderBook.hasLevel_of_matchOrderInner [LevelQueue L] [LevelMatch L] (id : OrderId)
    (side : Side) (mode : MatchMode) (user : Hash32) (kind : TakerKind) {s : Side}
    (hlevel : (matchOrderInner id side mode user kind b).2.HasLevel s p) : b.HasLevel s p := by
  refine matchOrderInner_invariant (I := fun b' => b'.HasLevel s p → b.HasLevel s p)
    (J := fun _ sw => sw.book.HasLevel s p → b.HasLevel s p) ?_ (fun _ h => h)
    (fun hs hJ hl => hJ (hs.hasLevel hl)) ?_ id side mode user kind (fun h => h) hlevel
  · rintro b₁ _ ⟨_, _, _, rfl⟩ hI
    exact hI
  · rintro b₁ t mode' - hJ ⟨l, hl⟩
    rw [finishSweep_get?] at hl
    split_ifs at hl
    exact hJ ⟨l, hl⟩

namespace OrderBook.Separated

variable {b b' : OrderBook L}

theorem sameOrders (hsame : b.SameOrders b') (h : b.Separated) : b'.Separated := by
  obtain ⟨_, _, _, _, _, rfl⟩ := hsame
  exact ⟨h.sound.sameOrders ⟨_, _, _, _, _, rfl⟩, h.lot, h.uncrossed⟩

/-- A change that adds no level and leaves the configuration alone. -/
theorem shrink (h : b.Separated) (hsound : b'.Sound) (hsettings : b'.settings = b.settings)
    (hlevels : ∀ {side price}, b'.HasLevel side price → b.HasLevel side price) : b'.Separated :=
  ⟨hsound, (congrArg BookSettings.lotSize hsettings).trans h.lot, h.uncrossed.mono hlevels⟩

variable [LevelQueue L] [LevelMatch L]

theorem matchOrderInner (id : OrderId) (side : Side) (mode : MatchMode) (user : Hash32)
    (kind : TakerKind) (h : b.Separated) :
    (matchOrderInner id side mode user kind b).2.Separated :=
  h.shrink (h.sound.matchOrderInner id side mode user kind)
    (settings_matchOrderInner id side mode user kind rfl)
    (hasLevel_of_matchOrderInner id side mode user kind)

theorem restAt [MatchExhausts L] [MatchAccounting L] {start : OrderBook L} {l' : L} {remaining : ℕ}
    (hswept : Swept o start remaining b) (hstart : start.Separated)
    (hl : l = ((b.levels o.side).get? o.price).getD (new o.price))
    (horders : orders l' = orders l ++ [residual o remaining])
    (hfresh : b.orderLocations.lookup o.id = none) (himm : o.isImmediate = false)
    (hpos : remaining ≠ 0) (h : b.Separated) :
    (b.restAt o (residual o remaining) l' remaining).Separated := by
  refine ⟨h.sound.restAt hl horders hfresh himm,
    (congrArg BookSettings.lotSize (b.settings_restAt l' o (residual o remaining) remaining)).trans
      h.lot, ?_⟩
  refine h.uncrossed.rest hasLevel_of_restAt ?_
  rintro p ⟨x, hx⟩
  obtain @⟨b₀, b₁, outcome, wantResult, haccepted, hsame, hrun, hflag, hstp, rfl, rfl⟩ := hswept
  obtain ⟨_, _, _, _, _, hemit⟩ := sameOrders_emitTrades wantResult outcome.result b₁
  have hstart' : b₀.Separated := hstart.sameOrders hsame.sameOrders
  have hfresh' : b₀.orderLocations.lookup o.id = none := by
    obtain ⟨_, _, _, rfl⟩ := hsame
    exact haccepted.fresh
  rw [hemit] at hx
  have hlot : (b₀.takerOf o).lot ≤ 1 := by simp [takerOf, taker, hstart'.lot]
  exact sweepOf_leaves_no_cross (J := fun _ => True) (fun _ _ => trivial)
    (fun _ _ _ => if_pos hlot) trivial hstart'.sound hfresh' hrun hflag hstp hpos hx

/-- **Every trading call keeps the two sides apart.** -/
theorem steps [LevelResize L] [MatchExhausts L] [MatchAccounting L] :
    StepInvariant (OrderBook.Separated (L := L)) fun _ => True where
  same hsame h := h.sameOrders hsame.sameOrders
  emit wantResult r h := h.sameOrders (sameOrders_emitTrades wantResult r _)
  sweep id side mode user kind h := h.matchOrderInner id side mode user kind
  rest hswept hstart hl _ horders hfresh himm hpos h :=
    restAt hswept hstart hl horders hfresh himm hpos h
  tidy hl hnil h := absurd hnil (h.sound.nonempty hl)
  cancel hout h := h.shrink (h.sound.cancelAt hout.off) (settings_cancelAt ..)
    (hasLevel_of_rewritten hout.level (cancelAt_get? _ _ _ _ _))
  drop hout h := h.shrink (h.sound.dropAt hout.off) (settings_dropAt ..)
    (hasLevel_of_rewritten hout.level (dropAt_get? _ _ _ _ _))
  resize _ hres h := h.shrink (h.sound.resizeAt hres.resized)
    (settings_resizeAt ..) (hasLevel_of_rewritten hres.level (resizeAt_get? _ _ _ _ _))
  clear {b} h := by
    refine h.shrink h.sound.cancelAllOrders (settings_cancelAllOrders _) fun {side price} hl => ?_
    rcases cancelAllOrders_eq b with hsame | ⟨b', -, -, hcleared⟩
    · rwa [hsame] at hl
    · rw [hcleared] at hl
      obtain ⟨l, hl⟩ := hl
      cases side <;> cases hl
  byUser user h := cancelOrdersByUser_keeps (fun hsame h => h.sameOrders hsame.sameOrders)
    (fun hout h => h.shrink (h.sound.cancelAt hout.off) (settings_cancelAt ..)
      (hasLevel_of_rewritten hout.level (cancelAt_get? _ _ _ _ _))) user
    ⟨⟨fun ho => h.sound.located ho, fun ho => h.sound.standing ho, fun hl => h.sound.nonempty hl⟩,
      h.lot, h.uncrossed⟩

end OrderBook.Separated

/-! ### Runs -/

theorem OrderBook.Separated.run [LevelQueue L] [LevelMatch L] [LevelResize L] [MatchExhausts L]
    [MatchAccounting L] (hbids : b.bids = ∅) (hasks : b.asks = ∅) (hlot : b.lotSize = none)
    (commands : List Command) : (b.run commands).Separated := by
  have hnone : ∀ side price, (b.levels side).get? price = none := get?_levels_of_empty hbids hasks
  refine OrderBook.Separated.steps.calls.run (fun _ _ _ _ _ => trivial)
    ⟨.of_no_levels hnone, hlot, ?_⟩
  rintro bid ask ⟨l, hl⟩ -
  rw [hnone] at hl
  cases hl

/-- **The book is never locked or crossed.** In every run of trading calls from a book without
levels and without a lot size, whether each call succeeds or fails, the best bid stays below the
best ask. -/
theorem never_crossed [LevelQueue L] [LevelMatch L] [LevelResize L] [MatchExhausts L]
    [MatchAccounting L] {b : OrderBook L} (hbids : b.bids = ∅) (hasks : b.asks = ∅)
    (hlot : b.lotSize = none) (commands : List Command) {bid ask : ℕ}
    (hbid : (b.run commands).bids.lastKey? = some bid)
    (hask : (b.run commands).asks.firstKey? = some ask) : bid < ask := by
  have hend := OrderBook.Separated.run hbids hasks hlot commands
  exact hend.uncrossed bid ask
    (Option.isSome_iff_exists.mp (SortedMap.lastKey?_eq_some_iff.mp hbid).1)
    (Option.isSome_iff_exists.mp (SortedMap.firstKey?_eq_some_iff.mp hask).1)

/-- Asks on two levels, the better one of the user that then sweeps both with a larger bid while
self-trade prevention cancels makers. -/
def crossingBids : List Command :=
  [.addOrder ⟨1, 101, .sell, 7, 0, .gtc, 4, .standard⟩,
    .addOrder ⟨2, 102, .sell, 8, 0, .gtc, 5, .standard⟩,
    .addOrder ⟨3, 104, .sell, 8, 0, .gtc, 5, .standard⟩,
    .addOrder ⟨4, 103, .buy, 7, 0, .gtc, 9, .standard⟩]

theorem crossingBids_never_crossed :
    let b : OrderBook FifoLevel :=
      (withClock "BTC" ⟨fun n => n, 0⟩ : OrderBook FifoLevel).configure (.stpMode .cancelMaker)
    (b.run crossingBids).bids.lastKey? = some 103 ∧
      (b.run crossingBids).asks.firstKey? = some 104 ∧ 103 < 104 := by
  refine ⟨by decide, by decide, ?_⟩
  exact never_crossed (L := FifoLevel) (b := (withClock "BTC" ⟨fun n => n, 0⟩).configure
    (.stpMode .cancelMaker)) rfl rfl rfl crossingBids (by decide) (by decide)

end OrderBookRs
