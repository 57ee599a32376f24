import OrderBookRs.Calls
import OrderBookRs.FifoLevel

/-!
# Trading calls leave the configuration alone

The configuration of a book changes through its setters and through a restore only. Results about
runs of trading calls carry a setting from the first book to the last.

## Main results

* `OrderBook.settings_run`: a run of trading calls keeps it.
-/

namespace OrderBookRs

open PriceLevel Fallible OrderBook

/-- The configuration of a book. -/
structure BookSettings where
  symbol : String
  killSwitch : Bool
  riskConfig : Option RiskConfig
  marketCloseForExpiry : Option ℕ
  tradeListener : Option (Listener TradeResult)
  priceLevelChangedListener : Option (Listener PriceLevelChangedEvent)
  tickSize : Option ℕ
  lotSize : Option ℕ
  minOrderSize : Option ℕ
  maxOrderSize : Option ℕ
  stpMode : STPMode
  feeSchedule : Option FeeSchedule

variable {L : Type} {b b' : OrderBook L}

def OrderBook.settings (b : OrderBook L) : BookSettings where
  symbol := b.symbol
  killSwitch := b.killSwitch
  riskConfig := b.riskState.config
  marketCloseForExpiry := b.marketCloseForExpiry
  tradeListener := b.tradeListener
  priceLevelChangedListener := b.priceLevelChangedListener
  tickSize := b.tickSize
  lotSize := b.lotSize
  minOrderSize := b.minOrderSize
  maxOrderSize := b.maxOrderSize
  stpMode := b.stpMode
  feeSchedule := b.feeSchedule

namespace OrderBook

theorem SameOrders.settings_eq (h : b.SameOrders b') : b'.settings = b.settings := by
  obtain ⟨_, _, _, _, _, rfl⟩ := h
  rfl

theorem SameState.settings_eq (h : b.SameState b') :
    b'.settings = b.settings := h.sameOrders.settings_eq

/-- The risk state is the one part of a book that holds both state and configuration. -/
theorem settings_eq_of_config
    (h : ({ b' with riskState := b.riskState } : OrderBook L).settings = b.settings)
    (hconfig : b'.riskState.config = b.riskState.config) : b'.settings = b.settings := by
  rw [← h]
  show BookSettings.mk .. = BookSettings.mk ..
  rw [hconfig]
  rfl

variable [PriceLevel L] (b : OrderBook L) (side : Side) (price : ℕ) (l : L) (o resting : Order)

theorem settings_stpCancel : (b.stpCancel side price l o).settings = b.settings := by
  refine (stpCancel_sameOrders b side price l o).settings_eq.trans (settings_eq_of_config rfl ?_)
  exact b.riskState.config_onCancel o.id

theorem settings_cancelAt : (b.cancelAt side price l o).settings = b.settings := by
  rw [cancelAt]
  split_ifs
  · exact b.settings_stpCancel side price l o
  · exact b.settings_stpCancel side price l o

theorem settings_dropAt (id : OrderId) : (b.dropAt side price l id).settings = b.settings := by
  refine (b.dropAt_sameOrders side price l id).settings_eq.trans ?_
  dsimp only
  split_ifs <;> rfl

theorem settings_resizeAt : (b.resizeAt side price l o).settings = b.settings := by
  refine (b.resizeAt_sameOrders side price l o).settings_eq.trans ?_
  have hconfig := b.riskState.config_onQuantityUpdate o.id o.totalQuantity
  dsimp only
  split_ifs
  · exact settings_eq_of_config rfl hconfig
  · exact settings_eq_of_config rfl hconfig

theorem settings_restAt (remaining : ℕ) :
    (b.restAt o resting l remaining).settings = b.settings := by
  refine (b.restAt_sameOrders o resting l remaining).settings_eq.trans
    (settings_eq_of_config rfl ?_)
  exact b.riskState.config_onAdmission o.id o.userId o.price remaining

omit [PriceLevel L] in
theorem sameOrders_deliverCleared : b.SameOrders (b.deliverCleared side) := by
  rw [deliverCleared]
  generalize (b.levels side).entries = entries
  induction entries generalizing b with
  | nil => exact .refl b
  | cons e entries ih => exact (b.sameOrders_deliverLevelChange ..).trans (ih _)

omit [PriceLevel L] in
theorem foldl_trackState_eq (status : OrderBook L → OrderId → OrderStatus) (ids : List OrderId) :
    ∃ tracker, ids.foldl (fun b id => b.trackState id (status b id)) b =
      { b with orderStateTracker := tracker } := by
  induction ids generalizing b with
  | nil => exact ⟨b.orderStateTracker, rfl⟩
  | cons id ids ih =>
    obtain ⟨tracker, heq⟩ := ih (b.trackState id (status b id))
    exact ⟨tracker, heq⟩

omit [PriceLevel L] in
theorem sameState_foldl_trackState {status : OrderBook L → OrderId → OrderStatus}
    (ids : List OrderId) :
    b.SameState (ids.foldl (fun b id => b.trackState id (status b id)) b) := by
  obtain ⟨tracker, heq⟩ := b.foldl_trackState_eq status ids
  exact ⟨_, _, tracker, heq⟩

/-- Clearing the book keeps its configuration, its history and its sequence counter. -/
theorem cancelAllOrders_eq : b.cancelAllOrders.1 = b.invalidateCache ∨ ∃ b', b.SameOrders b' ∧
    ((b.invalidateCache.deliverCleared .buy).deliverCleared .sell).SameState b' ∧
    b.cancelAllOrders.1 =
      { b' with
        bids := ∅
        asks := ∅
        orderLocations := ∅
        userOrders := ∅
        specialOrderTracker := {}
        riskState := b'.riskState.clear
        cache := b'.cache.invalidate } := by
  rw [cancelAllOrders]
  dsimp only
  split_ifs
  · exact Or.inl rfl
  · refine Or.inr ⟨_, ?_, ?_, rfl⟩
    · exact ((b.sameState_invalidateCache.sameOrders.trans (sameOrders_deliverCleared _ .buy)).trans
        (sameOrders_deliverCleared _ .sell)).trans (sameState_foldl_trackState _ _).sameOrders
    · exact sameState_foldl_trackState _ _

theorem settings_cancelAllOrders : b.cancelAllOrders.1.settings = b.settings := by
  rcases b.cancelAllOrders_eq with h | ⟨b', hsame, -, h⟩
  · rw [h]
    rfl
  · rw [h]
    exact (settings_eq_of_config (b := b') rfl rfl).trans hsame.settings_eq

end OrderBook

section Steps

variable [PriceLevel L] {s : BookSettings}

theorem SweepStep.settings_eq {t : Taker} {price : ℕ} {sw sw' : Sweep L}
    (hs : SweepStep t price sw sw') : sw'.book.settings = sw.book.settings := by
  cases hs with
  | @fill q l l' r level kind allows pos cap safe run =>
    obtain ⟨_, _, h⟩ := fillLevel_book t sw price q r l'
    refine h.settings_eq.trans (settings_eq_of_config rfl ?_)
    exact sw.book.riskState.config_foldl_onFill r.trades
  | cancel => exact settings_stpCancel ..
  | markEmpty | flag => rfl

variable [LevelQueue L] [LevelMatch L]

theorem settings_matchOrderInner (id : OrderId) (side : Side) (mode : MatchMode) (user : Hash32)
    (kind : TakerKind) (h : b.settings = s) :
    (matchOrderInner id side mode user kind b).2.settings = s := by
  refine matchOrderInner_invariant (I := fun b => b.settings = s)
    (J := fun _ sw => sw.book.settings = s) (fun hsame h => hsame.settings_eq.trans h)
    (fun _ h => h) (fun hs h => hs.settings_eq.trans h) (fun {b t mode} _ hJ => ?_) id side mode
    user kind h
  obtain ⟨_, _, _, hframe⟩ := finishSweep_frame t (b.sweep t mode)
  rw [hframe]
  exact hJ

/-- **Every trading call keeps the configuration.** -/
theorem settings_steps : StepInvariant (fun b : OrderBook L => b.settings = s) fun _ => True where
  same hsame h := hsame.settings_eq.trans h
  emit wantResult r h := (sameOrders_emitTrades wantResult r _).settings_eq.trans h
  sweep id side mode user kind h := settings_matchOrderInner id side mode user kind h
  rest _ _ _ _ _ _ _ _ h := (settings_restAt ..).trans h
  tidy _ _ h := h
  cancel _ h := (settings_cancelAt ..).trans h
  drop _ h := (settings_dropAt ..).trans h
  resize _ _ h := (settings_resizeAt ..).trans h
  clear h := (settings_cancelAllOrders _).trans h
  byUser user h := cancelOrdersByUser_keeps (fun hsame h => hsame.settings_eq.trans h)
    (fun _ h => (settings_cancelAt ..).trans h) user h

theorem OrderBook.settings_run [LevelResize L] (b : OrderBook L) (commands : List Command) :
    (b.run commands).settings = b.settings :=
  settings_steps.calls.run (fun _ _ _ _ _ => trivial) rfl

end Steps

end OrderBookRs
