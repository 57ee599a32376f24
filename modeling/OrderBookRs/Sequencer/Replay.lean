import OrderBookRs.Operations
import OrderBookRs.Sequencer.Journal

/-!
# Replaying a journal

`sequencer/replay.rs` and the commands of `sequencer/types.rs`: read the events of a journal from a
sequence number on and apply the commands again to a fresh book. The events have to follow each
other without a gap, and an event whose result was a rejection is passed over.

The configuration of a book is not journaled; `replay_from_with_config` takes it from the caller.
The progress callbacks are left out.

## Main definitions

* `SequencerCommand`, `SequencerResult`, `ReplayError`.
* `applyEvent`: one event.
* `replayInto`: the loop.
* `replayFrom`, `replayFromWithConfig`: the entry points, over any journal.
* `snapshotsMatch`: the comparison of two snapshots.
-/

namespace OrderBookRs

open Fallible

/-- `SequencerCommand`. -/
inductive SequencerCommand
  | addOrder (o : Order)
  | cancelOrder (id : OrderId)
  | updateOrder (u : OrderUpdate)
  | marketOrder (id : OrderId) (quantity : ℕ) (side : Side)
  | marketOrderByAmount (id : OrderId) (amount : ℕ) (side : Side)
  | cancelAll
  | cancelBySide (side : Side)
  | cancelByUser (user : Hash32)
  | cancelByPriceRange (side : Side) (minPrice maxPrice : ℕ)
  | evictExpiredOrders (now : ℕ)
  deriving DecidableEq, Repr

/-- `SequencerResult`. -/
inductive SequencerResult
  | orderAdded (id : OrderId)
  | orderCancelled (id : OrderId)
  | orderUpdated (id : OrderId)
  | tradeExecuted (result : TradeResult)
  | massCancelled (result : List OrderId)
  | rejected (reason : String)
  deriving DecidableEq, Repr

/-- The result is a rejection. -/
def SequencerResult.isRejected : SequencerResult → Bool
  | .rejected _ => true
  | _ => false

/-- An event of the sequencer. -/
abbrev SequencedEvent := SequencerEvent SequencerCommand SequencerResult

/-- `ReplayError`. -/
inductive ReplayError
  | emptyJournal
  | invalidSequence (fromSequence lastSequence : ℕ)
  | sequenceGap (expected found : ℕ)
  | sequenceOverflow (position : ℕ)
  | orderBookError (sequenceNum : ℕ) (source : OrderBookError)
  | namespaceRequiresFullReplay (fromSequence : ℕ)
  | journalError (error : JournalError)
  deriving DecidableEq, Repr

/-- `ReplayBookConfig`. -/
structure ReplayBookConfig where
  feeSchedule : Option FeeSchedule := none
  stpMode : STPMode := .none
  tickSize : Option ℕ := none
  lotSize : Option ℕ := none
  minOrderSize : Option ℕ := none
  maxOrderSize : Option ℕ := none
  tradeIdNamespace : Option ℕ := none

section Book

variable {L : Type} [PriceLevel L]

/-- `apply_to`. Size bounds are only ever set. Trade ids are not modelled. -/
def ReplayBookConfig.applyTo (config : ReplayBookConfig) (b : OrderBook L) : OrderBook L :=
  let b := b.configure (.feeSchedule config.feeSchedule)
  let b := b.configure (.stpMode config.stpMode)
  let b := b.configure (.tickSize config.tickSize)
  let b := b.configure (.lotSize config.lotSize)
  let b := match config.minOrderSize with
    | some min => b.configure (.minOrderSize (some min))
    | none => b
  match config.maxOrderSize with
  | some max => b.configure (.maxOrderSize (some max))
  | none => b

/-- Run a call of the book, with its error reported under the event's number. -/
def orReplayError {α : Type} (sequenceNum : ℕ) (m : BookM L α) :
    Fallible ReplayError (OrderBook L) Unit := fun b =>
  match m b with
  | (.ok _, b') => (.ok (), b')
  | (.error e, b') => (.error (.orderBookError sequenceNum e), b')

/-- The command of an event, applied to the book. Market orders are submitted without a user; the
results of mass cancels are dropped. -/
def applyCommand (sequenceNum : ℕ) : SequencerCommand → Fallible ReplayError (OrderBook L) Unit
  | .addOrder o => orReplayError sequenceNum (OrderBook.addOrder o)
  | .cancelOrder id => modify fun b => (b.cancelOrder id).1
  | .updateOrder u => orReplayError sequenceNum (OrderBook.updateOrder u)
  | .marketOrder id quantity side =>
    orReplayError sequenceNum (OrderBook.submitMarketOrder id quantity side 0)
  | .marketOrderByAmount id amount side =>
    orReplayError sequenceNum (OrderBook.submitMarketOrderByAmount id amount side 0)
  | .cancelAll => modify fun b => b.cancelAllOrders.1
  | .cancelBySide side => modify fun b => (b.cancelOrdersBySide side).1
  | .cancelByUser user => modify fun b => (b.cancelOrdersByUser user).1
  | .cancelByPriceRange side minPrice maxPrice =>
    modify fun b => (b.cancelOrdersByPriceRange side minPrice maxPrice).1
  | .evictExpiredOrders now => modify fun b => (b.evictExpiredOrders now).1

/-- `apply_event`. -/
def applyEvent (e : SequencedEvent) : Fallible ReplayError (OrderBook L) Unit :=
  if e.result.isRejected then pure () else applyCommand e.sequenceNum.toNat e.command

/-- `replay_into`, with the number expected next, the last number applied and the count of events
applied so far. -/
def replayInto : List (Except JournalError (JournalEntry SequencerCommand SequencerResult)) →
    ℕ → ℕ → ℕ → Fallible ReplayError (OrderBook L) ℕ
  | [], _, lastApplied, _ => pure lastApplied
  | .error err :: _, _, _, _ => fail (.journalError err)
  | .ok entry :: items, expected, lastApplied, count => do
    check (entry.event.sequenceNum.toNat ≠ expected)
      (.sequenceGap expected entry.event.sequenceNum.toNat)
    applyEvent entry.event
    match checkedAdd64 expected 1 with
    | none => fail (.sequenceOverflow expected)
    | some next =>
      if entry.event.result.isRejected then replayInto items next lastApplied count
      else
        match checkedAdd64 count 1 with
        | none => fail (.sequenceOverflow count)
        | some count => replayInto items next entry.event.sequenceNum.toNat count

variable {J : Type} [Journal J SequencerCommand SequencerResult]

/-- The loop over a fresh book, which is given up on an error. -/
def replayOnto (book : OrderBook L) (journal : J) (fromSequence : ℕ) :
    Except ReplayError (OrderBook L × ℕ) :=
  match replayInto (Journal.readFrom journal fromSequence) fromSequence 0 0 book with
  | (.ok lastApplied, book) => .ok (book, lastApplied)
  | (.error err, _) => .error err

/-- `replay_from` and `replay_from_with_clock`; the clock of a new book is any clock. -/
def replayFrom (journal : J) (fromSequence : ℕ) (symbol : String) (clock : Clock) :
    Except ReplayError (OrderBook L × ℕ) :=
  match Journal.lastSequence journal with
  | none => .error .emptyJournal
  | some lastSeq =>
    if lastSeq < fromSequence then .error (.invalidSequence fromSequence lastSeq)
    else replayOnto (OrderBook.withClock symbol clock) journal fromSequence

/-- `replay_from_with_config` and `replay_from_with_clock_and_config`. -/
def replayFromWithConfig (journal : J) (fromSequence : ℕ) (symbol : String) (clock : Clock)
    (config : ReplayBookConfig) : Except ReplayError (OrderBook L × ℕ) :=
  match Journal.lastSequence journal with
  | none => .error .emptyJournal
  | some lastSeq =>
    if lastSeq < fromSequence then .error (.invalidSequence fromSequence lastSeq)
    else if fromSequence ≠ 0 ∧ config.tradeIdNamespace.isSome then
      .error (.namespaceRequiresFullReplay fromSequence)
    else replayOnto (config.applyTo (OrderBook.withClock symbol clock)) journal fromSequence

end Book

/-! ### Comparing snapshots -/

/-- `levels_match`: the aggregates, the queue and the statistics that do not depend on a clock. -/
def levelsMatch (a b : PriceLevelSnapshot) : Bool :=
  if a.price ≠ b.price ∨ a.visibleQuantity ≠ b.visibleQuantity ∨
      a.hiddenQuantity ≠ b.hiddenQuantity ∨ a.orderCount ≠ b.orderCount then false
  else if a.orders ≠ b.orders then false
  else
    a.statistics.ordersAdded = b.statistics.ordersAdded &&
      a.statistics.ordersRemoved = b.statistics.ordersRemoved &&
      a.statistics.ordersExecuted = b.statistics.ordersExecuted &&
      a.statistics.quantityExecuted = b.statistics.quantityExecuted &&
      a.statistics.valueExecuted = b.statistics.valueExecuted &&
      a.statistics.statsDegraded = b.statistics.statsDegraded

/-- `sides_match`: the levels of one side, sorted by price. -/
def sidesMatch (actual expected : List PriceLevelSnapshot) : Bool :=
  if actual.length ≠ expected.length then false
  else
    let actualSorted := actual.insertionSort fun a b => a.price ≤ b.price
    let expectedSorted := expected.insertionSort fun a b => a.price ≤ b.price
    (actualSorted.zip expectedSorted).all fun e => levelsMatch e.1 e.2

/-- `snapshots_match`. The capture timestamps are not compared. -/
def snapshotsMatch (actual expected : OrderBookSnapshot) : Bool :=
  if actual.symbol ≠ expected.symbol then false
  else sidesMatch actual.bids expected.bids && sidesMatch actual.asks expected.asks

theorem levelsMatch_refl (a : PriceLevelSnapshot) : levelsMatch a a := by
  simp [levelsMatch]

theorem sidesMatch_refl (levels : List PriceLevelSnapshot) : sidesMatch levels levels := by
  rw [sidesMatch, if_neg (by simp)]
  simp only [List.all_eq_true, Prod.forall]
  intro a b hmem
  rw [List.zip_eq_zipWith, List.zipWith_self] at hmem
  obtain ⟨x, -, hx⟩ := List.mem_map.mp hmem
  obtain ⟨rfl, rfl⟩ := Prod.mk.inj hx
  exact levelsMatch_refl x

/-- Snapshots that differ in the capture timestamp only match. -/
theorem snapshotsMatch_of_eq {a b : OrderBookSnapshot} (hsymbol : a.symbol = b.symbol)
    (hbids : a.bids = b.bids) (hasks : a.asks = b.asks) : snapshotsMatch a b := by
  rw [snapshotsMatch, if_neg (by simp [hsymbol]), hbids, hasks, sidesMatch_refl, sidesMatch_refl]
  rfl

end OrderBookRs
