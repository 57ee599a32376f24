import OrderBookRs.Collections.AssocMap
import OrderBookRs.Order

/-!
# Clock and order lifecycle tracking

The injectable clock of the book and the optional `OrderStateTracker` (`order_state.rs`): the
current status of every order it has seen, the history of statuses with their times, and a bounded
queue that evicts the oldest terminal orders.

## Main definitions

* `Clock`: an arbitrary sequence of readings and the number of readings taken.
* `OrderStatus`, `CancelReason`, `RejectReason`.
* `OrderStateTracker.transition`: record a status.
* `OrderStateTracker.purgeTerminalOlderThan`, `OrderStateTracker.clear`: forget.
-/

namespace OrderBookRs

/-- A clock: the reading at each call of `now_millis`, and how many calls were made. A stub clock
is a counter, a wall clock any sequence. -/
structure Clock where
  reading : ℕ → ℕ
  reads : ℕ := 0

namespace Clock

/-- `now_millis`. -/
def nowMillis (c : Clock) : ℕ := c.reading c.reads

/-- The clock after one reading. -/
def tick (c : Clock) : Clock := { c with reads := c.reads + 1 }

end Clock

/-- `RejectReason`: the stable reject codes. -/
inductive RejectReason
  | killSwitchActive
  | riskMaxOpenOrders
  | riskMaxNotional
  | riskPriceBand
  | postOnlyWouldCross
  | selfTradePrevention
  | invalidPrice
  | invalidQuantity
  | orderSizeOutOfRange
  | missingUserId
  | duplicateOrderId
  | insufficientLiquidity
  | other (code : ℕ)
  deriving DecidableEq, Repr

/-- `RejectReason::from(&OrderBookError)`. -/
def RejectReason.ofError : OrderBookError → RejectReason
  | .killSwitchActive => .killSwitchActive
  | .riskMaxOpenOrders .. => .riskMaxOpenOrders
  | .riskMaxNotional .. => .riskMaxNotional
  | .riskPriceBand .. => .riskPriceBand
  | .selfTradePrevented .. => .selfTradePrevention
  | .priceCrossing .. => .postOnlyWouldCross
  | .insufficientLiquidity .. => .insufficientLiquidity
  | .insufficientLiquidityNotional .. => .insufficientLiquidity
  | .invalidTickSize .. => .invalidPrice
  | .invalidLotSize .. => .invalidQuantity
  | .quantityOverflow .. => .invalidQuantity
  | .orderSizeOutOfRange .. => .orderSizeOutOfRange
  | .duplicateOrderId .. => .duplicateOrderId
  | .missingUserId .. => .missingUserId
  | .priceLevelError _ => .other 0
  | .invalidOperation _ => .other 0
  | .checksumMismatch .. => .other 0

/-- `CancelReason`. -/
inductive CancelReason
  | userRequested
  | selfTradePrevention
  | timeInForceExpired
  | massCancelAll
  | massCancelBySide
  | massCancelByUser
  | massCancelByPriceRange
  | insufficientLiquidity
  deriving DecidableEq, Repr

/-- `OrderStatus`. -/
inductive OrderStatus
  | open
  | partiallyFilled (originalQuantity filledQuantity : ℕ)
  | filled (filledQuantity : ℕ)
  | cancelled (filledQuantity : ℕ) (reason : CancelReason)
  | rejected (reason : RejectReason)
  deriving DecidableEq, Repr

namespace OrderStatus

/-- No further transition is expected. -/
def isTerminal : OrderStatus → Bool
  | filled _ => true
  | cancelled .. => true
  | rejected _ => true
  | _ => false

/-- The executed quantity the status carries. -/
def filledQuantity : OrderStatus → ℕ
  | .open => 0
  | partiallyFilled _ q => q
  | filled q => q
  | cancelled q _ => q
  | rejected _ => 0

end OrderStatus

/-- `OrderStateTracker`. -/
structure OrderStateTracker where
  states : AssocMap OrderId OrderStatus := ∅
  history : AssocMap OrderId (List (ℕ × OrderStatus)) := ∅
  /-- Ids in the order they became terminal, oldest first. -/
  terminalQueue : List OrderId := []
  retentionCapacity : ℕ
  clock : Clock

namespace OrderStateTracker

/-- `with_capacity_and_clock`: a tracker with nothing on record. -/
def withCapacityAndClock (retentionCapacity : ℕ) (clock : Clock) : OrderStateTracker where
  retentionCapacity := retentionCapacity
  clock := clock

/-- The current status of an order. -/
def get (t : OrderStateTracker) (id : OrderId) : Option OrderStatus := t.states.lookup id

/-- Drop an id popped off the terminal queue, unless it has become active again. -/
def evict (t : OrderStateTracker) (id : OrderId) : OrderStateTracker :=
  if (t.get id).any OrderStatus.isTerminal then
    { t with states := t.states.erase id, history := t.history.erase id }
  else t

/-- `enqueue_terminal`: push the id, then pop the queue down to the retention capacity. -/
def enqueueTerminal (t : OrderStateTracker) (id : OrderId) : OrderStateTracker :=
  let queue := t.terminalQueue ++ [id]
  let excess := queue.length - t.retentionCapacity
  (queue.take excess).foldl evict { t with terminalQueue := queue.drop excess }

/-- `transition`: record a status with the clock's time. -/
def transition (t : OrderStateTracker) (id : OrderId) (status : OrderStatus) :
    OrderStateTracker :=
  let t :=
    { t with
      states := t.states.insert id status
      history := t.history.insert id
        ((t.history.lookup id).getD [] ++ [(t.clock.nowMillis, status)])
      clock := t.clock.tick }
  if status.isTerminal then t.enqueueTerminal id else t

/-- `terminal_count`. -/
def terminalCount (t : OrderStateTracker) : ℕ :=
  (t.states.entries.filter fun e => e.2.isTerminal).length

/-- Drop an id with its history. -/
def remove (t : OrderStateTracker) (id : OrderId) : OrderStateTracker :=
  { t with states := t.states.erase id, history := t.history.erase id }

/-- `purge_terminal_older_than`, with the age in milliseconds: drop every terminal order whose last
transition is not after the cutoff, and count them. -/
def purgeTerminalOlderThan (t : OrderStateTracker) (olderThan : ℕ) : ℕ × OrderStateTracker :=
  let cutoff := t.clock.nowMillis - min olderThan u64Max
  let isOld := fun id =>
    ((t.history.lookup id).bind List.getLast?).any fun entry => entry.1 ≤ cutoff
  let toRemove := t.states.keys.filter fun id => (t.get id).any OrderStatus.isTerminal && isOld id
  (toRemove.length, { toRemove.foldl remove t with clock := t.clock.tick })

/-- `clear`. -/
def clear (t : OrderStateTracker) : OrderStateTracker :=
  { t with states := ∅, history := ∅, terminalQueue := [] }

variable {t : OrderStateTracker} {id i : OrderId} {status st : OrderStatus}

theorem get_of_evict (h : (t.evict id).get i = some st) : t.get i = some st := by
  rw [evict] at h
  split_ifs at h
  · by_cases hi : i = id
    · subst hi
      exact absurd h (by simp [get, AList.lookup_erase])
    · rwa [get, AList.lookup_erase_ne hi] at h
  · exact h

/-- Only a terminal order is evicted. -/
theorem get_evict (h : t.get i = some st) (hst : st.isTerminal = false) :
    (t.evict id).get i = some st := by
  rw [evict]
  split_ifs with hterminal
  · have hi : i ≠ id := by
      rintro rfl
      simp [h, hst] at hterminal
    rwa [get, AList.lookup_erase_ne hi]
  · exact h

theorem get_of_enqueueTerminal (h : (t.enqueueTerminal id).get i = some st) :
    t.get i = some st := by
  have hfold : ∀ (ids : List OrderId) (t : OrderStateTracker),
      (ids.foldl evict t).get i = some st → t.get i = some st := by
    intro ids
    induction ids with
    | nil => exact fun t h => h
    | cons id ids ih => exact fun t h => get_of_evict (ih _ h)
  rw [enqueueTerminal] at h
  have hkept := hfold _ _ h
  exact hkept

theorem get_enqueueTerminal (h : t.get i = some st) (hst : st.isTerminal = false) :
    (t.enqueueTerminal id).get i = some st := by
  have hfold : ∀ (ids : List OrderId) (t : OrderStateTracker), t.get i = some st →
      (ids.foldl evict t).get i = some st := by
    intro ids
    induction ids with
    | nil => exact fun t h => h
    | cons id ids ih => exact fun t h => ih _ (get_evict h hst)
  rw [enqueueTerminal]
  exact hfold _ _ h

/-- What is on record after a transition: the status just recorded, or what was there before. -/
theorem get_of_transition (h : (t.transition id status).get i = some st) :
    i = id ∧ st = status ∨ i ≠ id ∧ t.get i = some st := by
  have hstates : (t.states.insert id status).lookup i = some st := by
    rw [transition] at h
    split_ifs at h
    · exact get_of_enqueueTerminal h
    · exact h
  by_cases hi : i = id
  · subst hi
    rw [AList.lookup_insert] at hstates
    exact Or.inl ⟨rfl, (Option.some.inj hstates).symm⟩
  · rw [AList.lookup_insert_ne hi] at hstates
    exact Or.inr ⟨hi, hstates⟩

theorem get_transition_self (hst : status.isTerminal = false) :
    (t.transition id status).get id = some status := by
  rw [transition]
  simp [hst, get]

/-- An active order stays on record when another one is recorded. -/
theorem get_transition_of_ne (hi : i ≠ id) (h : t.get i = some st) (hst : st.isTerminal = false) :
    (t.transition id status).get i = some st := by
  have hstates : (t.states.insert id status).lookup i = some st := by
    rwa [AList.lookup_insert_ne hi]
  rw [transition]
  split_ifs
  · exact get_enqueueTerminal hstates hst
  · exact hstates

end OrderStateTracker

end OrderBookRs
