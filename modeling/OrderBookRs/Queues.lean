import OrderBookRs.Sound

/-!
# The queue at a place

What rests at a price on a side, in the order a sweep consumes it. A level without orders and a
missing level are the same empty queue, so queues say what the calls do to the orders and leave out
when a level is dropped.

## Main definitions

* `OrderBook.queueAt`: the queue at a side and price.

## Main results

* `queueAt_restAt`: an order comes to rest behind the others.
* `OrderBook.Sound.queueAt_cancelAt`: a cancel removes one order and moves no other.
-/

namespace OrderBookRs

open PriceLevel

variable {L : Type} [PriceLevel L] {b b' : OrderBook L} {side : Side} {price : ℕ} {l l' : L}
  {o : Order}

namespace OrderBook

/-- The orders resting at a price on a side, in queue order. -/
def queueAt (b : OrderBook L) (side : Side) (price : ℕ) : List Order :=
  ((b.levels side).get? price).elim [] orders

theorem mem_queueAt : o ∈ b.queueAt side price ↔ b.Rests side price o := by
  rw [queueAt, Rests]
  cases (b.levels side).get? price with
  | none | some => simp

theorem queueAt_of_get? (hl : (b.levels side).get? price = some l) :
    b.queueAt side price = orders l := by
  rw [queueAt, hl, Option.elim_some]

theorem SameOrders.queueAt_eq (h : b.SameOrders b') : b'.queueAt = b.queueAt := by
  obtain ⟨_, _, _, _, _, rfl⟩ := h
  rfl

theorem SameState.queueAt_eq (h : b.SameState b') : b'.queueAt = b.queueAt :=
  h.sameOrders.queueAt_eq

/-- A level is there iff its queue is not empty. -/
theorem Sound.get?_eq_none_iff (h : b.Sound) :
    (b.levels side).get? price = none ↔ b.queueAt side price = [] := by
  rw [queueAt]
  cases hl : (b.levels side).get? price with
  | none => simp
  | some => simpa using h.nonempty hl

/-- Removing a level without orders changes no queue. -/
theorem queueAt_removeLevel_of_nil (hl : (b.levels side).get? price = some l)
    (hnil : orders l = []) : (b.removeLevel side price).queueAt = b.queueAt := by
  funext s p
  rw [queueAt, get?_removeLevel]
  split_ifs with hhere
  · obtain ⟨rfl, rfl⟩ := hhere
    rw [queueAt_of_get? hl, hnil, Option.elim_none]
  · rfl

section Queue

variable [LevelQueue L]

/-- What a rewritten level leaves, whether it is dropped because it is empty or not. -/
theorem queueAt_of_rewritten (hget : b.Rewrites b' side price l') (s : Side) (p : ℕ) :
    b'.queueAt s p = if s = side ∧ p = price then orders l' else b.queueAt s p := by
  rw [queueAt, hget]
  split_ifs with hhere hempty
  · rw [Option.elim_none, orderCount_eq_zero.mp hempty]
  · rw [Option.elim_some]
  · rfl

/-- An order comes to rest behind the orders at its place. -/
theorem queueAt_restAt {resting : Order} (remaining : ℕ)
    (hl : l = ((b.levels o.side).get? o.price).getD (new o.price))
    (horders : orders l' = orders l ++ [resting]) (s : Side) (p : ℕ) :
    (b.restAt o resting l' remaining).queueAt s p =
      if s = o.side ∧ p = o.price then b.queueAt s p ++ [resting] else b.queueAt s p := by
  rw [queueAt, restAt_get?]
  split_ifs with hhere
  · obtain ⟨rfl, rfl⟩ := hhere
    rw [Option.elim_some, horders, hl, queueAt]
    cases (b.levels o.side).get? o.price with
    | none => rw [Option.getD_none, LevelQueue.orders_new, Option.elim_none]
    | some => rfl
  · rfl

/-- **A cancel removes one order and moves no other.** -/
theorem Sound.queueAt_cancelAt (h : b.Sound) (hout : b.TakesOff side price l l' o) (s : Side)
    (p : ℕ) :
    (b.cancelAt side price l' o).queueAt s p = (b.queueAt s p).filter fun x => x.id ≠ o.id := by
  rw [queueAt_of_rewritten (cancelAt_get? b side price l' o)]
  split_ifs with hhere
  · obtain ⟨rfl, rfl⟩ := hhere
    rw [hout.orders_eq, queueAt_of_get? hout.level]
  · refine (List.filter_eq_self.mpr fun x hx => ?_).symm
    refine decide_eq_true fun hid => hhere ?_
    exact h.same_place (mem_queueAt.mp hx) hout.rests hid

end Queue

end OrderBook

end OrderBookRs
