import OrderBookRs.Accounting

/-!
# A sweep carries out its plan

A dry run lists the matches a sweep makes. Their trades are what the sweep appends to the fills of
the book, and the makers they fill, in the same order, are what it takes out of the indices at the
end.

## Main definitions

* `Plan.trades`, `Plan.filledIds`: the trades of the planned matches and the makers they fill.

## Main results

* `sweep_applies`.
-/

namespace OrderBookRs

open PriceLevel OrderBook

variable {L : Type} [PriceLevel L]

/-! ### What a plan fills -/

/-- The trades of the planned matches. -/
def Plan.trades (p : Plan L) (t : Taker) : List Trade :=
  p.fills.flatMap fun e => (matchOrder e.1 e.2 t.orderId .standard).1.trades

/-- The makers the planned matches fill, in the order they are filled. -/
def Plan.filledIds (p : Plan L) (t : Taker) : List OrderId :=
  p.fills.flatMap fun e => (matchOrder e.1 e.2 t.orderId .standard).1.filledOrderIds

/-- The sweep has applied the trades of its plan to a book that had the given fills, and keeps the
makers the plan fills for the end. -/
structure Applies (t : Taker) (fills : List Trade) (p : Plan L) (sw : Sweep L) : Prop where
  trades : sw.book.fills = fills ++ p.trades t
  filled : sw.filledOrders.map Prod.fst = p.filledIds t

namespace Applies

variable {t : Taker} {fills : List Trade} {p : Plan L} {sw : Sweep L} {l : L} {price qtyCap : ℕ}

theorem fill (h : Applies t fills p sw) (hk : t.kind = .standard) (q : ℕ) :
    Applies t fills (p.fill t price l q) (matchAtLevel t sw price l q).1 := by
  rw [matchAtLevel_eq t sw price l q hk]
  constructor
  · rw [fillLevel_fills, h.trades, Plan.trades, Plan.trades, Plan.fill, List.flatMap_append,
      List.append_assoc]
    simp
  · rw [fillLevel_filledIds, h.filled, Plan.filledIds, Plan.filledIds, Plan.fill,
      List.flatMap_append]
    simp

theorem fillSafely (h : Applies t fills p sw) (hk : t.kind = .standard) (safe : ℕ) :
    Applies t fills (p.fillSafely t price l qtyCap safe)
      (matchSafely t sw price l qtyCap safe).1 := by
  rw [matchSafely, Plan.fillSafely]
  split_ifs
  · exact h.fill hk _
  · exact h

/-- A book with the same fills, and a plan with the same matches. -/
theorem of_eq {p' : Plan L} {sw' : Sweep L} (h : Applies t fills p sw)
    (hfills : sw'.book.fills = sw.book.fills) (hfilled : sw'.filledOrders = sw.filledOrders)
    (hplan : p'.fills = p.fills) : Applies t fills p' sw' := by
  constructor
  · rw [hfills, h.trades, Plan.trades, Plan.trades, hplan]
  · rw [hfilled, h.filled, Plan.filledIds, Plan.filledIds, hplan]

end Applies

theorem Withdraws.fills_eq {t : Taker} {price : ℕ} {sw : Sweep L} {b : OrderBook L} {l : L}
    (h : Withdraws t price sw b l) : b.fills = sw.book.fills := by
  refine h.steps.run.invariant (J := fun sw' => sw'.book.fills = sw.book.fills)
    (fun hs hJ => ?_) rfl
  cases hs with
  | fill _ _ _ _ _ _ _ planned => exact planned.elim
  | cancel => exact (stpCancel_fills ..).trans hJ
  | markEmpty | flag => exact hJ

variable [LevelQueue L] [LevelMatch L]

theorem Visit.applies {t : Taker} {fills : List Trade} {p : Plan L} {sw : Sweep L}
    {price : ℕ} {l : L} {it : Plan L × Bool} {it' : Sweep L × Bool}
    (v : Visit t price l p sw it it')
    (hl : (sw.book.levels t.side.opposite).get? price = some l) (h : Applies t fills p sw) :
    Applies t fills it.1 it'.1 := by
  have hmark (sw : Sweep L) (l : L) : (markEmpty sw price l).book = sw.book ∧
      (markEmpty sw price l).filledOrders = sw.filledOrders := by
    rw [markEmpty]
    split_ifs <;> exact ⟨rfl, rfl⟩
  cases v with
  | ends => exact h
  | passes _ _ _ same | rejects _ same =>
    exact h.of_eq (congrArg OrderBook.fills (same hl)) rfl rfl
  | fills asks => exact h.fill asks.kind _
  | stopsTaker asks => exact (h.fillSafely asks.kind _).of_eq rfl rfl rfl
  | withdraws _ _ _ _ off =>
    exact h.of_eq ((congrArg OrderBook.fills (hmark ..).1).trans (off hl).fills_eq) (hmark ..).2 rfl
  | @fillsOthers q b asks _ _ _ off =>
    have hown : Applies t fills { p with
        cancels := p.cancels ++ (orders l).filter fun o => o.userId = t.userId }
        { sw with book := b } := h.of_eq (off hl).fills_eq rfl rfl
    exact hown.fill asks.kind q
  | stopsBoth asks _ _ _ off =>
    exact (h.fillSafely asks.kind _).of_eq
      ((congrArg OrderBook.fills (hmark ..).1).trans (off hl).fills_eq) (hmark ..).2 rfl

/-- **A sweep applies the trades of its dry run** and keeps its filled makers for the end. -/
theorem sweep_applies (b : OrderBook L) (t : Taker) (mode : MatchMode) :
    (b.sweep t mode).book.fills = b.fills ++ (b.dryRun t mode).trades t ∧
      (b.sweep t mode).filledOrders.map Prod.fst = (b.dryRun t mode).filledIds t := by
  have hstart : Applies t b.fills ({ stop := .ofMode mode } : Plan L) (b.startSweep t mode) :=
    ⟨(List.append_nil _).symm, rfl⟩
  have happlies := sweepLoop_keeps (fun _ _ hl _ v h => v.applies hl h)
    (b.nodup_sweepEntries t.side) (fun _ he => mem_sweepEntries.mp he) ⟨rfl, rfl, rfl⟩ hstart
  exact ⟨happlies.trades, happlies.filled⟩

end OrderBookRs
