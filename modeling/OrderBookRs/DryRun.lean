import OrderBookRs.Matching

/-!
# A dry run of the sweep

What a sweep matches, whom self-trade prevention cancels and where the sweep ends is decided by the
levels it meets and by its budget alone. `Plan` collects these decisions without touching a book, so
that a condition on a call can be stated on the book before the call.

## Main definitions

* `Plan`: the matches, the cancels, the budget and the flags of a sweep.
* `Plan.level`, `Plan.loop`: one iteration of the loop, and the loop.
* `OrderBook.dryRun`: the plan of a whole sweep.
* `Plan.Keeps`: the makers of a kind stay on their levels in the matches of a plan.
-/

namespace OrderBookRs

open PriceLevel

/-- An order that displays nothing: a match that comes to it drops it and does not list it as
filled. -/
def Order.undisplayed (o : Order) : Bool := o.visibleQuantity = 0

/-- The decisions of a sweep so far. -/
structure Plan (L : Type) where
  stop : StopCondition
  /-- The matches, each as the level it is made on and the quantity asked for. -/
  fills : List (L × ℕ) := []
  /-- The orders self-trade prevention cancels. -/
  cancels : List Order := []
  stpTakerCancelled : Bool := false
  postOnlyRejected : Bool := false

namespace Plan

variable {L : Type} [PriceLevel L]

/-- Plan a match of `q` at a level and pay for it. -/
def fill (p : Plan L) (t : Taker) (price : ℕ) (l : L) (q : ℕ) : Plan L :=
  let r := (matchOrder l q t.orderId .standard).1
  { p with
    stop := p.stop.consume (q - r.remainingQuantity) price
    fills := p.fills ++ [(l, q)] }

/-- Plan a match ahead of the taker's own order, if there is anything ahead of it. -/
def fillSafely (p : Plan L) (t : Taker) (price : ℕ) (l : L) (qtyCap safe : ℕ) : Plan L :=
  if 0 < safe ∧ 0 < min qtyCap safe then p.fill t price l (min qtyCap safe) else p

/-- Plan the ordinary match at a level; the walk goes on while budget is left. -/
def fillNormally (p : Plan L) (t : Taker) (price : ℕ) (l : L) (qtyCap : ℕ) : Plan L × Bool :=
  let p := p.fill t price l qtyCap
  (p, !p.stop.isDone)

/-- The level without the orders of the taker's own user. -/
def withoutOwn (t : Taker) (l : L) : L :=
  ((orders l).filter fun o => o.userId = t.userId).foldl
    (fun l o => (updateOrder l (.cancel o.id)).2) l

/-- Plan the self-trade arms of an iteration. -/
def conflict (p : Plan L) (t : Taker) (price : ℕ) (l : L) (qtyCap : ℕ) : Plan L × Bool :=
  match checkStpAtLevel (orders l) t.userId t.stpMode with
  | .noConflict => p.fillNormally t price l qtyCap
  | .cancelTaker safe =>
    ({ p.fillSafely t price l qtyCap safe with stpTakerCancelled := true }, false)
  | .cancelMaker =>
    let own := (orders l).filter fun o => o.userId = t.userId
    let p := { p with cancels := p.cancels ++ own }
    if orderCount (withoutOwn t l) = 0 then (p, true)
    else p.fillNormally t price (withoutOwn t l) qtyCap
  | .cancelBoth safe makerId =>
    let p := p.fillSafely t price l qtyCap safe
    ({ p with
        cancels := p.cancels ++ (orders l).filter fun o => o.id = makerId
        stpTakerCancelled := true }, false)

/-- Plan the post-only probe of a level. -/
def probe (p : Plan L) (t : Taker) (l : L) (qtyCap : ℕ) : Plan L × Bool :=
  if (matchOrder l qtyCap t.orderId t.kind).1.wasRejected then
    ({ p with postOnlyRejected := true }, false)
  else (p, true)

/-- Plan one iteration of the loop; the flag says whether the walk goes on. -/
def level (p : Plan L) (t : Taker) (price : ℕ) (l : L) : Plan L × Bool :=
  if !t.allows price then (p, false)
  else
    let qtyCap := p.stop.levelQtyCap price t.lot
    if qtyCap = 0 then (p, false)
    else if t.kind.isPostOnly then p.probe t l qtyCap
    else if t.stpActive then p.conflict t price l qtyCap
    else p.fillNormally t price l qtyCap

/-- Plan the loop over the opposite levels. -/
def loop (t : Taker) : List (ℕ × L) → Plan L → Plan L
  | [], p => p
  | (price, l) :: rest, p =>
    let it := p.level t price l
    if it.2 then loop t rest it.1 else it.1

/-- The makers of a kind stay on their levels in every match of the plan. -/
def Keeps (taker : OrderId) (kind : Order → Bool) (p : Plan L) : Prop :=
  ∀ e ∈ p.fills, ∀ o ∈ orders e.1, kind o →
    o.id ∈ orderIds (matchOrder e.1 e.2 taker .standard).2

instance (taker : OrderId) (kind : Order → Bool) (p : Plan L) : Decidable (p.Keeps taker kind) :=
  inferInstanceAs (Decidable (∀ e ∈ p.fills, ∀ o ∈ orders e.1, _ → _ ∈ _))

/-! ### A plan only grows -/

/-- `p'` does everything `p` does. -/
structure Extends (p p' : Plan L) : Prop where
  fills : p.fills ⊆ p'.fills
  cancels : p.cancels ⊆ p'.cancels

omit [PriceLevel L] in
theorem Extends.refl (p : Plan L) : Extends p p := ⟨fun _ he => he, fun _ ho => ho⟩

variable (p : Plan L) (t : Taker) (price : ℕ) (l : L) (qtyCap : ℕ)

theorem mem_fills_fill (q : ℕ) : (l, q) ∈ (p.fill t price l q).fills :=
  List.mem_append_right _ (List.mem_singleton_self _)

theorem extends_fill (q : ℕ) : Extends p (p.fill t price l q) :=
  ⟨List.subset_append_left .., fun _ ho => ho⟩

theorem fillSafely_flags (safe : ℕ) :
    (p.fillSafely t price l qtyCap safe).stpTakerCancelled = p.stpTakerCancelled ∧
      (p.fillSafely t price l qtyCap safe).postOnlyRejected = p.postOnlyRejected := by
  rw [fillSafely]
  split_ifs <;> exact ⟨rfl, rfl⟩

theorem extends_fillSafely (safe : ℕ) : Extends p (p.fillSafely t price l qtyCap safe) := by
  rw [fillSafely]
  split_ifs
  · exact p.extends_fill t price l _
  · exact .refl p

variable {p t} in
/-- A walk that is out of its limit from the start stays where it is. -/
theorem loop_of_not_allows {entries : List (ℕ × L)} (h : ∀ e ∈ entries, t.allows e.1 = false) :
    loop t entries p = p := by
  cases entries with
  | nil => rfl
  | cons e entries =>
    have hlevel : p.level t e.1 e.2 = (p, false) := by
      rw [level, if_pos (by simp [h e (List.mem_cons_self ..)])]
    rw [loop, hlevel]
    rfl

end Plan

/-- The plan of a sweep of this book. -/
def OrderBook.dryRun {L : Type} [PriceLevel L] (b : OrderBook L) (t : Taker) (mode : MatchMode) :
    Plan L := Plan.loop t (b.sweepEntries t.side) { stop := .ofMode mode }

end OrderBookRs
