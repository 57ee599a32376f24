import Mathlib.Data.PNat.Basic
import Mathlib.Algebra.BigOperators.Group.List.Basic

/-!
# Orders, updates and match results

The data the book is built from: order ids, sides, times in force, the seven order kinds and the
quantity arithmetic the book performs on them (`OrderQuantity` in `modifications.rs`).

Machine integers are natural numbers; the operations that saturate or check at `u64` and `u128`
say so explicitly.

## Main definitions

* `Order`: one order of any kind. The fields every kind shares are fields of the structure, what a
  kind adds is in `OrderKind`; `visibleQuantity` is the `quantity` of a one-tranche kind.
* `Order.setQuantity`, `Order.setTotalRemaining`, `Order.reduceReserveToTotal`: the quantity
  rewrites of the modify path and of a partially filled taker that comes to rest.
* `MatchResult`, `OrderBookError`: what the matching engine reports.

## Main results

* `Order.total_setTotalRemaining`: a residual rests with exactly the unmatched quantity.
-/

namespace OrderBookRs

variable {o : Order} {a b lot r : ℕ}

/-! ### Machine arithmetic -/

/-- `u32::MAX`. -/
def u32Max : ℕ := 2 ^ 32 - 1

/-- `u64::MAX`. -/
def u64Max : ℕ := 2 ^ 64 - 1

/-- `u128::MAX`. -/
def u128Max : ℕ := 2 ^ 128 - 1

/-- `u64::saturating_add`. -/
def satAdd64 (a b : ℕ) : ℕ := min (a + b) u64Max

/-- `u128::saturating_add`. -/
def satAdd128 (a b : ℕ) : ℕ := min (a + b) u128Max

/-- `u128::saturating_mul`. -/
def satMul128 (a b : ℕ) : ℕ := min (a * b) u128Max

/-- `u64::checked_add`. -/
def checkedAdd64 (a b : ℕ) : Option ℕ := if a + b ≤ u64Max then some (a + b) else none

theorem satAdd64_eq (h : a + b ≤ u64Max) : satAdd64 a b = a + b := min_eq_left h

theorem checkedAdd64_eq_some {c : ℕ} : checkedAdd64 a b = some c ↔ a + b = c ∧ c ≤ u64Max := by
  unfold checkedAdd64
  split_ifs with h
  · constructor
    · rintro ⟨rfl⟩
      exact ⟨rfl, h⟩
    · rintro ⟨rfl, -⟩
      rfl
  · constructor
    · rintro ⟨⟩
    · rintro ⟨rfl, hc⟩
      exact absurd hc h

/-! ### Identifiers, sides and times in force -/

/-- An order id. -/
abbrev OrderId := ℕ

/-- A user or account id; `0` is `Hash32::zero()`, the anonymous user. -/
abbrev Hash32 := ℕ

/-- The side of an order. -/
inductive Side
  | buy
  | sell
  deriving DecidableEq, Repr

namespace Side

/-- The other side. -/
def opposite : Side → Side
  | buy => sell
  | sell => buy

@[simp] theorem opposite_opposite (s : Side) : s.opposite.opposite = s := by cases s <;> rfl

theorem opposite_ne (s : Side) : s.opposite ≠ s := by cases s <;> decide

theorem eq_opposite_of_ne {s t : Side} (h : s ≠ t) : s = t.opposite := by
  cases s <;> cases t <;> first | rfl | exact absurd rfl h

end Side

/-- How long an order stays in force. -/
inductive TimeInForce
  | gtc
  | ioc
  | fok
  | gtd (deadline : ℕ)
  | day
  deriving DecidableEq, Repr

namespace TimeInForce

/-- Immediate orders never rest. -/
def isImmediate : TimeInForce → Bool
  | ioc => true
  | fok => true
  | _ => false

end TimeInForce

/-- What a pegged order follows. -/
inductive PegReferenceType
  | bestBid
  | bestAsk
  | midPrice
  | lastTrade
  deriving DecidableEq, Repr

/-- The order kinds, each with the data it adds to the common fields. -/
inductive OrderKind
  | standard
  | iceberg (hiddenQuantity : ℕ)
  | postOnly
  | trailingStop (trailAmount lastReferencePrice : ℕ)
  | pegged (referencePriceOffset : ℤ) (referencePriceType : PegReferenceType)
  | marketToLimit
  | reserve (hiddenQuantity replenishThreshold : ℕ) (replenishAmount : Option ℕ+)
      (autoReplenish : Bool)
  deriving DecidableEq, Repr

/-- An order of any kind. -/
structure Order where
  id : OrderId
  price : ℕ
  side : Side
  userId : Hash32
  timestamp : ℕ
  timeInForce : TimeInForce
  /-- The displayed quantity; for a one-tranche kind, the whole quantity. -/
  visibleQuantity : ℕ
  kind : OrderKind
  deriving DecidableEq, Repr

namespace Order

variable {hidden q threshold : ℕ} {auto : Bool}

/-- The undisplayed quantity, zero for a one-tranche kind. -/
def hiddenQuantity (o : Order) : ℕ :=
  match o.kind with
  | .iceberg hidden => hidden
  | .reserve hidden _ _ _ => hidden
  | _ => 0

/-- The quantity of both tranches. -/
def size (o : Order) : ℕ := o.visibleQuantity + o.hiddenQuantity

/-- Replace both tranches. A one-tranche kind has no hidden tranche to set. -/
def setTranches (o : Order) (visible hidden : ℕ) : Order :=
  { o with
    visibleQuantity := visible
    kind :=
      match o.kind with
      | .iceberg _ => .iceberg hidden
      | .reserve _ threshold amount auto => .reserve hidden threshold amount auto
      | k => k }

/-- The order is immediate-or-cancel or fill-or-kill. -/
def isImmediate (o : Order) : Bool := o.timeInForce.isImmediate

/-- The order is fill-or-kill. -/
def isFillOrKill (o : Order) : Bool := o.timeInForce = .fok

/-- A reserve order without auto-replenish: a match cannot draw on its hidden tranche. -/
def keepsHidden (o : Order) : Bool :=
  match o.kind with
  | .reserve _ _ _ auto => !auto
  | _ => false

/-- The order may only add liquidity. -/
def isPostOnly (o : Order) : Bool := o.kind = .postOnly

/-! ### Quantities

`OrderQuantity` for `OrderType<T>`. -/

/-- `OrderQuantity::quantity`: the displayed quantity. -/
def quantity (o : Order) : ℕ := o.visibleQuantity

/-- `OrderQuantity::total_quantity`: both tranches, saturating at `u64::MAX`. -/
def totalQuantity (o : Order) : ℕ :=
  match o.kind with
  | .iceberg hidden => satAdd64 o.visibleQuantity hidden
  | .reserve hidden _ _ _ => satAdd64 o.visibleQuantity hidden
  | _ => o.visibleQuantity

/-- `OrderQuantity::checked_total_quantity`: both tranches, `none` past `u64::MAX`. -/
def checkedTotalQuantity (o : Order) : Option ℕ :=
  match o.kind with
  | .iceberg hidden => checkedAdd64 o.visibleQuantity hidden
  | .reserve hidden _ _ _ => checkedAdd64 o.visibleQuantity hidden
  | _ => some o.totalQuantity

/-- What `reduce_reserve_to_total` moves from the hidden tranche to an exhausted display. -/
def reserveRefresh (visible hidden : ℕ) (amount : Option ℕ+) : ℕ :=
  if visible = 0 ∧ 0 < hidden then min ((amount.map PNat.val).getD 0) hidden else 0

theorem reserveRefresh_le (visible hidden : ℕ) (amount : Option ℕ+) :
    reserveRefresh visible hidden amount ≤ hidden := by
  unfold reserveRefresh
  split_ifs
  · exact min_le_right ..
  · exact Nat.zero_le _

/-- `reduce_reserve_to_total`: take the reduction from the visible tranche first, then from the
hidden one; an exhausted display is refreshed from what stays hidden. Other kinds are untouched. -/
def reduceReserveToTotal (o : Order) (newTotal : ℕ) : Order :=
  match o.kind with
  | .reserve hidden threshold amount auto =>
    let originalTotal := satAdd64 o.visibleQuantity hidden
    let amountToReduce := originalTotal - newTotal
    let filledFromVisible := min amountToReduce o.visibleQuantity
    let visible := o.visibleQuantity - filledFromVisible
    let hidden := hidden - (amountToReduce - filledFromVisible)
    let refresh := reserveRefresh visible hidden amount
    { o with
      visibleQuantity := visible + refresh
      kind := .reserve (hidden - refresh) threshold amount auto }
  | _ => o

/-- `OrderQuantity::set_quantity`: the quantity of a one-tranche kind, the display of an iceberg
(whose hidden tranche stays), the total of a reserve order. -/
def setQuantity (o : Order) (newQuantity : ℕ) : Order :=
  match o.kind with
  | .reserve .. => o.reduceReserveToTotal newQuantity
  | _ => { o with visibleQuantity := newQuantity }

/-- `OrderQuantity::set_total_remaining`: what a partially filled taker rests with. -/
def setTotalRemaining (o : Order) (remaining : ℕ) : Order :=
  match o.kind with
  | .iceberg _ =>
    let visible := min o.visibleQuantity remaining
    { o with visibleQuantity := visible, kind := .iceberg (remaining - visible) }
  | .reserve .. => o.reduceReserveToTotal remaining
  | _ => { o with visibleQuantity := remaining }

/-- The fields `Replace` writes. Its quantity is the quantity of a one-tranche kind and the display
of an iceberg or reserve order, whose hidden tranche stays. -/
def replaceWith (o : Order) (orderId : OrderId) (price quantity : ℕ) (side : Side) : Order :=
  { o with id := orderId, price := price, side := side, visibleQuantity := quantity }

/-- `order_matchable_qty`: the displayed quantity plus the hidden quantity a sweep can draw. -/
def matchableQty (o : Order) : ℕ :=
  match o.kind with
  | .iceberg hidden => satAdd64 o.visibleQuantity hidden
  | .reserve hidden _ _ true => satAdd64 o.visibleQuantity hidden
  | _ => satAdd64 o.visibleQuantity 0

theorem min_visibleQuantity_le_matchableQty (o : Order) :
    min o.visibleQuantity u64Max ≤ o.matchableQty := by
  rw [matchableQty]
  split
  · exact min_le_min_right _ (Nat.le_add_right ..)
  · exact min_le_min_right _ (Nat.le_add_right ..)
  · exact le_rfl

/-- Only a reserve order without auto-replenish keeps its hidden quantity from a sweep. -/
theorem matchableQty_eq (h : o.size ≤ u64Max) :
    o.matchableQty = if o.keepsHidden then o.visibleQuantity else o.size := by
  rcases o with ⟨_, _, _, _, _, _, v, k⟩
  cases k with
  | reserve hidden threshold amount auto =>
    cases auto with
    | true => exact satAdd64_eq h
    | false => exact satAdd64_eq (a := v) (b := 0) ((Nat.le_add_right v hidden).trans h)
  | _ => exact satAdd64_eq h

theorem totalQuantity_le (h : o.visibleQuantity ≤ u64Max) : o.totalQuantity ≤ u64Max := by
  rw [totalQuantity]
  split
  · exact min_le_right ..
  · exact min_le_right ..
  · exact h

theorem checkedTotalQuantity_eq_some (h : o.checkedTotalQuantity = some q) :
    o.visibleQuantity + o.hiddenQuantity = q ∧ o.totalQuantity = q := by
  rcases o with ⟨_, _, _, _, _, _, v, k⟩
  cases k <;> simp_all [checkedTotalQuantity, hiddenQuantity, totalQuantity, checkedAdd64_eq_some,
    satAdd64]

theorem size_eq_totalQuantity (h : o.checkedTotalQuantity.isNone = false) :
    o.size = o.totalQuantity := by
  obtain ⟨q, hq⟩ := Option.isSome_iff_exists.mp (Option.isNone_eq_false_iff.mp h)
  obtain ⟨hsize, htotal⟩ := checkedTotalQuantity_eq_some hq
  rw [size, hsize, htotal]

/-! ### The residual of a partially filled taker -/

theorem reduceReserveToTotal_total {amount : Option ℕ+}
    (hk : o.kind = .reserve hidden threshold amount auto)
    (hfit : o.visibleQuantity + hidden ≤ u64Max) (hr : r ≤ o.visibleQuantity + hidden) :
    (o.reduceReserveToTotal r).visibleQuantity + (o.reduceReserveToTotal r).hiddenQuantity = r := by
  simp only [reduceReserveToTotal, hk, hiddenQuantity, satAdd64_eq hfit]
  -- the refresh moves quantity between the tranches, so only its bound matters
  have hle := reserveRefresh_le
    (o.visibleQuantity - min (o.visibleQuantity + hidden - r) o.visibleQuantity)
    (hidden - (o.visibleQuantity + hidden - r
      - min (o.visibleQuantity + hidden - r) o.visibleQuantity)) amount
  omega

/-- **A residual rests with exactly the unmatched quantity.** -/
theorem total_setTotalRemaining (hq : o.checkedTotalQuantity = some q) (hr : r ≤ q) :
    (o.setTotalRemaining r).visibleQuantity + (o.setTotalRemaining r).hiddenQuantity = r := by
  cases hk : o.kind with
  | iceberg =>
    simp only [setTotalRemaining, hk, hiddenQuantity]
    omega
  | reserve =>
    rw [checkedTotalQuantity, hk] at hq
    obtain ⟨hsum, hfit⟩ := checkedAdd64_eq_some.mp hq
    simp only [setTotalRemaining, hk]
    exact reduceReserveToTotal_total hk (by omega) (by omega)
  | _ => simp [setTotalRemaining, hk, hiddenQuantity]

/-! ### Rewrites that keep the order's identity -/

@[simp] theorem setTranches_id (o : Order) (v h : ℕ) : (o.setTranches v h).id = o.id := rfl

@[simp] theorem setTranches_side (o : Order) (v h : ℕ) :
    (o.setTranches v h).side = o.side := rfl

@[simp] theorem setTranches_price (o : Order) (v h : ℕ) :
    (o.setTranches v h).price = o.price := rfl

@[simp] theorem setTranches_userId (o : Order) (v h : ℕ) :
    (o.setTranches v h).userId = o.userId := rfl

@[simp] theorem setTranches_keepsHidden (o : Order) (v h : ℕ) :
    (o.setTranches v h).keepsHidden = o.keepsHidden := by
  rcases o with ⟨_, _, _, _, _, _, _, k⟩
  cases k <;> rfl

@[simp] theorem setTranches_isImmediate (o : Order) (v h : ℕ) :
    (o.setTranches v h).isImmediate = o.isImmediate := rfl

theorem setTranches_setTranches (o : Order) (v h v' h' : ℕ) :
    (o.setTranches v h).setTranches v' h' = o.setTranches v' h' := by
  rcases o with ⟨_, _, _, _, _, _, _, k⟩
  cases k <;> rfl

theorem eq_setTranches (o : Order) : ∃ v h, o = o.setTranches v h := by
  refine ⟨o.visibleQuantity, o.hiddenQuantity, ?_⟩
  rcases o with ⟨_, _, _, _, _, _, v, k⟩
  cases k <;> rfl

theorem reduceReserveToTotal_eq_setTranches (o : Order) (r : ℕ) :
    ∃ v h, o.reduceReserveToTotal r = o.setTranches v h := by
  cases hk : o.kind with
  | reserve =>
    exact ⟨(o.reduceReserveToTotal r).visibleQuantity, (o.reduceReserveToTotal r).hiddenQuantity,
      by simp [reduceReserveToTotal, setTranches, hiddenQuantity, hk]⟩
  | iceberg hidden =>
    exact ⟨o.visibleQuantity, hidden, by cases o; simp_all [reduceReserveToTotal, setTranches]⟩
  | _ => exact ⟨o.visibleQuantity, 0, by cases o; simp_all [reduceReserveToTotal, setTranches]⟩

theorem setTotalRemaining_eq_setTranches (o : Order) (r : ℕ) :
    ∃ v h, o.setTotalRemaining r = o.setTranches v h := by
  cases hk : o.kind with
  | iceberg =>
    exact ⟨min o.visibleQuantity r, r - min o.visibleQuantity r,
      by simp [setTotalRemaining, setTranches, hk]⟩
  | reserve =>
    obtain ⟨v, h, e⟩ := o.reduceReserveToTotal_eq_setTranches r
    exact ⟨v, h, by rw [← e]; simp [setTotalRemaining, hk]⟩
  | _ => exact ⟨r, 0, by simp [setTotalRemaining, setTranches, hk]⟩

theorem setQuantity_eq_setTranches (o : Order) (q : ℕ) :
    ∃ v h, o.setQuantity q = o.setTranches v h := by
  cases hk : o.kind with
  | iceberg hidden => exact ⟨q, hidden, by simp [setQuantity, setTranches, hk]⟩
  | reserve =>
    obtain ⟨v, h, e⟩ := o.reduceReserveToTotal_eq_setTranches q
    exact ⟨v, h, by rw [← e]; simp [setQuantity, hk]⟩
  | _ => exact ⟨q, 0, by simp [setQuantity, setTranches, hk]⟩

theorem visibleQuantity_setQuantity_le (o : Order) (q : ℕ) :
    (o.setQuantity q).visibleQuantity ≤ max q o.size := by
  rcases o with ⟨_, _, _, _, _, _, v, k⟩
  cases k with
  | reserve hidden threshold amount auto =>
    refine le_trans ?_ (le_max_right ..)
    simp only [setQuantity, reduceReserveToTotal, size, hiddenQuantity]
    have hrefresh := reserveRefresh_le (v - min (satAdd64 v hidden - q) v)
      (hidden - (satAdd64 v hidden - q - min (satAdd64 v hidden - q) v)) amount
    omega
  | _ => exact le_max_left ..

/-! ### Whole lots -/

/-- The tranches of a reserve order with a hidden part are whole lots, and so is what it replenishes
at a time. -/
def ReserveInLots (lot : ℕ) (o : Order) : Prop :=
  match o.kind with
  | .reserve hidden _ amount auto => hidden = 0 ∨
      lot ∣ o.visibleQuantity ∧ lot ∣ hidden ∧ (∀ a ∈ amount, lot ∣ a.val) ∧
        (auto = true → amount ≠ none)
  | _ => True

/-- Both tranches are whole lots, and a match in whole lots leaves them so. -/
structure InLots (lot : ℕ) (o : Order) : Prop where
  visible : lot ∣ o.visibleQuantity
  hidden : lot ∣ o.hiddenQuantity
  reserve : o.ReserveInLots lot

theorem InLots.size (h : o.InLots lot) : lot ∣ o.size :=
  Nat.dvd_add h.visible h.hidden

/-- Other whole-lot tranches are whole lots too, unless a hidden part appears. -/
theorem InLots.setTranches {v k : ℕ} (h : o.InLots lot) (hv : lot ∣ v) (hk : lot ∣ k)
    (hnone : o.hiddenQuantity = 0 → k = 0) : (o.setTranches v k).InLots lot := by
  have hreserve := h.reserve
  rcases o with ⟨_, _, _, _, _, _, visible, kind⟩
  cases kind with
  | iceberg => exact ⟨hv, hk, trivial⟩
  | reserve =>
    refine ⟨hv, hk, ?_⟩
    rcases hreserve with hzero | ⟨-, -, hamount, hauto⟩
    · exact Or.inl (hnone hzero)
    · exact Or.inr ⟨hv, hk, hamount, hauto⟩
  | _ => exact ⟨hv, dvd_zero lot, trivial⟩

theorem dvd_min (ha : lot ∣ a) (hb : lot ∣ b) : lot ∣ min a b := by
  rcases min_choice a b with h | h
  · rwa [h]
  · rwa [h]

/-- Reducing a reserve order in whole lots by whole lots moves whole lots between its tranches. -/
theorem InLots.reduceReserveToTotal {amount : Option ℕ+} (h : o.InLots lot)
    (hkind : o.kind = .reserve hidden threshold amount auto)
    (hfit : o.checkedTotalQuantity.isNone = false) (hr : lot ∣ r) :
    (o.reduceReserveToTotal r).InLots lot := by
  have hhidden : o.hiddenQuantity = hidden := by rw [hiddenQuantity, hkind]
  have htotal : satAdd64 o.visibleQuantity hidden = o.visibleQuantity + hidden := by
    have hsize := size_eq_totalQuantity hfit
    rw [Order.size, hhidden, totalQuantity, hkind] at hsize
    exact hsize.symm
  have hhid : lot ∣ hidden := hhidden ▸ h.hidden
  have hreduce := Nat.dvd_sub (Nat.dvd_add h.visible hhid) hr
  have hfilled := dvd_min hreduce h.visible
  have hvisible := Nat.dvd_sub h.visible hfilled
  have hkept := Nat.dvd_sub hhid (Nat.dvd_sub hreduce hfilled)
  -- the display and the hidden part before the refresh
  generalize hv : o.visibleQuantity - min (o.visibleQuantity + hidden - r) o.visibleQuantity = v
    at hvisible
  generalize hk : hidden - (o.visibleQuantity + hidden - r -
    min (o.visibleQuantity + hidden - r) o.visibleQuantity) = k at hkept
  have hrefresh : lot ∣ reserveRefresh v k amount := by
    rw [reserveRefresh]
    split_ifs with hmoves
    · have hreserve := h.reserve
      rw [ReserveInLots, hkind] at hreserve
      rcases hreserve with hzero | ⟨-, -, hamount, -⟩
      · omega
      · cases amount with
        | none => exact dvd_min (dvd_zero lot) hkept
        | some a => exact dvd_min (hamount a rfl) hkept
    · exact dvd_zero lot
  have heq : o.reduceReserveToTotal r =
      o.setTranches (v + reserveRefresh v k amount) (k - reserveRefresh v k amount) := by
    simp only [Order.reduceReserveToTotal, Order.setTranches, hkind, htotal, hv, hk]
  rw [heq]
  refine h.setTranches (Nat.dvd_add hvisible hrefresh) (Nat.dvd_sub hkept hrefresh) fun hzero => ?_
  omega

/-- What is left of a taker in whole lots rests in whole lots. -/
theorem InLots.setTotalRemaining (h : o.InLots lot) (hfit : o.checkedTotalQuantity.isNone = false)
    (hr : lot ∣ r) : (o.setTotalRemaining r).InLots lot := by
  cases hkind : o.kind with
  | iceberg =>
    have hmin : lot ∣ min o.visibleQuantity r := dvd_min h.visible hr
    have heq : o.setTotalRemaining r =
        { o with
          visibleQuantity := min o.visibleQuantity r
          kind := .iceberg (r - min o.visibleQuantity r) } := by
      simp only [Order.setTotalRemaining, hkind]
    rw [heq]
    exact ⟨hmin, Nat.dvd_sub hr hmin, trivial⟩
  | reserve =>
    simp only [Order.setTotalRemaining, hkind]
    exact h.reduceReserveToTotal hkind hfit hr
  | _ =>
    have heq : o.setTotalRemaining r = { o with visibleQuantity := r } := by
      simp only [Order.setTotalRemaining, hkind]
    rw [heq]
    refine ⟨hr, ?_, ?_⟩
    · simp only [hiddenQuantity, hkind]
      exact dvd_zero lot
    · simp only [ReserveInLots, hkind]

end Order

/-! ### Requests -/

/-- `OrderUpdate`: a request to change or cancel a resting order. -/
inductive OrderUpdate
  | updatePrice (orderId : OrderId) (newPrice : ℕ)
  | updateQuantity (orderId : OrderId) (newQuantity : ℕ)
  | updatePriceAndQuantity (orderId : OrderId) (newPrice newQuantity : ℕ)
  | cancel (orderId : OrderId)
  | replace (orderId : OrderId) (price quantity : ℕ) (side : Side)
  deriving DecidableEq, Repr

/-- `TakerKind`: whether the taker may remove liquidity. -/
inductive TakerKind
  | standard
  | postOnly
  deriving DecidableEq, Repr

namespace TakerKind

def isPostOnly : TakerKind → Bool
  | standard => false
  | postOnly => true

end TakerKind

/-- `STPMode`: what self-trade prevention cancels. -/
inductive STPMode
  | none
  | cancelTaker
  | cancelMaker
  | cancelBoth
  deriving DecidableEq, Repr

namespace STPMode

/-- `STPMode::is_enabled`. -/
def isEnabled (mode : STPMode) : Bool := mode ≠ .none

end STPMode

/-! ### Reports -/

/-- One fill of a resting maker by a taker. -/
structure Trade where
  takerOrderId : OrderId
  makerOrderId : OrderId
  price : ℕ
  quantity : ℕ
  deriving DecidableEq, Repr

/-- The total quantity of a list of trades. -/
def tradedQuantity (trades : List Trade) : ℕ := (trades.map Trade.quantity).sum

/-- The trades of one maker. -/
def tradesOf (maker : OrderId) (trades : List Trade) : List Trade :=
  trades.filter fun t => t.makerOrderId = maker

@[simp] theorem tradedQuantity_nil : tradedQuantity [] = 0 := rfl

@[simp] theorem tradedQuantity_cons (t : Trade) (ts : List Trade) :
    tradedQuantity (t :: ts) = t.quantity + tradedQuantity ts := rfl

theorem tradedQuantity_append (xs ys : List Trade) :
    tradedQuantity (xs ++ ys) = tradedQuantity xs + tradedQuantity ys := by
  simp [tradedQuantity]

theorem tradesOf_append (maker : OrderId) (xs ys : List Trade) :
    tradesOf maker (xs ++ ys) = tradesOf maker xs ++ tradesOf maker ys := List.filter_append ..

theorem tradedQuantity_tradesOf_add (maker : OrderId) (ts : List Trade) :
    tradedQuantity (tradesOf maker ts) +
      tradedQuantity (ts.filter fun t => t.makerOrderId ≠ maker) = tradedQuantity ts := by
  induction ts with
  | nil => rfl
  | cons t ts ih =>
    rw [tradesOf] at ih ⊢
    by_cases ht : t.makerOrderId = maker
    · simp only [List.filter_cons, ht, decide_true, if_true, ne_eq, not_true_eq_false,
        decide_false, Bool.false_eq_true, if_false, tradedQuantity_cons] at ih ⊢
      omega
    · simp only [List.filter_cons, ht, decide_false, Bool.false_eq_true, if_false, ne_eq,
        not_false_eq_true, decide_true, if_true, tradedQuantity_cons] at ih ⊢
      omega

/-- What distinct makers traded, and what all others did, is everything traded. -/
theorem sum_tradesOf_add {makers : List OrderId} (h : makers.Nodup) (ts : List Trade) :
    (makers.map fun i => tradedQuantity (tradesOf i ts)).sum +
      tradedQuantity (ts.filter fun t => t.makerOrderId ∉ makers) = tradedQuantity ts := by
  induction makers generalizing ts with
  | nil => simp
  | cons maker makers ih =>
    obtain ⟨hnot, hnodup⟩ := List.nodup_cons.mp h
    -- the trades of the other makers are untouched by taking this maker's trades out
    have hothers : ∀ i ∈ makers, tradesOf i ts =
        tradesOf i (ts.filter fun t => t.makerOrderId ≠ maker) := by
      intro i hi
      have hne : i ≠ maker := fun h => hnot (h ▸ hi)
      rw [tradesOf, tradesOf, List.filter_filter]
      refine List.filter_congr fun t _ => ?_
      by_cases ht : t.makerOrderId = i
      · simp [ht, hne]
      · simp [ht]
    have hleft : (ts.filter fun t => t.makerOrderId ∉ maker :: makers) =
        (ts.filter fun t => t.makerOrderId ≠ maker).filter fun t => t.makerOrderId ∉ makers := by
      rw [List.filter_filter]
      exact List.filter_congr fun t _ => by simp [Bool.and_comm]
    have hrest := ih hnodup (ts.filter fun t => t.makerOrderId ≠ maker)
    have hsplit := tradedQuantity_tradesOf_add maker ts
    rw [List.map_cons, List.sum_cons, List.map_congr_left fun i hi => by rw [hothers i hi], hleft]
    omega

/-- What distinct makers traded adds up to at most everything traded. -/
theorem sum_tradesOf_le {makers : List OrderId} (h : makers.Nodup) (ts : List Trade) :
    (makers.map fun i => tradedQuantity (tradesOf i ts)).sum ≤ tradedQuantity ts := by
  have hadd := sum_tradesOf_add h ts
  omega

/-- `MatchResult`: the trades of a match, what is left of the taker, and the makers that left. -/
structure MatchResult where
  orderId : OrderId
  trades : List Trade := []
  remainingQuantity : ℕ
  filledOrderIds : List OrderId := []
  /-- `outcome().was_rejected()`: the post-only guard refused to trade. -/
  wasRejected : Bool := false
  deriving DecidableEq, Repr

namespace MatchResult

/-- `MatchResult::new`: nothing matched yet. -/
def new (orderId : OrderId) (quantity : ℕ) : MatchResult :=
  { orderId := orderId, remainingQuantity := quantity }

/-- `MatchResult::add_filled_order_id`. -/
def addFilledOrderId (r : MatchResult) (id : OrderId) : MatchResult :=
  { r with filledOrderIds := r.filledOrderIds ++ [id] }

end MatchResult

/-- `PriceLevelError`, as far as the book distinguishes it. -/
inductive PriceLevelError
  | invalidFormat
  | invalidOperation (message : String)
  | duplicateOrderId (orderId : OrderId)
  deriving DecidableEq, Repr

/-- `OrderBookError`. -/
inductive OrderBookError
  | priceLevelError (error : PriceLevelError)
  | priceCrossing (price : ℕ) (side : Side) (oppositePrice : ℕ)
  | insufficientLiquidity (side : Side) (requested available : ℕ)
  | insufficientLiquidityNotional (side : Side) (requested spent : ℕ)
  | invalidOperation (message : String)
  | killSwitchActive
  | checksumMismatch (expected actual : String)
  | invalidTickSize (price tickSize : ℕ)
  | invalidLotSize (quantity lotSize : ℕ)
  | orderSizeOutOfRange (quantity : ℕ) (min max : Option ℕ)
  | duplicateOrderId (orderId : OrderId)
  | quantityOverflow (visible hidden : ℕ)
  | missingUserId (orderId : OrderId)
  | selfTradePrevented (mode : STPMode) (takerOrderId : OrderId) (userId : Hash32)
  | riskMaxOpenOrders (account : Hash32) (current limit : ℕ)
  | riskMaxNotional (account : Hash32) (current attempted limit : ℕ)
  | riskPriceBand (submitted reference deviationBps limitBps : ℕ)
  deriving DecidableEq, Repr

end OrderBookRs
