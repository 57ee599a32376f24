import OrderBookRs.Snapshot

/-!
# Public operations and runs

The market-order entry points (`operations.rs`), the configuration setters, and runs: finite
sequences of public calls on an initially empty book, each succeeding or failing.

## Main definitions

* `OrderBook.submitMarketOrder`, `OrderBook.submitMarketOrderByAmount`.
* `Command`: a trading call; `OrderBook.run` executes a list of them, `OrderBook.reply` is what one
  returns.
* `Op`: a trading call, a configuration change, or taking or restoring a snapshot package;
  `Session.run` executes a list of them.
* `OrderBook.Reachable`: the books a session can end in.
-/

namespace OrderBookRs

open PriceLevel Fallible

namespace OrderBook

variable {L : Type} [PriceLevel L]

/-- `with_clock`: an empty book. -/
def withClock (symbol : String) (clock : Clock) : OrderBook L :=
  { symbol := symbol, clock := clock }

/-! ### Market orders -/

/-- A market sweep whose trades go to the trade listener. -/
def matchMarket (id : OrderId) (side : Side) (mode : MatchMode) (user : Hash32) :
    BookM L MatchResult := do
  let outcome ← matchOrderInner id side mode user .standard
  let _ ← emitTrades false outcome.result
  pure outcome.result

/-- `match_market_order_with_user`. -/
def matchMarketOrder (id : OrderId) (quantity : ℕ) (side : Side) (user : Hash32) :
    BookM L MatchResult := matchMarket id side (.baseQty quantity none) user

/-- `match_market_order_by_amount_with_user`. -/
def matchMarketOrderByAmount (id : OrderId) (amount : ℕ) (side : Side) (user : Hash32) :
    BookM L MatchResult := matchMarket id side (.quoteAmount amount) user

/-- `submit_market_order_with_user`; user `0` is `submit_market_order`. -/
def submitMarketOrder (id : OrderId) (quantity : ℕ) (side : Side) (user : Hash32) :
    BookM L MatchResult := do
  checkKillSwitchOrReject id
  matchMarketOrder id quantity side user

/-- `submit_market_order_by_amount_with_user`; user `0` is `submit_market_order_by_amount`. -/
def submitMarketOrderByAmount (id : OrderId) (amount : ℕ) (side : Side) (user : Hash32) :
    BookM L MatchResult := do
  checkKillSwitchOrReject id
  matchMarketOrderByAmount id amount side user

end OrderBook

/-! ### Trading calls -/

/-- A trading call. -/
inductive Command
  | addOrder (o : Order)
  | addOrderWithResult (o : Order)
  | submitMarketOrder (id : OrderId) (quantity : ℕ) (side : Side) (user : Hash32)
  | submitMarketOrderByAmount (id : OrderId) (amount : ℕ) (side : Side) (user : Hash32)
  | updateOrder (u : OrderUpdate)
  | cancelOrder (id : OrderId)
  | cancelAllOrders
  | cancelOrdersBySide (side : Side)
  | cancelOrdersByUser (user : Hash32)
  | cancelOrdersByPriceRange (side : Side) (minPrice maxPrice : ℕ)
  | evictExpiredOrders (now : ℕ)
  deriving DecidableEq, Repr

namespace OrderBook

variable {L : Type} [PriceLevel L]

/-- The book after a call, whether it succeeded or failed. -/
def execute (b : OrderBook L) : Command → OrderBook L
  | .addOrder o => (addOrder o b).2
  | .addOrderWithResult o => (addOrderWithResult o b).2
  | .submitMarketOrder id quantity side user => (submitMarketOrder id quantity side user b).2
  | .submitMarketOrderByAmount id amount side user =>
    (submitMarketOrderByAmount id amount side user b).2
  | .updateOrder u => (updateOrder u b).2
  | .cancelOrder id => (b.cancelOrder id).1
  | .cancelAllOrders => b.cancelAllOrders.1
  | .cancelOrdersBySide side => (b.cancelOrdersBySide side).1
  | .cancelOrdersByUser user => (b.cancelOrdersByUser user).1
  | .cancelOrdersByPriceRange side minPrice maxPrice =>
    (b.cancelOrdersByPriceRange side minPrice maxPrice).1
  | .evictExpiredOrders now => (b.evictExpiredOrders now).1

/-- The book after a sequence of calls. -/
def run (b : OrderBook L) (commands : List Command) : OrderBook L := commands.foldl execute b

end OrderBook

/-- What a trading call returns. -/
inductive Reply
  | order (r : Except OrderBookError Order)
  | orderWithResult (r : Except OrderBookError (Order × Option TradeResult))
  | matched (r : Except OrderBookError MatchResult)
  | updated (r : Except OrderBookError (Option Order))
  | cancelled (o : Option Order)
  | massCancelled (ids : List OrderId)
  | evicted (orders : List Order)

/-- The call returned an error. -/
def Reply.isError : Reply → Bool
  | .order r => !r.isOk
  | .orderWithResult r => !r.isOk
  | .matched r => !r.isOk
  | .updated r => !r.isOk
  | _ => false

namespace OrderBook

variable {L : Type} [PriceLevel L]

/-- The reply to a call. -/
def reply (b : OrderBook L) : Command → Reply
  | .addOrder o => .order (addOrder o b).1
  | .addOrderWithResult o => .orderWithResult (addOrderWithResult o b).1
  | .submitMarketOrder id quantity side user =>
    .matched (submitMarketOrder id quantity side user b).1
  | .submitMarketOrderByAmount id amount side user =>
    .matched (submitMarketOrderByAmount id amount side user b).1
  | .updateOrder u => .updated (updateOrder u b).1
  | .cancelOrder id => .cancelled (b.cancelOrder id).2
  | .cancelAllOrders => .massCancelled b.cancelAllOrders.2
  | .cancelOrdersBySide side => .massCancelled (b.cancelOrdersBySide side).2
  | .cancelOrdersByUser user => .massCancelled (b.cancelOrdersByUser user).2
  | .cancelOrdersByPriceRange side minPrice maxPrice =>
    .massCancelled (b.cancelOrdersByPriceRange side minPrice maxPrice).2
  | .evictExpiredOrders now => .evicted (b.evictExpiredOrders now).2

end OrderBook

/-! ### Configuration -/

/-- A configuration change. -/
inductive Setting
  | killSwitch (engaged : Bool)
  | marketClose (timestamp : Option ℕ)
  | tickSize (value : Option ℕ)
  | lotSize (value : Option ℕ)
  | minOrderSize (value : Option ℕ)
  | maxOrderSize (value : Option ℕ)
  | stpMode (mode : STPMode)
  | feeSchedule (schedule : Option FeeSchedule)
  | riskConfig (config : Option RiskConfig)
  | tradeListener (listener : Option (Listener TradeResult))
  | priceLevelChangedListener (listener : Option (Listener PriceLevelChangedEvent))
  | orderStateTracker (tracker : Option OrderStateTracker)

namespace OrderBook

variable {L : Type} [PriceLevel L]

/-- The book after a configuration change. Clearing the market close keeps the old timestamp. -/
def configure (b : OrderBook L) : Setting → OrderBook L
  | .killSwitch engaged => { b with killSwitch := engaged }
  | .marketClose (some timestamp) =>
    { b with marketCloseTimestamp := timestamp, hasMarketClose := true }
  | .marketClose none => { b with hasMarketClose := false }
  | .tickSize value => { b with tickSize := value }
  | .lotSize value => { b with lotSize := value }
  | .minOrderSize value => { b with minOrderSize := value }
  | .maxOrderSize value => { b with maxOrderSize := value }
  | .stpMode mode => { b with stpMode := mode }
  | .feeSchedule schedule => { b with feeSchedule := schedule }
  | .riskConfig config => { b with riskState := { b.riskState with config := config } }
  | .tradeListener listener => { b with tradeListener := listener }
  | .priceLevelChangedListener listener => { b with priceLevelChangedListener := listener }
  | .orderStateTracker tracker => { b with orderStateTracker := tracker }

/-- The book after a trading call or a configuration change. -/
def act (b : OrderBook L) : Command ⊕ Setting → OrderBook L := Sum.elim b.execute b.configure

/-- An empty book after some configuration changes. -/
def configured (symbol : String) (clock : Clock) (settings : List Setting) : OrderBook L :=
  settings.foldl configure (withClock symbol clock)

omit [PriceLevel L]

@[simp] theorem levels_configure (b : OrderBook L) (s : Setting) (side : Side) :
    (b.configure s).levels side = b.levels side := by
  rcases s with _ | (_ | _) | _ | _ | _ | _ | _ | _ | _ | _ | _ | _ <;> rfl

@[simp] theorem orderLocations_configure (b : OrderBook L) (s : Setting) :
    (b.configure s).orderLocations = b.orderLocations := by
  rcases s with _ | (_ | _) | _ | _ | _ | _ | _ | _ | _ | _ | _ | _ <;> rfl

@[simp] theorem fills_configure (b : OrderBook L) (s : Setting) :
    (b.configure s).fills = b.fills := by
  rcases s with _ | (_ | _) | _ | _ | _ | _ | _ | _ | _ | _ | _ | _ <;> rfl

/-- What no configuration change touches is as in a new book. -/
theorem configured_eq {α : Type} {f : OrderBook L → α} (hf : ∀ b s, f (b.configure s) = f b)
    (symbol : String) (clock : Clock) (settings : List Setting) :
    f (configured symbol clock settings) = f (withClock symbol clock) := by
  have hfold : ∀ (settings : List Setting) (b : OrderBook L),
      f (settings.foldl configure b) = f b := by
    intro settings
    induction settings with
    | nil => exact fun b => rfl
    | cons s settings ih => exact fun b => (ih _).trans (hf b s)
  exact hfold settings _

theorem get?_levels_configured (symbol : String) (clock : Clock) (settings : List Setting)
    (side : Side) (price : ℕ) :
    ((configured symbol clock settings : OrderBook L).levels side).get? price = none := by
  rw [configured_eq (f := fun b : OrderBook L => b.levels side)
    fun b s => levels_configure b s side]
  cases side <;> rfl

end OrderBook

/-! ### Sessions -/

/-- A public call of any kind. Packages are named by the order in which they were taken. -/
inductive Op
  | command (c : Command)
  | configure (s : Setting)
  | createSnapshotPackage (depth : ℕ)
  | restoreFromSnapshotPackage (index : ℕ)

/-- A book and the snapshot packages it has produced so far. -/
structure Session (L : Type) where
  book : OrderBook L
  packages : List OrderBookSnapshotPackage := []

namespace Session

variable {L : Type} [PriceLevel L] [SnapshotChecksum]

/-- The session after a call, whether it succeeded or failed. -/
def step (s : Session L) : Op → Session L
  | .command c => { s with book := s.book.execute c }
  | .configure setting => { s with book := s.book.configure setting }
  | .createSnapshotPackage depth =>
    match OrderBook.createSnapshotPackage depth s.book with
    | (.ok p, b) => { book := b, packages := s.packages ++ [p] }
    | (.error _, b) => { s with book := b }
  | .restoreFromSnapshotPackage index =>
    match s.packages[index]? with
    | none => s
    | some p => { s with book := (OrderBook.restoreFromSnapshotPackage p s.book).2 }

/-- The session after a sequence of calls. -/
def run (s : Session L) (ops : List Op) : Session L := ops.foldl step s

end Session

/-- A book that some sequence of public calls on an empty book ends in. -/
def OrderBook.Reachable {L : Type} [PriceLevel L] [SnapshotChecksum] (b : OrderBook L) : Prop :=
  ∃ symbol clock ops, b = (Session.run { book := OrderBook.withClock symbol clock } ops).book

end OrderBookRs
