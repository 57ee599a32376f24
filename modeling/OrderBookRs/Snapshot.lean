import Mathlib.Data.List.Sort
import OrderBookRs.MassCancel

/-!
# Snapshots and restore

`snapshot.rs` and the snapshot methods of `book.rs`: a snapshot of both sides, the package that
carries it with its checksum and the configuration, and restoring a book from either.

Restoring has a fallible phase that prepares the levels and an infallible one that installs them and
rebuilds the indices.

## Main definitions

* `OrderBookSnapshot`, `OrderBookSnapshotPackage`.
* `OrderBook.createSnapshot`, `OrderBook.createSnapshotPackage`.
* `prepareSnapshotLevels`, `OrderBook.commitRestoredLevels`.
* `OrderBook.restoreFromSnapshot`, `OrderBook.restoreFromSnapshotPackage`.
-/

namespace OrderBookRs

open PriceLevel Fallible

/-- `OrderBookSnapshot`. -/
structure OrderBookSnapshot where
  symbol : String
  timestamp : ℕ
  bids : List PriceLevelSnapshot
  asks : List PriceLevelSnapshot
  deriving DecidableEq, Repr

/-- The digest of a snapshot: SHA-256 over its JSON form, a parameter of the development. -/
class SnapshotChecksum where
  computeChecksum : OrderBookSnapshot → Except OrderBookError String

/-- A digest that fails on every snapshot, for runs that take none. -/
abbrev noDigest : SnapshotChecksum := ⟨fun _ => .error (.invalidOperation "no digest")⟩

/-- A digest that is the same for every snapshot, for runs on fixed packages. -/
abbrev sampleDigest : SnapshotChecksum := ⟨fun _ => .ok "digest"⟩

/-- `OrderBookSnapshotPackage`. -/
structure OrderBookSnapshotPackage where
  version : ℕ
  snapshot : OrderBookSnapshot
  checksum : String
  feeSchedule : Option FeeSchedule := none
  stpMode : STPMode := .none
  tickSize : Option ℕ := none
  lotSize : Option ℕ := none
  minOrderSize : Option ℕ := none
  maxOrderSize : Option ℕ := none
  engineSeq : UInt64 := 0
  killSwitchEngaged : Bool := false
  riskConfig : Option RiskConfig := none
  marketCloseTimestamp : ℕ := 0
  hasMarketClose : Bool := false
  deriving DecidableEq, Repr

/-- `ORDERBOOK_SNAPSHOT_FORMAT_VERSION`. -/
def snapshotFormatVersion : ℕ := 3

/-- `ORDERBOOK_SNAPSHOT_MIN_READ_VERSION`. -/
def snapshotMinReadVersion : ℕ := 2

namespace OrderBookSnapshotPackage

variable [SnapshotChecksum]

/-- `OrderBookSnapshotPackage::new`. -/
def new (L : Type) [PriceLevel L] (s : OrderBookSnapshot) :
    Except OrderBookError OrderBookSnapshotPackage := do
  let s := { s with
    bids := s.bids.map (refreshAggregates L), asks := s.asks.map (refreshAggregates L) }
  let checksum ← SnapshotChecksum.computeChecksum s
  .ok { version := snapshotFormatVersion, snapshot := s, checksum := checksum }

/-- `validate`: supported version, then matching checksum. -/
def validate (p : OrderBookSnapshotPackage) : Except OrderBookError Unit := do
  OrderBook.refuse (p.version < snapshotMinReadVersion ∨ snapshotFormatVersion < p.version)
    (.invalidOperation (s!"Unsupported snapshot version: {p.version} " ++
      s!"(supported {snapshotMinReadVersion}..={snapshotFormatVersion})"))
  let computed ← SnapshotChecksum.computeChecksum p.snapshot
  OrderBook.refuse (computed ≠ p.checksum) (.checksumMismatch p.checksum computed)

end OrderBookSnapshotPackage

variable {L : Type} [PriceLevel L]

/-- `PreparedSnapshotLevels`: the levels of both sides, ready to install. -/
structure PreparedSnapshotLevels (L : Type) where
  bids : List (ℕ × L)
  asks : List (ℕ × L)

/-- The price two neighbouring levels of a sorted list share, if any. -/
def duplicatePrice : List (ℕ × L) → Option ℕ
  | a :: b :: rest => if a.1 = b.1 then some a.1 else duplicatePrice (b :: rest)
  | _ => none

/-- Convert one side's levels, sort them by price, refuse two levels at one price. -/
def convertLevels (side : String) (levels : List PriceLevelSnapshot) :
    Except OrderBookError (List (ℕ × L)) := do
  let converted ← levels.mapM fun s =>
    match fromSnapshot s with
    | .ok level => .ok (s.price, level)
    | .error e => .error (.priceLevelError e)
  let sorted := converted.insertionSort fun a b => a.1 ≤ b.1
  match duplicatePrice sorted with
  | some price =>
    .error (.invalidOperation s!"Snapshot contains two {side} levels at the same price {price}")
  | none => .ok sorted

/-- The first id that occurs twice. -/
def duplicateId : List OrderId → List OrderId → Option OrderId
  | [], _ => none
  | id :: rest, seen => if id ∈ seen then some id else duplicateId rest (id :: seen)

/-- `prepare_snapshot_levels`. -/
def prepareSnapshotLevels (s : OrderBookSnapshot) :
    Except OrderBookError (PreparedSnapshotLevels L) := do
  let bids ← convertLevels "bid" s.bids
  let asks ← convertLevels "ask" s.asks
  match duplicateId ((OrderBook.queuedOrders (bids ++ asks)).map Order.id) [] with
  | some id => .error (.duplicateOrderId id)
  | none => .ok ⟨bids, asks⟩

/-- Install a list of levels into an empty side. -/
def installLevels (entries : List (ℕ × L)) : SkipMap L :=
  entries.foldl (fun m e => m.insert e.1 e.2) ∅

namespace OrderBook

/-- `create_snapshot`: the best `depth` levels of each side, best price first. -/
def createSnapshot (b : OrderBook L) (depth : ℕ) : OrderBookSnapshot × OrderBook L :=
  ({ symbol := b.symbol
     timestamp := b.clock.nowMillis
     bids := (b.bids.entries.reverse.take depth).map fun e => snapshot e.2
     asks := (b.asks.entries.take depth).map fun e => snapshot e.2 },
    { b with clock := b.clock.tick })

/-- Register one restored order. -/
def reindexOrder (side : Side) (price : ℕ) (rebuildRisk : Bool) (b : OrderBook L) (o : Order) :
    OrderBook L :=
  { b with
    orderLocations := b.orderLocations.insert o.id (price, side)
    userOrders := b.userOrders.track o.userId o.id
    specialOrderTracker := b.specialOrderTracker.register o
    riskState :=
      if rebuildRisk then
        b.riskState.onAdmission o.id o.userId price (satAdd64 o.visibleQuantity o.hiddenQuantity)
      else b.riskState }

/-- Register every order of one restored side. -/
def reindexSide (side : Side) (rebuildRisk : Bool) (b : OrderBook L) (entries : List (ℕ × L)) :
    OrderBook L :=
  entries.foldl (fun b e => (orders e.2).foldl (reindexOrder side e.1 rebuildRisk) b) b

/-- `commit_restored_levels`. -/
def commitRestoredLevels (b : OrderBook L) (prepared : PreparedSnapshotLevels L)
    (rebuildRisk : Bool) : OrderBook L :=
  let b : OrderBook L :=
    { b with
      cache := b.cache.invalidate
      bids := installLevels prepared.bids
      asks := installLevels prepared.asks
      orderLocations := ∅
      userOrders := ∅
      specialOrderTracker := {}
      hasTraded := false
      lastTradePrice := 0
      hasMarketClose := false
      marketCloseTimestamp := 0 }
  (b.reindexSide .buy rebuildRisk prepared.bids).reindexSide .sell rebuildRisk prepared.asks

/-- `ensure_snapshot_symbol`. -/
def ensureSnapshotSymbol (b : OrderBook L) (s : OrderBookSnapshot) : Except OrderBookError Unit :=
  refuse (s.symbol ≠ b.symbol)
    (.invalidOperation s!"Snapshot symbol {s.symbol} does not match order book symbol {b.symbol}")

/-- `restore_from_snapshot`. -/
def restoreFromSnapshot (s : OrderBookSnapshot) : BookM L Unit := fun b =>
  match (do b.ensureSnapshotSymbol s; prepareSnapshotLevels s) with
  | .error e => (.error e, b)
  | .ok prepared => (.ok (), b.commitRestoredLevels prepared false)

variable [SnapshotChecksum]

/-- `create_snapshot_package`. -/
def createSnapshotPackage (depth : ℕ) : BookM L OrderBookSnapshotPackage := fun b =>
  let s := b.createSnapshot depth
  (do
    let p ← OrderBookSnapshotPackage.new L s.1
    .ok { p with
      feeSchedule := b.feeSchedule
      stpMode := b.stpMode
      tickSize := b.tickSize
      lotSize := b.lotSize
      minOrderSize := b.minOrderSize
      maxOrderSize := b.maxOrderSize
      engineSeq := b.engineSeq
      killSwitchEngaged := b.killSwitch
      riskConfig := b.riskState.config
      marketCloseTimestamp := b.marketCloseTimestamp
      hasMarketClose := b.hasMarketClose }, s.2)

/-- `restore_from_snapshot_package`. -/
def restoreFromSnapshotPackage (p : OrderBookSnapshotPackage) : BookM L Unit := fun b =>
  match (do p.validate; b.ensureSnapshotSymbol p.snapshot; prepareSnapshotLevels p.snapshot) with
  | .error e => (.error e, b)
  | .ok prepared =>
    -- nothing below this point can fail
    let b := { b with riskState := { config := p.riskConfig } }
    let b := b.commitRestoredLevels prepared true
    (.ok (),
      { b with
        feeSchedule := p.feeSchedule
        stpMode := p.stpMode
        tickSize := p.tickSize
        lotSize := p.lotSize
        minOrderSize := p.minOrderSize
        maxOrderSize := p.maxOrderSize
        engineSeq := p.engineSeq
        killSwitch := p.killSwitchEngaged
        marketCloseTimestamp := p.marketCloseTimestamp
        hasMarketClose := p.hasMarketClose })

end OrderBook

end OrderBookRs
