import OrderBookRs.Index
import OrderBookRs.RiskLimits
import OrderBookRs.Uncrossed

/-!
# What restoring checks

Snapshots come from outside. Restoring one is failure-atomic, and it refuses every repeated id and
every repeated price. It does not check the rest of what the live calls maintain: a level may be
empty, an order may carry another side or price than its level, the sides may cross, and the risk
counters of a plain restore are those of the book before.

## Main definitions

* `OrderBookSnapshot.Repeats`: an id occurs twice, or a price occurs twice on one side.
* `WellRestored`: what the live calls maintain, for a restored book.
* `OrderBookSnapshot.WellFormed`, `OrderBookSnapshot.CountedBy`: what restoring takes on trust.

## Main results

* `restore_failure_atomic`: a failed restore changes nothing, and repetitions make it fail.
* `well_restored_iff`: a restored book is well formed iff its snapshot was, and the counters it
  keeps were already those of the snapshot.
-/

namespace OrderBookRs

open PriceLevel Fallible OrderBook

variable {L : Type} [PriceLevel L] {s : OrderBookSnapshot} {side : Side} {price : ℕ}
  {es : List (ℕ × L)}

namespace OrderBookSnapshot

/-- The orders of both sides. -/
def orders (s : OrderBookSnapshot) : List Order :=
  (s.bids ++ s.asks).flatMap PriceLevelSnapshot.orders

/-- Some id occurs twice, or some price occurs twice on one side. -/
def Repeats (s : OrderBookSnapshot) : Prop :=
  ¬ (s.orders.map Order.id).Nodup ∨
    ∃ side, ¬ ((s.levels side).map PriceLevelSnapshot.price).Nodup

/-- No level is empty, orders carry the side and price of their level, and the sides do not
cross. -/
structure WellFormed (s : OrderBookSnapshot) : Prop where
  nonempty : ∀ {side snap}, snap ∈ s.levels side → snap.orders ≠ []
  placed : ∀ {side snap o}, snap ∈ s.levels side → o ∈ snap.orders →
    o.side = side ∧ o.price = snap.price
  uncrossed : ∀ {bid ask}, bid ∈ s.bids → ask ∈ s.asks → bid.price < ask.price

/-- The risk counters are the counts and notionals of the snapshot's orders. -/
def CountedBy (s : OrderBookSnapshot) (r : RiskState) : Prop :=
  ∀ account, r.openCount account = (s.orders.filter fun o => o.userId = account).length ∧
    r.restingNotional account =
      ((s.orders.filter fun o => o.userId = account).map fun o => o.price * o.size).sum

end OrderBookSnapshot

/-! ### Preparing keeps the levels -/

section Prepare

variable [LevelSnapshot L]

/-- A level or its snapshot, by price and queue. -/
theorem map_of_convert {levels : List PriceLevelSnapshot} {converted : List (ℕ × L)}
    (h : (levels.mapM fun s =>
      match fromSnapshot s with
      | .ok level => .ok (s.price, level)
      | .error e => .error (.priceLevelError e)) =
        (.ok converted : Except OrderBookError (List (ℕ × L)))) :
    (converted.map fun e => (e.1, orders e.2)) = levels.map fun s => (s.price, s.orders) := by
  induction levels generalizing converted with
  | nil =>
    cases h
    rfl
  | cons s levels ih =>
    rw [List.mapM_cons] at h
    obtain ⟨e, hfirst, h⟩ := except_bind_eq_ok.mp h
    obtain ⟨rest, hrest, h⟩ := except_bind_eq_ok.mp h
    cases h
    rw [List.map_cons, List.map_cons, ih hrest]
    cases hfrom : (fromSnapshot s : Except PriceLevelError L) with
    | error =>
      rw [hfrom] at hfirst
      cases hfirst
    | ok =>
      rw [hfrom] at hfirst
      cases hfirst
      rw [LevelSnapshot.fromSnapshot_orders hfrom]

theorem convertLevels_perm {side : String} {levels : List PriceLevelSnapshot}
    (h : convertLevels side levels = .ok es) :
    (es.map fun e => (e.1, orders e.2)).Perm (levels.map fun s => (s.price, s.orders)) := by
  obtain ⟨converted, hmap, h⟩ := except_bind_eq_ok.mp h
  dsimp only at h
  split at h
  · cases h
  · cases h
    rw [← map_of_convert hmap]
    exact (List.perm_insertionSort _ _).map _

/-- **The prepared levels are those of the snapshot**, in another order. -/
theorem prepareSnapshotLevels_perm {p : PreparedSnapshotLevels L}
    (h : prepareSnapshotLevels s = .ok p) (side : Side) :
    ((p.levels side).map fun e => (e.1, orders e.2)).Perm
      ((s.levels side).map fun snap => (snap.price, snap.orders)) := by
  obtain ⟨bids, hbids, h⟩ := except_bind_eq_ok.mp h
  obtain ⟨asks, hasks, h⟩ := except_bind_eq_ok.mp h
  split at h
  · cases h
  · cases h
    cases side
    · exact convertLevels_perm hbids
    · exact convertLevels_perm hasks

omit [LevelSnapshot L] in
theorem queuedOrders_perm {levels : List PriceLevelSnapshot}
    (h : (es.map fun e => (e.1, orders e.2)).Perm (levels.map fun s => (s.price, s.orders))) :
    (queuedOrders es).Perm (levels.flatMap PriceLevelSnapshot.orders) := by
  have hflat := h.flatMap_right (Prod.snd : ℕ × List Order → List Order)
  rw [List.flatMap_map, List.flatMap_map] at hflat
  exact hflat

/-- The orders of the prepared levels are those of the snapshot. -/
theorem prepared_orders_perm {p : PreparedSnapshotLevels L} (h : prepareSnapshotLevels s = .ok p) :
    (queuedOrders p.bids ++ queuedOrders p.asks).Perm s.orders := by
  rw [OrderBookSnapshot.orders, List.flatMap_append]
  exact (queuedOrders_perm (prepareSnapshotLevels_perm h .buy)).append
    (queuedOrders_perm (prepareSnapshotLevels_perm h .sell))

/-- **Repetitions are refused.** -/
theorem prepareSnapshotLevels_of_repeats (hs : s.Repeats) (p : PreparedSnapshotLevels L) :
    prepareSnapshotLevels s ≠ .ok p := by
  intro h
  obtain ⟨hprices, hids, -⟩ := prepareSnapshotLevels_eq_ok h
  rcases hs with hs | ⟨side, hs⟩
  · refine hs (((prepared_orders_perm h).map Order.id).nodup_iff.mp ?_)
    rw [PreparedSnapshotLevels.placed, List.map_append, PreparedSnapshotLevels.placedOn_ids,
      PreparedSnapshotLevels.placedOn_ids] at hids
    rw [List.map_append]
    exact hids
  · have hperm := (prepareSnapshotLevels_perm h side).map Prod.fst
    rw [List.map_map, List.map_map] at hperm
    exact hs (hperm.nodup_iff.mp (hprices side))

theorem mem_prepared {p : PreparedSnapshotLevels L} (h : prepareSnapshotLevels s = .ok p)
    {queue : List Order} :
    (∃ l, (price, l) ∈ p.levels side ∧ orders l = queue) ↔
      ∃ snap ∈ s.levels side, snap.price = price ∧ snap.orders = queue := by
  have hmem := (prepareSnapshotLevels_perm h side).mem_iff (a := (price, queue))
  simp only [List.mem_map, Prod.mk.injEq, Prod.exists] at hmem
  constructor
  · rintro ⟨l, hl, hqueue⟩
    exact hmem.mp ⟨price, l, hl, rfl, hqueue⟩
  · intro hsnap
    obtain ⟨p', l, hl, rfl, hqueue⟩ := hmem.mpr hsnap
    exact ⟨l, hl, hqueue⟩

end Prepare

/-! ### Failure atomicity -/

/-- **Restore is failure-atomic**: a restore that fails leaves the whole book as it was, and every
snapshot that repeats an id or a price on one side makes it fail. -/
theorem restore_failure_atomic [LevelSnapshot L] [SnapshotChecksum] (b : OrderBook L)
    (s : OrderBookSnapshot) (p : OrderBookSnapshotPackage) :
    (∀ e b', restoreFromSnapshot s b = (.error e, b') → b' = b) ∧
      (∀ e b', restoreFromSnapshotPackage p b = (.error e, b') → b' = b) ∧
      (s.Repeats → ∃ e, restoreFromSnapshot s b = (.error e, b)) ∧
      (p.snapshot.Repeats → ∃ e, restoreFromSnapshotPackage p b = (.error e, b)) := by
  refine ⟨fun e b' hrun => ?_, fun e b' hrun => ?_, fun hs => ?_, fun hs => ?_⟩
  · rcases restoreFromSnapshot_cases s b with ⟨e', h⟩ | ⟨prepared, -, h⟩
    · exact congrArg Prod.snd (hrun.symm.trans h)
    · cases hrun.symm.trans h
  · rcases restoreFromSnapshotPackage_cases p b with ⟨e', h⟩ | ⟨prepared, -, h⟩
    · exact congrArg Prod.snd (hrun.symm.trans h)
    · cases hrun.symm.trans h
  · rcases restoreFromSnapshot_cases s b with h | ⟨prepared, hprepared, -⟩
    · exact h
    · exact absurd hprepared (prepareSnapshotLevels_of_repeats hs prepared)
  · rcases restoreFromSnapshotPackage_cases p b with h | ⟨prepared, hprepared, -⟩
    · exact h
    · exact absurd hprepared (prepareSnapshotLevels_of_repeats hs prepared)

/-- A bid of id `1` and an ask of id `ask`, at the given prices. -/
def quotesSnapshot (ask : OrderId) (bidPrice askPrice : ℕ) : OrderBookSnapshot where
  symbol := "BTC"
  timestamp := 0
  bids := [⟨bidPrice, 5, 0, 1, [⟨1, bidPrice, .buy, 7, 0, .gtc, 5, .standard⟩],
    ⟨1, 0, 0, 0, 0, false⟩⟩]
  asks := [⟨askPrice, 5, 0, 1, [⟨ask, askPrice, .sell, 8, 0, .gtc, 5, .standard⟩],
    ⟨1, 0, 0, 0, 0, false⟩⟩]

/-- One id on both sides. -/
theorem quotesSnapshot_failure_atomic :
    letI := noDigest
    let b : OrderBook FifoLevel := withClock "BTC" ⟨fun n => n, 0⟩
    (quotesSnapshot 1 99 101).Repeats ∧
      (∃ e, restoreFromSnapshot (quotesSnapshot 1 99 101) b = (.error e, b)) ∧
      ∃ e, restoreFromSnapshotPackage
        ⟨3, quotesSnapshot 1 99 101, "", none, .none, none, none, none,
        none, 0, false, none, 0, false⟩ b = (.error e, b) := by
  let _ := noDigest
  have hrepeats : (quotesSnapshot 1 99 101).Repeats := Or.inl (by decide)
  obtain ⟨-, -, hplain, hpackage⟩ := restore_failure_atomic
    (withClock "BTC" ⟨fun n => n, 0⟩ : OrderBook FifoLevel) (quotesSnapshot 1 99 101)
    ⟨3, quotesSnapshot 1 99 101, "", none, .none, none, none, none, none, 0, false, none, 0, false⟩
  exact ⟨hrepeats, hplain hrepeats, hpackage hrepeats⟩

/-! ### What a successful restore establishes -/

/-- The book holds exactly the orders of the snapshot, indexed, on no empty level, each where it
says it rests, uncrossed, and counted by the risk state if there is one. -/
structure WellRestored (s : OrderBookSnapshot) (b : OrderBook L) : Prop where
  holds : ∀ {side price o}, b.Rests side price o ↔
    ∃ snap ∈ s.levels side, snap.price = price ∧ o ∈ snap.orders
  indices : b.IndicesConsistent
  placed : ∀ {side price o}, b.Rests side price o → o.side = side ∧ o.price = price
  uncrossed : b.Uncrossed
  counted : b.riskState.config ≠ none → ∀ account,
    b.riskState.openCount account = (b.ordersOf account).length ∧
      b.riskState.restingNotional account =
        ((b.ordersOf account).map fun x => x.price * x.size).sum

omit [PriceLevel L] in
theorem riskState_foldl_reindexPlaced (rest : List (Side × ℕ × Order)) (b : OrderBook L) :
    (rest.foldl (reindexPlaced false) b).riskState = b.riskState := by
  induction rest generalizing b with
  | nil => rfl
  | cons x rest ih => exact ih _

/-- A plain restore leaves the risk state alone. -/
theorem riskState_commitRestoredLevels (b : OrderBook L) (prepared : PreparedSnapshotLevels L) :
    (b.commitRestoredLevels prepared false).riskState = b.riskState := by
  rw [commitRestoredLevels_eq]
  exact riskState_foldl_reindexPlaced prepared.placed (b.installed prepared)

section Restored

variable {s : OrderBookSnapshot} {b : OrderBook L} {prepared : PreparedSnapshotLevels L}
  {rebuildRisk : Bool}

omit [PriceLevel L] in
theorem perm_entries_of_get? {m : SkipMap L} (hnodup : (es.map Prod.fst).Nodup)
    (h : ∀ {p l}, m.get? p = some l ↔ (p, l) ∈ es) : m.entries.Perm es := by
  refine (List.perm_ext_iff_of_nodup m.nodup_keys.of_map hnodup.of_map).mpr fun e => ?_
  exact SortedMap.mem_entries_iff.trans h

variable [LevelSnapshot L] (hprep : prepareSnapshotLevels s = .ok prepared)
include hprep

theorem restored_rests {o : Order} :
    (b.commitRestoredLevels prepared rebuildRisk).Rests side price o ↔
      ∃ snap ∈ s.levels side, snap.price = price ∧ o ∈ snap.orders := by
  rw [commit_rests (prepareSnapshotLevels_eq_ok hprep).1, PreparedSnapshotLevels.mem_placed]
  constructor
  · rintro ⟨l, hl, ho⟩
    obtain ⟨snap, hsnap, hprice, horders⟩ := (mem_prepared hprep).mp ⟨l, hl, rfl⟩
    exact ⟨snap, hsnap, hprice, horders ▸ ho⟩
  · rintro ⟨snap, hsnap, hprice, ho⟩
    obtain ⟨l, hl, horders⟩ := (mem_prepared hprep).mpr ⟨snap, hsnap, hprice, rfl⟩
    exact ⟨l, hl, horders ▸ ho⟩

theorem restored_level {queue : List Order} :
    (∃ l, ((b.commitRestoredLevels prepared rebuildRisk).levels side).get? price = some l ∧
        orders l = queue) ↔
      ∃ snap ∈ s.levels side, snap.price = price ∧ snap.orders = queue := by
  rw [← mem_prepared hprep]
  simp only [commit_get? (prepareSnapshotLevels_eq_ok hprep).1]

theorem restored_hasLevel :
    (b.commitRestoredLevels prepared rebuildRisk).HasLevel side price ↔
      ∃ snap ∈ s.levels side, snap.price = price := by
  constructor
  · rintro ⟨l, hl⟩
    obtain ⟨snap, hsnap, hprice, -⟩ := (restored_level hprep).mp ⟨l, hl, rfl⟩
    exact ⟨snap, hsnap, hprice⟩
  · rintro ⟨snap, hsnap, hprice⟩
    obtain ⟨l, hl, -⟩ := (restored_level hprep).mpr ⟨snap, hsnap, hprice, rfl⟩
    exact ⟨l, hl⟩

/-- **The rebuilt indices describe exactly the restored orders**, whatever the snapshot. -/
theorem restored_indicesConsistent
    (hnonempty : ∀ {side snap}, snap ∈ s.levels side → snap.orders ≠ []) :
    (b.commitRestoredLevels prepared rebuildRisk).IndicesConsistent := by
  obtain ⟨hprices, hids, -⟩ := prepareSnapshotLevels_eq_ok hprep
  have hregisters : Registers prepared.placed (b.commitRestoredLevels prepared rebuildRisk) :=
    commit_registers hids
  refine .of_exact (fun i price side => ?_) (fun user i => ?_) hregisters.wellFormed ?_ ?_
  · rw [hregisters.lookup]
    simp only [commit_rests hprices]
  · rw [hregisters.listed]
    simp only [commit_rests hprices]
  · intro side price o side' price' o' ho ho' hid
    have heq := List.inj_on_of_nodup_map hids ((commit_rests hprices).mp ho)
      ((commit_rests hprices).mp ho') hid
    exact congrArg (fun x => x.2.2) heq
  · intro side price l hl
    obtain ⟨snap, hsnap, -, horders⟩ := (restored_level hprep).mp ⟨l, hl, rfl⟩
    rw [← horders]
    exact hnonempty hsnap

theorem restored_orders_perm :
    (b.commitRestoredLevels prepared rebuildRisk).restingOrders.Perm s.orders := by
  obtain ⟨hprices, -, -⟩ := prepareSnapshotLevels_eq_ok hprep
  have hside (side : Side) :
      ((b.commitRestoredLevels prepared rebuildRisk).levels side).entries.Perm
        (prepared.levels side) :=
    perm_entries_of_get? (hprices side) (commit_get? hprices)
  refine List.Perm.trans ?_ (prepared_orders_perm hprep)
  exact ((hside .buy).flatMap_right _).append ((hside .sell).flatMap_right _)

end Restored

/-- **A plain restore establishes a well-formed book** exactly when the snapshot is well formed
already and the counters of the book before happen to be those of the snapshot. -/
theorem well_restored_iff [LevelSnapshot L] {s : OrderBookSnapshot} {b b' : OrderBook L}
    (hrun : restoreFromSnapshot s b = (.ok (), b')) :
    WellRestored s b' ↔
      s.WellFormed ∧ (b.riskState.config ≠ none → s.CountedBy b.riskState) := by
  rcases restoreFromSnapshot_cases s b with ⟨e, h⟩ | ⟨prepared, hprep, h⟩
  · cases hrun.symm.trans h
  obtain rfl : b' = b.commitRestoredLevels prepared false :=
    congrArg Prod.snd (hrun.symm.trans h)
  have hrisk := riskState_commitRestoredLevels b prepared
  have hcounted : (∀ account, b.riskState.openCount account =
        ((b.commitRestoredLevels prepared false).ordersOf account).length ∧
      b.riskState.restingNotional account =
        (((b.commitRestoredLevels prepared false).ordersOf account).map
          fun x => x.price * x.size).sum) ↔ s.CountedBy b.riskState := by
    refine forall_congr' fun account => ?_
    have horders : (b.commitRestoredLevels prepared false).restingOrders.Perm s.orders :=
      restored_orders_perm hprep
    have hperm := horders.filter fun o => o.userId = account
    rw [ordersOf, hperm.length_eq, (hperm.map _).sum_eq]
  constructor
  · intro hwell
    refine ⟨⟨fun {side snap} hsnap => ?_, fun {side snap o} hsnap ho => ?_,
      fun {bid ask} hbid hask => ?_⟩, fun hconfig => ?_⟩
    · obtain ⟨l, hl, horders⟩ := (restored_level hprep).mpr ⟨snap, hsnap, rfl, rfl⟩
      rw [← horders]
      exact hwell.indices.levels_nonempty side snap.price l hl
    · exact hwell.placed ((restored_rests hprep).mpr ⟨snap, hsnap, rfl, ho⟩)
    · exact hwell.uncrossed _ _ ((restored_hasLevel hprep).mpr ⟨bid, hbid, rfl⟩)
        ((restored_hasLevel hprep).mpr ⟨ask, hask, rfl⟩)
    · have h := hwell.counted (by rwa [hrisk])
      rw [hrisk] at h
      exact hcounted.mp h
  · rintro ⟨hs, hcounts⟩
    refine ⟨restored_rests hprep, restored_indicesConsistent hprep hs.nonempty,
      fun {side price o} ho => ?_, fun bid ask hbid hask => ?_, fun hconfig => ?_⟩
    · obtain ⟨snap, hsnap, rfl, hmem⟩ := (restored_rests hprep).mp ho
      exact hs.placed hsnap hmem
    · obtain ⟨snap, hsnap, rfl⟩ := (restored_hasLevel hprep).mp hbid
      obtain ⟨snap', hsnap', rfl⟩ := (restored_hasLevel hprep).mp hask
      exact hs.uncrossed hsnap hsnap'
    · rw [hrisk] at hconfig ⊢
      exact hcounted.mpr (hcounts hconfig)

/-- A bid below an ask, restored into a new book. -/
theorem quotesSnapshot_well_restored :
    WellRestored (quotesSnapshot 2 99 101) (restoreFromSnapshot (quotesSnapshot 2 99 101)
      (withClock "BTC" ⟨fun n => n, 0⟩ : OrderBook FifoLevel)).2 := by
  refine (well_restored_iff (s := quotesSnapshot 2 99 101)
    (b := withClock "BTC" ⟨fun n => n, 0⟩) rfl).mpr ⟨⟨?_, ?_, ?_⟩, fun h => absurd rfl h⟩
  · intro side snap hsnap
    cases side <;> cases List.mem_singleton.mp hsnap <;> decide
  · intro side snap o hsnap ho
    cases side <;> cases List.mem_singleton.mp hsnap <;> cases List.mem_singleton.mp ho <;>
      decide
  · intro bid ask hbid hask
    cases List.mem_singleton.mp hbid
    cases List.mem_singleton.mp hask
    decide

/-- A bid above an ask is restored as it is. -/
theorem quotesSnapshot_not_well_restored :
    let b : OrderBook FifoLevel := withClock "BTC" ⟨fun n => n, 0⟩
    (restoreFromSnapshot (quotesSnapshot 2 101 99) b).1 = .ok () ∧
      ¬ WellRestored (quotesSnapshot 2 101 99)
        (restoreFromSnapshot (quotesSnapshot 2 101 99) b).2 := by
  intro b
  refine ⟨rfl, fun h => ?_⟩
  exact absurd (h.uncrossed 101 99 ⟨_, rfl⟩ ⟨_, rfl⟩) (by decide)

end OrderBookRs
