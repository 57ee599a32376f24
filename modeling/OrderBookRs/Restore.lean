import OrderBookRs.Calls

/-!
# What a restore leaves behind

A restore first prepares the levels of both sides and then installs them and registers their orders
one by one. This module reads off what rests in the restored book and what its indices say, in terms
of the list of prepared orders with their places.

## Main definitions

* `PreparedSnapshotLevels.placed`: the orders of the prepared levels, each with its side and price.

## Main results

* `prepareSnapshotLevels_eq_ok`: prepared levels have distinct prices, distinct ids, and come from
  the snapshot.
* `OrderBook.commit_rests`, `OrderBook.commit_registers`: the restored book.
-/

namespace OrderBookRs

open PriceLevel Fallible OrderBook

variable {L : Type} [PriceLevel L] {side : Side} {price : ℕ} {p : OrderBookSnapshotPackage}
  {es : List (ℕ × L)} {o : Order} {l : L}

/-! ### Preparing -/

theorem except_bind_eq_ok {ε α β : Type} {m : Except ε α} {f : α → Except ε β} {b : β} :
    (m >>= f) = .ok b ↔ ∃ a, m = .ok a ∧ f a = .ok b := by
  cases m with
  | error =>
    constructor
    · intro h
      cases h
    · rintro ⟨a, h, -⟩
      cases h
  | ok a =>
    constructor
    · exact fun h => ⟨a, rfl, h⟩
    · rintro ⟨a', ⟨⟩, h⟩
      exact h

theorem mem_of_mapM_eq_ok {ε α β : Type} {f : α → Except ε β} {xs : List α} {ys : List β}
    (h : xs.mapM f = .ok ys) : ∀ y ∈ ys, ∃ x ∈ xs, f x = .ok y := by
  induction xs generalizing ys with
  | nil =>
    cases h
    exact fun y hy => absurd hy List.not_mem_nil
  | cons x xs ih =>
    rw [List.mapM_cons] at h
    obtain ⟨y₀, hx, h⟩ := except_bind_eq_ok.mp h
    obtain ⟨ys', hxs, h⟩ := except_bind_eq_ok.mp h
    cases h
    intro y hy
    rcases List.mem_cons.mp hy with rfl | hy
    · exact ⟨x, List.mem_cons_self .., hx⟩
    · obtain ⟨x', hx', hy'⟩ := ih hxs y hy
      exact ⟨x', List.mem_cons_of_mem _ hx', hy'⟩

omit [PriceLevel L] in
/-- A sorted list in which no two neighbours share a price has no price twice. -/
theorem nodup_of_duplicatePrice (hsorted : es.Pairwise fun a b => a.1 ≤ b.1)
    (h : duplicatePrice es = none) : (es.map Prod.fst).Nodup := by
  induction es with
  | nil => exact List.nodup_nil
  | cons a es ih =>
    cases es with
    | nil => simp
    | cons b es =>
      rw [duplicatePrice] at h
      split_ifs at h with hab
      obtain ⟨ha, hrest⟩ := List.pairwise_cons.mp hsorted
      refine List.nodup_cons.mpr ⟨fun hmem => ?_, ih hrest h⟩
      obtain ⟨c, hc, hca⟩ := List.mem_map.mp hmem
      have hle := ha b (List.mem_cons_self ..)
      have hbc : b.1 ≤ c.1 := by
        rcases List.mem_cons.mp hc with rfl | hc
        · exact le_rfl
        · exact (List.pairwise_cons.mp hrest).1 c hc
      omega

theorem convertLevels_eq_ok {side : String} {levels : List PriceLevelSnapshot}
    (h : convertLevels side levels = .ok es) :
    (es.map Prod.fst).Nodup ∧ ∀ e ∈ es, ∃ s ∈ levels, s.price = e.1 ∧ fromSnapshot s = .ok e.2 := by
  obtain ⟨converted, hmap, h⟩ := except_bind_eq_ok.mp h
  dsimp only at h
  split at h
  · cases h
  · next hdup =>
    cases h
    refine ⟨nodup_of_duplicatePrice (List.pairwise_insertionSort ..) hdup, fun e he => ?_⟩
    obtain ⟨s, hs, hconv⟩ := mem_of_mapM_eq_ok hmap e ((List.mem_insertionSort _).mp he)
    refine ⟨s, hs, ?_⟩
    split at hconv
    · next hfrom =>
      cases hconv
      exact ⟨rfl, hfrom⟩
    · cases hconv

theorem nodup_of_duplicateId {ids seen : List OrderId} (h : duplicateId ids seen = none) :
    ids.Nodup ∧ ∀ i ∈ ids, i ∉ seen := by
  induction ids generalizing seen with
  | nil => exact ⟨List.nodup_nil, fun i hi => absurd hi List.not_mem_nil⟩
  | cons id ids ih =>
    rw [duplicateId] at h
    split_ifs at h with hseen
    obtain ⟨hnodup, hfresh⟩ := ih h
    refine ⟨List.nodup_cons.mpr ⟨fun hmem => hfresh id hmem (List.mem_cons_self ..), hnodup⟩, ?_⟩
    intro i hi
    rcases List.mem_cons.mp hi with rfl | hi
    · exact hseen
    · exact fun hmem => hfresh i hi (List.mem_cons_of_mem _ hmem)

/-- The levels of a side. -/
def OrderBookSnapshot.levels (s : OrderBookSnapshot) : Side → List PriceLevelSnapshot
  | .buy => s.bids
  | .sell => s.asks

namespace PreparedSnapshotLevels

/-- The orders of one side's levels, each with its place. -/
def placedOn (side : Side) (entries : List (ℕ × L)) : List (Side × ℕ × Order) :=
  entries.flatMap fun e => (orders e.2).map fun o => (side, e.1, o)

/-- The orders of the prepared levels, each with its place. -/
def placed (p : PreparedSnapshotLevels L) : List (Side × ℕ × Order) :=
  placedOn .buy p.bids ++ placedOn .sell p.asks

/-- The prepared levels of a side. -/
def levels (p : PreparedSnapshotLevels L) : Side → List (ℕ × L)
  | .buy => p.bids
  | .sell => p.asks

theorem placedOn_ids (side : Side) (entries : List (ℕ × L)) :
    (placedOn side entries).map (fun x => x.2.2.id) = (queuedOrders entries).map Order.id := by
  simp only [placedOn, queuedOrders, List.map_flatMap, List.map_map]
  rfl

theorem mem_placed {p : PreparedSnapshotLevels L} :
    (side, price, o) ∈ p.placed ↔ ∃ l, (price, l) ∈ p.levels side ∧ o ∈ orders l := by
  cases side <;> simp [placed, placedOn, levels]

end PreparedSnapshotLevels

/-- **What a successful preparation guarantees.** -/
theorem prepareSnapshotLevels_eq_ok {s : OrderBookSnapshot} {p : PreparedSnapshotLevels L}
    (h : prepareSnapshotLevels s = .ok p) :
    (∀ side, ((p.levels side).map Prod.fst).Nodup) ∧ (p.placed.map fun x => x.2.2.id).Nodup ∧
      ∀ side, ∀ e ∈ p.levels side, ∃ snap ∈ s.bids ++ s.asks, snap.price = e.1 ∧
        fromSnapshot snap = .ok e.2 := by
  obtain ⟨bids, hbids, h⟩ := except_bind_eq_ok.mp h
  obtain ⟨asks, hasks, h⟩ := except_bind_eq_ok.mp h
  obtain ⟨hbids, hfromBids⟩ := convertLevels_eq_ok hbids
  obtain ⟨hasks, hfromAsks⟩ := convertLevels_eq_ok hasks
  split at h
  · cases h
  · next hdup =>
    cases h
    refine ⟨fun side => ?_, ?_, fun side e he => ?_⟩
    · cases side
      · exact hbids
      · exact hasks
    · have hnodup := (nodup_of_duplicateId hdup).1
      rw [queuedOrders, List.flatMap_append, List.map_append] at hnodup
      rw [PreparedSnapshotLevels.placed, List.map_append, PreparedSnapshotLevels.placedOn_ids,
        PreparedSnapshotLevels.placedOn_ids]
      exact hnodup
    · cases side
      · obtain ⟨snap, hs, he⟩ := hfromBids e he
        exact ⟨snap, List.mem_append_left _ hs, he⟩
      · obtain ⟨snap, hs, he⟩ := hfromAsks e he
        exact ⟨snap, List.mem_append_right _ hs, he⟩

/-! ### Committing -/

omit [PriceLevel L] in
theorem installLevels_get? (hnodup : (es.map Prod.fst).Nodup) {p : ℕ} :
    (installLevels es).get? p = some l ↔ (p, l) ∈ es := by
  have hfold : ∀ (es : List (ℕ × L)) (m : SkipMap L), (es.map Prod.fst).Nodup →
      ((es.foldl (fun m e => m.insert e.1 e.2) m).get? p = some l ↔
        (p, l) ∈ es ∨ p ∉ es.map Prod.fst ∧ m.get? p = some l) := by
    intro es
    induction es with
    | nil => simp
    | cons e es ih =>
      intro m hnodup
      rw [List.map_cons, List.nodup_cons] at hnodup
      rw [List.foldl_cons, ih _ hnodup.2, SortedMap.get?_insert]
      by_cases hp : p = e.1
      · have hnot : ∀ l, (p, l) ∉ es := fun l hmem =>
          hnodup.1 (List.mem_map.mpr ⟨(p, l), hmem, hp⟩)
        have hkeys : p ∉ es.map Prod.fst := hp ▸ hnodup.1
        obtain ⟨k, v⟩ := e
        obtain rfl : p = k := hp
        simp only [hnot, false_or, hkeys, not_false_iff, true_and, if_true, List.mem_cons,
          Prod.mk.injEq, List.map_cons, not_true_eq_false, false_and, or_false,
          Option.some.injEq]
        exact eq_comm
      · obtain ⟨k, v⟩ := e
        have hp' : ¬ p = k := hp
        simp [hp']
  rw [installLevels, hfold es ∅ hnodup]
  simp

namespace OrderBook

variable {b : OrderBook L} {prepared : PreparedSnapshotLevels L} {rebuildRisk : Bool} {depth : ℕ}
  {b' : OrderBook L}

/-- Registering one placed order. -/
def reindexPlaced (rebuildRisk : Bool) (b : OrderBook L) (x : Side × ℕ × Order) : OrderBook L :=
  b.reindexOrder x.1 x.2.1 rebuildRisk x.2.2

theorem reindexSide_eq (side : Side) (rebuildRisk : Bool) (b : OrderBook L)
    (entries : List (ℕ × L)) : b.reindexSide side rebuildRisk entries =
      (PreparedSnapshotLevels.placedOn side entries).foldl (reindexPlaced rebuildRisk) b := by
  rw [reindexSide, PreparedSnapshotLevels.placedOn, List.foldl_flatMap]
  simp only [List.foldl_map]
  rfl

/-- The indices hold exactly the orders registered so far. -/
structure Registers (done : List (Side × ℕ × Order)) (b : OrderBook L) : Prop where
  lookup : ∀ {i price side}, b.orderLocations.lookup i = some (price, side) ↔
    ∃ o, (side, price, o) ∈ done ∧ o.id = i
  listed : ∀ {user i}, b.userOrders.Listed user i ↔
    ∃ side price o, (side, price, o) ∈ done ∧ o.id = i ∧ o.userId = user
  wellFormed : b.userOrders.WellFormed

omit [PriceLevel L] in
theorem Registers.step {done : List (Side × ℕ × Order)} {x : Side × ℕ × Order}
    (h : Registers done b) (hfresh : x.2.2.id ∉ done.map fun x => x.2.2.id) :
    Registers (done ++ [x]) (reindexPlaced rebuildRisk b x) := by
  obtain ⟨side, price, o⟩ := x
  have hnot : ∀ {s p y}, (s, p, y) ∈ done → y.id ≠ o.id := fun hy hid =>
    hfresh (List.mem_map.mpr ⟨_, hy, hid⟩)
  refine ⟨fun {i p s} => ?_, fun {user i} => ?_, ?_⟩
  · show (b.orderLocations.insert o.id (price, side)).lookup i = some (p, s) ↔ _
    by_cases hi : i = o.id
    · subst hi
      rw [AList.lookup_insert]
      constructor
      · intro h
        cases h
        exact ⟨o, by simp, rfl⟩
      · rintro ⟨y, hy, hid⟩
        rcases List.mem_append.mp hy with hy | hy
        · exact absurd hid (hnot hy)
        · cases List.mem_singleton.mp hy
          rfl
    · rw [AList.lookup_insert_ne hi, h.lookup]
      refine exists_congr fun y => and_congr_left fun hid => ?_
      have hne : ¬ y = o := fun e => hi (hid.symm.trans (congrArg Order.id e))
      simp [hne]
  · show (b.userOrders.track o.userId o.id).Listed user i ↔ _
    rw [UserOrders.listed_track, h.listed]
    constructor
    · rintro (⟨s, p, y, hy, hid, hu⟩ | ⟨rfl, rfl⟩)
      · exact ⟨s, p, y, List.mem_append_left _ hy, hid, hu⟩
      · exact ⟨side, price, o, by simp, rfl, rfl⟩
    · rintro ⟨s, p, y, hy, hid, hu⟩
      rcases List.mem_append.mp hy with hy | hy
      · exact Or.inl ⟨s, p, y, hy, hid, hu⟩
      · cases List.mem_singleton.mp hy
        exact Or.inr ⟨hu.symm, hid.symm⟩
  · refine h.wellFormed.track fun user hlisted => ?_
    obtain ⟨s, p, y, hy, hid, -⟩ := h.listed.mp hlisted
    exact hnot hy hid

omit [PriceLevel L] in
theorem Registers.foldl {done rest : List (Side × ℕ × Order)} (h : Registers done b)
    (hnodup : ((done ++ rest).map fun x => x.2.2.id).Nodup) :
    Registers (done ++ rest) (rest.foldl (reindexPlaced rebuildRisk) b) := by
  induction rest generalizing done b with
  | nil => rwa [List.append_nil]
  | cons x rest ih =>
    rw [List.append_cons] at hnodup ⊢
    have hfresh : x.2.2.id ∉ done.map fun x => x.2.2.id := by
      rw [List.map_append, List.map_append] at hnodup
      exact fun hmem => List.disjoint_of_nodup_append hnodup.of_append_left hmem (by simp)
    exact ih (h.step hfresh) hnodup

omit [PriceLevel L] in
/-- Registering orders touches the indices and the risk state only. -/
theorem foldl_reindexPlaced_frame (rest : List (Side × ℕ × Order)) (b : OrderBook L) :
    ∃ locations users special risk, rest.foldl (reindexPlaced rebuildRisk) b =
      { b with
        orderLocations := locations
        userOrders := users
        specialOrderTracker := special
        riskState := risk } := by
  induction rest generalizing b with
  | nil => exact ⟨_, _, _, _, rfl⟩
  | cons x rest ih =>
    obtain ⟨locations, users, special, risk, h⟩ := ih (reindexPlaced rebuildRisk b x)
    exact ⟨locations, users, special, risk, h⟩

/-- The book a restore starts registering from. -/
def installed (b : OrderBook L) (prepared : PreparedSnapshotLevels L) : OrderBook L :=
  { b with
    cache := b.cache.invalidate
    bids := installLevels prepared.bids
    asks := installLevels prepared.asks
    orderLocations := ∅
    userOrders := ∅
    specialOrderTracker := {}
    hasTraded := false
    lastTradePrice := 0
    hasMarketClose := false
    marketCloseTimestamp := 0 }

theorem commitRestoredLevels_eq : b.commitRestoredLevels prepared rebuildRisk =
    prepared.placed.foldl (reindexPlaced rebuildRisk) (b.installed prepared) := by
  rw [commitRestoredLevels, PreparedSnapshotLevels.placed, List.foldl_append, ← reindexSide_eq,
    ← reindexSide_eq]
  rfl

theorem commit_registers (hids : (prepared.placed.map fun x => x.2.2.id).Nodup) :
    Registers prepared.placed (b.commitRestoredLevels prepared rebuildRisk) := by
  rw [commitRestoredLevels_eq]
  have hstart : Registers [] (b.installed prepared) := by
    refine ⟨fun {i p s} => ?_, fun {user i} => ?_, UserOrders.wellFormed_empty⟩
    · exact iff_of_false (by simp [installed]) (by simp)
    · exact iff_of_false UserOrders.not_listed_empty (by simp)
  exact hstart.foldl hids

theorem commit_get? (hprices : ∀ side, ((prepared.levels side).map Prod.fst).Nodup) :
    ((b.commitRestoredLevels prepared rebuildRisk).levels side).get? price = some l ↔
      (price, l) ∈ prepared.levels side := by
  obtain ⟨_, _, _, _, h⟩ :=
    foldl_reindexPlaced_frame prepared.placed (b.installed prepared)
  rw [commitRestoredLevels_eq, h]
  cases side
  · exact installLevels_get? (hprices .buy)
  · exact installLevels_get? (hprices .sell)

/-- **What rests after a restore** are the prepared orders at their places. -/
theorem commit_rests (hprices : ∀ side, ((prepared.levels side).map Prod.fst).Nodup) :
    (b.commitRestoredLevels prepared rebuildRisk).Rests side price o ↔
      (side, price, o) ∈ prepared.placed := by
  rw [PreparedSnapshotLevels.mem_placed]
  exact exists_congr fun l => and_congr_left fun _ => commit_get? hprices

theorem restoreFromSnapshot_cases (s : OrderBookSnapshot) (b : OrderBook L) :
    (∃ e, restoreFromSnapshot s b = (.error e, b)) ∨
      ∃ prepared, prepareSnapshotLevels s = .ok prepared ∧
        restoreFromSnapshot s b = (.ok (), b.commitRestoredLevels prepared false) := by
  rw [restoreFromSnapshot]
  split
  · next e _ => exact Or.inl ⟨e, rfl⟩
  · next prepared hprep =>
    obtain ⟨_, -, hprep⟩ := except_bind_eq_ok.mp hprep
    exact Or.inr ⟨prepared, hprep, rfl⟩

/-- The book a package leaves behind: its levels, its configuration, and the counters rebuilt under
its limits. -/
def packageRestored (b : OrderBook L) (p : OrderBookSnapshotPackage)
    (prepared : PreparedSnapshotLevels L) : OrderBook L :=
  { ({ b with riskState := { config := p.riskConfig } } : OrderBook L).commitRestoredLevels
      prepared true with
    feeSchedule := p.feeSchedule
    stpMode := p.stpMode
    tickSize := p.tickSize
    lotSize := p.lotSize
    minOrderSize := p.minOrderSize
    maxOrderSize := p.maxOrderSize
    engineSeq := p.engineSeq
    killSwitch := p.killSwitchEngaged
    marketCloseTimestamp := p.marketCloseTimestamp
    hasMarketClose := p.hasMarketClose }

/-- **A package restore fails and changes nothing, or installs the package.** -/
theorem restoreFromSnapshotPackage_cases [SnapshotChecksum] (p : OrderBookSnapshotPackage)
    (b : OrderBook L) :
    (∃ e, restoreFromSnapshotPackage p b = (.error e, b)) ∨
      ∃ prepared, prepareSnapshotLevels p.snapshot = .ok prepared ∧
        restoreFromSnapshotPackage p b = (.ok (), b.packageRestored p prepared) := by
  rw [restoreFromSnapshotPackage]
  split
  · next e _ => exact Or.inl ⟨e, rfl⟩
  · next prepared hprep =>
    obtain ⟨_, -, hprep⟩ := except_bind_eq_ok.mp hprep
    obtain ⟨_, -, hprep⟩ := except_bind_eq_ok.mp hprep
    exact Or.inr ⟨prepared, hprep, rfl⟩

theorem packageRestored_registers (hids : (prepared.placed.map fun x => x.2.2.id).Nodup) :
    Registers prepared.placed (b.packageRestored p prepared) := by
  have h : Registers prepared.placed
      (({ b with riskState := { config := p.riskConfig } } : OrderBook L).commitRestoredLevels
        prepared true) := commit_registers hids
  exact ⟨h.lookup, h.listed, h.wellFormed⟩

theorem packageRestored_get? (hprices : ∀ side, ((prepared.levels side).map Prod.fst).Nodup) :
    ((b.packageRestored p prepared).levels side).get? price = some l ↔
      (price, l) ∈ prepared.levels side :=
  commit_get? (b := { b with riskState := { config := p.riskConfig } }) hprices

theorem packageRestored_rests (hprices : ∀ side, ((prepared.levels side).map Prod.fst).Nodup) :
    (b.packageRestored p prepared).Rests side price o ↔ (side, price, o) ∈ prepared.placed :=
  commit_rests (b := { b with riskState := { config := p.riskConfig } }) hprices

/-- **What a package holds**: every level in it is a level of the book it was taken of. -/
theorem mem_createSnapshotPackage [SnapshotChecksum] [LevelSnapshot L]
    (h : createSnapshotPackage depth b = (.ok p, b')) {snap : PriceLevelSnapshot}
    (hsnap : snap ∈ p.snapshot.levels side) :
    ∃ price l, (b.levels side).get? price = some l ∧ snap.price = PriceLevel.price l ∧
      snap.orders = orders l := by
  obtain ⟨p₀, hnew, h⟩ := except_bind_eq_ok.mp (Prod.mk.inj h).1
  cases h
  obtain ⟨checksum, -, hnew⟩ := except_bind_eq_ok.mp hnew
  cases hnew
  have hlevel : ∀ {m : SkipMap L} {es : List (ℕ × L)}, (∀ e ∈ es, e ∈ m.entries) →
      snap ∈ (es.map fun e => snapshot e.2).map (refreshAggregates L) →
      ∃ price l, m.get? price = some l ∧ snap.price = PriceLevel.price l ∧
        snap.orders = orders l := by
    intro m es hes hsnap
    obtain ⟨s, hs, rfl⟩ := List.mem_map.mp hsnap
    obtain ⟨e, he, rfl⟩ := List.mem_map.mp hs
    refine ⟨e.1, e.2, SortedMap.mem_entries_iff.mp (hes e he), ?_, ?_⟩
    · rw [LevelSnapshot.refresh_price, LevelSnapshot.snapshot_price]
    · rw [LevelSnapshot.refresh_orders, LevelSnapshot.snapshot_orders]
  cases side with
  | buy => exact hlevel (fun e he => List.mem_reverse.mp (List.mem_of_mem_take he)) hsnap
  | sell => exact hlevel (fun e he => List.mem_of_mem_take he) hsnap

theorem createSnapshotPackage_levels [SnapshotChecksum] [LevelSnapshot L]
    (h : createSnapshotPackage depth b = (.ok p, b')) :
    ∀ snap ∈ p.snapshot.bids ++ p.snapshot.asks,
      ∃ side price l, (b.levels side).get? price = some l ∧ snap.orders = orders l := by
  have hside : ∀ side {snap}, snap ∈ p.snapshot.levels side →
      ∃ side price l, (b.levels side).get? price = some l ∧ snap.orders = orders l := by
    intro side snap hsnap
    obtain ⟨price, l, hl, -, horders⟩ := mem_createSnapshotPackage h hsnap
    exact ⟨side, price, l, hl, horders⟩
  intro snap hsnap
  rcases List.mem_append.mp hsnap with hsnap | hsnap
  · exact hside .buy hsnap
  · exact hside .sell hsnap

end OrderBook

end OrderBookRs
