import OrderBookRs.RepricingAlike

/-!
# The snapshot round trip

A package carries the levels, the configuration and the sequence number of a book. The indices and
the risk counters are rebuilt from the levels; the last trade is not carried, and neither is what
the indices or the counters held beyond the resting orders. A book restored from the package behaves
as the live one does from then on if none of that makes a difference.

## Main definitions

* `OrderBook.carried`: the levels a package of unlimited depth carries.
* `RiskState.Counts`: the entries and counters of a list of orders and their places.
* `OrderBook.CarriedWhole`: nothing that the package leaves behind makes a difference.
* `RoundTrips`: a fresh book restores the package and behaves as the live one.

## Main results

* `restore_roundTrip`: a fresh book of the same symbol restores the package.
* `warm_roundTrip`: the restored and the live book are alike.
* `snapshot_roundTrips`: a book that is carried whole round trips.
-/

namespace OrderBookRs

open PriceLevel Fallible OrderBook

variable {L : Type} [PriceLevel L] {es : List (ℕ × L)} {r : RiskState}

/-! ### Levels -/

omit [PriceLevel L] in
theorem duplicatePrice_eq_none (h : es.Pairwise fun a b => a.1 < b.1) :
    duplicatePrice es = none := by
  induction es with
  | nil => rfl
  | cons a es ih =>
    cases es with
    | nil => rfl
    | cons b es =>
      obtain ⟨ha, hrest⟩ := List.pairwise_cons.mp h
      rw [duplicatePrice, if_neg (ha b (List.mem_cons_self ..)).ne]
      exact ih hrest

theorem duplicateId_eq_none {ids seen : List OrderId} (hnodup : ids.Nodup)
    (hseen : ∀ i ∈ ids, i ∉ seen) : duplicateId ids seen = none := by
  induction ids generalizing seen with
  | nil => rfl
  | cons id ids ih =>
    obtain ⟨hid, hnodup⟩ := List.nodup_cons.mp hnodup
    rw [duplicateId, if_neg (hseen id (List.mem_cons_self ..))]
    refine ih hnodup fun i hi hmem => ?_
    rcases List.mem_cons.mp hmem with rfl | hmem
    · exact hid hi
    · exact hseen i (List.mem_cons_of_mem _ hi) hmem

omit [PriceLevel L] in
theorem installLevels_entries (m : SkipMap L) : installLevels m.entries = m := by
  refine SortedMap.ext_get? fun k => Option.ext fun l => ?_
  rw [installLevels_get? m.nodup_keys, SortedMap.mem_entries_iff]

section Levels

variable [LevelSnapshot L] [LevelRoundTrip L]

/-- The refreshed snapshots of levels stored at their own price convert back to those levels. -/
theorem mapM_fromSnapshot (hkeys : ∀ e ∈ es, price e.2 = e.1) :
    ((es.map fun e => refreshAggregates L (snapshot e.2)).mapM fun s =>
      match fromSnapshot s with
      | .ok level => (.ok (s.price, level) : Except OrderBookError (ℕ × L))
      | .error e => .error (.priceLevelError e)) = .ok es := by
  induction es with
  | nil => rfl
  | cons e es ih =>
    have hprice : (refreshAggregates L (snapshot e.2)).price = e.1 := by
      rw [LevelSnapshot.refresh_price, LevelSnapshot.snapshot_price,
        hkeys e (List.mem_cons_self ..)]
    rw [List.map_cons, List.mapM_cons, ih fun e' he' => hkeys e' (List.mem_cons_of_mem _ he'),
      LevelRoundTrip.fromSnapshot_snapshot, hprice]
    rfl

/-- **One side round trips**, in whatever order its levels are listed. -/
theorem convertLevels_roundTrip (side : String) {m : SkipMap L} (hperm : es.Perm m.entries)
    (hkeys : ∀ e ∈ m.entries, price e.2 = e.1) :
    convertLevels side (es.map fun e => refreshAggregates L (snapshot e.2)) = .ok m.entries := by
  have hsorted : es.insertionSort (fun a b => a.1 ≤ b.1) = m.entries := by
    refine List.Perm.eq_of_pairwise (fun a b ha hb hab hba => ?_) (List.pairwise_insertionSort _ es)
      (m.sorted.imp le_of_lt) ((List.perm_insertionSort _ es).trans hperm)
    have ha' : (a.1, a.2) ∈ m.entries := hperm.mem_iff.mp ((List.mem_insertionSort _).mp ha)
    have hb' : (a.1, b.2) ∈ m.entries := by
      rw [le_antisymm hab hba]
      exact hb
    exact Prod.ext (le_antisymm hab hba) (SortedMap.eq_of_mem_entries ha' hb')
  refine except_bind_eq_ok.mpr ⟨es, mapM_fromSnapshot fun e he => hkeys e (hperm.mem_iff.mp he), ?_⟩
  simp only [hsorted, duplicatePrice_eq_none m.sorted]

/-- The levels a package of unlimited depth carries. -/
def OrderBook.carried (b : OrderBook L) : PreparedSnapshotLevels L :=
  ⟨b.bids.entries, b.asks.entries⟩

theorem prepareSnapshotLevels_roundTrip [LevelQueue L] {b : OrderBook L} (hsound : b.Sound)
    (hkeyed : b.Keyed) {s : OrderBookSnapshot}
    (hbids : s.bids = b.bids.entries.reverse.map fun e => refreshAggregates L (snapshot e.2))
    (hasks : s.asks = b.asks.entries.map fun e => refreshAggregates L (snapshot e.2)) :
    prepareSnapshotLevels s = .ok b.carried := by
  have hkeys : ∀ side, ∀ e ∈ (b.levels side).entries, price e.2 = e.1 := fun side e he =>
    hkeyed (SortedMap.mem_entries_iff.mp he)
  have hids : duplicateId ((queuedOrders (b.bids.entries ++ b.asks.entries)).map Order.id) [] =
      none := by
    refine duplicateId_eq_none ?_ fun _ _ => List.not_mem_nil
    rw [queuedOrders, List.flatMap_append]
    exact hsound.nodup_restingOrders
  rw [prepareSnapshotLevels, hbids, hasks]
  refine except_bind_eq_ok.mpr
    ⟨b.bids.entries, convertLevels_roundTrip "bid" (List.reverse_perm _) (hkeys .buy), ?_⟩
  refine except_bind_eq_ok.mpr
    ⟨b.asks.entries, convertLevels_roundTrip "ask" (List.Perm.refl _) (hkeys .sell), ?_⟩
  rw [hids]
  rfl

end Levels

/-! ### Risk counters -/

/-- The risk entry of an order at its place. -/
def placedEntry (x : Side × ℕ × Order) : RiskEntry :=
  ⟨x.2.2.userId, x.2.1, satAdd64 x.2.2.visibleQuantity x.2.2.hiddenQuantity⟩

/-- The counters of an account with these orders: their number and their notional; an account
without orders has none. -/
def placedCounters (xs : List (Side × ℕ × Order)) : Option RiskCounters :=
  if xs = [] then none
  else some ⟨xs.length, (xs.map fun x => (placedEntry x).notional).sum % 2 ^ 128⟩

namespace RiskState

/-- The risk layer holds the entries and the counters of these orders, and no others. -/
structure Counts (r : RiskState) (placed : List (Side × ℕ × Order)) : Prop where
  entries : ∀ i, r.orders.lookup i = (placed.find? fun x => x.2.2.id = i).map placedEntry
  counters : ∀ account, r.counters.lookup account =
    placedCounters (placed.filter fun x => x.2.2.userId = account)

/-- Risk states that count the same orders under the same limits are alike. -/
theorem Counts.alike {r' : RiskState} {placed : List (Side × ℕ × Order)}
    (hconfig : r'.config = r.config) (h : r.config ≠ none → r.Counts placed)
    (h' : r.config ≠ none → r'.Counts placed) : r.Alike r' where
  config_eq := hconfig
  orders hon i := ((h' hon).entries i).trans ((h hon).entries i).symm
  counters hon account := ((h' hon).counters account).trans ((h hon).counters account).symm

/-- Admitting one more order, with a new id. -/
theorem Counts.admission {placed : List (Side × ℕ × Order)} (h : r.Counts placed)
    (hon : r.config ≠ none) {x : Side × ℕ × Order}
    (hfresh : x.2.2.id ∉ placed.map fun y => y.2.2.id) :
    (r.onAdmission x.2.2.id x.2.2.userId x.2.1
      (satAdd64 x.2.2.visibleQuantity x.2.2.hiddenQuantity)).Counts (placed ++ [x]) := by
  obtain ⟨side, price, o⟩ := x
  obtain ⟨cfg, hcfg⟩ := Option.ne_none_iff_exists'.mp hon
  simp only [onAdmission, hcfg]
  refine ⟨fun i => ?_, fun account => ?_⟩
  · by_cases hi : i = o.id
    · have hnone : placed.find? (fun y => y.2.2.id = i) = none := by
        refine List.find?_eq_none.mpr fun y hy hid => hfresh (List.mem_map.mpr ⟨y, hy, ?_⟩)
        rw [← hi]
        exact of_decide_eq_true hid
      rw [hi, AList.lookup_insert, ← hi, List.find?_append, hnone]
      simp [hi, placedEntry]
    · have hlast : [(side, price, o)].find? (fun y => y.2.2.id = i) = none := by
        simpa using fun hid : o.id = i => hi hid.symm
      rw [AList.lookup_insert_ne hi, h.entries, List.find?_append, hlast, Option.or_none]
  · by_cases haccount : account = o.userId
    · have hcount := h.counters o.userId
      rw [haccount, AList.lookup_insert, List.filter_append, placedCounters]
      rw [openCount, restingNotional, hcount, placedCounters]
      by_cases hnil : placed.filter (fun y => y.2.2.userId = o.userId) = []
      · simp [hnil, placedEntry]
      · simp [hnil, placedEntry, Nat.add_mod]
    · have hlast : [(side, price, o)].filter (fun y => y.2.2.userId = account) = [] := by
        simpa using fun huser : o.userId = account => haccount huser.symm
      rw [AList.lookup_insert_ne haccount, h.counters, List.filter_append, hlast, List.append_nil]

theorem config_foldl_onAdmission (r : RiskState) (placed : List (Side × ℕ × Order)) :
    (placed.foldl (fun r x => r.onAdmission x.2.2.id x.2.2.userId x.2.1
      (satAdd64 x.2.2.visibleQuantity x.2.2.hiddenQuantity)) r).config = r.config := by
  induction placed generalizing r with
  | nil => rfl
  | cons x placed ih => rw [List.foldl_cons, ih, config_onAdmission]

/-- **Admitting orders one by one counts them.** -/
theorem counts_foldl (hon : r.config ≠ none) (horders : r.orders = ∅) (hcounters : r.counters = ∅)
    {placed : List (Side × ℕ × Order)} (hids : (placed.map fun x => x.2.2.id).Nodup) :
    (placed.foldl (fun r x => r.onAdmission x.2.2.id x.2.2.userId x.2.1
      (satAdd64 x.2.2.visibleQuantity x.2.2.hiddenQuantity)) r).Counts placed := by
  induction placed using List.reverseRecOn with
  | nil =>
    refine ⟨fun i => ?_, fun account => ?_⟩
    · rw [List.foldl_nil, horders]
      rfl
    · rw [List.foldl_nil, hcounters]
      rfl
  | append_singleton placed x ih =>
    rw [List.map_append] at hids
    have hfresh : x.2.2.id ∉ placed.map fun y => y.2.2.id := fun hmem =>
      List.disjoint_of_nodup_append hids hmem (by simp)
    rw [List.foldl_append, List.foldl_cons, List.foldl_nil]
    refine (ih hids.of_append_left).admission ?_ hfresh
    rwa [config_foldl_onAdmission]

end RiskState

omit [PriceLevel L] in
theorem riskState_foldl_reindexPlaced_true (rest : List (Side × ℕ × Order)) (b : OrderBook L) :
    (rest.foldl (reindexPlaced true) b).riskState =
      rest.foldl (fun r x => r.onAdmission x.2.2.id x.2.2.userId x.2.1
        (satAdd64 x.2.2.visibleQuantity x.2.2.hiddenQuantity)) b.riskState := by
  induction rest generalizing b with
  | nil => rfl
  | cons x rest ih => exact ih (reindexPlaced true b x)

/-! ### Restoring the package -/

namespace OrderBook

variable [SnapshotChecksum] {b b₁ : OrderBook L} {depth : ℕ} {p : OrderBookSnapshotPackage}

/-- What a package of unlimited depth holds. -/
theorem createSnapshotPackage_eq (hrun : createSnapshotPackage depth b = (.ok p, b₁))
    (hdepth : ∀ side, (b.levels side).entries.length ≤ depth) :
    b₁ = { b with clock := b.clock.tick } ∧
      ∃ s checksum, SnapshotChecksum.computeChecksum s = .ok checksum ∧ s.symbol = b.symbol ∧
        (s.bids = b.bids.entries.reverse.map fun e => refreshAggregates L (snapshot e.2)) ∧
        (s.asks = b.asks.entries.map fun e => refreshAggregates L (snapshot e.2)) ∧
        p = { version := snapshotFormatVersion, snapshot := s, checksum := checksum,
              feeSchedule := b.feeSchedule, stpMode := b.stpMode, tickSize := b.tickSize,
              lotSize := b.lotSize, minOrderSize := b.minOrderSize, maxOrderSize := b.maxOrderSize,
              engineSeq := b.engineSeq, killSwitchEngaged := b.killSwitch,
              riskConfig := b.riskState.config, marketCloseTimestamp := b.marketCloseTimestamp,
              hasMarketClose := b.hasMarketClose } := by
  obtain ⟨p₀, hnew, hp⟩ := except_bind_eq_ok.mp (Prod.mk.inj hrun).1
  obtain ⟨checksum, hchecksum, hnew⟩ := except_bind_eq_ok.mp hnew
  cases hnew
  cases hp
  refine ⟨(Prod.mk.inj hrun).2.symm, _, checksum, hchecksum, rfl, ?_, ?_, rfl⟩
  · have hbids : b.bids.entries.reverse.length ≤ depth := by
      rw [List.length_reverse]
      exact hdepth .buy
    simp only [createSnapshot, List.take_of_length_le hbids, List.map_map]
    rfl
  · have hasks : b.asks.entries.length ≤ depth := hdepth .sell
    simp only [createSnapshot, List.take_of_length_le hasks, List.map_map]
    rfl

variable [LevelSnapshot L] [LevelRoundTrip L] [LevelQueue L]

/-- **A book of the same symbol restores the package.** -/
theorem restore_roundTrip (hrun : createSnapshotPackage depth b = (.ok p, b₁))
    (hdepth : ∀ side, (b.levels side).entries.length ≤ depth) (hsound : b.Sound) (hkeyed : b.Keyed)
    {fresh : OrderBook L} (hsymbol : fresh.symbol = b.symbol) :
    restoreFromSnapshotPackage p fresh = (.ok (), fresh.packageRestored p b.carried) := by
  obtain ⟨-, s, checksum, hchecksum, hs, hbids, hasks, hp⟩ := createSnapshotPackage_eq hrun hdepth
  have hversion : p.version = snapshotFormatVersion := by rw [hp]
  have hsnapshot : p.snapshot = s := by rw [hp]
  have hdigest : p.checksum = checksum := by rw [hp]
  have hvalid : p.validate = .ok () := by
    refine except_bind_eq_ok.mpr ⟨(), ?_, except_bind_eq_ok.mpr ⟨checksum, ?_, ?_⟩⟩
    · rw [hversion]
      rfl
    · rw [hsnapshot, hchecksum]
    · rw [refuse, hdigest, if_neg (by simp)]
  have hsame : fresh.ensureSnapshotSymbol p.snapshot = .ok () := by
    rw [ensureSnapshotSymbol, refuse, hsnapshot, hs, hsymbol, if_neg (by simp)]
  have hprepared : prepareSnapshotLevels p.snapshot = .ok b.carried := by
    rw [hsnapshot]
    exact prepareSnapshotLevels_roundTrip hsound hkeyed hbids hasks
  have hchecks : (do
      p.validate
      fresh.ensureSnapshotSymbol p.snapshot
      prepareSnapshotLevels p.snapshot : Except OrderBookError (PreparedSnapshotLevels L)) =
        .ok b.carried := by
    rw [hvalid, hsame, hprepared]
    rfl
  rw [restoreFromSnapshotPackage, hchecks]
  rfl

end OrderBook

/-! ### The comparison -/

/-- How the live and the restored book are compared: one clock; the user lists may be in another
order; the trades since the snapshot are the same. -/
def sinceSnapshot (close : Option ℕ) (lastTrade : Prop) (before before' : List Trade) :
    Comparison where
  close := close
  lastTrade := lastTrade
  clocks k k' := k' = k
  users _ _ := True
  trades ts ts' := ∃ new, ts = before ++ new ∧ ts' = before' ++ new
  noUsers := trivial
  tick h := by rw [h]
  track _ _ _ := trivial
  untrackUser _ _ _ := trivial
  untrackById _ _ := trivial
  append := by
    rintro ts ts' ⟨new, rfl, rfl⟩ more
    exact ⟨new ++ more, List.append_assoc .., List.append_assoc ..⟩

theorem judges_sinceSnapshot {close : Option ℕ} {lastTrade : Prop} {before before' : List Trade}
    (timeInForce : TimeInForce) :
    (sinceSnapshot close lastTrade before before').Judges L timeInForce := by
  rintro k _ rfl
  rfl

/-- Nothing that the package leaves behind makes a difference to these calls: the cached best prices
are right; every located id rests; under a risk configuration the risk layer holds the entries and
counters of the resting orders; and there is no last trade, or neither a price band nor an order on
the book or among the calls refers to it. -/
structure OrderBook.CarriedWhole (b : OrderBook L) (calls : List BookCall) : Prop where
  cached : b.Truthful
  located : ∀ i, b.orderLocations.lookup i ≠ none → b.Holds i
  counted : b.riskState.config ≠ none → b.riskState.Counts b.carried.placed
  lastTrade : b.lastTrade = none ∨
    (∀ cfg, b.riskState.config = some cfg → cfg.readsLastTrade = false) ∧
      (b.EveryOrder fun o => o.pegsLastTrade = false) ∧
      ∀ o, .command (.addOrder o) ∈ calls ∨ .command (.addOrderWithResult o) ∈ calls →
        o.pegsLastTrade = false

namespace OrderBook

variable {b b₁ : OrderBook L} {depth : ℕ} {p : OrderBookSnapshotPackage} {o : Order}

/-- A new book that restores a package has nothing but what the package carries. -/
theorem packageRestored_withClock (symbol : String) (clock : Clock) (p : OrderBookSnapshotPackage)
    (prepared : PreparedSnapshotLevels L) : ∃ locations users special,
      (withClock symbol clock : OrderBook L).packageRestored p prepared =
        { symbol := symbol, clock := clock, bids := installLevels prepared.bids
          asks := installLevels prepared.asks, orderLocations := locations, userOrders := users
          specialOrderTracker := special
          riskState := prepared.placed.foldl (fun r x => r.onAdmission x.2.2.id x.2.2.userId x.2.1
            (satAdd64 x.2.2.visibleQuantity x.2.2.hiddenQuantity)) { config := p.riskConfig }
          feeSchedule := p.feeSchedule, stpMode := p.stpMode, tickSize := p.tickSize
          lotSize := p.lotSize, minOrderSize := p.minOrderSize, maxOrderSize := p.maxOrderSize
          engineSeq := p.engineSeq, killSwitch := p.killSwitchEngaged
          marketCloseTimestamp := p.marketCloseTimestamp, hasMarketClose := p.hasMarketClose } := by
  rw [packageRestored, commitRestoredLevels_eq]
  generalize hfresh : OrderBook.installed _ prepared = fresh
  have hrisk := riskState_foldl_reindexPlaced_true prepared.placed fresh
  obtain ⟨locations, users, special, risk, hfold⟩ := foldl_reindexPlaced_frame prepared.placed fresh
  rw [hfold] at hrisk ⊢
  obtain rfl : risk = _ := hrisk
  subst hfresh
  exact ⟨locations, users, special, rfl⟩

theorem CarriedWhole.pegs {calls : List BookCall} (h : b.CarriedWhole calls) :
    b.EveryOrder fun o => b.lastTrade = none ∨ o.pegsLastTrade = false := by
  intro side price l hl o ho
  exact h.lastTrade.imp_right fun hlast => hlast.2.1 hl o ho

theorem CarriedWhole.added {calls : List BookCall} (h : b.CarriedWhole calls)
    (ho : .command (.addOrder o) ∈ calls ∨ .command (.addOrderWithResult o) ∈ calls) :
    b.lastTrade = none ∨ o.pegsLastTrade = false :=
  h.lastTrade.imp_right fun hlast => hlast.2.2 o ho

/-- The orders a package carries are those that rest. -/
theorem mem_carried_placed {side : Side} {price : ℕ} :
    (side, price, o) ∈ b.carried.placed ↔ b.Rests side price o := by
  rw [PreparedSnapshotLevels.mem_placed]
  refine exists_congr fun l => and_congr_left fun _ => ?_
  cases side
  · exact SortedMap.mem_entries_iff
  · exact SortedMap.mem_entries_iff

theorem Sound.nodup_carried [LevelQueue L] (hsound : b.Sound) :
    (b.carried.placed.map fun x => x.2.2.id).Nodup := by
  rw [PreparedSnapshotLevels.placed, List.map_append, PreparedSnapshotLevels.placedOn_ids,
    PreparedSnapshotLevels.placedOn_ids, ← List.map_append]
  exact hsound.nodup_restingOrders

/-- The index a restore rebuilds gives the same locations, if every located id rests. -/
theorem CarriedWhole.locations {calls : List BookCall} (h : b.CarriedWhole calls) (hsound : b.Sound)
    {locations : AssocMap OrderId (ℕ × Side)} (hlookup : ∀ {i price side},
      locations.lookup i = some (price, side) ↔
        ∃ o, (side, price, o) ∈ b.carried.placed ∧ o.id = i) :
    AssocMap.Alike b.orderLocations locations := by
  refine fun i => Option.ext fun place => ?_
  obtain ⟨price, side⟩ := place
  refine hlookup.trans ⟨?_, fun hloc => ?_⟩
  · rintro ⟨o, ho, rfl⟩
    exact hsound.located (mem_carried_placed.mp ho)
  · obtain ⟨side', price', o, ho, rfl⟩ := h.located i (by rw [hloc]; exact Option.some_ne_none _)
    rw [hsound.located ho] at hloc
    cases hloc
    exact ⟨o, mem_carried_placed.mpr ho, rfl⟩

variable [SnapshotChecksum] [LevelQueue L]

/-- **The restored and the live book are alike.** -/
theorem warm_roundTrip (hrun : createSnapshotPackage depth b = (.ok p, b₁))
    (hdepth : ∀ side, (b.levels side).entries.length ≤ depth) (hsound : b.Sound)
    (hlevel : b.priceLevelChangedListener = none) (htrade : b.tradeListener = none)
    {calls : List BookCall} (h : b.CarriedWhole calls) :
    b₁.Warm (sinceSnapshot b.marketCloseForExpiry (b.lastTrade = none) b.fills [])
      ((withClock b.symbol b₁.clock : OrderBook L).packageRestored p b.carried) := by
  obtain ⟨rfl, s, checksum, -, -, -, -, hp⟩ := createSnapshotPackage_eq hrun hdepth
  have hregisters := packageRestored_registers (p := p)
    (b := (withClock b.symbol b.clock.tick : OrderBook L)) hsound.nodup_carried
  obtain ⟨locations, users, special, hrestored⟩ :=
    packageRestored_withClock (L := L) b.symbol b.clock.tick p b.carried
  have hlocations : AssocMap.Alike b.orderLocations locations := by
    rw [hrestored] at hregisters
    exact h.locations hsound hregisters.lookup
  have hlast : b.lastTrade = none ∨ ¬ b.lastTrade = none ∧
      ∀ cfg, b.riskState.config = some cfg → cfg.readsLastTrade = false := by
    by_cases hnone : b.lastTrade = none
    · exact Or.inl hnone
    · exact Or.inr ⟨hnone, (h.lastTrade.resolve_left hnone).1⟩
  have hrisk : b.riskState.Alike (b.carried.placed.foldl (fun r x => r.onAdmission x.2.2.id
      x.2.2.userId x.2.1 (satAdd64 x.2.2.visibleQuantity x.2.2.hiddenQuantity))
        { config := b.riskState.config }) :=
    RiskState.Counts.alike (RiskState.config_foldl_onAdmission ..) h.counted
      fun hon => RiskState.counts_foldl (r := { config := b.riskState.config }) hon rfl rfl
        hsound.nodup_carried
  have hriskConfig : p.riskConfig = b.riskState.config := by rw [hp]
  rw [hriskConfig] at hrestored
  generalize b.carried.placed.foldl _ _ = risk at hrestored hrisk
  rw [hrestored]
  refine ⟨⟨?_, hlocations, hrisk, hlast.imp_left Eq.symm, trivial, rfl, ⟨[], ?_, rfl⟩, rfl, hlevel,
    htrade⟩, ?_, ?_⟩
  · refine ⟨locations, users, risk, special, 0, false, {}, b.clock.tick, none, [], [], ?_⟩
    rw [hp, hlevel, htrade]
    simp only [carried, installLevels_entries]
  · exact (List.append_nil _).symm
  · exact h.cached.congr rfl fun _ => Or.inr fun _ => Iff.rfl
  · refine .of_unread fun side => ?_
    cases side <;> rfl

end OrderBook

/-! ### Whole runs -/

section Runs

variable [LevelQueue L] [LevelMatch L] [LevelResize L]

variable [DisplayId]

/-- The two books answer the calls alike: they give the same replies, make the same trades and end
with the same levels, queues included. -/
structure OrderBook.BehavesAlike (b b' : OrderBook L) (calls : List BookCall) : Prop where
  replies : (b'.callAll calls).1 = (b.callAll calls).1
  trades : ∃ new, (b.callAll calls).2.fills = b.fills ++ new ∧
    (b'.callAll calls).2.fills = b'.fills ++ new
  levels : (b'.callAll calls).2.levels = (b.callAll calls).2.levels

/-- What a run of two books in parallel keeps: they are alike, sound and registered, and no order
pegs to a last trade that may differ. -/
structure OrderBook.Parallel (c : Comparison) (b b' : OrderBook L) : Prop where
  warm : b.Warm c b'
  registered : b.Sound ∧ b.Registered
  registered' : b'.Sound ∧ b'.Registered
  pegs : b.EveryOrder fun o => c.lastTrade ∨ o.pegsLastTrade = false

/-- A call that the parallel run covers: it does not cancel by user, and adds no order that pegs to
a last trade that may differ. -/
def BookCall.Covered (lastTrade : Prop) (call : BookCall) : Prop :=
  (∀ user, call ≠ .command (.cancelOrdersByUser user)) ∧
    ∀ o, call = .command (.addOrder o) ∨ call = .command (.addOrderWithResult o) →
      lastTrade ∨ o.pegsLastTrade = false

namespace OrderBook.Parallel

variable {close : Option ℕ} {lastTrade : Prop} {before before' : List Trade} {b b' : OrderBook L}

/-- One call on both books. -/
theorem call (h : b.Parallel (sinceSnapshot close lastTrade before before') b') {call : BookCall}
    (hcall : call.Covered lastTrade) :
    (b'.call call).1 = (b.call call).1 ∧
      (b.call call).2.Parallel (sinceSnapshot close lastTrade before before') (b'.call call).2 := by
  cases call with
  | command cmd =>
    have hsuits : Suits (sinceSnapshot close lastTrade before before') b cmd := by
      refine ⟨fun _ => judges_sinceSnapshot _,
        fun _ _ => judges_sinceSnapshot _, fun user hcmd => ?_⟩
      exact absurd (congrArg BookCall.command hcmd) (hcall.1 user)
    obtain ⟨hreply, hwarm⟩ := h.warm.execute hsuits
    have hresizes : cmd.ResizesTo fun _ => True := fun _ _ _ => trivial
    refine ⟨congrArg CallReply.command hreply, hwarm,
      Registered.steps.calls.execute hresizes h.registered,
      Registered.steps.calls.execute hresizes h.registered', ?_⟩
    refine (lasting_pegsLastTrade lastTrade).execute h.pegs fun o ho => hcall.2 o ?_
    exact ho.imp (congrArg BookCall.command) (congrArg BookCall.command)
  | reprice r =>
    obtain ⟨hreply, hwarm⟩ :=
      h.warm.reprice judges_sinceSnapshot h.registered h.registered' h.pegs r
    exact ⟨hreply, hwarm, Registered.repricing.reprice r h.registered,
      Registered.repricing.reprice r h.registered',
      (lasting_pegsLastTrade lastTrade).repricing.reprice r h.pegs⟩

/-- **Covered calls keep two books in parallel**, with the same replies. -/
theorem callAll (h : b.Parallel (sinceSnapshot close lastTrade before before') b')
    {calls : List BookCall} (hcalls : ∀ call ∈ calls, call.Covered lastTrade) :
    (b'.callAll calls).1 = (b.callAll calls).1 ∧
      (b.callAll calls).2.Parallel (sinceSnapshot close lastTrade before before')
        (b'.callAll calls).2 := by
  induction calls generalizing b b' with
  | nil => exact ⟨rfl, h⟩
  | cons c calls ih =>
    obtain ⟨hreply, hnext⟩ := h.call (hcalls c (List.mem_cons_self ..))
    obtain ⟨hreplies, hend⟩ := ih hnext (List.forall_mem_cons.mp hcalls).2
    refine ⟨?_, hend⟩
    simp only [OrderBook.callAll, hreply, hreplies]

theorem behavesAlike (h : b.Parallel (sinceSnapshot close lastTrade b.fills b'.fills) b')
    {calls : List BookCall} (hcalls : ∀ call ∈ calls, call.Covered lastTrade) :
    b.BehavesAlike b' calls := by
  obtain ⟨hreplies, hend⟩ := h.callAll hcalls
  exact ⟨hreplies, hend.warm.trades, hend.warm.levels_eq⟩

end OrderBook.Parallel

/-! ### The round trip -/

variable [SnapshotChecksum]

/-- **The round trip.** A new book of the same symbol and clock restores the package, and from then
on answers the calls as the live book does. -/
def RoundTrips (depth : ℕ) (b : OrderBook L) (calls : List BookCall) : Prop :=
  ∀ p b₁, createSnapshotPackage depth b = (.ok p, b₁) →
    ∃ restored, restoreFromSnapshotPackage p (withClock b.symbol b₁.clock) = (.ok (), restored) ∧
      b₁.BehavesAlike restored calls

variable [LevelDisplay L] [LevelSnapshot L]

/-- **What is carried whole round trips.** Every reachable book without listeners of which the
package of unlimited depth leaves nothing behind that makes a difference behaves, restored, as it
does live, whatever calls follow. -/
theorem snapshot_roundTrips [LevelRoundTrip L] {b : OrderBook L} (hreach : b.ReachableByCalls)
    (hlevel : b.priceLevelChangedListener = none) (htrade : b.tradeListener = none) {depth : ℕ}
    (hdepth : ∀ side, (b.levels side).entries.length ≤ depth) {calls : List BookCall}
    (hcalls : ∀ user, .command (.cancelOrdersByUser user) ∉ calls) (h : b.CarriedWhole calls) :
    RoundTrips depth b calls := by
  intro p b₁ hrun
  have hb := hreach.registered
  have hrestore : restoreFromSnapshotPackage p (withClock b.symbol b₁.clock) = (.ok (), _) :=
    restore_roundTrip hrun hdepth hb.1 hreach.keyed rfl
  refine ⟨_, hrestore, ?_⟩
  have hwarm := warm_roundTrip hrun hdepth hb.1 hlevel htrade h
  have hrestored :
      (restoreFromSnapshotPackage p (withClock b.symbol b₁.clock : OrderBook L)).2.Sound ∧
      (restoreFromSnapshotPackage p (withClock b.symbol b₁.clock : OrderBook L)).2.Registered :=
    registered_session.restore (registered_session.snapshot hrun hb)
      (OrderBook.ReachableByCalls.registered ⟨b.symbol, b₁.clock, [], rfl⟩)
  rw [hrestore] at hrestored
  obtain ⟨rfl, -⟩ := createSnapshotPackage_eq hrun hdepth
  have hparallel : OrderBook.Parallel
      (sinceSnapshot b.marketCloseForExpiry (b.lastTrade = none) b.fills [])
      { b with clock := b.clock.tick } _ :=
    ⟨hwarm, Registered.steps.same ⟨_, _, _, rfl⟩ hb, hrestored, h.pegs⟩
  obtain ⟨_, _, _, hframe⟩ := packageRestored_withClock (L := L) b.symbol b.clock.tick p b.carried
  rw [hframe] at hparallel ⊢
  refine hparallel.behavesAlike fun call hcall => ⟨fun user heq => ?_, fun o ho => h.added ?_⟩
  · exact hcalls user (heq ▸ hcall)
  · rcases ho with rfl | rfl
    · exact Or.inl hcall
    · exact Or.inr hcall

end Runs

/-- A band of ten percent around the last trade is set, ten are offered at 100, and a bid takes
`taken` of them. -/
def tradeBandCalls (taken : ℕ) : List PublicCall :=
  [.op (.configure (.riskConfig (some
      { priceBandBps := some 1000, referencePrice := some .lastTrade }))),
    .op (.command (.addOrder ⟨1, 100, .sell, 7, 0, .gtc, 10, .standard⟩)),
    .op (.command (.submitMarketOrder 2 taken .buy 8))]

/-- The book after these calls. -/
def tradeBandBook (taken : ℕ) : OrderBook FifoLevel :=
  letI := sampleDigest
  letI := tallyIds
  ((tradeBandCalls taken).foldl Session.call { book := withClock "BTC" ⟨fun n => n, 0⟩ }).book

theorem tradeBandBook_reachable (taken : ℕ) :
    letI := sampleDigest
    letI := tallyIds
    (tradeBandBook taken).ReachableByCalls :=
  ⟨"BTC", ⟨fun n => n, 0⟩, tradeBandCalls taken, rfl⟩

/-- An ask far above the last trade. -/
def farAsk : BookCall := .command (.addOrder ⟨3, 200, .sell, 7, 0, .gtc, 1, .standard⟩)

/-- Without a trade the book is carried whole. -/
theorem tradeBandBook_roundTrips :
    letI := sampleDigest
    letI := tallyIds
    (tradeBandBook 0).CarriedWhole [farAsk, .reprice .specialOrders] ∧
      RoundTrips 1 (tradeBandBook 0) [farAsk, .reprice .specialOrders] := by
  let _ := sampleDigest
  let _ := tallyIds
  have hwhole : (tradeBandBook 0).CarriedWhole [farAsk, .reprice .specialOrders] := by
    have hask : (tradeBandBook 0).carried.placed =
      [(.sell, 100, ⟨1, 100, .sell, 7, 0, .gtc, 10, .standard⟩)] := by decide
    refine ⟨fun side => ?_, fun i hi => ?_, fun _ => ⟨fun i => ?_, fun account => ?_⟩, Or.inl rfl⟩
    · cases side <;> decide
    · by_cases hone : i = 1
      · exact ⟨.sell, 100, ⟨1, 100, .sell, 7, 0, .gtc, 10, .standard⟩, ⟨_, rfl, by decide⟩,
          hone.symm⟩
      · exact absurd (AList.lookup_insert_ne hone) hi
    · by_cases hone : i = 1
      · subst hone
        decide
      · have hlookup : (tradeBandBook 0).riskState.orders.lookup i = none :=
          AList.lookup_insert_ne hone
        rw [hlookup, hask]
        simp [Ne.symm hone]
    · by_cases hseven : account = 7
      · subst hseven
        decide
      · have hlookup : (tradeBandBook 0).riskState.counters.lookup account = none :=
          AList.lookup_insert_ne hseven
        rw [hlookup, hask]
        simp [Ne.symm hseven, placedCounters]
  refine ⟨hwhole,
    snapshot_roundTrips (tradeBandBook_reachable 0) rfl rfl (fun side => ?_) ?_ hwhole⟩
  · cases side <;> decide
  · intro user hmem
    simp [farAsk] at hmem

/-- **The last trade is not in the package.** After a trade at 100 the live book refuses an ask at
200 as outside the band; the restored book knows no last trade and accepts it. -/
theorem tradeBandBook_not_roundTrips :
    letI := sampleDigest
    letI := tallyIds
    (tradeBandBook 5).ReachableByCalls ∧ (tradeBandBook 5).priceLevelChangedListener = none ∧
      (tradeBandBook 5).tradeListener = none ∧ (tradeBandBook 5).orderStateTracker = none ∧
      (∀ side, ((tradeBandBook 5).levels side).entries.length ≤ 1) ∧
      ¬ RoundTrips 1 (tradeBandBook 5) [farAsk] := by
  let _ := sampleDigest
  let _ := tallyIds
  refine ⟨tradeBandBook_reachable 5, rfl, rfl, rfl, fun side => ?_, fun h => ?_⟩
  · cases side <;> decide
  · obtain ⟨restored, hrestore, halike⟩ := h _ _ rfl
    cases (Prod.mk.inj hrestore).2
    have hfirst := congrArg (fun replies => replies.map CallReply.isError) halike.replies
    revert hfirst
    decide

end OrderBookRs
