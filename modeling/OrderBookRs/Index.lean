import OrderBookRs.UserLists

/-!
# The indices agree with the book

`order_locations` and `user_orders` are maintained by hand next to the levels, by every path that
admits, moves, fills or cancels an order. This module shows that they describe exactly what rests.

Every reachable book lists the resting orders of each user (`Catalogued`), and its lists name
located ids only. What is left is that a located id rests. A resize to zero may take an order off
its level and leave its location; no other call does, and during a sweep the makers taken off their
levels are remembered until they are forgotten.

## Main definitions

* `OrderBook.Occupied`: every located id rests.
* `OrderBook.IndicesConsistent`: what the indices are for.

## Main results

* `occupied_session`: every public call keeps the located ids resting.
* `indices_consistent`: after every run of public calls the indices agree with the book.
-/

namespace OrderBookRs

open PriceLevel Fallible OrderBook

variable {L : Type} [PriceLevel L] {b : OrderBook L} {q : ℕ} {l l' : L}

/-! ### Located ids rest -/

/-- Every located id rests. -/
def OrderBook.Occupied (b : OrderBook L) : Prop :=
  ∀ ⦃i⦄, b.orderLocations.lookup i ≠ none → b.Holds i

namespace OrderBook.Occupied

variable {b b' : OrderBook L} {t : Taker} {sw : Sweep L} {side : Side} {price : ℕ} {o : Order}

theorem sameOrders (hsame : b.SameOrders b') (h : b.Occupied) : b'.Occupied := by
  obtain ⟨_, _, _, _, _, rfl⟩ := hsame
  exact h

theorem sameState (hsame : b.SameState b') (h : b.Occupied) : b'.Occupied :=
  h.sameOrders hsame.sameOrders

/-- One id gave up its location, and no other stopped resting. -/
theorem removed {G : OrderId → Prop} {id : OrderId}
    (h : ∀ {i}, b.orderLocations.lookup i ≠ none → b.Holds i ∨ G i)
    (hloc : b'.orderLocations = b.orderLocations.erase id)
    (hholds : ∀ {i}, b.Holds i → i ≠ id → b'.Holds i) {i : OrderId}
    (hi : b'.orderLocations.lookup i ≠ none) : b'.Holds i ∨ G i := by
  rw [hloc] at hi
  have hne : i ≠ id := by
    rintro rfl
    exact hi (AList.lookup_erase ..)
  rw [AList.lookup_erase_ne hne] at hi
  exact (h hi).imp_left fun hi => hholds hi hne

/-- During a sweep makers listed as filled are still located. -/
theorem step [LevelReports L] {sw' : Sweep L} (hs : SweepStep t price sw sw')
    (hsound : SweepSound t sw)
    (h : ∀ {i}, sw.book.orderLocations.lookup i ≠ none →
      sw.book.Holds i ∨ i ∈ sw.filledOrders.map Prod.fst) {i : OrderId}
    (hi : sw'.book.orderLocations.lookup i ≠ none) :
    sw'.book.Holds i ∨ i ∈ sw'.filledOrders.map Prod.fst := by
  cases hs with
  | fill level kind allows pos cap safe run =>
    rw [fillLevel_orderLocations] at hi
    rw [fillLevel_filledIds, List.mem_append]
    rcases h hi with hi | hi
    · exact (SweepSound.holds_or_left level hi).imp_right fun hleft =>
        .inr (LevelReports.filled_of_gone run hleft.1 hleft.2)
    · exact .inr (.inl hi)
  | cancel level mode user mem own orders_eq run =>
    refine removed h (stpCancel_orderLocations ..) (fun {i} hi hne => ?_) hi
    obtain ⟨s, p, x, hx, rfl⟩ := hi
    exact ⟨s, p, x, (hsound.rests_stpCancel ⟨level, mem, orders_eq⟩).mpr ⟨hx, hne⟩, rfl⟩
  | markEmpty | flag => exact h hi

theorem cancelAt [LevelQueue L] (h : b.Sound ∧ b.Occupied) (hout : b.TakesOff side price l l' o) :
    (b.cancelAt side price l' o).Sound ∧ (b.cancelAt side price l' o).Occupied :=
  ⟨h.1.cancelAt hout, fun _ hi => (removed (G := fun _ => False) (fun hi => .inl (h.2 hi))
    (cancelAt_orderLocations ..) (fun hi hne => (h.1.holds_removed hout
      (cancelAt_get? _ _ _ _ _)).mpr ⟨hi, hne⟩) hi).resolve_right id⟩

/-- **Every call but a resize to zero keeps the located ids resting.** -/
theorem steps [LevelQueue L] [LevelReports L] [LevelResize L] :
    StepInvariant (fun b : OrderBook L => b.Sound ∧ b.Occupied) fun q => q ≠ 0 where
  same hsame h := ⟨h.1.sameState hsame, h.2.sameState hsame⟩
  emit wantResult r h :=
    ⟨h.1.sameOrders (sameOrders_emitTrades wantResult r _),
      h.2.sameOrders (sameOrders_emitTrades wantResult r _)⟩
  sweep id side mode user kind h := by
    refine matchOrderInner_invariant (I := fun b : OrderBook L => b.Sound ∧ b.Occupied)
      (J := fun t sw => SweepSound t sw ∧ ∀ {i}, sw.book.orderLocations.lookup i ≠ none →
        sw.book.Holds i ∨ i ∈ sw.filledOrders.map Prod.fst)
      (fun hsame h => ⟨h.1.sameState hsame, h.2.sameState hsame⟩)
      (fun mode h => ⟨.start h.1 mode, fun hi => .inl (h.2 hi)⟩)
      (fun hs hJ => ⟨hJ.1.step hs, fun hi => step hs hJ.1 hJ.2 hi⟩)
      (fun h hJ => ⟨h.1.finishSweep hJ.1, fun i hi => ?_⟩) id side mode user kind h
    rw [finishSweep_lookup] at hi
    split_ifs at hi with hfilled
    · exact absurd rfl hi
    · exact (holds_congr hJ.1.finishSweep_rests).mpr ((hJ.2 hi).resolve_right hfilled)
  rest {_ b _ _ o remaining} _ _ hl _ horders hfresh himm _ h := by
    refine ⟨h.1.restAt hl horders hfresh himm, fun i hi => (Sound.holds_restAt hl horders).mpr ?_⟩
    rw [restAt_orderLocations] at hi
    by_cases hio : i = o.id
    · exact .inr hio
    · rw [AList.lookup_insert_ne hio] at hi
      exact .inl (h.2 hi)
  tidy hl hnil h := absurd hnil (h.1.nonempty hl)
  cancel hout h := cancelAt h hout.off
  drop hout h :=
    ⟨h.1.dropAt hout.off, fun _ hi => (removed (G := fun _ => False)
      (fun hi => .inl (h.2 hi)) (dropAt_orderLocations ..) (fun hi hne =>
        (h.1.holds_removed hout.off (dropAt_get? _ _ _ _ _)).mpr ⟨hi, hne⟩)
      hi).resolve_right id⟩
  resize {b side price l l' o q} hq hres h := by
    have hmem := hres.kept.resolve_right fun h => hq h.1
    refine ⟨h.1.resizeAt hres.resized, fun i hi =>
      (h.1.holds_resizeAt hres.resized hmem).mpr (h.2 ?_)⟩
    rwa [resizeAt_orderLocations, if_neg (orderCount_ne_zero hmem)] at hi
  clear {b} h := by
    refine ⟨h.1.cancelAllOrders, ?_⟩
    rw [OrderBook.cancelAllOrders]
    split_ifs
    · exact h.2.sameState b.sameState_invalidateCache
    · exact fun i hi => absurd rfl hi
  byUser user h :=
    cancelOrdersByUser_keeps (I := fun b : OrderBook L => b.Sound ∧ b.Occupied)
      (fun hsame h => ⟨h.1.sameState hsame, h.2.sameState hsame⟩)
      (fun hout h => cancelAt h hout.off) user
      ⟨⟨h.1.located, h.1.standing, h.1.nonempty⟩, h.2⟩

end OrderBook.Occupied

/-! ### What the indices are for -/

/-- What the two indices are for: they describe exactly the resting orders. -/
structure OrderBook.IndicesConsistent (b : OrderBook L) : Prop where
  /-- `order_locations` maps exactly the resting ids, to the price and side they rest at. -/
  locations : ∀ i price side, b.orderLocations.lookup i = some (price, side) ↔
    ∃ o, b.Rests side price o ∧ o.id = i
  /-- No id rests in two levels. -/
  place_unique : ∀ side price side' price' o o', b.Rests side price o → b.Rests side' price' o' →
    o.id = o'.id → side = side' ∧ price = price'
  /-- A resting id occurs exactly once in the list of its user and in no other list. -/
  listed_once : ∀ side price o, b.Rests side price o →
    (∃ ids, b.userOrders.lookup o.userId = some ids ∧ ids.count o.id = 1) ∧
      ∀ user ids, b.userOrders.lookup user = some ids → user ≠ o.userId → o.id ∉ ids
  /-- `user_orders` holds no empty list and no id that does not rest for that user. -/
  lists : ∀ user ids, b.userOrders.lookup user = some ids →
    ids ≠ [] ∧ ∀ i ∈ ids, ∃ side price o, b.Rests side price o ∧ o.id = i ∧ o.userId = user
  /-- No level is without orders. -/
  levels_nonempty : ∀ side price l, (b.levels side).get? price = some l → orders l ≠ []

/-- Indices that map exactly the resting ids, and list exactly those of each user, are consistent.
-/
theorem OrderBook.IndicesConsistent.of_exact
    (hlocations : ∀ i price side, b.orderLocations.lookup i = some (price, side) ↔
      ∃ o, b.Rests side price o ∧ o.id = i)
    (hlisted : ∀ user i, b.userOrders.Listed user i ↔
      ∃ side price o, b.Rests side price o ∧ o.id = i ∧ o.userId = user)
    (hlists : b.userOrders.WellFormed)
    (hunique : ∀ {s p o s' p' o'}, b.Rests s p o → b.Rests s' p' o' → o.id = o'.id → o = o')
    (hnonempty : ∀ {side price l}, (b.levels side).get? price = some l → orders l ≠ []) :
    b.IndicesConsistent where
  locations := hlocations
  place_unique side price side' price' o o' ho ho' hid := by
    have hplace := (hlocations o.id price side).mpr ⟨o, ho, rfl⟩
    rw [(hlocations o.id price' side').mpr ⟨o', ho', hid.symm⟩, Option.some.injEq,
      Prod.mk.injEq] at hplace
    exact ⟨hplace.2.symm, hplace.1.symm⟩
  listed_once side price o ho := by
    obtain ⟨ids, hids, hmem⟩ := (hlisted o.userId o.id).mpr ⟨side, price, o, ho, rfl, rfl⟩
    refine ⟨⟨ids, hids, List.count_eq_one_of_mem (hlists.nodup hids) hmem⟩, ?_⟩
    intro user ids' hids' hne hmem'
    obtain ⟨s, p, o', ho', hid, huser⟩ := (hlisted user o.id).mp ⟨ids', hids', hmem'⟩
    rw [hunique ho' ho hid] at huser
    exact hne huser.symm
  lists user ids hids :=
    ⟨hlists.nonempty hids, fun i hi => (hlisted user i).mp ⟨ids, hids, hi⟩⟩
  levels_nonempty side price l hl := hnonempty hl

theorem OrderBook.Catalogued.consistent [LevelQueue L] (h : b.Catalogued) (hocc : b.Occupied) :
    b.IndicesConsistent := by
  have hresting {i price side} (hi : b.orderLocations.lookup i = some (price, side)) :
      ∃ o, b.Rests side price o ∧ o.id = i := by
    obtain ⟨s, p, o, ho, rfl⟩ := hocc (hi ▸ Option.some_ne_none _)
    cases (h.sound.located ho).symm.trans hi
    exact ⟨o, ho, rfl⟩
  refine .of_exact (fun i price side => ⟨hresting, ?_⟩) (fun user i => ⟨fun hu => ?_, ?_⟩)
    h.users.lists h.sound.unique h.sound.nonempty
  · rintro ⟨o, ho, rfl⟩
    exact h.sound.located ho
  · obtain ⟨side, price, o, ho, rfl⟩ := hocc (h.users.located hu)
    exact ⟨side, price, o, ho, rfl, (h.users.owner ho hu).symm⟩
  · rintro ⟨side, price, o, ho, rfl, rfl⟩
    exact h.listed ho

/-! ### Sessions -/

section Session

variable [SnapshotChecksum] [LevelSnapshot L] [LevelQueue L] [LevelReports L] [LevelResize L]

/-- **Every public call keeps the located ids resting**, resizes to zero apart. -/
theorem occupied_session :
    SessionInvariant (fun b : OrderBook L => b.Sound ∧ b.Occupied) (fun q => q ≠ 0)
      SoundPackage where
  calls := Occupied.steps.calls
  configure s h := by
    refine ⟨sound_session.configure s h.1, ?_⟩
    cases s with
    | marketClose timestamp => cases timestamp <;> exact h.2
    | _ => exact h.2
  snapshot hrun h := h.1.soundPackage hrun
  restore {b p} hp h := by
    refine ⟨h.1.restore hp, ?_⟩
    rcases restoreFromSnapshotPackage_cases p b with ⟨e, hrun⟩ | ⟨prepared, hprep, hrun⟩
    · rw [hrun]
      exact h.2
    · obtain ⟨hprices, hids, -⟩ := prepareSnapshotLevels_eq_ok hprep
      rw [hrun]
      intro i hi
      obtain ⟨⟨price, side⟩, hi⟩ := Option.ne_none_iff_exists'.mp hi
      obtain ⟨o, ho, hid⟩ := (packageRestored_registers hids).lookup.mp hi
      exact ⟨side, price, o, (packageRestored_rests hprices).mpr ho, hid⟩

/-- **Index consistency.** After every finite run of public calls on an empty book, whether each
call succeeds or fails, the indices describe exactly what rests. -/
theorem indices_consistent (symbol : String) (clock : Clock) (ops : List Op)
    (hops : ∀ op ∈ ops, op.ResizesTo (· ≠ 0)) :
    (Session.run { book := (withClock symbol clock : OrderBook L) }
      ops).book.IndicesConsistent := by
  have hempty (side : Side) (price : ℕ) :
      ((withClock symbol clock : OrderBook L).levels side).get? price = none := by
    cases side <;> rfl
  have hcat := catalogued_session.run (s := { book := (withClock symbol clock : OrderBook L) })
    (fun op (_ : op ∈ ops) => op.resizesTo_true) (.of_nothing hempty rfl)
    fun _ hp => absurd hp List.not_mem_nil
  exact hcat.consistent (occupied_session.run hops ⟨.of_no_levels hempty, fun i hi => absurd rfl hi⟩
    fun _ hp => absurd hp List.not_mem_nil).2

end Session

/-- Two bids of one user, the better one taken in part by an ask of another, the other resized. -/
def partialFillOps : List Op :=
  [.command (.addOrder ⟨1, 100, .buy, 7, 0, .gtc, 10, .standard⟩),
    .command (.addOrder ⟨2, 99, .buy, 7, 0, .gtc, 5, .iceberg 20⟩),
    .command (.addOrder ⟨3, 100, .sell, 8, 0, .gtc, 4, .standard⟩),
    .command (.updateOrder (.updateQuantity 2 3))]

theorem partialFillOps_indices_consistent :
    letI := noDigest
    let b := (Session.run { book := (withClock "BTC" ⟨fun n => n, 0⟩ : OrderBook FifoLevel) }
      partialFillOps).book
    b.IndicesConsistent ∧ b.userOrders.lookup 7 = some [1, 2] := by
  let _ := noDigest
  refine ⟨indices_consistent "BTC" _ partialFillOps ?_, by decide⟩
  simp [partialFillOps, Op.ResizesTo, Command.ResizesTo]

end OrderBookRs
