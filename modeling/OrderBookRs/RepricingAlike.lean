import OrderBookRs.Alike
import OrderBookRs.SpecialOrders

/-!
# Re-pricing books that behave alike

Two books that are alike may have registered different ids: a registry also holds ids that no longer
rest. A loop does nothing at such an id but drop it, so on both books it does the same at the ids
that rest, in the same order.

## Main definitions

* `RepriceLoop.Alike`: two loops that ask for the same new prices.
* `Order.pegsLastTrade`: the order is pegged to the last trade.

## Main results

* `foldl_repriceOrder_alike`: the loops over two registries agree.
* `OrderBook.Warm.reprice`: so does every re-pricing.
-/

namespace OrderBookRs

open PriceLevel Fallible OrderBook

variable {L : Type} [PriceLevel L] {c : Comparison} {b b' : OrderBook L} {k : SpecialKind}

/-! ### Rounds that do nothing -/

/-- At ids that name no order of its kind, a loop changes the registry only. -/
theorem foldl_repriceOrder_idle {loop : RepriceLoop L} (hloop : loop.Serves k) {ids : List OrderId}
    (hidle : ∀ id ∈ ids, ∀ o, b.getOrder id = some o → k.includes o = false)
    (tally : RepriceTally) :
    ∃ special, ids.foldl (repriceOrder loop) (tally, b) =
      (tally, { b with specialOrderTracker := special }) := by
  induction ids generalizing b with
  | nil => exact ⟨_, rfl⟩
  | cons id ids ih =>
    have hrest : ∀ id' ∈ ids, ∀ o, b.getOrder id' = some o → k.includes o = false :=
      (List.forall_mem_cons.mp hidle).2
    rw [List.foldl_cons, repriceOrder]
    cases hget : b.getOrder id with
    | none =>
      exact ih (b := { b with
        specialOrderTracker := loop.unregister b.specialOrderTracker id }) hrest
    | some o =>
      have hnothing := hloop.other (b := b) (hidle id (List.mem_cons_self ..) o hget)
      simp only [hnothing]
      exact ih hrest

namespace OrderBook

omit [PriceLevel L] in
/-- The registries are not compared. -/
theorem Warm.respecial (h : b.Warm c b') (special special' : SpecialOrderTracker) :
    Warm c { b with specialOrderTracker := special }
      { b' with specialOrderTracker := special' } := by
  have htruthful : ∀ {b : OrderBook L} {special : SpecialOrderTracker}, b.Truthful →
      ({ b with specialOrderTracker := special } : OrderBook L).Truthful :=
    fun htruthful => htruthful.congr rfl fun _ => Or.inr fun _ => Iff.rfl
  refine ⟨?_, htruthful h.truthful, htruthful h.truthful'⟩
  obtain ⟨_, _, _, _, _, _, _, _, _, _, _, rfl⟩ := h.frame
  exact { h.toAlike with frame := ⟨_, _, _, _, _, _, _, _, _, _, _, rfl⟩ }

end OrderBook

/-! ### Rounds at an order -/

/-- On books that are alike, the loops ask for the same new price of an order in `Q`. -/
structure RepriceLoop.Alike (c : Comparison) (Q : Order → Prop) (loop loop' : RepriceLoop L) :
    Prop where
  newPrice : ∀ {b b' o}, b.Warm c b' → Q o → (loop'.newPrice o b').1 = (loop.newPrice o b).1 ∧
    (loop.newPrice o b).2.Warm c (loop'.newPrice o b').2
  reason_eq : loop'.reason = loop.reason

theorem repriceOrder_alike [LevelResize L] {Q : Order → Prop} {loop loop' : RepriceLoop L}
    (hloops : loop.Alike c Q loop') (h : b.Warm c b')
    (hjudges : ∀ timeInForce, c.Judges L timeInForce) (hQ : b.EveryOrder Q) (tally : RepriceTally)
    (id : OrderId) :
    (repriceOrder loop' (tally, b') id).1 = (repriceOrder loop (tally, b) id).1 ∧
      (repriceOrder loop (tally, b) id).2.Warm c (repriceOrder loop' (tally, b') id).2 := by
  rw [repriceOrder, repriceOrder]
  dsimp only
  rw [h.getOrder_eq]
  cases hget : b.getOrder id with
  | none => exact ⟨rfl, h.respecial _ _⟩
  | some o =>
    obtain ⟨side, price, l, -, hl, ho, -⟩ := getOrder_eq_some hget
    obtain ⟨hprice, hread⟩ := hloops.newPrice h (hQ hl o ho)
    dsimp only
    generalize loop.newPrice o b = found at hprice hread ⊢
    generalize loop'.newPrice o b' = found' at hprice hread ⊢
    obtain ⟨target, b₁⟩ := found
    obtain ⟨target', b₁'⟩ := found'
    obtain rfl : target' = target := hprice
    cases target' with
    | none => exact ⟨rfl, hread⟩
    | some newPrice =>
      have hagree := hread.updateOrder (fun _ => hjudges _) (.updatePrice id newPrice)
      dsimp only
      generalize updateOrder (.updatePrice id newPrice) b₁ = updated at hagree ⊢
      generalize updateOrder (.updatePrice id newPrice) b₁' = updated' at hagree ⊢
      obtain ⟨result, b₂⟩ := updated
      obtain ⟨result', b₂'⟩ := updated'
      obtain rfl : result' = result := hagree.result_eq
      cases result' with
      | ok => exact ⟨rfl, hagree.state⟩
      | error => exact ⟨by rw [hloops.reason_eq], hagree.state⟩

/-! ### Whole loops -/

/-- A sorted registry, cut down to some of its ids, is those ids sorted. -/
theorem filter_sort_eq [DisplayId] {registry ids : Finset OrderId} (h : ids ⊆ registry) :
    (registry.sort SpecialOrderTracker.displayLE).filter (· ∈ ids) =
      ids.sort SpecialOrderTracker.displayLE := by
  refine List.Perm.eq_of_pairwise (fun i j _ _ hij hji => antisymm hij hji)
    ((Finset.pairwise_sort _ _).filter _) (Finset.pairwise_sort _ _) ?_
  refine (List.perm_ext_iff_of_nodup ((Finset.sort_nodup _ _).filter _)
    (Finset.sort_nodup _ _)).mpr fun i => ?_
  rw [List.mem_filter, Finset.mem_sort, Finset.mem_sort, decide_eq_true_eq]
  exact ⟨And.right, fun hi => ⟨h hi, hi⟩⟩

/-- Ids outside `S` name no order of the kind. -/
theorem includes_eq_false {S : Finset OrderId} (hS : b.EveryOrder fun o => k.includes o → o.id ∈ S)
    {id : OrderId} (hid : id ∉ S) {o : Order} (hget : b.getOrder id = some o) :
    k.includes o = false := by
  obtain ⟨side, price, l, -, hl, ho, rfl⟩ := getOrder_eq_some hget
  exact Bool.eq_false_iff.mpr fun hk => hid (hS hl o ho hk)

theorem lasting_registered (k : SpecialKind) (S : Finset OrderId) :
    Lasting fun o => k.includes o → o.id ∈ S := by
  refine .of_kind (fun v h ho hk => ho (by rwa [SpecialKind.includes_setTranches] at hk)) ?_
  intro o o' hkind hid ho hk
  rw [hid]
  exact ho (k.includes_congr hkind ▸ hk)

section Loops

variable [LevelQueue L] [LevelMatch L] [LevelResize L]

/-- What lasts is kept by a re-pricing. -/
theorem Lasting.repricing {Q : Order → Prop} (hQ : Lasting Q) :
    RepriceInvariant (OrderBook.EveryOrder (L := L) Q) where
  same hsame h := h.sameOrders hsame.sameOrders
  update id newPrice _ h := hQ.execute (c := .updateOrder (.updatePrice id newPrice)) h
    fun _ ho => by rcases ho with ho | ho <;> cases ho
  forget _ _ h := h

/-- **Two loops over registries that agree on `S`**, where every order of the kind is in `S`, do the
same. -/
theorem foldl_repriceOrder_alike {Q : Order → Prop} {loop loop' : RepriceLoop L}
    (hloop : loop.Serves k) (hloop' : loop'.Serves k) (hloops : loop.Alike c Q loop')
    (hjudges : ∀ timeInForce, c.Judges L timeInForce) (hQ : Lasting Q) {S : Finset OrderId}
    {ids ids' core : List OrderId} (hids : ids.filter (· ∈ S) = core)
    (hids' : ids'.filter (· ∈ S) = core) (h : b.Warm c b')
    (hall : b.EveryOrder fun o => Q o ∧ (k.includes o → o.id ∈ S)) (tally : RepriceTally) :
    (ids'.foldl (repriceOrder loop') (tally, b')).1 = (ids.foldl (repriceOrder loop) (tally, b)).1 ∧
      (ids.foldl (repriceOrder loop) (tally, b)).2.Warm c
        (ids'.foldl (repriceOrder loop') (tally, b')).2 := by
  -- the ids before the next one in `S` are passed over on both sides
  have hpass : ∀ {skipped skipped' : List OrderId} {b b' : OrderBook L}, b.Warm c b' →
      (b.EveryOrder fun o => Q o ∧ (k.includes o → o.id ∈ S)) → (∀ i ∈ skipped, i ∉ S) →
      (∀ i ∈ skipped', i ∉ S) → ∀ tally, ∃ special special',
        skipped.foldl (repriceOrder loop) (tally, b) =
            (tally, { b with specialOrderTracker := special }) ∧
          skipped'.foldl (repriceOrder loop') (tally, b') =
            (tally, { b' with specialOrderTracker := special' }) := by
    intro skipped skipped' b b' h hall hskipped hskipped' tally
    have hS : b.EveryOrder fun o => k.includes o → o.id ∈ S := fun _ _ _ hl o ho => (hall hl o ho).2
    obtain ⟨special, hrun⟩ := foldl_repriceOrder_idle hloop
      (fun i hi o hget => includes_eq_false hS (hskipped i hi) hget) tally
    obtain ⟨special', hrun'⟩ := foldl_repriceOrder_idle hloop'
      (fun i hi o hget => includes_eq_false hS (hskipped' i hi) (h.getOrder_eq i ▸ hget)) tally
    exact ⟨special, special', hrun, hrun'⟩
  induction core generalizing ids ids' b b' tally with
  | nil =>
    obtain ⟨special, special', hrun, hrun'⟩ := hpass h hall
      (fun i hi => by simpa using List.filter_eq_nil_iff.mp hids i hi)
      (fun i hi => by simpa using List.filter_eq_nil_iff.mp hids' i hi) tally
    rw [hrun, hrun']
    exact ⟨rfl, h.respecial _ _⟩
  | cons id core ih =>
    obtain ⟨skipped, rest, rfl, hskipped, -, hrest⟩ := List.filter_eq_cons_iff.mp hids
    obtain ⟨skipped', rest', rfl, hskipped', -, hrest'⟩ := List.filter_eq_cons_iff.mp hids'
    obtain ⟨special, special', hrun, hrun'⟩ := hpass h hall
      (fun i hi => by simpa using hskipped i hi) (fun i hi => by simpa using hskipped' i hi) tally
    rw [List.foldl_append, List.foldl_append, hrun, hrun', List.foldl_cons, List.foldl_cons]
    have hrespecial := h.respecial special special'
    have hQ' : ({ b with specialOrderTracker := special } : OrderBook L).EveryOrder Q :=
      fun _ _ _ hl o ho => (hall hl o ho).1
    obtain ⟨htally, hwarm⟩ := repriceOrder_alike hloops hrespecial hjudges hQ' tally id
    have hkept := (hQ.and (lasting_registered k S)).repricing.repriceOrder hloop
      (tally, { b with specialOrderTracker := special }) id hall
    generalize repriceOrder loop (tally, { b with specialOrderTracker := special }) id = s
      at htally hwarm hkept ⊢
    generalize repriceOrder loop' (tally, { b' with specialOrderTracker := special' }) id = s'
      at htally hwarm ⊢
    obtain ⟨tally₁, b₁⟩ := s
    obtain ⟨tally₁', b₁'⟩ := s'
    obtain rfl : tally₁' = tally₁ := htally
    exact ih hrest hrest' hwarm hkept tally₁'

end Loops

/-! ### The two loops -/

/-- The order is pegged to the last trade. -/
def Order.pegsLastTrade (o : Order) : Bool :=
  match o.kind with
  | .pegged _ .lastTrade => true
  | _ => false

theorem lasting_pegsLastTrade (P : Prop) : Lasting fun o => P ∨ o.pegsLastTrade = false := by
  refine .of_kind (fun {o} v h ho => ?_) fun {o o'} hkind _ ho => ?_
  · obtain ⟨id, price, side, user, timestamp, tif, visible, kind⟩ := o
    cases kind <;> exact ho
  · rw [Order.pegsLastTrade, hkind]
    exact ho

/-- Only a peg to the last trade depends on it. -/
theorem calculatePeggedPrice_lastTrade {referenceType : PegReferenceType}
    (h : referenceType ≠ .lastTrade) (offset : ℤ) (side : Side)
    (bestBid bestAsk midPrice lastTrade lastTrade' tickSize : Option ℕ) :
    calculatePeggedPrice referenceType offset side bestBid bestAsk midPrice lastTrade' tickSize =
      calculatePeggedPrice referenceType offset side bestBid bestAsk midPrice lastTrade
        tickSize := by
  cases referenceType with
  | lastTrade => exact absurd rfl h
  | _ => rfl

omit [PriceLevel L] in
theorem alike_peggedLoop (bestBid bestAsk midPrice : Option ℕ) {lastTrade lastTrade' : Option ℕ}
    (hlast : c.lastTrade → lastTrade' = lastTrade) :
    (peggedLoop bestBid bestAsk midPrice lastTrade : RepriceLoop L).Alike c
      (fun o => c.lastTrade ∨ o.pegsLastTrade = false)
      (peggedLoop bestBid bestAsk midPrice lastTrade') where
  newPrice {b b' o} h ho := by
    have htick : b'.tickSize = b.tickSize := by
      obtain ⟨_, _, _, _, _, _, _, _, _, _, _, rfl⟩ := h.frame
      rfl
    rw [peggedLoop, peggedLoop]
    obtain ⟨id, price, side, user, timestamp, tif, visible, kind⟩ := o
    cases kind with
    | pegged offset referenceType =>
      refine ⟨?_, h⟩
      dsimp only
      rw [htick]
      by_cases href : referenceType = .lastTrade
      · rw [href] at ho
        rw [hlast (ho.resolve_right Bool.noConfusion)]
      · rw [calculatePeggedPrice_lastTrade href offset side bestBid bestAsk midPrice lastTrade
          lastTrade']
    | _ => exact ⟨rfl, h⟩
  reason_eq := rfl

omit [PriceLevel L] in
theorem alike_trailingLoop (Q : Order → Prop) :
    (trailingLoop : RepriceLoop L).Alike c Q trailingLoop where
  newPrice {b b' o} h _ := by
    rw [trailingLoop]
    obtain ⟨id, price, side, user, timestamp, tif, visible, kind⟩ := o
    cases kind with
    | trailingStop =>
      dsimp only
      rw [h.bestPrice_fst_eq]
      exact ⟨rfl, h.bestPrice _⟩
    | _ => exact ⟨rfl, h⟩
  reason_eq := rfl

/-! ### Re-pricing calls -/

namespace OrderBook

omit [PriceLevel L] in
theorem midPrice_cache (b : OrderBook L) : ∃ cache, b.midPrice.2 = { b with cache := cache } := by
  have hreads : ∃ cache, b.bestBid.2.bestAsk.2 = { b with cache := cache } := by
    obtain ⟨_, hbid⟩ := b.bestPrice_cache .buy
    obtain ⟨cache, hask⟩ := b.bestBid.2.bestPrice_cache .sell
    refine ⟨cache, ?_⟩
    rw [bestAsk, hask, bestBid, hbid]
  rw [midPrice]
  split
  · exact hreads
  · exact hreads

/-- The loop over the pegged orders starts from the book with its best prices read. -/
theorem repricePeggedCollecting_eq [DisplayId] (failures : List (OrderId × RepriceReason))
    (b : OrderBook L) : ∃ b₁, b.SameView b₁ ∧ b₁.clock = b.clock ∧
      b.repricePeggedCollecting failures =
        b.specialOrderTracker.peggedOrderIds.foldl (repriceOrder (peggedLoop b.bestBid.1
          b.bestBid.2.bestAsk.1 b.bestBid.2.bestAsk.2.midPrice.1 b.lastTrade))
          ({ failures := failures }, b₁) := by
  rw [repricePeggedCollecting]
  dsimp only
  split_ifs with hids
  · exact ⟨b, .refl b, rfl, by rw [hids, List.foldl_nil]⟩
  · refine ⟨_, ?_, ?_, rfl⟩
    · exact ((sameView_bestPrice b .buy).trans (sameView_bestPrice _ .sell)).trans
        (sameView_midPrice _)
    · obtain ⟨_, hbid⟩ := b.bestPrice_cache .buy
      obtain ⟨_, hask⟩ := b.bestBid.2.bestPrice_cache .sell
      obtain ⟨_, hmid⟩ := b.bestBid.2.bestAsk.2.midPrice_cache
      rw [hmid, bestAsk, hask, bestBid, hbid]

namespace Warm

variable {b b' : OrderBook L} (h : b.Warm c b')

include h

omit [PriceLevel L] in
theorem midPrice : b'.midPrice.1 = b.midPrice.1 ∧ b.midPrice.2.Warm c b'.midPrice.2 := by
  have hbid := h.bestPrice .buy
  have hbidPrice := h.bestPrice_fst_eq .buy
  have haskPrice := hbid.bestPrice_fst_eq .sell
  simp only [OrderBook.midPrice, OrderBook.bestBid, OrderBook.bestAsk, hbidPrice, haskPrice]
  split
  · exact ⟨rfl, hbid.bestPrice .sell⟩
  · exact ⟨rfl, hbid.bestPrice .sell⟩

/-- On alike books whose special orders are registered, every order of a kind is in both
registries. -/
theorem registered_inter (hreg : b.Registered) (hreg' : b'.Registered) (k : SpecialKind) :
    b.EveryOrder fun o => k.includes o →
      o.id ∈ b.specialOrderTracker.ids k ∩ b'.specialOrderTracker.ids k := by
  intro side price l hl o ho hk
  have hl' : (b'.levels side).get? price = some l := by rw [h.levels_eq, hl]
  exact Finset.mem_inter.mpr ⟨hreg ⟨l, hl, ho⟩ hk, hreg' ⟨l, hl', ho⟩ hk⟩

variable [LevelQueue L] [LevelMatch L] [LevelResize L] [DisplayId]
  (hjudges : ∀ timeInForce, c.Judges L timeInForce)

include hjudges

theorem repricePeggedCollecting (hreg : b.Registered) (hreg' : b'.Registered)
    (hpegs : b.EveryOrder fun o => c.lastTrade ∨ o.pegsLastTrade = false)
    (failures : List (OrderId × RepriceReason)) :
    (b'.repricePeggedCollecting failures).1 = (b.repricePeggedCollecting failures).1 ∧
      (b.repricePeggedCollecting failures).2.Warm c (b'.repricePeggedCollecting failures).2 := by
  obtain ⟨b₁, hview, hclock, heq⟩ := b.repricePeggedCollecting_eq failures
  obtain ⟨b₁', hview', hclock', heq'⟩ := b'.repricePeggedCollecting_eq failures
  have hbid : b'.bestBid.1 = b.bestBid.1 := h.bestPrice_fst_eq .buy
  have hask : b'.bestBid.2.bestAsk.1 = b.bestBid.2.bestAsk.1 :=
    (h.bestPrice .buy).bestPrice_fst_eq .sell
  have hmid : b'.bestBid.2.bestAsk.2.midPrice.1 = b.bestBid.2.bestAsk.2.midPrice.1 :=
    ((h.bestPrice .buy).bestPrice .sell).midPrice.1
  have hlast : c.lastTrade → b'.lastTrade = b.lastTrade := fun hc =>
    h.lastTrades.resolve_right fun hignored => hignored.1 hc
  have hread : b₁.Warm c b₁' := h.seen hview hview' (by rw [hclock, hclock']; exact h.clocks)
  have hall : b.EveryOrder fun o => (c.lastTrade ∨ o.pegsLastTrade = false) ∧
      (SpecialKind.pegged.includes o → o.id ∈ b.specialOrderTracker.ids .pegged ∩
        b'.specialOrderTracker.ids .pegged) := fun _ _ _ hl o ho =>
    ⟨hpegs hl o ho, h.registered_inter hreg hreg' .pegged hl o ho⟩
  rw [heq, heq', hbid, hask, hmid]
  exact foldl_repriceOrder_alike (serves_peggedLoop ..) (serves_peggedLoop ..)
    (alike_peggedLoop _ _ _ hlast) hjudges (lasting_pegsLastTrade _)
    (filter_sort_eq Finset.inter_subset_left) (filter_sort_eq Finset.inter_subset_right) hread
    (hall.sameOrders hview.sameState.sameOrders) _

theorem repriceTrailingCollecting (hreg : b.Registered) (hreg' : b'.Registered)
    (failures : List (OrderId × RepriceReason)) :
    (b'.repriceTrailingCollecting failures).1 = (b.repriceTrailingCollecting failures).1 ∧
      (b.repriceTrailingCollecting failures).2.Warm c
        (b'.repriceTrailingCollecting failures).2 := by
  have hall : b.EveryOrder fun o => True ∧ (SpecialKind.trailingStop.includes o →
      o.id ∈ b.specialOrderTracker.ids .trailingStop ∩ b'.specialOrderTracker.ids .trailingStop) :=
    fun _ _ _ hl o ho => ⟨trivial, h.registered_inter hreg hreg' .trailingStop hl o ho⟩
  exact foldl_repriceOrder_alike serves_trailingLoop serves_trailingLoop (alike_trailingLoop _)
    hjudges ⟨fun _ _ _ => trivial, fun _ _ _ => trivial⟩
    (filter_sort_eq Finset.inter_subset_left) (filter_sort_eq Finset.inter_subset_right) h hall _

/-- **Books that are alike are re-priced alike**, if their special orders are registered and no
order is pegged to a last trade that is not compared. -/
theorem reprice (hb : b.Sound ∧ b.Registered) (hb' : b'.Sound ∧ b'.Registered)
    (hpegs : b.EveryOrder fun o => c.lastTrade ∨ o.pegsLastTrade = false) (r : Repricing) :
    (b'.reprice r).1 = (b.reprice r).1 ∧ (b.reprice r).2.Warm c (b'.reprice r).2 := by
  obtain ⟨hpegged, hpeggedBooks⟩ := h.repricePeggedCollecting hjudges hb.2 hb'.2 hpegs []
  cases r with
  | peggedOrders =>
    exact ⟨congrArg (fun t : RepriceTally => CallReply.repricedCount t.repricedCount) hpegged,
      hpeggedBooks⟩
  | trailingStops =>
    obtain ⟨htrailing, htrailingBooks⟩ := h.repriceTrailingCollecting hjudges hb.2 hb'.2 []
    exact ⟨congrArg (fun t : RepriceTally => CallReply.repricedCount t.repricedCount) htrailing,
      htrailingBooks⟩
  | specialOrders =>
    have hkept := Registered.repricing.repricePeggedCollecting [] hb
    have hkept' := Registered.repricing.repricePeggedCollecting [] hb'
    obtain ⟨htrailing, htrailingBooks⟩ := hpeggedBooks.repriceTrailingCollecting hjudges hkept.2
      hkept'.2 (b.repricePeggedCollecting []).1.failures
    simp only [OrderBook.reprice, repriceSpecialOrders, hpegged, htrailing]
    exact ⟨trivial, htrailingBooks⟩

end Warm

end OrderBook

end OrderBookRs
