import OrderBookRs.TargetedCancels

/-!
# Eviction over time

Evicting at one time and again at a later time is the same as evicting at the later time alone: each
sweep sheds exactly what is expired, an order that is expired stays expired, and what a batch of
cancels leaves does not depend on how it is cut into batches. The sweep and the admission check
compare against the clock in the same way, so an evicted book holds nothing that admission would
refuse.

## Main definitions

* `OrderBook.HoldsSame`: two books with the same queues, indices, risk state and settings.
* `EvictionsCompose`: two sweeps in a row against one.

## Main results

* `OrderBook.Sound.evict`: what one sweep returns and sheds.
* `eviction_composes`.
-/

namespace OrderBookRs

open PriceLevel OrderBook

variable {L : Type} [PriceLevel L] {o : Order} {first second : ℕ}

/-! ### Books with the same contents -/

/-- The books hold the same orders in the same places, the same indices, risk entries and counters,
and the same settings. -/
structure OrderBook.HoldsSame (b b' : OrderBook L) : Prop where
  queue : ∀ side price, b.queueAt side price = b'.queueAt side price
  level : ∀ side price, (b.levels side).get? price = none ↔ (b'.levels side).get? price = none
  location : ∀ i, b.orderLocations.lookup i = b'.orderLocations.lookup i
  users : ∀ user, b.userOrders.lookup user = b'.userOrders.lookup user
  riskEntry : ∀ i, b.riskState.orders.lookup i = b'.riskState.orders.lookup i
  openCount : ∀ a, b.riskState.openCount a = b'.riskState.openCount a
  restingNotional : ∀ a, b.riskState.restingNotional a = b'.riskState.restingNotional a
  special : ∀ k, b.specialOrderTracker.ids k = b'.specialOrderTracker.ids k
  settings : b.settings = b'.settings

theorem trimmed_perm {ids ids' : List OrderId} (h : ids.Perm ids') (list : Option (List OrderId)) :
    trimmed ids list = trimmed ids' list := by
  simp only [trimmed, h.mem_iff]

/-- **What is left depends on the ids that were shed, not on the order of the cancels.** -/
theorem OrderBook.Sheds.holdsSame {b b₁ b₂ : OrderBook L} {ids ids' : List OrderId}
    (h : b.Sheds ids b₁) (h' : b.Sheds ids' b₂) (hperm : ids.Perm ids') (hsound : b₁.Sound)
    (hsound' : b₂.Sound) : b₁.HoldsSame b₂ := by
  have hqueue : ∀ side price, b₁.queueAt side price = b₂.queueAt side price := fun side price => by
    simp only [h.queue, h'.queue, hperm.mem_iff]
  refine ⟨hqueue, fun side price => ?_, fun i => ?_, fun user => ?_, fun i => ?_, fun a => ?_,
    fun a => ?_, fun k => ?_, h.settings.trans h'.settings.symm⟩
  · rw [hsound.get?_eq_none_iff, hsound'.get?_eq_none_iff, hqueue]
  · simp only [h.location, h'.location, hperm.mem_iff]
  · rw [h.users, h'.users, trimmed_perm hperm]
  · simp only [h.risk.entry, h'.risk.entry, hperm.mem_iff]
  · rw [h.risk.openCount, h'.risk.openCount, RiskState.released_perm hperm]
  · rw [h.risk.restingNotional, h'.risk.restingNotional, RiskState.released_perm hperm]
  · ext i
    rw [h.special, h'.special, hperm.mem_iff]

/-! ### One sweep -/

/-- The resting orders expired at a time, as a scan meets them. -/
def OrderBook.expiredOrders (b : OrderBook L) (now : ℕ) : List Order :=
  b.restingOrders.filter fun o => isExpired L o.timeInForce now b.marketCloseForExpiry

theorem mem_expiredOrders {b : OrderBook L} {now : ℕ} :
    o ∈ b.expiredOrders now ↔ (∃ side price, b.Rests side price o) ∧
      isExpired L o.timeInForce now b.marketCloseForExpiry := by
  rw [expiredOrders, List.mem_filter, mem_restingOrders]

section Sweep

variable [LevelQueue L] {b : OrderBook L} {os : List Order}

theorem nodup_expiredOrders (hsound : b.Sound) (now : ℕ) :
    ((b.expiredOrders now).map Order.id).Nodup :=
  hsound.nodup_restingOrders.sublist (List.filter_sublist.map _)

/-- A batch of resting orders finds them all. -/
theorem map_snd_foundOrders (hsound : b.Sound)
    (hos : ∀ o ∈ os, ∃ side price, b.Rests side price o) :
    (b.foundOrders (os.map Order.id)).map Prod.snd = os := by
  induction os with
  | nil => rfl
  | cons o os ih =>
    have hget : b.getOrder o.id = some o :=
      hsound.getOrder_eq_some_iff.mpr ⟨hos o List.mem_cons_self, rfl⟩
    have hrest := ih fun x hx => hos x (List.mem_cons_of_mem o hx)
    rw [foundOrders] at hrest ⊢
    rw [List.map_cons, List.filterMap_cons_some (b := (o.id, o)) (by rw [hget]; rfl), List.map_cons,
      hrest]

theorem found_of_rests (hsound : b.Sound) (hos : ∀ o ∈ os, ∃ side price, b.Rests side price o) :
    b.found (os.map Order.id) = os.map Order.id := by
  refine List.filter_eq_self.mpr fun i hi => ?_
  obtain ⟨o, ho, rfl⟩ := List.mem_map.mp hi
  obtain ⟨side, price, hrests⟩ := hos o ho
  exact hsound.isSome_getOrder_iff.mpr ⟨side, price, o, hrests, rfl⟩

/-- **One sweep** returns what is expired and sheds it. -/
theorem OrderBook.Sound.evict (hsound : b.Sound) (husers : b.UsersIndexed) (now : ℕ) :
    (b.evictExpiredOrders now).2 = b.expiredOrders now ∧
      b.Sheds ((b.expiredOrders now).map Order.id) (b.evictExpiredOrders now).1 ∧
      (b.evictExpiredOrders now).1.Sound ∧ (b.evictExpiredOrders now).1.UsersIndexed := by
  have hrest : ∀ o ∈ b.expiredOrders now, ∃ side price, b.Rests side price o :=
    fun o ho => (mem_expiredOrders.mp ho).1
  obtain ⟨hresult, hsheds, hend⟩ :=
    hsound.sheds_batch husers (nodup_expiredOrders hsound now) .timeInForceExpired
  rw [found_of_rests hsound hrest] at hsheds
  have hrun : b.evictExpiredOrders now =
      ((b.cancelOrderBatchWithReason ((b.expiredOrders now).map Order.id) .timeInForceExpired).1,
        (b.cancelOrderBatchWithReason ((b.expiredOrders now).map Order.id)
          .timeInForceExpired).2.map Prod.snd) := by
    rw [evictExpiredOrders, expiredOrders]
    split_ifs with hempty
    · rw [List.isEmpty_iff.mp hempty]
      rfl
    · rfl
  rw [hrun]
  refine ⟨?_, hsheds, hend⟩
  rw [hresult]
  exact map_snd_foundOrders hsound hrest

/-- What the sweep leaves is what is not expired. -/
theorem rests_evict_iff (hsound : b.Sound) (husers : b.UsersIndexed) {now : ℕ} {side : Side}
    {price : ℕ} :
    (b.evictExpiredOrders now).1.Rests side price o ↔ b.Rests side price o ∧
      isExpired L o.timeInForce now b.marketCloseForExpiry = false := by
  rw [(hsound.evict husers now).2.1.rests_iff, List.mem_map]
  refine and_congr_right fun ho => ?_
  rw [← Bool.not_eq_true]
  refine not_congr ⟨?_, fun hexp => ⟨o, mem_expiredOrders.mpr ⟨⟨side, price, ho⟩, hexp⟩, rfl⟩⟩
  rintro ⟨x, hx, hid⟩
  obtain ⟨⟨s, p, hx⟩, hexp⟩ := mem_expiredOrders.mp hx
  rwa [← hsound.unique hx ho hid]

theorem marketClose_evict (hsound : b.Sound) (husers : b.UsersIndexed) (now : ℕ) :
    (b.evictExpiredOrders now).1.marketCloseForExpiry = b.marketCloseForExpiry :=
  congrArg BookSettings.marketCloseForExpiry (hsound.evict husers now).2.1.settings

end Sweep

/-! ### Two sweeps -/

/-- Evicting at the one time and then at the other leaves what evicting at the second alone leaves,
and the two steps divide up what the one evicts. -/
structure EvictionsCompose (b : OrderBook L) (first second : ℕ) : Prop where
  same : ((b.evictExpiredOrders first).1.evictExpiredOrders second).1.HoldsSame
    (b.evictExpiredOrders second).1
  disjoint : ∀ o ∈ (b.evictExpiredOrders first).2,
    o ∉ ((b.evictExpiredOrders first).1.evictExpiredOrders second).2
  union : ∀ o, o ∈ (b.evictExpiredOrders first).2 ∨
      o ∈ ((b.evictExpiredOrders first).1.evictExpiredOrders second).2 ↔
    o ∈ (b.evictExpiredOrders second).2

section Main

variable [LevelQueue L] [ExpiryMonotone L] {b : OrderBook L}

omit [ExpiryMonotone L] in
/-- The second sweep finds what was not expired before. -/
theorem mem_expiredOrders_evict (hsound : b.Sound) (husers : b.UsersIndexed) :
    o ∈ (b.evictExpiredOrders first).1.expiredOrders second ↔
      o ∈ b.expiredOrders second ∧ o ∉ b.expiredOrders first := by
  rw [mem_expiredOrders, mem_expiredOrders, mem_expiredOrders, marketClose_evict hsound husers]
  simp only [rests_evict_iff hsound husers]
  constructor
  · rintro ⟨⟨side, price, ho, hfirst⟩, hsecond⟩
    refine ⟨⟨⟨side, price, ho⟩, hsecond⟩, fun hboth => ?_⟩
    rw [hfirst] at hboth
    exact Bool.false_ne_true hboth.2
  · rintro ⟨⟨⟨side, price, ho⟩, hsecond⟩, hnot⟩
    refine ⟨⟨side, price, ho, ?_⟩, hsecond⟩
    rw [← Bool.not_eq_true]
    exact fun hfirst => hnot ⟨⟨side, price, ho⟩, hfirst⟩

omit [LevelQueue L] in
theorem expiredOrders_mono (hle : first ≤ second) (ho : o ∈ b.expiredOrders first) :
    o ∈ b.expiredOrders second := by
  obtain ⟨hrests, hexp⟩ := mem_expiredOrders.mp ho
  exact mem_expiredOrders.mpr ⟨hrests, ExpiryMonotone.isExpired_mono hle hexp⟩

theorem evictionsCompose_of_sound (hsound : b.Sound) (husers : b.UsersIndexed)
    (hle : first ≤ second) : EvictionsCompose b first second := by
  obtain ⟨hevicted₁, hsheds₁, hsound₁, husers₁⟩ := hsound.evict husers first
  obtain ⟨hevicted₂, hsheds₂, hsound₂, -⟩ := hsound₁.evict husers₁ second
  obtain ⟨hevicted, hsheds, hsound', -⟩ := hsound.evict husers second
  have hmem : ∀ {o}, o ∈ (b.evictExpiredOrders first).1.expiredOrders second ↔
      o ∈ b.expiredOrders second ∧ o ∉ b.expiredOrders first :=
    mem_expiredOrders_evict hsound husers
  -- the ids of both steps are the ids of the one
  have hdisjoint : ∀ i ∈ ((b.evictExpiredOrders first).1.expiredOrders second).map Order.id,
      i ∉ (b.expiredOrders first).map Order.id := by
    rintro i hi hi'
    obtain ⟨o, ho, rfl⟩ := List.mem_map.mp hi
    obtain ⟨x, hx, hid⟩ := List.mem_map.mp hi'
    obtain ⟨⟨s, p, hxrests⟩, -⟩ := mem_expiredOrders.mp hx
    obtain ⟨⟨s', p', horests⟩, -⟩ := mem_expiredOrders.mp (hmem.mp ho).1
    obtain rfl := hsound.unique hxrests horests hid
    exact (hmem.mp ho).2 hx
  have hperm : ((b.expiredOrders first).map Order.id ++
      ((b.evictExpiredOrders first).1.expiredOrders second).map Order.id).Perm
        ((b.expiredOrders second).map Order.id) := by
    refine (List.perm_ext_iff_of_nodup ?_ (nodup_expiredOrders hsound second)).mpr fun i => ?_
    · exact (nodup_expiredOrders hsound first).append (nodup_expiredOrders hsound₁ second)
        fun i hi hi' => hdisjoint i hi' hi
    · simp only [List.mem_append, List.mem_map, hmem]
      constructor
      · rintro (⟨o, ho, hid⟩ | ⟨o, ho, hid⟩)
        · exact ⟨o, expiredOrders_mono hle ho, hid⟩
        · exact ⟨o, ho.1, hid⟩
      · rintro ⟨o, ho, hid⟩
        by_cases hfirst : o ∈ b.expiredOrders first
        · exact Or.inl ⟨o, hfirst, hid⟩
        · exact Or.inr ⟨o, ⟨ho, hfirst⟩, hid⟩
  refine ⟨(hsheds₁.append hsheds₂ hdisjoint).holdsSame hsheds hperm hsound₂ hsound',
    fun o ho ho' => ?_, fun o => ?_⟩
  · rw [hevicted₁] at ho
    rw [hevicted₂] at ho'
    exact (hmem.mp ho').2 ho
  · rw [hevicted₁, hevicted₂, hevicted, hmem]
    constructor
    · rintro (ho | ho)
      · exact expiredOrders_mono hle ho
      · exact ho.1
    · exact fun ho => (Classical.em (o ∈ b.expiredOrders first)).imp id fun hnot => ⟨ho, hnot⟩

variable [SnapshotChecksum] [DisplayId] [LevelSnapshot L] [LevelMatch L] [LevelResize L]

/-- **Eviction composes over time**, from any reachable book, and what a sweep leaves would pass the
expiry check of an admission at the same time. -/
theorem eviction_composes (h : b.ReachableByCalls) {first second : ℕ} (hle : first ≤ second) :
    EvictionsCompose b first second ∧
      ∀ now side price o clock, (b.evictExpiredOrders now).1.Rests side price o →
        clock.nowMillis = now →
        (hasExpired o { (b.evictExpiredOrders now).1 with clock := clock }).1 = .ok false := by
  have hcat := h.catalogued
  refine ⟨evictionsCompose_of_sound hcat.sound hcat.users hle, ?_⟩
  rintro now side price o clock ho rfl
  have hclose := marketClose_evict hcat.sound hcat.users clock.nowMillis
  have hnot := ((rests_evict_iff hcat.sound hcat.users).mp ho).2
  rw [← hclose] at hnot
  exact congrArg Except.ok hnot

end Main

/-- The bid runs out at 50 and the ask at 60. -/
theorem quotedSides_evictions : EvictionsCompose quotedSides 50 60 ∧
    (quotedSides.evictExpiredOrders 50).2.map Order.id = [2] ∧
    ((quotedSides.evictExpiredOrders 50).1.evictExpiredOrders 60).2.map Order.id = [3] := by
  let _ := noDigest
  let _ := tallyIds
  exact ⟨(eviction_composes quotedSides_reachable (by decide)).1, by decide, by decide⟩

end OrderBookRs
