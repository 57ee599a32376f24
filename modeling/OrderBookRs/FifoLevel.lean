import OrderBookRs.PriceLevel
import Mathlib.Algebra.BigOperators.Ring.List
import Mathlib.Algebra.Order.BigOperators.Group.List
import Mathlib.Data.List.Nodup

/-!
# A reference level

A level kept as a plain list of orders, on which every assumption about the `pricelevel` crate
holds. It shows that the assumptions are consistent and serves as the level of concrete runs.

A match walks the queue from the front, passes over the order with the taker's own id and draws
every other order as far as a sweep can reach: an order drawn to the end leaves, the last one drawn
keeps its place.

The level differs from the crate in two points, and the runs on it keep away from them. An iceberg
or auto-replenished reserve order gives all a match takes from it in one trade and refreshes its
display where it stands, where the crate trades display by display and queues the refreshed order
again. An order with nothing to draw is refused, as a new order and as the outcome of a resize; the
crate keeps it until a match drops it.

## Main definitions

* `consume`: the walk of a match over the queue.
* `Walk`: the walks over a queue, with one id to pass over.
* `FifoLevel`: the level, with what it keeps true of its queue.

## Main results

The instances: `LevelQueue`, `LevelResize`, `LevelReports`, `MatchAccounting`, `MatchConservation`,
`MatchExhausts`, `MatchableDryRun`, `MatchDepth`, `SelfMatchSkip`, `MatchReach`, `TradeRecords`,
`TradeRefusal`, `LevelCapacity`, `LevelTotals`, `MatchInLots`, `MatchDisplays`,
`MatchReportsOnce`, `InsertionOrder`, `LevelSnapshot`, `LevelRoundTrip`, `LevelDisplay` for
`FifoLevel`.
-/

namespace OrderBookRs

variable {o : Order} {q : ℕ} {queue : List Order}

namespace Order

variable {lot : ℕ}

/-- What is left of an order after `q` was drawn from it: the display first, refreshed from the
hidden tranche when it runs out. -/
def drawn (o : Order) (q : ℕ) : Order :=
  if q < o.visibleQuantity then o.setTranches (o.visibleQuantity - q) o.hiddenQuantity
  else
    let left := o.size - q
    o.setTranches (min o.visibleQuantity left) (left - min o.visibleQuantity left)

@[simp] theorem drawn_id (o : Order) (q : ℕ) : (o.drawn q).id = o.id := by
  unfold drawn
  split_ifs <;> rfl

theorem drawn_eq_setTranches (o : Order) (q : ℕ) : ∃ v h, o.drawn q = o.setTranches v h := by
  unfold drawn
  split_ifs
  · exact ⟨_, _, rfl⟩
  · exact ⟨_, _, rfl⟩

/-- The kinds a sweep can draw the hidden tranche of. -/
theorem matchableQty_cases (h : o.size ≤ u64Max) :
    o.matchableQty = o.size ∨ o.keepsHidden ∧ o.matchableQty = o.visibleQuantity := by
  rw [matchableQty_eq h]
  split_ifs with hkeeps
  · exact Or.inr ⟨hkeeps, rfl⟩
  · exact Or.inl rfl

theorem visibleQuantity_le_matchableQty (h : o.size ≤ u64Max) :
    o.visibleQuantity ≤ o.matchableQty := by
  rcases matchableQty_cases h with h' | ⟨-, h'⟩
  · rw [h']
    exact Nat.le_add_right ..
  · exact h'.ge

theorem matchableQty_le_size (h : o.size ≤ u64Max) : o.matchableQty ≤ o.size := by
  rcases matchableQty_cases h with h' | ⟨-, h'⟩
  · exact h'.le
  · rw [h']
    exact Nat.le_add_right ..

/-- Drawing part of an order takes exactly that part off its size and off what can be drawn. -/
theorem drawn_quantities (hfit : o.size ≤ u64Max) (hq : q < o.matchableQty) :
    (o.drawn q).size + q = o.size ∧ (o.drawn q).matchableQty + q = o.matchableQty := by
  rcases o with ⟨_, _, _, _, _, _, v, k⟩
  cases k with
  | reserve hidden threshold amount auto =>
    cases auto <;>
      · simp only [size, hiddenQuantity, matchableQty, drawn, satAdd64] at hfit hq ⊢
        split_ifs <;> simp only [setTranches] <;> omega
  | _ =>
    simp only [size, hiddenQuantity, matchableQty, drawn, satAdd64] at hfit hq ⊢
    split_ifs <;> simp only [setTranches] <;> omega

/-- Drawing from an order adds to neither of its tranches. -/
theorem drawn_le (o : Order) (q : ℕ) :
    (o.drawn q).visibleQuantity ≤ o.visibleQuantity ∧
      (o.drawn q).hiddenQuantity ≤ o.hiddenQuantity := by
  rcases o with ⟨_, _, _, _, _, _, v, k⟩
  cases k <;>
    · simp only [size, hiddenQuantity, drawn]
      split_ifs <;> simp only [setTranches] <;> omega

/-- Where the hidden tranche cannot be drawn, drawing part of an order leaves it alone. -/
theorem drawn_hiddenQuantity (hkeeps : o.keepsHidden) (hq : q < o.matchableQty) :
    (o.drawn q).hiddenQuantity = o.hiddenQuantity := by
  rcases o with ⟨_, _, _, _, _, _, v, k⟩
  cases k with
  | reserve hidden threshold amount auto =>
    cases auto with
    | true => cases hkeeps
    | false =>
      have hv : q < v := lt_of_lt_of_le hq (min_le_left ..)
      rw [drawn, if_pos hv]
      rfl
  | _ => cases hkeeps

/-- Drawing part of an order leaves something on display. -/
theorem visibleQuantity_drawn_pos (hfit : o.size ≤ u64Max) (hq : q < o.matchableQty)
    (hvisible : 0 < o.visibleQuantity) : 0 < (o.drawn q).visibleQuantity := by
  have hle := matchableQty_le_size hfit
  rw [drawn]
  split_ifs with hlt
  · exact Nat.sub_pos_of_lt hlt
  · exact Nat.lt_min.mpr ⟨hvisible, by omega⟩

theorem InLots.matchableQty (h : o.InLots lot) (hfit : o.size ≤ u64Max) : lot ∣ o.matchableQty := by
  rcases matchableQty_cases hfit with hall | ⟨-, hdisplay⟩
  · rw [hall]
    exact h.size
  · rw [hdisplay]
    exact h.visible

theorem InLots.drawn (h : o.InLots lot) (hq : lot ∣ q) : (o.drawn q).InLots lot := by
  rw [Order.drawn]
  split_ifs with hlt
  · exact h.setTranches (Nat.dvd_sub h.visible hq) h.hidden fun hzero => hzero
  · have hleft := Nat.dvd_sub h.size hq
    have hmin := dvd_min h.visible hleft
    refine h.setTranches hmin (Nat.dvd_sub hleft hmin) fun hzero => ?_
    have hsize : o.size = o.visibleQuantity + o.hiddenQuantity := rfl
    omega

end Order

/-! ### The walk of a match -/

/-- Walk the queue with budget `q`, passing over the order with id `i`: the makers drawn with what
was drawn, and the queue left. -/
def consume (i : OrderId) : ℕ → List Order → List (Order × ℕ) × List Order
  | _, [] => ([], [])
  | q, o :: rest =>
    if q = 0 then ([], o :: rest)
    else if o.id = i then
      let c := consume i q rest
      (c.1, o :: c.2)
    else if o.matchableQty ≤ q then
      let c := consume i (q - o.matchableQty) rest
      ((o, o.matchableQty) :: c.1, c.2)
    else ([(o, q)], o.drawn q :: rest)

/-- What a list of orders lets a sweep draw. -/
def depth (queue : List Order) : ℕ := (queue.map Order.matchableQty).sum

@[simp] theorem depth_cons (o : Order) (queue : List Order) :
    depth (o :: queue) = o.matchableQty + depth queue := by simp [depth]

/-- What the orders other than `i` let a sweep draw. -/
def depthOthers (i : OrderId) (queue : List Order) : ℕ := depth (queue.filter fun o => o.id ≠ i)

/-- A queue a level may hold: distinct ids, visible and hidden totals that fit in a `u64` each, as
does the size of every order, and every order can be drawn on. -/
structure Admissible (queue : List Order) : Prop where
  nodup : (queue.map Order.id).Nodup
  visible : (queue.map Order.visibleQuantity).sum ≤ u64Max
  hidden : (queue.map Order.hiddenQuantity).sum ≤ u64Max
  fits : ∀ o ∈ queue, o.size ≤ u64Max
  drawable : ∀ o ∈ queue, 0 < o.matchableQty

namespace Admissible

variable {queue queue' : List Order}

theorem sublist (h : Admissible queue) (hs : queue'.Sublist queue) : Admissible queue' :=
  ⟨h.nodup.sublist (hs.map _),
    le_trans ((hs.map _).sum_le_sum fun _ _ => Nat.zero_le _) h.visible,
    le_trans ((hs.map _).sum_le_sum fun _ _ => Nat.zero_le _) h.hidden,
    fun o ho => h.fits o (hs.subset ho), fun o ho => h.drawable o (hs.subset ho)⟩

theorem tail (h : Admissible (o :: queue)) : Admissible queue :=
  h.sublist (List.sublist_cons_self ..)

theorem id_ne (h : Admissible (o :: queue)) {x : Order} (hx : x ∈ queue) : o.id ≠ x.id :=
  fun hid => (List.nodup_cons.mp h.nodup).1 (hid ▸ List.mem_map_of_mem hx)

instance (queue : List Order) : Decidable (Admissible queue) :=
  decidable_of_iff ((queue.map Order.id).Nodup ∧
      (queue.map Order.visibleQuantity).sum ≤ u64Max ∧
      (queue.map Order.hiddenQuantity).sum ≤ u64Max ∧
      (∀ o ∈ queue, o.size ≤ u64Max) ∧ ∀ o ∈ queue, 0 < o.matchableQty)
    ⟨fun h => ⟨h.1, h.2.1, h.2.2.1, h.2.2.2.1, h.2.2.2.2⟩,
      fun h => ⟨h.nodup, h.visible, h.hidden, h.fits, h.drawable⟩⟩

end Admissible

/-- The orders a walk draws to the end. -/
def drawnOut (fills : List (Order × ℕ)) : List OrderId :=
  (fills.filter fun f => f.2 = f.1.matchableQty).map fun f => f.1.id

/-- **The walks over a queue**: passing over one id, a walk draws one order after the other to its
end and the last one in part. -/
inductive Walk (i : OrderId) : ℕ → List Order → List (Order × ℕ) → List Order → Prop
  | nil {q : ℕ} : Walk i q [] [] []
  | stop {queue : List Order} : Walk i 0 queue [] queue
  | pass {q : ℕ} {o : Order} {rest left fills} (own : o.id = i)
      (walk : Walk i q rest fills left) : Walk i q (o :: rest) fills (o :: left)
  | draw {q : ℕ} {o : Order} {rest left fills} (other : o.id ≠ i) (le : o.matchableQty ≤ q)
      (walk : Walk i (q - o.matchableQty) rest fills left) :
      Walk i q (o :: rest) ((o, o.matchableQty) :: fills) left
  | part {q : ℕ} {o : Order} {rest} (other : o.id ≠ i) (pos : 0 < q)
      (lt : q < o.matchableQty) : Walk i q (o :: rest) [(o, q)] (o.drawn q :: rest)

theorem walk_consume (i : OrderId) (q : ℕ) (queue : List Order) :
    Walk i q queue (consume i q queue).1 (consume i q queue).2 := by
  fun_induction consume i q queue with
  | case1 => exact .nil
  | case2 => exact .stop
  | case3 q o rest hq hown c ih => exact .pass hown ih
  | case4 q o rest hq hown hle c ih => exact .draw hown hle ih
  | case5 q o rest hq hown hle => exact .part hown (Nat.pos_of_ne_zero hq) (not_le.mp hle)

namespace Walk

variable {i : OrderId} {queue left : List Order} {fills : List (Order × ℕ)}
  {f : Order × ℕ} {x : Order}

/-- A walk draws a positive quantity from orders of the queue. -/
theorem mem_fills (h : Walk i q queue fills left) (hqueue : Admissible queue) (hf : f ∈ fills) :
    f.1 ∈ queue ∧ 0 < f.2 := by
  induction h with
  | nil | stop => cases hf
  | pass own walk ih => exact (ih hqueue.tail hf).imp_left (List.mem_cons_of_mem _)
  | @draw q o rest fills left other le walk ih =>
    rcases List.mem_cons.mp hf with rfl | hf
    · exact ⟨List.mem_cons_self .., hqueue.drawable o (List.mem_cons_self ..)⟩
    · exact (ih hqueue.tail hf).imp_left (List.mem_cons_of_mem _)
  | part other pos lt =>
    obtain rfl := List.mem_singleton.mp hf
    exact ⟨List.mem_cons_self .., pos⟩

/-- What a walk leaves was there before, up to its tranches. -/
theorem mem_left (h : Walk i q queue fills left) (hx : x ∈ left) :
    ∃ o ∈ queue, ∃ v h, x = o.setTranches v h := by
  induction h with
  | nil => cases hx
  | stop => exact ⟨x, hx, x.eq_setTranches⟩
  | pass own walk ih =>
    rcases List.mem_cons.mp hx with rfl | hx
    · exact ⟨x, List.mem_cons_self .., x.eq_setTranches⟩
    · obtain ⟨y, hy, h⟩ := ih hx
      exact ⟨y, List.mem_cons_of_mem _ hy, h⟩
  | draw other le walk ih =>
    obtain ⟨y, hy, h⟩ := ih hx
    exact ⟨y, List.mem_cons_of_mem _ hy, h⟩
  | @part q o rest other pos lt =>
    rcases List.mem_cons.mp hx with rfl | hx
    · exact ⟨o, List.mem_cons_self .., o.drawn_eq_setTranches q⟩
    · exact ⟨x, List.mem_cons_of_mem _ hx, x.eq_setTranches⟩

theorem ids_left (h : Walk i q queue fills left) :
    (left.map Order.id).Sublist (queue.map Order.id) := by
  induction h with
  | nil | stop => exact List.Sublist.refl _
  | pass own walk ih => exact ih.cons_cons _
  | draw other le walk ih => exact ih.cons _
  | part => rw [List.map_cons, List.map_cons, Order.drawn_id]

/-- A walk adds to no quantity that drawing does not add to. -/
theorem sum_left (h : Walk i q queue fills left) {f : Order → ℕ}
    (hf : ∀ o q, f (Order.drawn o q) ≤ f o) : (left.map f).sum ≤ (queue.map f).sum := by
  induction h with
  | nil | stop => exact le_rfl
  | pass own walk ih => simpa using ih
  | draw other le walk ih => exact ih.trans (by simp)
  | @part q o rest other pos lt => simpa using hf o q

/-- A walk leaves orders of sizes that fit and that can still be drawn. -/
theorem sizes_left (h : Walk i q queue fills left) (hqueue : Admissible queue) :
    ∀ x ∈ left, x.size ≤ u64Max ∧ 0 < x.matchableQty := by
  induction h with
  | nil | stop => exact fun x hx => ⟨hqueue.fits x hx, hqueue.drawable x hx⟩
  | pass own walk ih =>
    exact List.forall_mem_cons.mpr ⟨⟨hqueue.fits _ (List.mem_cons_self ..),
      hqueue.drawable _ (List.mem_cons_self ..)⟩, ih hqueue.tail⟩
  | draw other le walk ih => exact ih hqueue.tail
  | part other pos lt =>
    have hfits := hqueue.fits _ (List.mem_cons_self ..)
    obtain ⟨hsize, hleft⟩ := Order.drawn_quantities hfits lt
    exact List.forall_mem_cons.mpr ⟨by omega, fun x hx =>
      ⟨hqueue.tail.fits x hx, hqueue.tail.drawable x hx⟩⟩

theorem admissible (h : Walk i q queue fills left) (hqueue : Admissible queue) :
    Admissible left :=
  ⟨hqueue.nodup.sublist h.ids_left,
    (h.sum_left fun o q => (o.drawn_le q).1).trans hqueue.visible,
    (h.sum_left fun o q => (o.drawn_le q).2).trans hqueue.hidden,
    fun x hx => (h.sizes_left hqueue x hx).1, fun x hx => (h.sizes_left hqueue x hx).2⟩

/-- A walk that draws nothing leaves the queue as it was. -/
theorem left_of_nil (h : Walk i q queue [] left) : left = queue := by
  generalize hfills : ([] : List (Order × ℕ)) = fills at h
  induction h with
  | nil | stop => rfl
  | pass own walk ih => rw [ih hfills]
  | draw | part => cases hfills

/-- A walk in whole lots leaves whole lots. -/
theorem inLots (h : Walk i q queue fills left) {lot : ℕ} (hqueue : Admissible queue)
    (hq : lot ∣ q) (hlots : ∀ o ∈ queue, o.InLots lot) : ∀ o ∈ left, o.InLots lot := by
  induction h with
  | nil | stop => exact hlots
  | pass own walk ih =>
    obtain ⟨ho, hrest⟩ := List.forall_mem_cons.mp hlots
    exact List.forall_mem_cons.mpr ⟨ho, ih hqueue.tail hq hrest⟩
  | draw other le walk ih =>
    obtain ⟨ho, hrest⟩ := List.forall_mem_cons.mp hlots
    have hm := ho.matchableQty (hqueue.fits _ (List.mem_cons_self ..))
    exact ih hqueue.tail (Nat.dvd_sub hq hm) hrest
  | part other pos lt =>
    obtain ⟨ho, hrest⟩ := List.forall_mem_cons.mp hlots
    exact List.forall_mem_cons.mpr ⟨ho.drawn hq, hrest⟩

theorem depthOthers_pass {o : Order} (h : o.id = i) (queue : List Order) :
    depthOthers i (o :: queue) = depthOthers i queue := by simp [depthOthers, h]

theorem depthOthers_other {o : Order} (h : o.id ≠ i) (queue : List Order) :
    depthOthers i (o :: queue) = o.matchableQty + depthOthers i queue := by simp [depthOthers, h]

/-- A walk draws what it can, up to its budget. -/
theorem drawn_eq (h : Walk i q queue fills left) :
    (fills.map Prod.snd).sum = min q (depthOthers i queue) := by
  induction h with
  | nil => exact (Nat.min_zero _).symm
  | stop => exact (Nat.zero_min _).symm
  | pass own walk ih => rw [ih, depthOthers_pass own]
  | draw other le walk ih =>
    rw [List.map_cons, List.sum_cons, ih, depthOthers_other other]
    omega
  | part other pos lt =>
    rw [List.map_singleton, List.sum_singleton, depthOthers_other other]
    omega

/-- What a walk draws, it takes off what can be drawn. -/
theorem depthOthers_left (h : Walk i q queue fills left) (hqueue : Admissible queue) :
    depthOthers i left + (fills.map Prod.snd).sum = depthOthers i queue := by
  induction h with
  | nil | stop => rfl
  | pass own walk ih => rw [depthOthers_pass own, depthOthers_pass own, ih hqueue.tail]
  | draw other le walk ih =>
    rw [List.map_cons, List.sum_cons, depthOthers_other other, ← ih hqueue.tail]
    omega
  | part other pos lt =>
    have hdrawn := (Order.drawn_quantities (hqueue.fits _ (List.mem_cons_self ..)) lt).2
    rw [depthOthers_other other, depthOthers_other (by rwa [Order.drawn_id]), List.map_singleton,
      List.sum_singleton]
    omega

/-! ### The makers of a walk -/

/-- What a walk draws from one id. -/
def drawnFrom (j : OrderId) (fills : List (Order × ℕ)) : List (Order × ℕ) :=
  fills.filter fun f => f.1.id = j

theorem drawnFrom_eq_nil (h : Walk i q queue fills left) (hqueue : Admissible (o :: queue)) :
    drawnFrom o.id fills = [] := by
  refine List.filter_eq_nil_iff.mpr fun f hf hid => ?_
  exact hqueue.id_ne (h.mem_fills hqueue.tail hf).1 (of_decide_eq_true hid).symm

/-- A walk draws nothing from the id it passes over. -/
theorem drawnFrom_own (h : Walk i q queue fills left) : drawnFrom i fills = [] := by
  induction h with
  | nil | stop => rfl
  | pass own walk ih => exact ih
  | draw other le walk ih => rwa [drawnFrom, List.filter_cons_of_neg (by simpa using other)]
  | part other pos lt => rw [drawnFrom, List.filter_cons_of_neg (by simpa using other)]; rfl

theorem notMem_drawnOut (h : Walk i q queue fills left) (hqueue : Admissible (o :: queue)) :
    o.id ∉ drawnOut fills := by
  intro hmem
  obtain ⟨f, hf, hid⟩ := List.mem_map.mp hmem
  exact hqueue.id_ne (h.mem_fills hqueue.tail (List.mem_of_mem_filter hf)).1 hid.symm

theorem drawnOut_draw (o : Order) (fills : List (Order × ℕ)) :
    drawnOut ((o, o.matchableQty) :: fills) = o.id :: drawnOut fills := by
  rw [drawnOut, List.filter_cons_of_pos (by simp), List.map_cons, drawnOut]

theorem drawnOut_part (h : q < o.matchableQty) : drawnOut [(o, q)] = [] := by
  simp [drawnOut, h.ne]

theorem drawnOut_sublist (h : Walk i q queue fills left) :
    (drawnOut fills).Sublist (queue.map Order.id) := by
  induction h with
  | nil | stop => exact List.nil_sublist _
  | pass own walk ih => exact ih.cons _
  | draw other le walk ih =>
    rw [drawnOut_draw]
    exact ih.cons_cons _
  | part other pos lt =>
    rw [drawnOut_part lt]
    exact List.nil_sublist _

/-- **The three fates of a maker**: drawn to the end and gone, drawn in part and kept, untouched. -/
theorem fate (h : Walk i q queue fills left) (hqueue : Admissible queue) (ho : o ∈ queue) :
    (drawnFrom o.id fills = [(o, o.matchableQty)] ∧ o.id ∉ left.map Order.id ∧
        o.id ∈ drawnOut fills) ∨
      (∃ k, 0 < k ∧ k < o.matchableQty ∧ drawnFrom o.id fills = [(o, k)] ∧ o.drawn k ∈ left ∧
        o.id ∉ drawnOut fills) ∨
      (drawnFrom o.id fills = [] ∧ o ∈ left ∧ o.id ∉ drawnOut fills) := by
  induction h with
  | nil => cases ho
  | stop => exact Or.inr (Or.inr ⟨rfl, ho, List.not_mem_nil⟩)
  | pass own walk ih =>
    rcases List.mem_cons.mp ho with rfl | ho
    · exact Or.inr (Or.inr ⟨walk.drawnFrom_eq_nil hqueue, List.mem_cons_self ..,
        walk.notMem_drawnOut hqueue⟩)
    · have hne := (hqueue.id_ne ho).symm
      rcases ih hqueue.tail ho with ⟨hdrawn, hgone, hout⟩ | ⟨k, hk, hkm, hdrawn, hleft, hnot⟩ |
        ⟨hdrawn, hleft, hnot⟩
      · refine Or.inl ⟨hdrawn, fun hmem => ?_, hout⟩
        exact (List.mem_cons.mp hmem).elim hne hgone
      · exact Or.inr (Or.inl ⟨k, hk, hkm, hdrawn, List.mem_cons_of_mem _ hleft, hnot⟩)
      · exact Or.inr (Or.inr ⟨hdrawn, List.mem_cons_of_mem _ hleft, hnot⟩)
  | @draw q x rest fills left other le walk ih =>
    rw [drawnOut_draw, List.mem_cons]
    rcases List.mem_cons.mp ho with rfl | ho
    · refine Or.inl ⟨?_, fun hmem => ?_, Or.inl rfl⟩
      · rw [drawnFrom, List.filter_cons_of_pos (by simp)]
        exact congrArg _ (walk.drawnFrom_eq_nil hqueue)
      · exact (List.nodup_cons.mp hqueue.nodup).1 (walk.ids_left.subset hmem)
    · have hne := hqueue.id_ne ho
      rw [drawnFrom, List.filter_cons_of_neg (by simpa using hne)]
      rcases ih hqueue.tail ho with ⟨hdrawn, hgone, hout⟩ | ⟨k, hk, hkm, hdrawn, hleft, hnot⟩ |
        ⟨hdrawn, hleft, hnot⟩
      · exact Or.inl ⟨hdrawn, hgone, Or.inr hout⟩
      · exact Or.inr (Or.inl ⟨k, hk, hkm, hdrawn, hleft, not_or.mpr ⟨hne.symm, hnot⟩⟩)
      · exact Or.inr (Or.inr ⟨hdrawn, hleft, not_or.mpr ⟨hne.symm, hnot⟩⟩)
  | @part q x rest other pos lt =>
    rw [drawnOut_part lt]
    rcases List.mem_cons.mp ho with rfl | ho
    · exact Or.inr (Or.inl ⟨q, pos, lt, by simp [drawnFrom], List.mem_cons_self ..,
        List.not_mem_nil⟩)
    · refine Or.inr (Or.inr ⟨?_, List.mem_cons_of_mem _ ho, List.not_mem_nil⟩)
      rw [drawnFrom, List.filter_cons_of_neg (by simpa using hqueue.id_ne ho), List.filter_nil]

/-- A walk removes exactly the orders it draws to the end. -/
theorem mem_drawnOut_iff (h : Walk i q queue fills left) (hqueue : Admissible queue)
    (j : OrderId) :
    j ∈ drawnOut fills ↔ j ∈ queue.map Order.id ∧ j ∉ left.map Order.id := by
  constructor
  · intro hj
    have hmem := h.drawnOut_sublist.subset hj
    obtain ⟨o, ho, rfl⟩ := List.mem_map.mp hmem
    rcases h.fate hqueue ho with ⟨-, hgone, -⟩ | ⟨k, -, -, -, -, hnot⟩ | ⟨-, -, hnot⟩
    · exact ⟨hmem, hgone⟩
    · exact absurd hj hnot
    · exact absurd hj hnot
  · rintro ⟨hj, hgone⟩
    obtain ⟨o, ho, rfl⟩ := List.mem_map.mp hj
    rcases h.fate hqueue ho with ⟨-, -, hout⟩ | ⟨k, -, -, -, hleft, -⟩ | ⟨-, hleft, -⟩
    · exact hout
    · exact absurd (List.mem_map.mpr ⟨_, hleft, o.drawn_id k⟩) hgone
    · exact absurd (List.mem_map_of_mem hleft) hgone

/-- What stands ahead of an order that is drawn is drawn to the end, unless it is passed over. -/
theorem ahead_drawnOut {ahead behind : List Order}
    (h : Walk i q queue fills left) (hqueue : Admissible queue)
    (hsplit : queue = ahead ++ o :: behind) (hdrawn : drawnFrom o.id fills ≠ []) :
    ∀ x ∈ ahead, x.id ≠ i → x.id ∈ drawnOut fills := by
  induction ahead generalizing q queue fills left with
  | nil => exact fun x hx => absurd hx List.not_mem_nil
  | cons a ahead ih =>
    subst hsplit
    have hne : a.id ≠ o.id := hqueue.id_ne (by simp)
    cases h with
    | stop => exact absurd rfl hdrawn
    | pass own walk =>
      exact List.forall_mem_cons.mpr ⟨fun hne => absurd own hne, ih walk hqueue.tail rfl hdrawn⟩
    | draw other le walk =>
      rw [drawnFrom, List.filter_cons_of_neg (by simpa using hne)] at hdrawn
      rw [drawnOut_draw]
      exact List.forall_mem_cons.mpr ⟨fun _ => List.mem_cons_self .., fun x hx hne =>
        List.mem_cons_of_mem _ (ih walk hqueue.tail rfl hdrawn x hx hne)⟩
    | part other pos lt =>
      exact absurd (by simp [drawnFrom, hne]) hdrawn

end Walk

/-! ### The level -/

/-- A level as a list of orders. -/
structure FifoLevel where
  price : ℕ
  queue : List Order
  admissible : Admissible queue

namespace FifoLevel

/-- A level with the given queue, if a level may hold it. -/
def ofQueue (price : ℕ) (queue : List Order) : Except PriceLevelError FifoLevel :=
  if h : Admissible queue then .ok ⟨price, queue, h⟩
  else .error (.invalidOperation "inadmissible queue")

theorem ofQueue_eq_ok {price : ℕ} {l : FifoLevel} (h : ofQueue price queue = .ok l) :
    l.price = price ∧ l.queue = queue := by
  unfold ofQueue at h
  split_ifs at h
  cases h
  exact ⟨rfl, rfl⟩

/-- Admission: a new id, the level's price and side, and room for the order. -/
def addOrder (l : FifoLevel) (o : Order) : Except PriceLevelError FifoLevel :=
  if o.id ∈ l.queue.map Order.id then .error (.duplicateOrderId o.id)
  else if o.price ≠ l.price ∨ (l.queue.any fun x => x.side ≠ o.side) then
    .error (.invalidOperation "order does not belong on this level")
  else ofQueue l.price (l.queue ++ [o])

/-- Cancellation. -/
def cancel (l : FifoLevel) (i : OrderId) : FifoLevel :=
  ⟨l.price, l.queue.filter fun x => x.id ≠ i, l.admissible.sublist List.filter_sublist⟩

/-- A smaller display keeps its place, a larger one goes to the back. -/
def resizedQueue (queue : List Order) (o : Order) (q : ℕ) : List Order :=
  let new := o.setTranches q o.hiddenQuantity
  if q ≤ o.visibleQuantity then queue.map fun x => if x.id = o.id then new else x
  else (queue.filter fun x => x.id ≠ o.id) ++ [new]

/-- `update_order`, as far as the book uses it. -/
def update (l : FifoLevel) (u : OrderUpdate) : Except PriceLevelError (Option Order) × FifoLevel :=
  match u with
  | .cancel i => (.ok (l.queue.find? fun x => x.id = i), l.cancel i)
  | .updateQuantity i q =>
    match l.queue.find? fun x => x.id = i with
    | none => (.ok none, l)
    | some o =>
      match ofQueue l.price (resizedQueue l.queue o q) with
      | .error e => (.error e, l)
      | .ok l' => (.ok (some (o.setTranches q o.hiddenQuantity)), l')
  | _ => (.error (.invalidOperation "unsupported"), l)

/-- The trades and departures of a walk. -/
def report (l : FifoLevel) (q : ℕ) (i : OrderId) : MatchResult :=
  let fills := (consume i q l.queue).1
  { orderId := i
    trades := fills.map fun f => ⟨i, f.1.id, l.price, f.2⟩
    remainingQuantity := q - (fills.map Prod.snd).sum
    filledOrderIds := drawnOut fills }

/-- `match_order`: a post-only taker only learns whether it could trade. -/
def matchOrder (l : FifoLevel) (q : ℕ) (i : OrderId) : TakerKind → MatchResult × FifoLevel
  | .standard =>
    (l.report q i,
      ⟨l.price, (consume i q l.queue).2, (walk_consume i q _).admissible l.admissible⟩)
  | .postOnly =>
    ({ orderId := i, remainingQuantity := q, wasRejected := 0 < min q (depthOthers i l.queue) }, l)

/-- The snapshot of a level; statistics are not kept. -/
def toSnapshot (l : FifoLevel) : PriceLevelSnapshot :=
  { price := l.price
    visibleQuantity := (l.queue.map Order.visibleQuantity).sum
    hiddenQuantity := (l.queue.map Order.hiddenQuantity).sum
    orderCount := l.queue.length
    orders := l.queue
    statistics := ⟨0, 0, 0, 0, 0, false⟩ }

/-- `is_expired`: deadlines and the market close count as passed at their own millisecond. -/
def expired : TimeInForce → ℕ → Option ℕ → Bool
  | .gtd deadline, now, _ => deadline ≤ now
  | .day, now, some close => close ≤ now
  | _, _, _ => false

instance : PriceLevel FifoLevel where
  new p := ⟨p, [], ⟨List.nodup_nil, Nat.zero_le _, Nat.zero_le _, by simp, by simp⟩⟩
  price l := l.price
  visibleQuantity l := (l.queue.map Order.visibleQuantity).sum
  totalQuantity l :=
    if (l.queue.map Order.size).sum ≤ u64Max then .ok (l.queue.map Order.size).sum
    else .error (.invalidOperation "total quantity overflow")
  orderCount l := l.queue.length
  orders l := l.queue
  matchableQuantity l q i := min q (depthOthers i l.queue)
  addOrder := addOrder
  updateOrder := update
  matchOrder := matchOrder
  snapshot := toSnapshot
  fromSnapshot s := ofQueue s.price s.orders
  refreshAggregates s := s
  withReducedQuantity o q := o.setTranches q o.hiddenQuantity
  isExpired := expired
  addTrade r t :=
    if t.quantity ≤ r.remainingQuantity then
      .ok { r with
        trades := r.trades ++ [t], remainingQuantity := r.remainingQuantity - t.quantity }
    else .error (.invalidOperation "trade exceeds the remaining quantity")

open PriceLevel

@[simp] theorem orders_eq (l : FifoLevel) : orders l = l.queue := rfl

@[simp] theorem orderIds_eq (l : FifoLevel) : orderIds l = l.queue.map Order.id := rfl

/-! ### Queue and resize -/

theorem addOrder_eq_ok {l l' : FifoLevel} (h : addOrder l o = .ok l') :
    l'.price = l.price ∧ l'.queue = l.queue ++ [o] := by
  rw [addOrder] at h
  split_ifs at h
  exact ofQueue_eq_ok h

theorem find?_of_mem {l : FifoLevel} (ho : o ∈ l.queue) :
    (l.queue.find? fun x => x.id = o.id) = some o := by
  obtain ⟨x, hx⟩ : ∃ x, (l.queue.find? fun x => x.id = o.id) = some x :=
    Option.isSome_iff_exists.mp (List.find?_isSome.mpr ⟨o, ho, by simp⟩)
  have hid : x.id = o.id := by simpa using List.find?_some hx
  rw [hx, List.inj_on_of_nodup_map l.admissible.nodup (List.mem_of_find?_eq_some hx) ho hid]

theorem find?_of_notMem {l : FifoLevel} {i : OrderId} (hi : i ∉ l.queue.map Order.id) :
    (l.queue.find? fun x => x.id = i) = none := by
  refine List.find?_eq_none.mpr fun x hx hxi => hi ?_
  exact List.mem_map.mpr ⟨x, hx, by simpa using hxi⟩

instance : LevelQueue FifoLevel where
  orderCount_eq _ := rfl
  nodup_orderIds l := l.admissible.nodup
  orders_new _ := rfl
  orders_addOrder h := (addOrder_eq_ok h).2
  cancel_of_mem {l o} ho :=
    ⟨l.cancel o.id, congrArg (fun r => (Except.ok r, l.cancel o.id)) (find?_of_mem ho), rfl⟩
  cancel_of_notMem {l i} hi := by
    have hkeep : l.cancel i = l := by
      obtain ⟨p, queue, h⟩ := l
      simp only [cancel, FifoLevel.mk.injEq, true_and]
      refine List.filter_eq_self.mpr fun x hx => ?_
      have hne : x.id ≠ i := fun hxi => hi (List.mem_map.mpr ⟨x, hx, hxi⟩)
      simpa using hne
    show (Except.ok (l.queue.find? fun x => x.id = i), l.cancel i) = (.ok none, l)
    rw [hkeep, find?_of_notMem hi]

theorem filter_resizedQueue :
    ((resizedQueue queue o q).filter fun x => x.id ≠ o.id) = queue.filter fun x => x.id ≠ o.id := by
  rw [resizedQueue]
  split_ifs
  · induction queue with
    | nil => rfl
    | cons x rest ih =>
      by_cases hx : x.id = o.id
      · simpa [hx] using ih
      · simpa [hx] using ih
  · simp

theorem mem_resizedQueue (ho : o ∈ queue) :
    o.setTranches q o.hiddenQuantity ∈ resizedQueue queue o q := by
  rw [resizedQueue]
  split_ifs
  · exact List.mem_map.mpr ⟨o, ho, by simp⟩
  · simp

instance : LevelResize FifoLevel where
  withReducedQuantity_eq o q := ⟨q, o.hiddenQuantity, rfl⟩
  resize_of_notMem {l i q} hi := by
    show update l (.updateQuantity i q) = _
    simp only [update, find?_of_notMem hi]
  resize_of_mem {l o q} ho := by
    have hrun : updateOrder l (.updateQuantity o.id q) =
        match ofQueue l.price (resizedQueue l.queue o q) with
        | .error e => (.error e, l)
        | .ok l' => (.ok (some (o.setTranches q o.hiddenQuantity)), l') := by
      show update l (.updateQuantity o.id q) = _
      simp only [update, find?_of_mem ho]
    cases hnew : ofQueue l.price (resizedQueue l.queue o q) with
    | error e => exact Or.inl ⟨e, by rw [hrun, hnew]⟩
    | ok l' =>
      have hq := (ofQueue_eq_ok hnew).2
      refine Or.inr ⟨l', by rw [hrun, hnew]; rfl, ?_, ?_⟩
      · rw [orders_eq, orders_eq, hq]
        exact filter_resizedQueue
      · rw [orders_eq, hq]
        exact Or.inl (mem_resizedQueue ho)

/-! ### Matching -/

/-- The trade that draws `k` from an order. -/
def fillOf (i : OrderId) (p : ℕ) (f : Order × ℕ) : Trade := ⟨i, f.1.id, p, f.2⟩

theorem tradesOf_fills (j i : OrderId) (p : ℕ) (fills : List (Order × ℕ)) :
    tradesOf j (fills.map (fillOf i p)) = (Walk.drawnFrom j fills).map (fillOf i p) := by
  rw [tradesOf, List.filter_map]
  rfl

theorem tradedQuantity_fills (i : OrderId) (p : ℕ) (fills : List (Order × ℕ)) :
    tradedQuantity (fills.map (fillOf i p)) = (fills.map Prod.snd).sum := by
  rw [tradedQuantity, List.map_map]
  rfl

/-- **A match walks the queue** and reports what it draws. -/
structure Walks (l : FifoLevel) (q : ℕ) (i : OrderId) (r : MatchResult) (l' : FifoLevel)
    (fills : List (Order × ℕ)) : Prop where
  walk : Walk i q l.queue fills l'.queue
  price : l'.price = l.price
  trades : r.trades = fills.map (fillOf i l.price)
  remaining : r.remainingQuantity = q - (fills.map Prod.snd).sum
  filled : r.filledOrderIds = drawnOut fills

variable {l l' : FifoLevel} {q : ℕ} {i : OrderId} {r : MatchResult} {o o' : Order}

theorem eq_of_mem_queue {x y : Order} (hx : x ∈ l.queue) (hy : y ∈ l.queue) (h : x.id = y.id) :
    x = y := List.inj_on_of_nodup_map l.admissible.nodup hx hy h

theorem ext_queue {l l' : FifoLevel} (hprice : l'.price = l.price) (hqueue : l'.queue = l.queue) :
    l' = l := by
  cases l
  cases l'
  cases hprice
  cases hqueue
  rfl

namespace Walks

variable {fills : List (Order × ℕ)} (h : Walks l q i r l' fills)

include h

theorem traded : tradedQuantity r.trades = (fills.map Prod.snd).sum := by
  rw [h.trades, tradedQuantity_fills]

theorem traded_add_remaining : tradedQuantity r.trades + r.remainingQuantity = q := by
  have hdrawn := h.walk.drawn_eq
  rw [h.traded, h.remaining]
  omega

theorem trade_mem {t : Trade} (ht : t ∈ r.trades) :
    t.makerOrderId ∈ l.queue.map Order.id ∧ 0 < t.quantity := by
  rw [h.trades] at ht
  obtain ⟨f, hf, rfl⟩ := List.mem_map.mp ht
  exact (h.walk.mem_fills l.admissible hf).imp_left List.mem_map_of_mem

theorem trade_eq {t : Trade} (ht : t ∈ r.trades) : t.takerOrderId = i ∧ t.price = l.price := by
  rw [h.trades] at ht
  obtain ⟨f, -, rfl⟩ := List.mem_map.mp ht
  exact ⟨rfl, rfl⟩

theorem mem_filledOrderIds (j : OrderId) :
    j ∈ r.filledOrderIds ↔ j ∈ l.queue.map Order.id ∧ j ∉ l'.queue.map Order.id := by
  rw [h.filled]
  exact h.walk.mem_drawnOut_iff l.admissible j

theorem eq_of_no_trades (hnone : r.trades = []) : l' = l := by
  have hnil : fills = [] := List.map_eq_nil_iff.mp (h.trades.symm.trans hnone)
  have hwalk := h.walk
  rw [hnil] at hwalk
  exact ext_queue h.price hwalk.left_of_nil

/-- A maker that stays was drawn in part or left as it was. -/
theorem stays (ho : o ∈ l.queue) (ho' : o' ∈ l'.queue) (hid : o'.id = o.id) :
    (∃ k, 0 < k ∧ k < o.matchableQty ∧ tradesOf o.id r.trades = [fillOf i l.price (o, k)] ∧
        o' = o.drawn k) ∨
      tradesOf o.id r.trades = [] ∧ o' = o := by
  rw [h.trades, tradesOf_fills]
  rcases h.walk.fate l.admissible ho with ⟨-, hgone, -⟩ | ⟨k, hk, hkm, hdrawn, hleft, -⟩ |
    ⟨hdrawn, hleft, -⟩
  · exact absurd (List.mem_map.mpr ⟨o', ho', hid⟩) hgone
  · exact Or.inl ⟨k, hk, hkm, by rw [hdrawn, List.map_singleton],
      eq_of_mem_queue ho' hleft (hid.trans (o.drawn_id k).symm)⟩
  · exact Or.inr ⟨by rw [hdrawn, List.map_nil], eq_of_mem_queue ho' hleft hid⟩

/-- A maker that leaves was drawn to its end. -/
theorem leaves (ho : o ∈ l.queue) (hgone : o.id ∉ l'.queue.map Order.id) :
    tradesOf o.id r.trades = [fillOf i l.price (o, o.matchableQty)] := by
  rw [h.trades, tradesOf_fills]
  rcases h.walk.fate l.admissible ho with ⟨hdrawn, -, -⟩ | ⟨k, -, -, -, hleft, -⟩ | ⟨-, hleft, -⟩
  · rw [hdrawn, List.map_singleton]
  · exact absurd (List.mem_map.mpr ⟨_, hleft, o.drawn_id k⟩) hgone
  · exact absurd (List.mem_map_of_mem hleft) hgone

end Walks

theorem matchOrder_walks (h : PriceLevel.matchOrder l q i .standard = (r, l')) :
    Walks l q i r l' (consume i q l.queue).1 := by
  obtain ⟨rfl, rfl⟩ := Prod.mk.inj (show (l.report q i, _) = (r, l') from h)
  exact ⟨walk_consume i q l.queue, rfl, rfl, rfl, rfl⟩

instance : LevelReports FifoLevel where
  orders_match h ho' := (matchOrder_walks h).walk.mem_left ho'
  left_of_filled h := ((matchOrder_walks h).mem_filledOrderIds _).mp
  filled_of_left h ho _ hgone :=
    ((matchOrder_walks h).mem_filledOrderIds _).mpr ⟨List.mem_map_of_mem ho, hgone⟩
  match_postOnly _ _ _ := rfl
  filled_of_gone h hold hgone := ((matchOrder_walks h).mem_filledOrderIds _).mpr ⟨hold, hgone⟩

instance : MatchAccounting FifoLevel where
  trade_mem h ht := (matchOrder_walks h).trade_mem ht
  traded_add_remaining h := (matchOrder_walks h).traded_add_remaining
  addTrade_eq _ _ h := if_pos h

instance : TradeRecords FifoLevel where
  trade_taker h ht := ((matchOrder_walks h).trade_eq ht).1
  addTrade_trades {r r' t} h := by
    rw [show addTrade FifoLevel r t =
      if t.quantity ≤ r.remainingQuantity then _ else _ from rfl] at h
    split_ifs at h
    · cases h
      rfl

instance : TradeRefusal FifoLevel where
  addTrade_error _ _ h := ⟨_, if_neg (not_le.mpr h)⟩

instance : ExpiryMonotone FifoLevel where
  isExpired_mono {timeInForce close now later} hle h := by
    have h : expired timeInForce now close = true := h
    cases timeInForce with
    | gtd => exact decide_eq_true ((of_decide_eq_true h).trans hle)
    | day =>
      cases close with
      | none => exact h
      | some => exact decide_eq_true ((of_decide_eq_true h).trans hle)
    | gtc | ioc | fok => exact h

theorem tradedQuantity_singleton (p : ℕ) (f : Order × ℕ) :
    tradedQuantity [fillOf i p f] = f.2 := by
  simp [tradedQuantity, fillOf]

instance : MatchConservation FifoLevel where
  stays {l l' q i r o o'} h ho ho' hid := by
    rcases (matchOrder_walks h).stays ho ho' hid with ⟨k, hk, hkm, ht, rfl⟩ | ⟨ht, rfl⟩
    · have hfit := l.admissible.fits _ ho
      have hle := Order.matchableQty_le_size hfit
      have hsize := (Order.drawn_quantities hfit hkm).1
      rw [ht, tradedQuantity_singleton]
      exact ⟨hsize, fun _ => by omega⟩
    · rw [ht]
      exact ⟨rfl, fun hne => absurd rfl hne⟩
  leaves {l l' q i r o} h ho hgone := by
    rw [(matchOrder_walks h).leaves ho hgone, tradedQuantity_singleton]
    exact Order.matchableQty_cases (l.admissible.fits _ ho)
  hidden_kept {l l' q i r o o'} h ho ho' hid hkeeps := by
    rcases (matchOrder_walks h).stays ho ho' hid with ⟨k, -, hkm, -, rfl⟩ | ⟨-, rfl⟩
    · exact Order.drawn_hiddenQuantity hkeeps hkm
    · rfl
  untraded {l l' q i r o} h ho hnone := by
    by_cases hleft : o.id ∈ l'.queue.map Order.id
    · obtain ⟨o', ho', hid⟩ := List.mem_map.mp hleft
      rcases (matchOrder_walks h).stays ho ho' hid with ⟨k, -, -, ht, -⟩ | ⟨-, rfl⟩
      · exact absurd (ht.symm.trans hnone) (by simp)
      · exact ho'
    · exact absurd (((matchOrder_walks h).leaves ho hleft).symm.trans hnone) (by simp)

theorem remaining_eq (h : PriceLevel.matchOrder l q i .standard = (r, l')) :
    r.remainingQuantity = q - min q (depthOthers i l.queue) := by
  rw [(matchOrder_walks h).remaining, (matchOrder_walks h).walk.drawn_eq]

/-- A match that comes back with unfilled quantity leaves the taker nothing to draw. -/
theorem depthOthers_of_remaining (h : PriceLevel.matchOrder l q i .standard = (r, l'))
    (hrem : r.remainingQuantity ≠ 0) : depthOthers i l'.queue = 0 := by
  have hleft := (matchOrder_walks h).walk.depthOthers_left l.admissible
  have htraded := MatchAccounting.traded_add_remaining h
  have hremaining := remaining_eq h
  rw [(matchOrder_walks h).traded] at htraded
  omega

/-- Only the order with the taker's own id gives it nothing. -/
theorem eq_of_depthOthers_eq_zero (hzero : depthOthers i l.queue = 0) (ho : o ∈ l.queue) :
    o.id = i := by
  by_contra hne
  have hmem : o ∈ l.queue.filter fun x => x.id ≠ i :=
    List.mem_filter.mpr ⟨ho, decide_eq_true hne⟩
  have hle : o.matchableQty ≤ depthOthers i l.queue :=
    List.single_le_sum (fun _ _ => Nat.zero_le _) _ (List.mem_map_of_mem hmem)
  have hpos := l.admissible.drawable o ho
  omega

instance : MatchExhausts FifoLevel where
  eq_of_remaining h hrem ho := eq_of_depthOthers_eq_zero (depthOthers_of_remaining h hrem) ho
  eq_of_not_rejected {l q i o} hq hnot ho := by
    have hnone : ¬ 0 < min q (depthOthers i l.queue) := by
      simpa [PriceLevel.matchOrder, FifoLevel.matchOrder] using hnot
    exact eq_of_depthOthers_eq_zero (by omega) ho

theorem depthOthers_of_notMem (hi : i ∉ l.queue.map Order.id) :
    depthOthers i l.queue = depth l.queue := by
  refine congrArg depth (List.filter_eq_self.mpr fun o ho => decide_eq_true fun hid => ?_)
  exact hi (List.mem_map.mpr ⟨o, ho, hid⟩)

instance : MatchableDryRun FifoLevel where
  remaining_eq {l l' q i r} h := by
    show _ = q - min q (min q (depthOthers i l.queue))
    rw [FifoLevel.remaining_eq h]
    omega
  matchableQuantity_eq {l q i} hi := by
    show min q (min q (depthOthers i l.queue)) = min q (depth l.queue)
    rw [depthOthers_of_notMem hi]
    omega

instance : MatchDepth FifoLevel where
  trade_price h ht := ((matchOrder_walks h).trade_eq ht).2
  matchableQuantity_cap {l q i} hq := by
    show min q (min q (depthOthers i l.queue)) = min q (min u64Max (depthOthers i l.queue))
    omega
  exhausted {l l' q i r} h hrem := by
    show min u64Max (depthOthers i l'.queue) = 0
    rw [depthOthers_of_remaining h hrem, Nat.min_zero]

instance : SelfMatchSkip FifoLevel where
  own_untraded h := by
    rw [(matchOrder_walks h).trades, tradesOf_fills, (matchOrder_walks h).walk.drawnFrom_own,
      List.map_nil]

instance : MatchReach FifoLevel where
  traded_le {l l' q i r o} h ho := by
    by_cases hleft : o.id ∈ l'.queue.map Order.id
    · obtain ⟨o', ho', hid⟩ := List.mem_map.mp hleft
      rcases (matchOrder_walks h).stays ho ho' hid with ⟨k, -, hkm, ht, -⟩ | ⟨ht, -⟩
      · rw [ht, tradedQuantity_singleton]
        exact hkm.le
      · rw [ht]
        exact Nat.zero_le _
    · rw [(matchOrder_walks h).leaves ho hleft, tradedQuantity_singleton]
  matchableQuantity_others l q i := by
    show min q (min q (depthOthers i l.queue)) = min q (depthOthers i l.queue)
    omega

instance : LevelCapacity FifoLevel where
  sum_visible_le l := l.admissible.visible
  size_le ho := FifoLevel.admissible _ |>.fits _ ho

instance : LevelTotals FifoLevel where
  totalQuantity_eq h := if_pos h
  totalQuantity_error h := ⟨_, if_neg (not_le.mpr h)⟩

instance : MatchInLots FifoLevel where
  orders_inLots h hq hlots := (matchOrder_walks h).walk.inLots (admissible _) hq hlots

instance : MatchDisplays FifoLevel where
  visible_pos {l l' q i r o o'} h ho ho' hid hvisible := by
    rcases (matchOrder_walks h).stays ho ho' hid with ⟨k, -, hkm, -, rfl⟩ | ⟨-, rfl⟩
    · exact Order.visibleQuantity_drawn_pos (l.admissible.fits _ ho) hkm hvisible
    · exact hvisible

instance : MatchReportsOnce FifoLevel where
  nodup_filledOrderIds {l l' q i r} h := by
    rw [(matchOrder_walks h).filled]
    exact l.admissible.nodup.sublist (matchOrder_walks h).walk.drawnOut_sublist

instance : InsertionOrder FifoLevel where
  ahead_traded {l l' q i r ahead o behind} h hsplit htraded x hx hne := by
    have hsplit : l.queue = ahead ++ o :: behind := hsplit
    have hmem : x ∈ l.queue := hsplit ▸ List.mem_append_left _ hx
    have hwalks := matchOrder_walks h
    have hout : x.id ∈ r.filledOrderIds := by
      rw [hwalks.filled]
      refine hwalks.walk.ahead_drawnOut l.admissible hsplit (fun hnil => htraded ?_) x hx hne
      rw [hwalks.trades, tradesOf_fills, hnil, List.map_nil]
    rw [hwalks.leaves hmem ((hwalks.mem_filledOrderIds _).mp hout).2, tradedQuantity_singleton]
    exact Order.visibleQuantity_le_matchableQty (l.admissible.fits _ hmem)

/-! ### Snapshots and display -/

instance : LevelSnapshot FifoLevel where
  snapshot_price _ := rfl
  snapshot_orders _ := rfl
  refresh_price _ := rfl
  refresh_orders _ := rfl
  fromSnapshot_price h := (ofQueue_eq_ok h).1
  fromSnapshot_orders h := (ofQueue_eq_ok h).2

instance : LevelRoundTrip FifoLevel where
  fromSnapshot_snapshot l := dif_pos l.admissible

theorem update_price (l : FifoLevel) (u : OrderUpdate) : (update l u).2.price = l.price := by
  cases u with
  | updateQuantity =>
    simp only [update]
    split
    · rfl
    · split
      · rfl
      · next h => exact (ofQueue_eq_ok h).1
  | _ => rfl

instance : LevelDisplay FifoLevel where
  price_new _ := rfl
  price_addOrder h := (addOrder_eq_ok h).1
  price_updateOrder := update_price
  price_matchOrder _ _ _ k := by cases k <;> rfl
  visible_of_orders_nil {l} h := by
    show (l.queue.map Order.visibleQuantity).sum = 0
    rw [show l.queue = [] from h]
    rfl
  visible_of_no_trades {l l' q i r} h hnone := by
    rw [(matchOrder_walks h).eq_of_no_trades hnone]

end FifoLevel

end OrderBookRs
