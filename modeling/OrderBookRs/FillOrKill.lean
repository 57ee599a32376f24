import OrderBookRs.Congruence
import OrderBookRs.FifoLevel
import OrderBookRs.Sound

/-!
# Fill-or-kill

A fill-or-kill order is admitted when `fok_fillable_quantity` finds enough depth for it. That walk
is faithful: it counts exactly what the sweep then matches. What it does not foresee is the flag of
self-trade prevention: a taker that meets an own order on the level that completes it is filled in
full and then reported as cancelled.

## Main definitions

* `AllOrNothing`: the order filled in full, or nothing happened.

## Main results

* `Plan.fokWalk_eq`: the walk counts what the sweep matches.
* `all_or_nothing_iff`: a fill-or-kill order is all or nothing iff it is refused, is post-only, or
  `check_modify_stp_self_cross` finds no own order in its way.
-/

namespace OrderBookRs

open PriceLevel Fallible OrderBook

variable {L : Type} [PriceLevel L] {id : OrderId} {entries : List (ℕ × L)} {b : OrderBook L}

/-! ### The walk counts what the sweep matches -/

/-- The display ahead of the first own order is depth of the level. -/
theorem firstOwn_le {user : Hash32} {queue : List Order} {acc safe : ℕ}
    (h : firstOwn user queue acc = some (safe, id)) :
    safe ≤ acc + (queue.map Order.matchableQty).sum := by
  induction queue generalizing acc with
  | nil => cases h
  | cons o rest ih =>
    rw [firstOwn] at h
    rw [List.map_cons, List.sum_cons]
    split_ifs at h with ho
    · cases h
      exact Nat.le_add_right ..
    · have hrest := ih h
      have hdepth := o.min_visibleQuantity_le_matchableQty
      rw [satAdd64] at hrest
      omega

theorem sub_lotFloor_lt {lot raw : ℕ} (h : lotFloor lot raw < raw) :
    lotFloor lot (raw - lotFloor lot raw) = 0 := by
  rw [lotFloor] at h
  split_ifs at h with hlot
  · exact absurd h (lt_irrefl _)
  · have hrem : raw - (raw - raw % lot) = raw % lot := by
      have := Nat.mod_le raw lot
      omega
    rw [lotFloor, lotFloor, if_neg hlot, if_neg hlot, hrem, Nat.mod_mod, Nat.sub_self]

namespace Plan

variable {t : Taker} {p : Plan L} {price q remaining : ℕ} {l : L}

section DryRun

variable [MatchableDryRun L]

/-- A planned match pays for what the level can match. -/
theorem stop_fill (hstop : p.stop = .baseQty remaining) :
    (p.fill t price l q).stop = .baseQty (remaining - min q (matchableQuantity l q t.orderId)) := by
  have hmatch : (matchOrder l q t.orderId .standard).1.remainingQuantity =
      q - min q (matchableQuantity l q t.orderId) := MatchableDryRun.remaining_eq rfl
  have hpaid : q - (q - min q (matchableQuantity l q t.orderId)) =
      min q (matchableQuantity l q t.orderId) := Nat.sub_sub_self (min_le_left ..)
  rw [fill, hstop, hmatch, hpaid, StopCondition.consume]

/-- What is ahead of the first own order is matched in full. -/
theorem stop_fillSafely {safe : ℕ} (hstop : p.stop = .baseQty remaining)
    (hfree : t.orderId ∉ orderIds l) (hown : firstOwn t.userId (orders l) 0 = some (safe, id)) :
    (p.fillSafely t price l q safe).stop = .baseQty (remaining - min q safe) := by
  rw [fillSafely]
  split_ifs with hpos
  · rw [stop_fill hstop, MatchableDryRun.matchableQuantity_eq hfree]
    have hdepth := firstOwn_le hown
    congr 2
    omega
  · rw [hstop]
    congr 1
    omega

/-- **One level of the walk**: the depth it counts is what the plan pays for, and it ends where the
plan does, unless nothing is left. -/
theorem level_fokReachable [LevelQueue L] (hk : t.kind = .standard) (hfree : t.orderId ∉ orderIds l)
    (hstop : p.stop = .baseQty remaining) (hallows : t.allows price)
    (hcap : lotFloor t.lot remaining ≠ 0) :
    (p.level t price l).1.stop = .baseQty (remaining -
        min (lotFloor t.lot remaining) (fokReachable t l (lotFloor t.lot remaining)).1) ∧
      (p.level t price l).2 = (!(fokReachable t l (lotFloor t.lot remaining)).2 &&
        !(p.level t price l).1.stop.isDone) := by
  have hbudget : p.stop.levelQtyCap price t.lot = lotFloor t.lot remaining := by
    rw [hstop, StopCondition.levelQtyCap]
  rw [level, if_neg (by simpa using hallows), hbudget]
  rw [if_neg hcap, if_neg (by rw [hk]; decide)]
  have hleft : remaining ≠ 0 := by
    rintro rfl
    exact hcap (Nat.le_zero.mp (lotFloor_le ..))
  generalize lotFloor t.lot remaining = cap at hcap ⊢
  rw [fokReachable]
  split_ifs with hactive
  · obtain ⟨huser, hmode⟩ := t.stpActive_iff.mp hactive
    rw [conflict]
    rcases checkStpAtLevel_cases (orders l) huser hmode with
      ⟨hstp, -⟩ | ⟨safe, id, hstp, -, hown⟩ | ⟨hstp, -⟩ | ⟨safe, id, hstp, -, hown⟩
    · rw [hstp]
      exact ⟨stop_fill hstop, rfl⟩
    · rw [hstp]
      exact ⟨stop_fillSafely hstop hfree hown, rfl⟩
    · rw [hstp]
      have hfree' : t.orderId ∉ orderIds (withoutOwn t l) := by
        intro hmem
        obtain ⟨o, ho, hid⟩ := mem_orderIds.mp hmem
        rw [orders_withoutOwn] at ho
        exact hfree (mem_orderIds.mpr ⟨o, List.mem_of_mem_filter ho, hid⟩)
      split_ifs with hzero
      · have hnil := orderCount_eq_zero.mp hzero
        rw [orders_withoutOwn] at hnil
        rw [hnil, hstop]
        refine ⟨by simp, ?_⟩
        simp [StopCondition.isDone, hleft]
      · refine ⟨(stop_fill hstop).trans ?_, rfl⟩
        rw [MatchableDryRun.matchableQuantity_eq hfree', orders_withoutOwn]
    · rw [hstp]
      exact ⟨stop_fillSafely hstop hfree hown, rfl⟩
  · exact ⟨stop_fill hstop, rfl⟩

omit [MatchableDryRun L] in
/-- A walk whose budget buys no lot stays where it is. -/
theorem loop_of_lotFloor (hstop : p.stop = .baseQty remaining)
    (hcap : lotFloor t.lot remaining = 0) : loop t entries p = p := by
  cases entries with
  | nil => rfl
  | cons e entries =>
    have hlevel : p.level t e.1 e.2 = (p, false) := by
      have hbudget : p.stop.levelQtyCap e.1 t.lot = 0 := by rw [hstop]; exact hcap
      rw [level, hbudget]
      split_ifs <;> rfl
    rw [loop, hlevel]
    rfl

/-- **The walk of `fok_fillable_quantity` counts exactly what the sweep matches.** -/
theorem fokWalk_eq [LevelQueue L] {quantity matched : ℕ} (hk : t.kind = .standard)
    (hfree : ∀ e ∈ entries, t.orderId ∉ orderIds e.2) (hstop : p.stop = .baseQty remaining)
    (hsum : matched + remaining = quantity) (hmax : quantity ≤ u64Max) :
    ∃ left, (loop t entries p).stop = .baseQty left ∧
      fokWalk t quantity entries matched + left = quantity := by
  induction entries generalizing p matched remaining with
  | nil => exact ⟨remaining, hstop, hsum⟩
  | cons e entries ih =>
    obtain ⟨price, l⟩ := e
    rw [fokWalk]
    dsimp only
    have hrest : quantity - matched = remaining := by omega
    by_cases hdone : quantity ≤ matched
    · have hzero : remaining = 0 := by omega
      rw [if_pos hdone, loop_of_lotFloor hstop (by rw [hzero]; simp [lotFloor])]
      exact ⟨remaining, hstop, hsum⟩
    rw [if_neg hdone, hrest]
    by_cases hallows : t.allows price
    swap
    · have hlevel : p.level t price l = (p, false) := by rw [level, if_pos (by simpa using hallows)]
      rw [if_pos (by simpa using hallows), loop, hlevel]
      exact ⟨remaining, hstop, hsum⟩
    rw [if_neg (by simpa using hallows)]
    by_cases hcap : lotFloor t.lot remaining = 0
    · rw [if_pos hcap, loop_of_lotFloor hstop hcap]
      exact ⟨remaining, hstop, hsum⟩
    rw [if_neg hcap]
    obtain ⟨hnext, hgo⟩ := level_fokReachable hk (hfree _ (List.mem_cons_self ..)) hstop
      hallows hcap
    have hle := lotFloor_le t.lot remaining
    generalize hreach : fokReachable t l (lotFloor t.lot remaining) = reach at hnext hgo ⊢
    generalize lotFloor t.lot remaining = cap at hle hnext hgo hreach ⊢
    have hadd : satAdd64 matched (min cap reach.1) = matched + min cap reach.1 :=
      satAdd64_eq (by omega)
    have hsum' : matched + min cap reach.1 + (remaining - min cap reach.1) = quantity := by omega
    rw [hadd, loop, hgo, hnext]
    cases hend : reach.2 with
    | true => exact ⟨_, hnext, hsum'⟩
    | false =>
      by_cases hzero : remaining - min cap reach.1 = 0
      · -- nothing is left: the sweep stops here, the walk at the next level
        rw [if_neg (by simp [StopCondition.isDone, hzero])]
        obtain ⟨left, hleft, hwalk⟩ :=
          ih (List.forall_mem_cons.mp hfree).2 hnext hsum'
        rw [loop_of_lotFloor hnext (by rw [hzero]; simp [lotFloor])] at hleft
        exact ⟨left, hleft, hwalk⟩
      · rw [if_pos (by simp [StopCondition.isDone, hzero])]
        exact ih (List.forall_mem_cons.mp hfree).2 hnext hsum'

end DryRun

/-! ### The flag of self-trade prevention -/

/-- Without a mode that cancels takers the flag is never raised. -/
theorem stp_loop_of_mode (entries : List (ℕ × L))
    (hmode : ¬ ((t.stpMode = .cancelTaker ∨ t.stpMode = .cancelBoth) ∧ t.userId ≠ 0)) :
    (loop t entries p).stpTakerCancelled = p.stpTakerCancelled := by
  refine loop_keeps (J := fun p' => p'.stpTakerCancelled = p.stpTakerCancelled) (fun _ _ v h => ?_)
    rfl
  cases v with
  | ends | passes | rejects | fills | withdraws | fillsOthers => exact h
  | stopsTaker _ user mode => exact absurd ⟨Or.inl mode, user⟩ hmode
  | stopsBoth _ user mode => exact absurd ⟨Or.inr mode, user⟩ hmode

end Plan

theorem selfCrossWalk_zero (o : Order) (entries : List (ℕ × L)) :
    selfCrossWalk o entries 0 = false := by
  cases entries with
  | nil => rfl
  | cons => rw [selfCrossWalk, if_pos rfl]

/-- What a lot-rounded match leaves, when the taker is completed later. -/
theorem sub_min_lotFloor {lot remaining depth : ℕ}
    (h : remaining - min (lotFloor lot remaining) depth = 0 ∨
      lotFloor lot (remaining - min (lotFloor lot remaining) depth) ≠ 0) :
    remaining - min (lotFloor lot remaining) depth = remaining - min remaining depth := by
  have hle := lotFloor_le lot remaining
  by_cases hround : lotFloor lot remaining < remaining
  · by_cases hdeep : lotFloor lot remaining ≤ depth
    · rw [min_eq_left hdeep] at h
      exact absurd (sub_lotFloor_lt hround) (h.resolve_left (by omega))
    · omega
  · rw [show lotFloor lot remaining = remaining by omega]

namespace Plan

variable {t : Taker} {p : Plan L} {remaining : ℕ} {price : ℕ} {l : L}

section Walk

variable [MatchableDryRun L] {o : Order}

/-- A level without own orders is matched as if there were no self-trade prevention. -/
structure LevelMatched (t : Taker) (o : Order) (p : Plan L) (price : ℕ) (l : L)
    (remaining next : ℕ) : Prop where
  stop : (p.level t price l).1.stop = .baseQty next
  flag : (p.level t price l).1.stpTakerCancelled = p.stpTakerCancelled
  goes : (p.level t price l).2 = !decide (next = 0)
  /-- Without rounding the walk of `check_modify_stp_self_cross` counts the same. -/
  walk : next = 0 ∨ lotFloor t.lot next ≠ 0 → next = remaining - matchableQuantity l remaining o.id

omit [MatchableDryRun L] in
/-- A level with an own order raises the flag and ends the walk. -/
theorem flag_of_own (hk : t.kind = .standard)
    (hmode : t.stpMode = .cancelTaker ∨ t.stpMode = .cancelBoth) (huser : t.userId ≠ 0)
    (hstop : p.stop = .baseQty remaining) (hallows : t.allows price)
    (hcap : lotFloor t.lot remaining ≠ 0) (hown : ¬ ∀ x ∈ orders l, x.userId ≠ t.userId) :
    (loop t ((price, l) :: entries) p).stpTakerCancelled = true := by
  have hactive : t.stpActive := t.stpActive_iff.mpr ⟨huser, by
    rcases hmode with h | h <;> rw [h] <;> decide⟩
  obtain ⟨sw, it, v⟩ := p.level_visit t price l
  rw [loop]
  generalize p.level t price l = planned at v ⊢
  cases v with
  | ends spent =>
    rw [hstop] at spent
    exact absurd spent (not_or.mpr ⟨by simp [hallows], hcap⟩)
  | passes kind | rejects kind => cases hk.symm.trans kind
  | fills _ foreign => exact absurd (foreign hactive) hown
  | stopsTaker | stopsBoth => rfl
  | withdraws _ _ mode | fillsOthers _ _ mode => rcases hmode with h | h <;> cases h.symm.trans mode

theorem levelMatched (hk : t.kind = .standard) (hid : o.id = t.orderId)
    (hfree : t.orderId ∉ orderIds l) (hstop : p.stop = .baseQty remaining)
    (hallows : t.allows price) (hcap : lotFloor t.lot remaining ≠ 0)
    (hforeign : ∀ x ∈ orders l, x.userId ≠ t.userId) :
    LevelMatched t o p price l remaining
      (remaining - min (lotFloor t.lot remaining) ((orders l).map Order.matchableQty).sum) := by
  have hlevel : p.level t price l = p.fillNormally t price l (lotFloor t.lot remaining) := by
    obtain ⟨sw, it, v⟩ := p.level_visit t price l
    generalize p.level t price l = planned at v ⊢
    cases v with
    | ends spent =>
      rw [hstop] at spent
      exact absurd spent (not_or.mpr ⟨by simp [hallows], hcap⟩)
    | passes kind | rejects kind => cases hk.symm.trans kind
    | fills asks =>
      rw [← asks.cap, hstop]
      rfl
    | stopsTaker _ _ _ own | stopsBoth _ _ _ own =>
      cases (firstOwn_eq_none.mpr hforeign).symm.trans own
    | withdraws _ _ _ own | fillsOthers _ _ _ own =>
      obtain ⟨x, hx, hu⟩ := own
      exact absurd hu (hforeign x hx)
  have hnext : (p.fill t price l (lotFloor t.lot remaining)).stop = .baseQty (remaining -
      min (lotFloor t.lot remaining) ((orders l).map Order.matchableQty).sum) := by
    rw [← MatchableDryRun.matchableQuantity_eq hfree]
    exact stop_fill hstop
  refine ⟨?_, ?_, ?_, fun hgoes => ?_⟩
  · rw [hlevel]
    exact hnext
  · rw [hlevel]
    rfl
  · rw [hlevel, fillNormally]
    rw [hnext]
    rfl
  · rw [sub_min_lotFloor hgoes, hid, ← MatchableDryRun.matchableQuantity_eq hfree]
    omega

variable {entries : List (ℕ × L)} (hk : t.kind = .standard)
  (hlimit : ∀ price, t.allows price = o.side.crosses o.price price) (howner : o.userId = t.userId)
  (hid : o.id = t.orderId) (hfree : ∀ e ∈ entries, t.orderId ∉ orderIds e.2)
  (hstop : p.stop = .baseQty remaining)

include hk hlimit howner hid hfree hstop

/-- **A taker in whose way `check_modify_stp_self_cross` finds no own order is not flagged**,
rounded to lots or not: where rounding makes the two walks differ, the sweep is stuck. -/
theorem stp_loop_of_walk (hwalk : selfCrossWalk o entries remaining = false) :
    (loop t entries p).stpTakerCancelled = p.stpTakerCancelled := by
  induction entries generalizing p remaining with
  | nil => rfl
  | cons e entries ih =>
    obtain ⟨price, l⟩ := e
    by_cases hcap : lotFloor t.lot remaining = 0
    · rw [loop_of_lotFloor hstop hcap]
    by_cases hallows : t.allows price
    swap
    · have hlevel : p.level t price l = (p, false) := by rw [level, if_pos (by simpa using hallows)]
      rw [loop, hlevel]
      rfl
    have hleft : remaining ≠ 0 := by
      rintro rfl
      exact hcap (by simp [lotFloor])
    rw [selfCrossWalk, if_neg hleft, if_neg (by rw [← hlimit]; simpa using hallows)] at hwalk
    split_ifs at hwalk with hany
    have hforeign : ∀ x ∈ orders l, x.userId ≠ t.userId := by
      rw [howner] at hany
      simpa using hany
    have hmatched := levelMatched (o := o) (p := p) hk hid
      (hfree _ (List.mem_cons_self ..)) hstop hallows hcap hforeign
    generalize remaining - min (lotFloor t.lot remaining) _ = next at hmatched
    rw [loop, hmatched.goes]
    by_cases hzero : next = 0
    · rw [if_neg (by simp [hzero])]
      exact hmatched.flag
    rw [if_pos (by simp [hzero])]
    by_cases hstuck : lotFloor t.lot next = 0
    · rw [loop_of_lotFloor hmatched.stop hstuck]
      exact hmatched.flag
    · rw [← hmatched.walk (Or.inr hstuck)] at hwalk
      rw [ih (List.forall_mem_cons.mp hfree).2 hmatched.stop hwalk]
      exact hmatched.flag

/-- **A taker that is completed, or not rounded to lots,** is flagged iff
`check_modify_stp_self_cross` finds an own order in its way. -/
theorem stp_loop_eq (hmode : t.stpMode = .cancelTaker ∨ t.stpMode = .cancelBoth)
    (huser : t.userId ≠ 0) (hend : t.lot ≤ 1 ∨ (loop t entries p).stop = .baseQty 0) :
    (loop t entries p).stpTakerCancelled =
      (p.stpTakerCancelled || selfCrossWalk o entries remaining) := by
  induction entries generalizing p remaining with
  | nil => simp [loop, selfCrossWalk]
  | cons e entries ih =>
    obtain ⟨price, l⟩ := e
    rw [selfCrossWalk]
    by_cases hleft : remaining = 0
    · rw [if_pos hleft, loop_of_lotFloor hstop (by rw [hleft]; simp [lotFloor]), Bool.or_false]
    rw [if_neg hleft]
    by_cases hallows : t.allows price
    swap
    · have hlevel : p.level t price l = (p, false) := by rw [level, if_pos (by simpa using hallows)]
      have hcross : (!o.side.crosses o.price price) = true := by
        rw [← hlimit]
        simpa using hallows
      rw [if_pos hcross, Bool.or_false, loop, hlevel]
      rfl
    rw [if_neg (by rw [← hlimit]; simpa using hallows)]
    -- a budget that rounds down to nothing ends the loop with quantity left
    have hlots : ∀ {entries : List (ℕ × L)} {p : Plan L} {left : ℕ}, p.stop = .baseQty left →
        left ≠ 0 → (t.lot ≤ 1 ∨ (loop t entries p).stop = .baseQty 0) →
        lotFloor t.lot left ≠ 0 := by
      intro entries p left hstop hpos hend hstuck
      rcases hend with hlot | hend
      · rw [lotFloor, if_pos hlot] at hstuck
        exact hpos hstuck
      · rw [loop_of_lotFloor hstop hstuck, hstop] at hend
        exact hpos (StopCondition.baseQty.inj hend)
    have hcap := hlots hstop hleft hend
    by_cases hforeign : ∀ x ∈ orders l, x.userId ≠ t.userId
    · have hmatched := levelMatched (o := o) (p := p) hk hid
        (hfree _ (List.mem_cons_self ..)) hstop hallows hcap hforeign
      generalize remaining - min (lotFloor t.lot remaining) _ = next at hmatched
      rw [if_neg (by rw [howner]; simpa using hforeign)]
      rw [loop, hmatched.goes] at hend ⊢
      by_cases hzero : next = 0
      · rw [if_neg (by simp [hzero]), ← hmatched.walk (Or.inl hzero), hzero, selfCrossWalk_zero,
          Bool.or_false]
        exact hmatched.flag
      · rw [if_pos (by simp [hzero])] at hend ⊢
        rw [ih (List.forall_mem_cons.mp hfree).2 hmatched.stop hend, hmatched.flag,
          hmatched.walk (Or.inr (hlots hmatched.stop hzero hend))]
    · -- the level holds an own order: the flag is raised and the walk finds it
      have hany : ((orders l).any fun x => x.userId = o.userId) = true := by
        rw [howner]
        simpa using hforeign
      rw [if_pos hany, Bool.or_true]
      exact flag_of_own hk hmode huser hstop hallows hcap hforeign

end Walk

end Plan

theorem fokWalk_le (t : Taker) (quantity : ℕ) (entries : List (ℕ × L)) {matched : ℕ}
    (h : matched ≤ u64Max) : fokWalk t quantity entries matched ≤ u64Max := by
  induction entries generalizing matched with
  | nil => exact h
  | cons e entries ih =>
    rw [fokWalk]
    dsimp only
    split_ifs
    · exact h
    · exact h
    · exact h
    · exact min_le_right ..
    · exact ih (min_le_right ..)

theorem fokWalk_zero (t : Taker) (entries : List (ℕ × L)) : fokWalk t 0 entries 0 = 0 := by
  cases entries <;> rfl

/-! ### Accepted orders -/

namespace OrderBook

variable {side : Side}

/-- The early exit of `fok_fillable_quantity` only saves the walk. -/
theorem fokFillableQuantity_eq (b : OrderBook L) (side : Side) (quantity : ℕ)
    (limit : Option ℕ) (userId : Hash32) (id : OrderId) :
    b.fokFillableQuantity side quantity limit userId id =
      fokWalk (b.taker id side limit userId .standard) quantity (b.sweepEntries side) 0 := by
  rw [fokFillableQuantity]
  split_ifs with h
  · rcases h with h | h
    · rw [h, fokWalk_zero]
    · rw [sweepEntries_of_isEmpty h]
      rfl
  · rfl

theorem fokFillableQuantity_le {quantity : ℕ} {limit : Option ℕ} {userId : Hash32} :
    b.fokFillableQuantity side quantity limit userId id ≤ u64Max := by
  rw [fokFillableQuantity_eq]
  exact fokWalk_le _ _ _ (Nat.zero_le _)

/-- A new id is on no level of a sound book. -/
theorem Sound.free (h : b.Sound) {i : OrderId} (hi : b.orderLocations.lookup i = none) {e : ℕ × L}
    (he : e ∈ b.sweepEntries side) : i ∉ orderIds e.2 := by
  intro hmem
  obtain ⟨o, ho, hid⟩ := mem_orderIds.mp hmem
  exact h.id_ne hi ⟨e.2, mem_sweepEntries.mp he, ho⟩ hid

section Accepted

variable [LevelQueue L] [MatchableDryRun L] {b : OrderBook L} {o : Order}

/-- What `fok_fillable_quantity` finds for a new order, and what a standard sweep leaves of it, add
up to the order. -/
theorem fokFillableQuantity_add_left (hb : b.Sound) (hfresh : b.orderLocations.lookup o.id = none)
    (hkind : o.isPostOnly = false) (hmax : o.totalQuantity ≤ u64Max) :
    ∃ left, (b.dryRunOf o).stop = .baseQty left ∧
      b.fokFillableQuantity o.side o.totalQuantity (some o.price) o.userId o.id + left =
        o.totalQuantity := by
  have htaker : b.takerOf o = b.taker o.id o.side (some o.price) o.userId .standard := by
    rw [takerOf, takerKind, if_neg (by simp [hkind])]
  rw [fokFillableQuantity_eq, ← htaker]
  exact Plan.fokWalk_eq (t := b.takerOf o) (p := { stop := .baseQty o.totalQuantity })
    (by rw [htaker]; rfl) (fun e (he : e ∈ b.sweepEntries o.side) => hb.free hfresh he) rfl
    (Nat.zero_add _) hmax

/-- **The sweep of an accepted order matches all of it** iff `fok_fillable_quantity` finds the
depth. -/
theorem Accepted.stop_eq_zero_iff (hacc : b.Accepted o) (hb : b.Sound)
    (hkind : o.isPostOnly = false) (hmax : o.totalQuantity ≤ u64Max) :
    (b.dryRunOf o).stop = .baseQty 0 ↔
      o.totalQuantity ≤ b.fokFillableQuantity o.side o.totalQuantity (some o.price) o.userId
        o.id := by
  obtain ⟨left, hend, hsum⟩ := fokFillableQuantity_add_left hb hacc.fresh hkind hmax
  rw [hend, StopCondition.baseQty.injEq]
  omega

omit [LevelQueue L] in
/-- **The sweep of an order that is matched in full is flagged** iff an own order is in its way. -/
theorem Accepted.stp_iff (hacc : b.Accepted o) (hb : b.Sound) (hkind : o.isPostOnly = false)
    (hend : (b.dryRunOf o).stop = .baseQty 0) :
    (b.dryRunOf o).stpTakerCancelled = false ↔
      b.checkModifyStpSelfCross o = .ok () := by
  rw [checkModifyStpSelfCross, refuse_eq_ok, decide_eq_false_iff_not]
  by_cases hmode : (b.stpMode = .cancelTaker ∨ b.stpMode = .cancelBoth) ∧ o.userId ≠ 0
  · have hflag := Plan.stp_loop_eq (t := b.takerOf o) (o := o)
      (p := { stop := .baseQty o.totalQuantity }) (by simp [takerOf, taker, takerKind, hkind])
      (fun _ => rfl) rfl rfl (fun e he => hb.free hacc.fresh he) rfl hmode.1 hmode.2 (Or.inr hend)
    rw [Bool.false_or] at hflag
    have hrun : (b.dryRunOf o).stpTakerCancelled =
        selfCrossWalk o (b.sweepEntries o.side) o.totalQuantity := hflag
    rw [hrun]
    simp [hmode]
  · have hflag := Plan.stp_loop_of_mode (t := b.takerOf o)
      (p := { stop := .baseQty o.totalQuantity }) (b.sweepEntries o.side) hmode
    refine iff_of_true hflag fun h => hmode ⟨h.1, h.2.1⟩

end Accepted

end OrderBook

/-! ### All or nothing -/

/-- The call fills the order in full, or fails without a trade and leaves every resting order as it
was. -/
structure AllOrNothing (o : Order) (b : OrderBook L) : Prop where
  all : Succeeds (addOrder o) b → ∃ trades, (addOrder o b).2.fills = b.fills ++ trades ∧
    tradedQuantity trades = o.size
  nothing : ¬ Succeeds (addOrder o) b → b.SameRests (addOrder o b).2

theorem succeeds_addOrder {o : Order} :
    Succeeds (addOrder o) b ↔ ∃ r, (addOrderInner o false b).1 = .ok r := by
  rw [OrderBook.addOrder]
  refine succeeds_bind.trans ⟨?_, ?_⟩
  · rintro ⟨a, b', h, -⟩
    exact ⟨a, by rw [h]⟩
  · rintro ⟨r, h⟩
    exact ⟨r, (addOrderInner o false b).2, by rw [← h], _, _, rfl⟩

section AllOrNothing

variable {b : OrderBook L} {o : Order}

/-- The sweep of the order has an outcome, raises no flag and leaves nothing. -/
def SweepCompletes (o : Order) (b : OrderBook L) : Prop :=
  ∃ outcome, (sweepOf o b).1 = .ok outcome ∧ outcome.takerPostOnlyRejected = false ∧
    outcome.takerStpCancelled = false ∧ outcome.result.remainingQuantity = 0

/-- **What becomes of an immediate order** is decided by its sweep: nothing rests or leaves after
it, and the call succeeds iff the sweep completes. -/
theorem addOrder_of_immediate [LevelQueue L] (hacc : b.Accepted o) (himm : o.isImmediate) :
    (sweepOf o b).2.SameRests (addOrder o b).2 ∧
      (Succeeds (addOrder o) b ↔ SweepCompletes o b) := by
  have hstep := addOrderInner_step o false b
  rw [addOrder_snd, succeeds_addOrder, SweepCompletes]
  generalize (addOrderInner o false b).1 = result at hstep ⊢
  generalize (addOrderInner o false b).2 = b' at hstep ⊢
  have hemitted : ∀ {b₀ b₁ : OrderBook L} {outcome status}, b.Quiet b₀ →
      sweepOf o b₀ = (.ok outcome, b₁) → (sweepOf o b).2.SameRests
        ((emitTrades false outcome.result b₁).2.trackState o.id status) := fun quiet run =>
    (((quiet.sameState.sweepOf run).2.sameOrders.trans (sameOrders_emitTrades ..)).trans
      (sameView_trackState ..).sameState.sameOrders).sameRests
  cases hstep with
  | refused refusal => exact absurd hacc refusal
  | failed _ quiet run =>
    obtain ⟨hresult, hstate⟩ := quiet.sameState.sweepOf run
    exact ⟨hstate.sameOrders.sameRests, by simp [hresult]⟩
  | rejected _ quiet run flag recorded =>
    obtain ⟨hresult, hstate⟩ := quiet.sameState.sweepOf run
    exact ⟨(hstate.trans (sameState_of_rejected recorded)).sameOrders.sameRests,
      by simp [hresult, flag]⟩
  | stpCancelled _ quiet run flag stp =>
    exact ⟨hemitted quiet run, by simp [(quiet.sameState.sweepOf run).1, stp]⟩
  | filled _ quiet run flag stp zero =>
    exact ⟨hemitted quiet run, by simp [(quiet.sameState.sweepOf run).1, flag, stp, zero]⟩
  | dropped _ quiet run flag stp pos =>
    exact ⟨hemitted quiet run, by simp [(quiet.sameState.sweepOf run).1, pos]⟩
  | levelRefused _ _ _ _ _ _ resting | rests _ _ _ _ _ _ resting =>
    exact absurd (himm.symm.trans resting) (by simp)

theorem isImmediate_of_isFillOrKill (hfok : o.isFillOrKill) : o.isImmediate := by
  rw [Order.isImmediate, of_decide_eq_true hfok]
  rfl

section Sweep

variable [LevelQueue L] [LevelMatch L] [MatchAccounting L]

/-- A sweep that completes trades the whole order. -/
theorem SweepCompletes.traded (h : SweepCompletes o b) :
    ∃ trades, (sweepOf o b).2.fills = b.fills ++ trades ∧
      tradedQuantity trades = o.totalQuantity := by
  obtain ⟨outcome, hresult, -, -, hzero⟩ := h
  obtain ⟨htotal, hfills⟩ := sweepOf_accounts (show sweepOf o b = (.ok outcome, (sweepOf o b).2) by
    rw [← hresult])
  exact ⟨outcome.result.trades, hfills, by omega⟩

/-- An immediate order whose call succeeds is filled in full. -/
theorem filled_of_succeeds (hacc : b.Accepted o) (himm : o.isImmediate)
    (hok : Succeeds (addOrder o) b) :
    ∃ trades, (addOrder o b).2.fills = b.fills ++ trades ∧ tradedQuantity trades = o.size := by
  obtain ⟨hsame, hiff⟩ := addOrder_of_immediate hacc himm
  rw [hsame.fills_eq, Order.size_eq_totalQuantity hacc.representable]
  exact (hiff.mp hok).traded

omit [LevelQueue L] [LevelMatch L] [MatchAccounting L] in
theorem dryRunOf_of_isEmpty (hempty : (b.levels o.side.opposite).isEmpty) :
    b.dryRunOf o = { stop := .baseQty o.totalQuantity } := by
  rw [dryRunOf, dryRun, sweepEntries_of_isEmpty (s := (b.takerOf o).side) hempty]
  rfl

/-- **A sweep trades all of the order** but what its dry run leaves. -/
theorem sweepOf_traded {left : ℕ} (hend : (b.dryRunOf o).stop = .baseQty left) :
    ∃ trades, (sweepOf o b).2.fills = b.fills ++ trades ∧
      tradedQuantity trades + left = o.totalQuantity := by
  obtain ⟨remaining, -, haccounts⟩ := b.sweepFor_accounts o
  rcases sweepOf_cases o b with ⟨hempty, hrun⟩ | ⟨tracker, hrun⟩
  · rw [dryRunOf_of_isEmpty hempty] at hend
    rw [hrun]
    refine ⟨[], (List.append_nil _).symm, ?_⟩
    rw [tradedQuantity_nil, Nat.zero_add]
    exact (StopCondition.baseQty.inj hend).symm
  · have hstop := haccounts.stop
    rw [(b.sweepFor_follows o).stop_eq, hend] at hstop
    have hleft := StopCondition.baseQty.inj hstop
    have htraded := haccounts.traded
    rw [hrun]
    exact ⟨_, (finishSweep_fills ..).trans haccounts.applied, by omega⟩

/-- **The sweep completes** iff its dry run leaves nothing and raises no flag. -/
theorem sweepCompletes_iff (hkind : o.isPostOnly = false) :
    SweepCompletes o b ↔
      (b.dryRunOf o).stop = .baseQty 0 ∧ (b.dryRunOf o).stpTakerCancelled = false := by
  obtain ⟨remaining, -, haccounts⟩ := b.sweepFor_accounts o
  have hfollows := b.sweepFor_follows o
  rw [SweepCompletes]
  rcases sweepOf_cases o b with ⟨hempty, hrun⟩ | ⟨tracker, hrun⟩
  · rw [hrun, dryRunOf_of_isEmpty hempty]
    constructor
    · rintro ⟨outcome, hresult, -, -, hzero⟩
      cases hresult
      exact ⟨congrArg _ hzero, rfl⟩
    · rintro ⟨hend, -⟩
      exact ⟨_, rfl, rfl, rfl, StopCondition.baseQty.inj hend⟩
  · rw [hrun, ← hfollows.stop_eq, ← hfollows.stp_eq, haccounts.stop]
    constructor
    · rintro ⟨outcome, hresult, -, hstp, hzero⟩
      split_ifs at hresult
      cases hresult
      exact ⟨congrArg _ (haccounts.result.symm.trans hzero), hstp⟩
    · rintro ⟨hend, hstp⟩
      refine ⟨_, if_neg fun h => by rw [hstp] at h; exact absurd h.1 (by simp), ?_, hstp, ?_⟩
      · rw [hfollows.rejected_eq]
        exact Plan.rejected_loop (by simp [takerOf, taker, takerKind, hkind]) _
      · exact haccounts.result.trans (StopCondition.baseQty.inj hend)

end Sweep

end AllOrNothing

/-- An ask of another user in front of an ask of user `7`, the second at price `price`. -/
def asksOfTwo (price : ℕ) : List Op :=
  [.configure (.stpMode .cancelTaker),
    .command (.addOrder ⟨1, 100, .sell, 8, 0, .gtc, 5, .standard⟩),
    .command (.addOrder ⟨2, price, .sell, 7, 0, .gtc, 5, .standard⟩)]

/-- The book those asks leave. -/
def asksOfTwoBook (price : ℕ) : OrderBook FifoLevel :=
  letI := noDigest
  (Session.run { book := (withClock "BTC" ⟨fun n => n, 0⟩ : OrderBook FifoLevel) }
    (asksOfTwo price)).book

end OrderBookRs
