import OrderBookRs.Risk

/-!
# The counters of the risk layer follow its entries

The risk layer keeps an entry for every order it tracks and, for every account, two counters. This
module compares the two: the counters of an account stand for its entries and a slack, and every
hook moves entries and counters together, so that the slack of an account never shrinks. It grows in
one case only, when an order is admitted under an id that is still tracked.

## Main definitions

* `RiskState.counted`, `RiskState.booked`: what the entries of an account add up to.
* `RiskState.Balanced`: the counters stand for the entries and a slack.
* `RiskEntry.afterTrades`: an entry after trades of its order.

## Main results

* `RiskState.Balanced.onAdmission`, `RiskState.Balanced.onCancel`,
  `RiskState.Balanced.onQuantityUpdate`, `RiskState.Balanced.foldl_onFill`.
-/

namespace OrderBookRs

variable {q : ℕ} {trades : List Trade}

/-! ### What the entries of an account add up to -/

/-- What an entry adds to a weight of the account's entries. -/
def RiskEntry.share (account : Hash32) (weight : RiskEntry → ℕ) (e : RiskEntry) : ℕ :=
  if e.account = account then weight e else 0

theorem RiskEntry.share_self (weight : RiskEntry → ℕ) (e : RiskEntry) :
    e.share e.account weight = weight e := if_pos rfl

theorem RiskEntry.share_of_ne {account : Hash32} {e : RiskEntry} (h : account ≠ e.account)
    (weight : RiskEntry → ℕ) : e.share account weight = 0 := if_neg h.symm

/-- A weight of the account's entries. -/
def tally (account : Hash32) (weight : RiskEntry → ℕ) (m : AssocMap OrderId RiskEntry) : ℕ :=
  AssocMap.total (fun _ => RiskEntry.share account weight) m

section Tally

variable (account : Hash32) (weight : RiskEntry → ℕ) {m m' : AssocMap OrderId RiskEntry}
  {i : OrderId}

/-- Where one entry changes, a weight changes by what it was and what it is. -/
theorem tally_update (h : ∀ j, j ≠ i → m'.lookup j = m.lookup j) :
    tally account weight m' + (m.lookup i).elim 0 (RiskEntry.share account weight) =
      tally account weight m + (m'.lookup i).elim 0 (RiskEntry.share account weight) :=
  AssocMap.total_update (fun _ => RiskEntry.share account weight) h

theorem share_le_tally {e : RiskEntry} (h : m.lookup i = some e) :
    e.share account weight ≤ tally account weight m := by
  have herase := AssocMap.total_erase (fun _ => RiskEntry.share account weight) m i
  rw [AssocMap.weightAt, h, Option.elim_some] at herase
  exact le_of_add_le_right herase.le

end Tally

namespace RiskState

variable {r : RiskState} {i : OrderId}

/-- How many entries an account has. -/
def counted (r : RiskState) (account : Hash32) : ℕ := tally account (fun _ => 1) r.orders

/-- The notional of an account's entries. -/
def booked (r : RiskState) (account : Hash32) : ℕ := tally account RiskEntry.notional r.orders

/-- An account's counters stand for its entries and a slack. -/
structure Balanced (r : RiskState) (slack : Hash32 → ℕ × ℕ) : Prop where
  count : ∀ account, r.openCount account = r.counted account + (slack account).1
  notional : ∀ account, r.restingNotional account = r.booked account + (slack account).2

/-! ### Reading the counters -/

/-- What the counters of an account read. -/
def held (r : RiskState) (account : Hash32) : RiskCounters :=
  ⟨r.openCount account, r.restingNotional account⟩

theorem openCount_of_held {a : Hash32} {c : RiskCounters} (h : r.held a = c) :
    r.openCount a = c.openCount := congrArg RiskCounters.openCount h

theorem restingNotional_of_held {a : Hash32} {c : RiskCounters} (h : r.held a = c) :
    r.restingNotional a = c.restingNotional := congrArg RiskCounters.restingNotional h

section Counters

variable (r : RiskState) (account a : Hash32)

theorem held_eq : r.held a = (r.counters.lookup a).getD {} := by
  rw [held, openCount, restingNotional]
  cases r.counters.lookup a <;> rfl

theorem held_insert (c : RiskCounters) :
    ({ r with counters := r.counters.insert account c } : RiskState).held a =
      if a = account then c else r.held a := by
  rw [held_eq, held_eq]
  split_ifs with h
  · rw [h, AList.lookup_insert, Option.getD_some]
  · rw [AList.lookup_insert_ne h]

/-- Dropping counters that are zero changes no reading. -/
theorem held_evictIfZeroed : (r.evictIfZeroed account).held a = r.held a := by
  rw [evictIfZeroed]
  split
  · next h =>
    rw [held_eq, held_eq]
    by_cases ha : a = account
    · rw [ha, AList.lookup_erase, h]
      rfl
    · rw [AList.lookup_erase_ne ha]
  · rfl

@[simp] theorem orders_evictIfZeroed : (r.evictIfZeroed account).orders = r.orders := by
  rw [evictIfZeroed]
  split <;> rfl

theorem held_release (notional : ℕ) (gone : Bool) :
    (r.release account notional gone).held a =
      if a = account then
        ⟨if gone then r.openCount account - 1 else r.openCount account,
          r.restingNotional account - notional⟩
      else r.held a := by
  rw [release, openCount, restingNotional]
  cases h : r.counters.lookup account with
  | none =>
    by_cases ha : a = account
    · rw [if_pos ha, ha, held_eq, h]
      cases gone <;> simp
    · rw [if_neg ha]
  | some c => exact held_insert r account a _

@[simp] theorem orders_release (notional : ℕ) (gone : Bool) :
    (r.release account notional gone).orders = r.orders := by
  rw [release]
  split <;> rfl

end Counters

/-! ### Counters that do not grow -/

/-- No counter is above that of another state. -/
def CountersLe (r' r : RiskState) : Prop :=
  ∀ a, r'.openCount a ≤ r.openCount a ∧ r'.restingNotional a ≤ r.restingNotional a

theorem CountersLe.refl (r : RiskState) : r.CountersLe r := fun _ => ⟨le_rfl, le_rfl⟩

theorem CountersLe.trans {r' r'' : RiskState} (h : r''.CountersLe r') (h' : r'.CountersLe r) :
    r''.CountersLe r := fun a => ⟨(h a).1.trans (h' a).1, (h a).2.trans (h' a).2⟩

theorem CountersLe.of_held {r' : RiskState} {account : Hash32} {c : RiskCounters}
    (hheld : ∀ a, r'.held a = if a = account then c else r.held a)
    (hcount : c.openCount ≤ r.openCount account)
    (hnotional : c.restingNotional ≤ r.restingNotional account) : r'.CountersLe r := by
  intro a
  rw [openCount_of_held (hheld a), restingNotional_of_held (hheld a)]
  split_ifs with ha
  · rw [ha]
    exact ⟨hcount, hnotional⟩
  · exact ⟨le_rfl, le_rfl⟩

/-! ### The balance -/

variable {slack : Hash32 → ℕ × ℕ} {e : RiskEntry}

/-- An entry weighs at most what its account has booked. -/
theorem Balanced.notional_le (h : r.Balanced slack) (hi : r.orders.lookup i = some e) :
    e.notional ≤ r.restingNotional e.account := by
  have hle := share_le_tally e.account RiskEntry.notional hi
  rw [RiskEntry.share_self] at hle
  rw [h.notional]
  exact hle.trans (Nat.le_add_right ..)

/-- An account with an entry has an open order on its counter. -/
theorem Balanced.count_pos (h : r.Balanced slack) (hi : r.orders.lookup i = some e) :
    0 < r.openCount e.account := by
  have hle := share_le_tally e.account (fun _ => 1) hi
  rw [RiskEntry.share_self] at hle
  rw [h.count]
  exact lt_of_lt_of_le hle (Nat.le_add_right ..)

/-- **An entry and the counters of its account move together.** -/
theorem Balanced.replaced {r' : RiskState} {new : Option RiskEntry} {c : RiskCounters}
    (h : r.Balanced slack) (hi : r.orders.lookup i = some e)
    (hlookup : ∀ j, r'.orders.lookup j = if j = i then new else r.orders.lookup j)
    (hheld : ∀ a, r'.held a = if a = e.account then c else r.held a)
    (hnew : ∀ e' ∈ new, e'.account = e.account)
    (hcount : c.openCount + 1 = r.openCount e.account + new.elim 0 fun _ => 1)
    (hnotional : c.restingNotional + e.notional =
      r.restingNotional e.account + new.elim 0 RiskEntry.notional) : r'.Balanced slack := by
  have htally : ∀ a weight, tally a weight r'.orders + (if a = e.account then weight e else 0) =
      tally a weight r.orders + if a = e.account then new.elim 0 weight else 0 := by
    intro a weight
    have hupdate := tally_update a weight (i := i) fun j hj => (hlookup j).trans (if_neg hj)
    rw [hi, hlookup, if_pos rfl, Option.elim_some] at hupdate
    split_ifs with ha
    · subst ha
      cases new with
      | none => rwa [RiskEntry.share_self] at hupdate
      | some e' =>
        rwa [RiskEntry.share_self, Option.elim_some, RiskEntry.share,
          if_pos (hnew e' rfl)] at hupdate
    · cases new with
      | none => rwa [RiskEntry.share_of_ne ha] at hupdate
      | some e' =>
        rwa [RiskEntry.share_of_ne ha, Option.elim_some,
          RiskEntry.share_of_ne (hnew e' rfl ▸ ha)] at hupdate
  refine ⟨fun a => ?_, fun a => ?_⟩
  · have hreads := openCount_of_held (hheld a)
    have hmoved := htally a fun _ => 1
    have hbefore := h.count a
    rw [counted] at hbefore ⊢
    split_ifs at hreads hmoved with ha
    · subst ha
      omega
    · dsimp only [held] at hreads
      omega
  · have hreads := restingNotional_of_held (hheld a)
    have hmoved := htally a RiskEntry.notional
    have hbefore := h.notional a
    rw [booked] at hbefore ⊢
    split_ifs at hreads hmoved with ha
    · subst ha
      omega
    · dsimp only [held] at hreads
      omega

end RiskState

/-- A product that stays below the limit is exact. -/
theorem satMul128_eq {a b : ℕ} (h : satMul128 a b < u128Max) : satMul128 a b = a * b := by
  rw [satMul128] at h ⊢
  omega

theorem satMul128_mono {a b : ℕ} (c : ℕ) (h : a ≤ b) : satMul128 a c ≤ satMul128 b c :=
  min_le_min_right _ (Nat.mul_le_mul_right c h)

/-- Splitting a quantity splits its notional. -/
theorem satMul128_sub_add {filled price : ℕ} (hle : filled ≤ q)
    (hfit : satMul128 q price < u128Max) :
    satMul128 (q - filled) price + satMul128 filled price = satMul128 q price := by
  rw [satMul128_eq hfit, satMul128_eq (lt_of_le_of_lt (satMul128_mono price hle) hfit),
    satMul128_eq (lt_of_le_of_lt (satMul128_mono price (Nat.sub_le ..)) hfit), ← Nat.add_mul,
    Nat.sub_add_cancel hle]

/-! ### Fills -/

/-- An entry after a fill of its order; filled to the end, it goes. -/
def RiskEntry.afterFill (e : RiskEntry) (q : ℕ) : Option RiskEntry :=
  if e.remainingQty ≤ q then none else some { e with remainingQty := e.remainingQty - q }

/-- An entry after the trades of its order. -/
def RiskEntry.afterTrades (trades : List Trade) (e : RiskEntry) : Option RiskEntry :=
  trades.foldl (fun e t => e.bind (RiskEntry.afterFill · t.quantity)) (some e)

theorem RiskEntry.afterTrades_cons (t : Trade) (trades : List Trade) (e : RiskEntry) :
    e.afterTrades (t :: trades) = (e.afterFill t.quantity).bind (RiskEntry.afterTrades trades) := by
  have hnone : ∀ trades : List Trade, trades.foldl
      (fun (e : Option RiskEntry) t => e.bind (RiskEntry.afterFill · t.quantity)) none = none := by
    intro trades
    induction trades with
    | nil => rfl
    | cons t trades ih => exact ih
  rw [afterTrades, List.foldl_cons, Option.bind_some]
  cases e.afterFill t.quantity with
  | none => exact hnone trades
  | some => rfl

/-- An entry outlives trades of less than what it has left. -/
theorem RiskEntry.afterTrades_of_lt {e : RiskEntry}
    (h : trades ≠ [] → tradedQuantity trades < e.remainingQty) :
    e.afterTrades trades =
      some { e with remainingQty := e.remainingQty - tradedQuantity trades } := by
  induction trades generalizing e with
  | nil => rfl
  | cons t trades ih =>
    have hlt := h (List.cons_ne_nil t trades)
    rw [tradedQuantity_cons] at hlt
    rw [afterTrades_cons, afterFill, if_neg (by omega), Option.bind_some, ih fun _ => by
      dsimp only
      omega]
    simp [Nat.sub_sub]

/-- An entry whose order trades everything goes. -/
theorem RiskEntry.afterTrades_of_eq {e : RiskEntry} (hne : trades ≠ [])
    (hpos : ∀ t ∈ trades, 0 < t.quantity) (h : tradedQuantity trades = e.remainingQty) :
    e.afterTrades trades = none := by
  induction trades generalizing e with
  | nil => exact absurd rfl hne
  | cons t trades ih =>
    rw [tradedQuantity_cons] at h
    rw [afterTrades_cons, afterFill]
    split_ifs with hle
    · rfl
    · rw [Option.bind_some]
      refine ih ?_ (List.forall_mem_cons.mp hpos).2 (by dsimp only; omega)
      rintro rfl
      rw [tradedQuantity_nil] at h
      omega

namespace RiskState

variable {r : RiskState} {cfg : RiskConfig} {slack : Hash32 → ℕ × ℕ} {i : OrderId} {e : RiskEntry}

theorem onFill_of_none (hi : r.orders.lookup i = none) (q : ℕ) : r.onFill i q = r := by
  rw [onFill]
  split
  · rfl
  · rw [hi]

/-- What a fill of a tracked order does. -/
theorem onFill_spec (hconfig : r.config = some cfg) (hi : r.orders.lookup i = some e) (q : ℕ) :
    (∀ a, (r.onFill i q).held a =
      if a = e.account then
        ⟨if e.remainingQty ≤ q then r.openCount e.account - 1 else r.openCount e.account,
          r.restingNotional e.account - satMul128 q e.price⟩
      else r.held a) ∧
    ∀ j, (r.onFill i q).orders.lookup j =
      if j = i then e.afterFill q else r.orders.lookup j := by
  rw [onFill, hconfig, hi, RiskEntry.afterFill]
  dsimp only
  simp only [Nat.sub_eq_zero_iff_le]
  by_cases hle : e.remainingQty ≤ q
  · simp only [hle, decide_true, if_true]
    refine ⟨fun a => ?_, fun j => ?_⟩
    · exact (held_evictIfZeroed ..).trans (held_release _ e.account a _ _)
    · rw [orders_evictIfZeroed, orders_release]
      split_ifs with hj
      · rw [hj, AList.lookup_erase]
      · rw [AList.lookup_erase_ne hj, AList.lookup_insert_ne hj]
  · simp only [hle, decide_false, if_false]
    refine ⟨fun a => held_release _ e.account a _ _, fun j => ?_⟩
    rw [orders_release]
    split_ifs with hj
    · rw [hj, AList.lookup_insert]
    · rw [AList.lookup_insert_ne hj]

theorem lookup_onFill (hconfig : r.config = some cfg) (i : OrderId) (q : ℕ) (j : OrderId) :
    (r.onFill i q).orders.lookup j =
      if j = i then (r.orders.lookup i).bind (RiskEntry.afterFill · q)
      else r.orders.lookup j := by
  cases hi : r.orders.lookup i with
  | none =>
    rw [onFill_of_none hi]
    split_ifs with hj
    · rw [hj, hi]
      rfl
    · rfl
  | some => exact (onFill_spec hconfig hi q).2 j

/-- **A fill within what an entry has left** moves its entry and the counters together. -/
theorem Balanced.onFill (h : r.Balanced slack) (hconfig : r.config = some cfg)
    (hfill : ∀ e, r.orders.lookup i = some e → q ≤ e.remainingQty ∧ e.notional < u128Max) :
    (r.onFill i q).Balanced slack := by
  cases hi : r.orders.lookup i with
  | none => rwa [onFill_of_none hi]
  | some e =>
    obtain ⟨hq, hfit⟩ := hfill e hi
    obtain ⟨hheld, hlookup⟩ := onFill_spec hconfig hi q
    have hpos := h.count_pos hi
    have hbooked := h.notional_le hi
    have hsplit := satMul128_sub_add hq hfit
    rw [RiskEntry.afterFill] at hlookup
    split_ifs at hheld hlookup with hle
    · refine h.replaced hi hlookup hheld nofun (Nat.sub_add_cancel hpos) ?_
      rw [Nat.le_antisymm hq hle]
      exact Nat.sub_add_cancel hbooked
    · refine h.replaced hi hlookup hheld (fun e' he' => by cases he'; rfl) rfl ?_
      rw [RiskEntry.notional] at hbooked ⊢
      rw [Option.elim_some, RiskEntry.notional]
      dsimp only
      omega

theorem countersLe_onFill (hconfig : r.config = some cfg) (i : OrderId) (q : ℕ) :
    (r.onFill i q).CountersLe r := by
  cases hi : r.orders.lookup i with
  | none => rw [onFill_of_none hi]; exact .refl r
  | some e =>
    refine .of_held (onFill_spec hconfig hi q).1 ?_ (Nat.sub_le ..)
    split_ifs
    · exact Nat.sub_le ..
    · exact le_rfl

/-! ### The fills of one match -/

theorem lookup_foldl_onFill (hconfig : r.config = some cfg) (trades : List Trade) (j : OrderId) :
    (trades.foldl (fun r t => r.onFill t.makerOrderId t.quantity) r).orders.lookup j =
      (r.orders.lookup j).bind (RiskEntry.afterTrades (tradesOf j trades)) := by
  induction trades generalizing r with
  | nil => cases hj : r.orders.lookup j <;> exact hj
  | cons t trades ih =>
    rw [List.foldl_cons, ih ((r.config_onFill ..).trans hconfig), lookup_onFill hconfig, tradesOf,
      tradesOf, List.filter_cons]
    by_cases hj : j = t.makerOrderId
    · subst hj
      rw [if_pos rfl, if_pos (by simp), Option.bind_assoc]
      exact congrArg _ (funext fun e => (RiskEntry.afterTrades_cons t _ e).symm)
    · rw [if_neg hj, if_neg (by simpa using Ne.symm hj)]

theorem countersLe_foldl_onFill (hconfig : r.config = some cfg) (trades : List Trade) :
    (trades.foldl (fun r t => r.onFill t.makerOrderId t.quantity) r).CountersLe r := by
  induction trades generalizing r with
  | nil => exact .refl r
  | cons t trades ih =>
    exact (ih ((r.config_onFill ..).trans hconfig)).trans
      (countersLe_onFill hconfig t.makerOrderId t.quantity)

/-- **The fills of a match** keep the balance, if no tracked order trades more than it has left. -/
theorem Balanced.foldl_onFill (h : r.Balanced slack) (hconfig : r.config = some cfg)
    (hfit : ∀ a, r.restingNotional a < u128Max)
    (hcover : ∀ i e, r.orders.lookup i = some e →
      tradedQuantity (tradesOf i trades) ≤ e.remainingQty) :
    (trades.foldl (fun r t => r.onFill t.makerOrderId t.quantity) r).Balanced slack := by
  induction trades generalizing r with
  | nil => exact h
  | cons t trades ih =>
    have hhead : tradesOf t.makerOrderId (t :: trades) = t :: tradesOf t.makerOrderId trades :=
      List.filter_cons_of_pos (by simp)
    have hfirst : (r.onFill t.makerOrderId t.quantity).Balanced slack := by
      refine h.onFill hconfig fun e he => ⟨?_, (h.notional_le he).trans_lt (hfit _)⟩
      have := hcover _ e he
      rw [hhead, tradedQuantity_cons] at this
      omega
    refine ih hfirst ((r.config_onFill ..).trans hconfig)
      (fun a => (countersLe_onFill hconfig _ _ a).2.trans_lt (hfit a)) fun i e he => ?_
    rw [lookup_onFill hconfig] at he
    by_cases hi : i = t.makerOrderId
    · subst hi
      rw [if_pos rfl] at he
      obtain ⟨e₀, he₀, hafter⟩ := Option.bind_eq_some_iff.mp he
      have hle := hcover _ e₀ he₀
      rw [hhead, tradedQuantity_cons] at hle
      rw [RiskEntry.afterFill] at hafter
      split_ifs at hafter
      cases hafter
      dsimp only
      omega
    · rw [if_neg hi] at he
      have hle := hcover i e he
      rwa [tradesOf, List.filter_cons_of_neg (by simpa using Ne.symm hi), ← tradesOf] at hle

/-! ### Cancels -/

theorem onCancel_of_none (hi : r.orders.lookup i = none) : r.onCancel i = r := by
  rw [onCancel]
  split
  · rfl
  · rw [hi]

/-- What cancelling a tracked order does to the counters. -/
theorem held_onCancel (hconfig : r.config = some cfg) (hi : r.orders.lookup i = some e)
    (a : Hash32) :
    (r.onCancel i).held a =
      if a = e.account then
        ⟨r.openCount e.account - 1, r.restingNotional e.account - e.notional⟩
      else r.held a := by
  rw [onCancel, hconfig, hi]
  exact (held_evictIfZeroed ..).trans (held_release _ e.account a _ _)

theorem orders_onCancel (hconfig : r.config = some cfg) (i : OrderId) (j : OrderId) :
    (r.onCancel i).orders.lookup j = if j = i then none else r.orders.lookup j := by
  cases hi : r.orders.lookup i with
  | none =>
    rw [onCancel_of_none hi]
    split_ifs with hj
    · rw [hj, hi]
    · rfl
  | some =>
    rw [onCancel, hconfig, hi]
    dsimp only
    rw [orders_evictIfZeroed, orders_release]
    split_ifs with hj
    · rw [hj, AList.lookup_erase]
    · rw [AList.lookup_erase_ne hj]

theorem countersLe_onCancel (hconfig : r.config = some cfg) (i : OrderId) :
    (r.onCancel i).CountersLe r := by
  cases hi : r.orders.lookup i with
  | none => rw [onCancel_of_none hi]; exact .refl r
  | some => exact .of_held (held_onCancel hconfig hi) (Nat.sub_le ..) (Nat.sub_le ..)

/-- **A cancel** releases an entry and its share of the counters. -/
theorem Balanced.onCancel (h : r.Balanced slack) (hconfig : r.config = some cfg) (i : OrderId) :
    (r.onCancel i).Balanced slack := by
  cases hi : r.orders.lookup i with
  | none => rwa [onCancel_of_none hi]
  | some =>
    exact h.replaced hi (orders_onCancel hconfig i) (held_onCancel hconfig hi) nofun
      (Nat.sub_add_cancel (h.count_pos hi)) (Nat.sub_add_cancel (h.notional_le hi))

/-! ### Admissions -/

/-- What admitting an order does. -/
theorem onAdmission_spec (hconfig : r.config = some cfg) (i : OrderId) (account : Hash32)
    (price q : ℕ) :
    (∀ a, (r.onAdmission i account price q).held a =
      if a = account then
        ⟨r.openCount account + 1, (r.restingNotional account + satMul128 q price) % 2 ^ 128⟩
      else r.held a) ∧
    (r.onAdmission i account price q).orders = r.orders.insert i ⟨account, price, q⟩ := by
  rw [onAdmission, hconfig]
  exact ⟨fun a => held_insert _ account a _, rfl⟩

/-- **An admission** adds an entry and its share of the counters; what an entry under the same id
stood for becomes slack. -/
theorem Balanced.onAdmission (h : r.Balanced slack) (hconfig : r.config = some cfg) (i : OrderId)
    {account : Hash32} {price : ℕ}
    (hfit : r.restingNotional account + satMul128 q price < 2 ^ 128) :
    (r.onAdmission i account price q).Balanced fun a =>
      ((slack a).1 + (r.orders.lookup i).elim 0 (RiskEntry.share a fun _ => 1),
        (slack a).2 + (r.orders.lookup i).elim 0 (RiskEntry.share a RiskEntry.notional)) := by
  obtain ⟨hheld, horders⟩ := onAdmission_spec hconfig i account price q
  rw [Nat.mod_eq_of_lt hfit] at hheld
  have htally : ∀ a weight, tally a weight (r.onAdmission i account price q).orders +
      (r.orders.lookup i).elim 0 (RiskEntry.share a weight) =
        tally a weight r.orders + if a = account then weight ⟨account, price, q⟩ else 0 := by
    intro a weight
    have hothers : ∀ j, j ≠ i →
        (r.onAdmission i account price q).orders.lookup j = r.orders.lookup j := by
      intro j hj
      rw [horders, AList.lookup_insert_ne hj]
    rw [tally_update a weight hothers, horders, AList.lookup_insert, Option.elim_some,
      RiskEntry.share]
    exact congrArg _ (if_congr eq_comm rfl rfl)
  refine ⟨fun a => ?_, fun a => ?_⟩
  · have hreads := openCount_of_held (hheld a)
    have hadded := htally a fun _ => 1
    have hbefore := h.count a
    rw [counted] at hbefore ⊢
    split_ifs at hreads hadded with ha
    all_goals dsimp only [held] at hreads ⊢
    · subst ha
      omega
    · omega
  · have hreads := restingNotional_of_held (hheld a)
    have hadded := htally a RiskEntry.notional
    have hbefore := h.notional a
    rw [booked] at hbefore ⊢
    split_ifs at hreads hadded with ha
    all_goals dsimp only [held, RiskEntry.notional] at hreads hadded ⊢
    · subst ha
      omega
    · omega

/-! ### Resizes -/

/-- What resizing a tracked order does. -/
theorem onQuantityUpdate_spec (hconfig : r.config = some cfg) (hi : r.orders.lookup i = some e)
    (hpos : 0 < r.openCount e.account) (q : ℕ) :
    (∀ a, (r.onQuantityUpdate i q).held a =
      if a = e.account then
        ⟨r.openCount e.account,
          if e.remainingQty ≤ q then
            (r.restingNotional e.account + satMul128 (q - e.remainingQty) e.price) % 2 ^ 128
          else r.restingNotional e.account - satMul128 (e.remainingQty - q) e.price⟩
      else r.held a) ∧
    (r.onQuantityUpdate i q).orders = r.orders.insert i { e with remainingQty := q } := by
  rw [openCount] at hpos
  cases hc : r.counters.lookup e.account with
  | none =>
    rw [hc] at hpos
    exact absurd hpos (lt_irrefl 0)
  | some c =>
    rw [onQuantityUpdate, hconfig, hi, openCount, restingNotional, hc]
    dsimp only
    rw [hc]
    exact ⟨fun a => held_insert _ e.account a _, rfl⟩

/-- **A resize** moves an entry and the counters of its account together. -/
theorem Balanced.onQuantityUpdate (h : r.Balanced slack) (hconfig : r.config = some cfg)
    (hi : r.orders.lookup i = some e) (hold : e.notional < u128Max)
    (hfit : r.restingNotional e.account - e.notional + satMul128 q e.price < u128Max) :
    (r.onQuantityUpdate i q).Balanced slack ∧
      ∀ a, (r.onQuantityUpdate i q).held a =
        if a = e.account then
          ⟨r.openCount e.account, r.restingNotional e.account - e.notional + satMul128 q e.price⟩
        else r.held a := by
  obtain ⟨hheld, horders⟩ := onQuantityUpdate_spec hconfig hi (h.count_pos hi) q
  have hbooked := h.notional_le hi
  have hvalue : (if e.remainingQty ≤ q then
        (r.restingNotional e.account + satMul128 (q - e.remainingQty) e.price) % 2 ^ 128
      else r.restingNotional e.account - satMul128 (e.remainingQty - q) e.price) =
      r.restingNotional e.account - e.notional + satMul128 q e.price := by
    rw [RiskEntry.notional] at hbooked hfit hold ⊢
    split_ifs with hle
    · have hsplit := satMul128_sub_add hle (lt_of_le_of_lt (Nat.le_add_left ..) hfit)
      have hmax : u128Max < 2 ^ 128 := by decide
      rw [Nat.mod_eq_of_lt (by omega)]
      omega
    · have hsplit := satMul128_sub_add (Nat.le_of_lt (Nat.lt_of_not_le hle)) hold
      omega
  rw [hvalue] at hheld
  have hlookup : ∀ j, (r.onQuantityUpdate i q).orders.lookup j =
      if j = i then some { e with remainingQty := q } else r.orders.lookup j := by
    intro j
    rw [horders]
    split_ifs with hj
    · rw [hj, AList.lookup_insert]
    · rw [AList.lookup_insert_ne hj]
  refine ⟨h.replaced hi hlookup hheld (fun e' he' => by cases he'; rfl) rfl ?_, hheld⟩
  rw [Option.elim_some, RiskEntry.notional, RiskEntry.notional] at *
  dsimp only
  omega

end RiskState

end OrderBookRs
