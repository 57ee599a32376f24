import OrderBookRs.Fallible
import OrderBookRs.TrackerRetention

/-!
# What the tracker keeps

The eviction queue of `OrderStateTracker` has one entry for each terminal transition, not one for
each order. That is enough to bound the tracker: every terminal order on record has an entry, so
there are never more of them than the queue is long. It is not enough to keep the right ones. An
order that was terminal, became active and is terminal again has two entries, and is dropped when
the older one leaves the queue; the stale entry of an order that is active now takes the place of an
older order's.

## Main definitions

* `TrackerCall`, `OrderStateTracker.call`: the calls that change a tracker.
* `OrderStateTracker.Tidy`: the invariant behind the bound.
* `TerminalRecord`: a tracker with the ids whose last transition was terminal, oldest first.
* `TerminalRecord.Exact`: the terminal orders on record are the most recent ones.
* `TerminalRecord.EvictsOldest`: what one transition needs for that.

## Main results

* `tracker_bounded_and_safe`.
* `tracker_evicts_oldest_iff`.
-/

namespace OrderBookRs

variable {i : OrderId}

/-! ### The calls -/

/-- A call that changes the tracker. -/
inductive TrackerCall
  | transition (id : OrderId) (status : OrderStatus)
  | purge (olderThan : ℕ)
  | clear

namespace OrderStateTracker

/-- The tracker after a call. -/
def call (t : OrderStateTracker) : TrackerCall → OrderStateTracker
  | .transition id status => t.transition id status
  | .purge olderThan => (t.purgeTerminalOlderThan olderThan).2
  | .clear => t.clear

/-- The id is on record in a terminal status. -/
def isTerminal (t : OrderStateTracker) (i : OrderId) : Bool := (t.get i).any OrderStatus.isTerminal

variable {t : OrderStateTracker} {i x : OrderId} {st : OrderStatus}

/-! ### What one call does -/

/-- A status is found exactly where a history is. -/
def SameKeys (t : OrderStateTracker) : Prop := ∀ i, i ∈ t.history ↔ i ∈ t.states

theorem SameKeys.remove (h : t.SameKeys) (id : OrderId) : (t.remove id).SameKeys := fun i => by
  simp only [OrderStateTracker.remove, AList.mem_erase, h i]

theorem SameKeys.foldl {f : OrderStateTracker → OrderId → OrderStateTracker}
    (hf : ∀ t i, t.SameKeys → (f t i).SameKeys) (ids : List OrderId) (h : t.SameKeys) :
    (ids.foldl f t).SameKeys := by
  induction ids generalizing t with
  | nil => exact h
  | cons id ids ih => exact ih (hf t id h)

theorem SameKeys.evict (h : t.SameKeys) (id : OrderId) : (t.evict id).SameKeys := by
  rw [OrderStateTracker.evict]
  split_ifs
  · exact h.remove id
  · exact h

theorem SameKeys.transition (h : t.SameKeys) (id : OrderId) (status : OrderStatus) :
    (t.transition id status).SameKeys := by
  have hrecorded : ∀ (queue : List OrderId) (clock : Clock),
      (OrderStateTracker.mk (t.states.insert id status) (t.history.insert id
        ((t.history.lookup id).getD [] ++ [(t.clock.nowMillis, status)])) queue
          t.retentionCapacity clock).SameKeys := fun queue clock i => by
    simp only [AList.mem_insert, h i]
  rw [OrderStateTracker.transition]
  split_ifs
  · exact SameKeys.foldl (fun t i ht => ht.evict i) _ (hrecorded _ _)
  · exact hrecorded _ _

theorem get_foldl_remove (ids : List OrderId) (t : OrderStateTracker) (x : OrderId) :
    (ids.foldl remove t).get x = if x ∈ ids then none else t.get x := by
  induction ids generalizing t with
  | nil => rw [if_neg List.not_mem_nil, List.foldl_nil]
  | cons id ids ih =>
    rw [List.foldl_cons, ih]
    by_cases hx : x = id
    · rw [hx, if_pos List.mem_cons_self, get, OrderStateTracker.remove, AList.lookup_erase,
        ite_self]
    · have hmem : x ∈ ids ↔ x ∈ id :: ids := by rw [List.mem_cons, or_iff_right hx]
      exact if_congr hmem rfl (AList.lookup_erase_ne hx)

theorem foldl_remove_frame (ids : List OrderId) (t : OrderStateTracker) :
    (ids.foldl remove t).terminalQueue = t.terminalQueue ∧
      (ids.foldl remove t).retentionCapacity = t.retentionCapacity := by
  induction ids generalizing t with
  | nil => exact ⟨rfl, rfl⟩
  | cons id ids ih => exact ih (t.remove id)

/-- A purge drops terminal ids and leaves every other id and the queue alone. -/
theorem purge_cases (t : OrderStateTracker) (olderThan : ℕ) (x : OrderId) :
    (t.purgeTerminalOlderThan olderThan).2.get x = t.get x ∨
      (t.purgeTerminalOlderThan olderThan).2.get x = none ∧ t.isTerminal x := by
  rw [purgeTerminalOlderThan]
  show (List.foldl remove t _).get x = t.get x ∨ (List.foldl remove t _).get x = none ∧ _
  rw [get_foldl_remove]
  split_ifs with hx
  · exact Or.inr ⟨rfl, (Bool.and_eq_true_iff.mp (List.mem_filter.mp hx).2).1⟩
  · exact Or.inl rfl

theorem purge_frame (t : OrderStateTracker) (olderThan : ℕ) :
    (t.purgeTerminalOlderThan olderThan).2.terminalQueue = t.terminalQueue ∧
      (t.purgeTerminalOlderThan olderThan).2.retentionCapacity = t.retentionCapacity :=
  foldl_remove_frame _ t

/-- A transition to an active status moves no queue. -/
theorem transition_of_active (hst : st.isTerminal = false) :
    (t.transition i st).terminalQueue = t.terminalQueue ∧
      (t.transition i st).retentionCapacity = t.retentionCapacity ∧
      ∀ x, (t.transition i st).get x = if x = i then some st else t.get x := by
  rw [OrderStateTracker.transition, if_neg (by rw [hst]; exact Bool.false_ne_true)]
  refine ⟨rfl, rfl, fun x => ?_⟩
  rw [get, get]
  split_ifs with hx
  · rw [hx, AList.lookup_insert]
  · exact AList.lookup_insert_ne hx

theorem isTerminal_transition_of_active (hst : st.isTerminal = false) :
    (t.transition i st).isTerminal x ↔ x ≠ i ∧ t.isTerminal x := by
  rw [isTerminal, isTerminal, (transition_of_active hst).2.2]
  split_ifs with hx
  · simp [hx, hst]
  · simp [hx]

/-- After a terminal transition the terminal ids are those before it and its own, without what the
queue pushed out. -/
theorem isTerminal_transition (hst : st.isTerminal = true) :
    (t.transition i st).isTerminal x ↔ (x = i ∨ t.isTerminal x) ∧
      x ∉ overflow t.retentionCapacity (t.terminalQueue ++ [i]) := by
  have hwas : (if x = i then some st else t.get x).any OrderStatus.isTerminal ↔
      x = i ∨ t.isTerminal x := by
    split_ifs with hx
    · simp [hx, hst]
    · simp [hx, isTerminal]
  rw [isTerminal, get_transition hst, ← hwas]
  generalize (if x = i then some st else t.get x) = was
  split_ifs with h
  · exact iff_of_false (by simp) fun h' => h'.2 h.1
  · exact ⟨fun h' => ⟨h', fun hx => h ⟨hx, h'⟩⟩, fun h' => h'.1⟩

/-! ### The bound -/

/-- Every terminal order on record has an entry in the queue, which is within its capacity, and a
status is found exactly where a history is. -/
structure Tidy (t : OrderStateTracker) : Prop where
  queued : ∀ {i}, t.isTerminal i → i ∈ t.terminalQueue
  bounded : t.terminalQueue.length ≤ t.retentionCapacity
  keys : t.SameKeys

theorem Tidy.transition (h : t.Tidy) (id : OrderId) (status : OrderStatus) :
    (t.transition id status).Tidy := by
  cases hst : status.isTerminal with
  | false =>
    obtain ⟨hqueue, hcapacity, -⟩ := transition_of_active (t := t) (i := id) hst
    refine ⟨fun {x} hx => ?_, ?_, h.keys.transition id status⟩
    · rw [hqueue]
      exact h.queued ((isTerminal_transition_of_active hst).mp hx).2
    · rw [hqueue, hcapacity]
      exact h.bounded
  | true =>
    obtain ⟨hqueue, hcapacity⟩ := transition_frame (t := t) (i := id) hst
    refine ⟨fun {x} hx => ?_, ?_, h.keys.transition id status⟩
    · -- what was queued and not pushed out is still queued
      obtain ⟨hwas, hpushed⟩ := (isTerminal_transition hst).mp hx
      have hmem : x ∈ t.terminalQueue ++ [id] := by
        rcases hwas with rfl | hwas
        · exact List.mem_append_right _ List.mem_cons_self
        · exact List.mem_append_left _ (h.queued hwas)
      rw [← List.take_append_drop ((t.terminalQueue ++ [id]).length - t.retentionCapacity)
        (t.terminalQueue ++ [id])] at hmem
      rw [hqueue]
      exact (List.mem_append.mp hmem).resolve_left hpushed
    · rw [hqueue, hcapacity, length_kept]
      exact Nat.min_le_right ..

theorem Tidy.purge (h : t.Tidy) (olderThan : ℕ) : (t.purgeTerminalOlderThan olderThan).2.Tidy := by
  obtain ⟨hqueue, hcapacity⟩ := t.purge_frame olderThan
  refine ⟨fun {x} hx => ?_, by rw [hqueue, hcapacity]; exact h.bounded, ?_⟩
  · rw [hqueue]
    rcases t.purge_cases olderThan x with hget | ⟨hget, hterminal⟩
    · rw [isTerminal, hget] at hx
      exact h.queued hx
    · exact h.queued hterminal
  · exact SameKeys.foldl (fun t i ht => ht.remove i) _ h.keys

theorem Tidy.call (h : t.Tidy) (c : TrackerCall) : (t.call c).Tidy := by
  cases c with
  | transition id status => exact h.transition id status
  | purge olderThan => exact h.purge olderThan
  | clear => exact ⟨fun hx => (by cases hx), Nat.zero_le _, fun _ => Iff.rfl⟩

theorem retentionCapacity_call (t : OrderStateTracker) (c : TrackerCall) :
    (t.call c).retentionCapacity = t.retentionCapacity := by
  cases c with
  | transition id status =>
    cases hst : status.isTerminal with
    | false => exact (transition_of_active hst).2.1
    | true => exact (transition_frame hst).2
  | purge olderThan => exact (t.purge_frame olderThan).2
  | clear => rfl

/-- **Every run of calls** keeps the tracker tidy and its capacity. -/
theorem Tidy.run (h : t.Tidy) (calls : List TrackerCall) :
    (calls.foldl OrderStateTracker.call t).Tidy ∧
      (calls.foldl OrderStateTracker.call t).retentionCapacity = t.retentionCapacity := by
  induction calls generalizing t with
  | nil => exact ⟨h, rfl⟩
  | cons c calls ih =>
    obtain ⟨htidy, hcapacity⟩ := ih (h.call c)
    exact ⟨htidy, hcapacity.trans (t.retentionCapacity_call c)⟩

theorem tidy_withCapacityAndClock (retentionCapacity : ℕ) (clock : Clock) :
    (withCapacityAndClock retentionCapacity clock).Tidy :=
  ⟨fun hi => (by cases hi), Nat.zero_le _, fun _ => Iff.rfl⟩

theorem Tidy.terminalCount_le (h : t.Tidy) : t.terminalCount ≤ t.retentionCapacity := by
  have hnodup : ((t.states.entries.filter fun e => e.2.isTerminal).map Sigma.fst).Nodup :=
    t.states.nodupKeys.sublist List.filter_sublist
  have hqueued : ((t.states.entries.filter fun e => e.2.isTerminal).map Sigma.fst) ⊆
      t.terminalQueue := by
    intro i hi
    obtain ⟨e, he, rfl⟩ := List.mem_map.mp hi
    obtain ⟨hentry, hterminal⟩ := List.mem_filter.mp he
    refine h.queued ?_
    rw [isTerminal, get, AssocMap.mem_entries_iff_lookup.mp hentry]
    exact hterminal
  calc t.terminalCount
      = ((t.states.entries.filter fun e => e.2.isTerminal).map Sigma.fst).length := by
        rw [terminalCount, List.length_map]
    _ ≤ t.terminalQueue.length := (hnodup.subperm hqueued).length_le
    _ ≤ t.retentionCapacity := h.bounded

/-- An id leaves the record in a terminal status only. -/
theorem dropped_terminal {c : TrackerCall} (hc : c ≠ .clear) (hx : t.get x = some st)
    (hgone : (t.call c).get x = none) :
    st.isTerminal ∨ ∃ status, c = .transition x status ∧ status.isTerminal := by
  by_contra hactive
  obtain ⟨hst, hc'⟩ := not_or.mp hactive
  rw [Bool.not_eq_true] at hst
  cases c with
  | transition id status =>
    by_cases hid : x = id
    · subst hid
      have hstatus : status.isTerminal = false :=
        Bool.not_eq_true _ ▸ fun h => hc' ⟨status, rfl, h⟩
      rw [call, get_transition_self hstatus] at hgone
      cases hgone
    · rw [call, get_transition_of_ne hid hx hst] at hgone
      cases hgone
  | purge olderThan =>
    rcases t.purge_cases olderThan x with hget | ⟨-, hterminal⟩
    · rw [call, hget, hx] at hgone
      cases hgone
    · rw [isTerminal, hx] at hterminal
      exact Bool.false_ne_true (hst.symm.trans hterminal)
  | clear => exact hc rfl

end OrderStateTracker

/-- **The tracker is bounded and active orders are safe.** After every sequence of transitions,
purges and clears, the terminal ids on record are at most the retention capacity, a status is on
record exactly where a history is, and no further transition or purge drops an id in an active
status: what it drops was terminal, or has just become so. -/
theorem tracker_bounded_and_safe (retentionCapacity : ℕ) (clock : Clock)
    (calls : List TrackerCall) :
    let t := calls.foldl OrderStateTracker.call
      (OrderStateTracker.withCapacityAndClock retentionCapacity clock)
    t.terminalCount ≤ retentionCapacity ∧ (∀ i, i ∈ t.history ↔ i ∈ t.states) ∧
      ∀ c i st, c ≠ .clear → t.get i = some st → (t.call c).get i = none →
        st.isTerminal ∨ ∃ status, c = .transition i status ∧ status.isTerminal := by
  intro t
  obtain ⟨htidy, hcapacity⟩ :=
    (OrderStateTracker.tidy_withCapacityAndClock retentionCapacity clock).run calls
  exact ⟨htidy.terminalCount_le.trans_eq hcapacity, htidy.keys,
    fun c i st hc hi hgone => OrderStateTracker.dropped_terminal hc hi hgone⟩

/-- The third terminal order pushes the first out; the second is active and stays. -/
theorem oneRetained_bounded_and_safe :
    let t := [TrackerCall.transition 1 (.cancelled 0 .userRequested), .transition 2 .open].foldl
      OrderStateTracker.call (.withCapacityAndClock 1 ⟨fun n => n, 0⟩)
    t.terminalCount ≤ 1 ∧ (t.call (.transition 3 (.filled 5))).get 2 = some .open ∧
      ((OrderStatus.cancelled 0 .userRequested).isTerminal ∨
        ∃ status, TrackerCall.transition 3 (.filled 5) = .transition 1 status ∧
          status.isTerminal) := by
  intro t
  obtain ⟨hcount, -, hdropped⟩ := tracker_bounded_and_safe 1 ⟨fun n => n, 0⟩
    [.transition 1 (.cancelled 0 .userRequested), .transition 2 .open]
  exact ⟨hcount, rfl, hdropped (.transition 3 (.filled 5)) 1 _ nofun rfl rfl⟩

/-! ### Which terminal orders are kept -/

namespace OrderStateTracker

section Queue

variable {α : Type} {c : ℕ} {l w : List α}

theorem overflow_append_kept (c : ℕ) (l : List α) : overflow c l ++ kept c l = l :=
  List.take_append_drop ..

theorem kept_of_length_le (h : l.length ≤ c) : kept c l = l := by
  rw [kept, Nat.sub_eq_zero_of_le h, List.drop_zero]

/-- The last entries are kept, whatever comes before them. -/
theorem kept_append_of_le (h : c ≤ w.length) : kept c (l ++ w) = kept c w := by
  rw [kept, kept, List.length_append, Nat.add_sub_assoc h]
  exact List.drop_length_add_append ..

/-- Nothing but what is kept is left without what is pushed out. -/
theorem filter_overflow_sublist [DecidableEq α] (c : ℕ) (l : List α) :
    (l.filter fun x => x ∉ overflow c l).Sublist (kept c l) := by
  have hsplit : ∀ u v : List α, ((u ++ v).filter fun x => x ∉ u).Sublist v := fun u v => by
    have hnone : (u.filter fun x => x ∉ u) = [] :=
      List.filter_eq_nil_iff.mpr fun x hx => by simpa using hx
    rw [List.filter_append, hnone, List.nil_append]
    exact List.filter_sublist
  have h := hsplit (overflow c l) (kept c l)
  rwa [overflow_append_kept] at h

/-- Of different entries, those not pushed out are kept. -/
theorem mem_kept_iff (h : l.Nodup) {x : α} : x ∈ kept c l ↔ x ∈ l ∧ x ∉ overflow c l := by
  have hdisjoint : ∀ u v : List α, (u ++ v).Nodup → (x ∈ v ↔ x ∈ u ++ v ∧ x ∉ u) := by
    intro u v hnodup
    rw [List.mem_append]
    refine ⟨fun hx => ⟨Or.inr hx, fun hu => ?_⟩, fun hx => hx.1.resolve_left hx.2⟩
    exact (List.nodup_append.mp hnodup).2.2 x hu x hx rfl
  have h' := hdisjoint (overflow c l) (kept c l) ((overflow_append_kept c l).symm ▸ h)
  rwa [overflow_append_kept] at h'

end Queue

end OrderStateTracker

open OrderStateTracker

/-- A tracker, and the ids whose last transition was terminal in the order of these transitions. -/
structure TerminalRecord where
  tracker : OrderStateTracker
  order : List OrderId

namespace TerminalRecord

/-- The order after a transition. -/
def touch (order : List OrderId) (a : OrderId × OrderStatus) : List OrderId :=
  (order.filter fun i => i ≠ a.1) ++ if a.2.isTerminal then [a.1] else []

/-- Both after a transition. -/
def record (s : TerminalRecord) (a : OrderId × OrderStatus) : TerminalRecord :=
  ⟨s.tracker.transition a.1 a.2, touch s.order a⟩

/-- The terminal orders on record are the most recent ones, as many as the capacity allows. -/
def Exact (s : TerminalRecord) : Prop :=
  ∀ i, s.tracker.isTerminal i ↔ i ∈ kept s.tracker.retentionCapacity s.order

/-- What a transition needs to leave the right orders on record. A terminal order becomes active
only while none has been dropped. A terminal transition pushes out no terminal order, or else the
queue and the id are as many different terminal orders. -/
def EvictsOldest (s : TerminalRecord) (a : OrderId × OrderStatus) : Prop :=
  if a.2.isTerminal then
    ∀ x ∈ overflow s.tracker.retentionCapacity (s.tracker.terminalQueue ++ [a.1]),
      x = a.1 ∨ s.tracker.isTerminal x →
        (s.tracker.terminalQueue ++ [a.1]).Nodup ∧
          ∀ y ∈ s.tracker.terminalQueue, s.tracker.isTerminal y
  else s.tracker.isTerminal a.1 → s.order.length ≤ s.tracker.retentionCapacity

/-- What holds in every run: the terminal orders on record are in the order, and in the queue in
that order. -/
structure Ordered (s : TerminalRecord) : Prop where
  tidy : s.tracker.Tidy
  nodup : s.order.Nodup
  listed : ∀ {i}, s.tracker.isTerminal i → i ∈ s.order
  queued : (s.order.filter s.tracker.isTerminal).Sublist s.tracker.terminalQueue

variable {s : TerminalRecord} {a : OrderId × OrderStatus} {order : List OrderId} {x : OrderId}

theorem nodup_touch (h : order.Nodup) : (touch order a).Nodup := by
  rw [touch]
  split_ifs
  · refine List.nodup_append.mpr ⟨h.filter _, List.nodup_singleton _, fun x hx y hy => ?_⟩
    rw [List.mem_singleton.mp hy]
    exact of_decide_eq_true (List.mem_filter.mp hx).2
  · rw [List.append_nil]
    exact h.filter _

theorem mem_touch : i ∈ touch order a ↔ i ∈ order ∧ i ≠ a.1 ∨ i = a.1 ∧ a.2.isTerminal := by
  rw [touch, List.mem_append, List.mem_filter, decide_eq_true_eq]
  refine or_congr_right ?_
  split_ifs with hst
  · simp [hst]
  · simp [hst]

/-- On an exact record the terminal orders are the kept part of the order. -/
theorem Exact.filter_eq (h : s.Exact) (hordered : s.Ordered) :
    s.order.filter s.tracker.isTerminal = kept s.tracker.retentionCapacity s.order := by
  have hnodup := hordered.nodup
  rw [← overflow_append_kept s.tracker.retentionCapacity s.order] at hnodup
  obtain ⟨-, -, hdisjoint⟩ := List.nodup_append.mp hnodup
  calc s.order.filter s.tracker.isTerminal
      = (overflow s.tracker.retentionCapacity s.order ++
          kept s.tracker.retentionCapacity s.order).filter s.tracker.isTerminal := by
        rw [overflow_append_kept]
    _ = [] ++ kept s.tracker.retentionCapacity s.order := by
        rw [List.filter_append, List.filter_eq_self.mpr fun x hx => (h x).mpr hx,
          List.filter_eq_nil_iff.mpr fun x hx hterminal =>
            hdisjoint x hx x ((h x).mp hterminal) rfl]
    _ = kept s.tracker.retentionCapacity s.order := List.nil_append _

theorem Ordered.listed_record (h : s.Ordered) (hx : (s.record a).tracker.isTerminal x) :
    x ∈ touch s.order a := by
  refine mem_touch.mpr ?_
  by_cases hst : a.2.isTerminal = true
  · by_cases hxa : x = a.1
    · exact Or.inr ⟨hxa, hst⟩
    · obtain ⟨hwas, -⟩ := (isTerminal_transition hst).mp hx
      exact Or.inl ⟨h.listed (hwas.resolve_left hxa), hxa⟩
  · obtain ⟨hne, hwas⟩ := (isTerminal_transition_of_active (Bool.not_eq_true _ ▸ hst)).mp hx
    exact Or.inl ⟨h.listed hwas, hne⟩

/-- The terminal orders on record other than one. -/
theorem filter_order_filter (s : TerminalRecord) (i : OrderId) :
    (s.order.filter fun x => x ≠ i).filter s.tracker.isTerminal =
      (s.order.filter s.tracker.isTerminal).filter fun x => x ≠ i := by
  rw [List.filter_filter, List.filter_filter]
  exact List.filter_congr fun x _ => Bool.and_comm ..

theorem order_record_active (s : TerminalRecord) (hst : a.2.isTerminal = false) :
    (s.record a).order = s.order.filter fun x => x ≠ a.1 := by
  rw [record, touch, hst, if_neg Bool.false_ne_true, List.append_nil]

theorem order_record_terminal (s : TerminalRecord) (hst : a.2.isTerminal = true) :
    (s.record a).order = (s.order.filter fun x => x ≠ a.1) ++ [a.1] := by
  rw [record, touch, if_pos hst]

/-- The terminal orders after a transition to an active status, in their order. -/
theorem filter_record_active (s : TerminalRecord) (hst : a.2.isTerminal = false) :
    (s.record a).order.filter (s.record a).tracker.isTerminal =
      (s.order.filter s.tracker.isTerminal).filter fun x => x ≠ a.1 := by
  have hterminal : ∀ x, (s.record a).tracker.isTerminal x =
      (s.tracker.isTerminal x && decide (x ≠ a.1)) := fun x => by
    rw [Bool.eq_iff_iff, record, isTerminal_transition_of_active hst, Bool.and_eq_true,
      decide_eq_true_eq, and_comm]
  rw [order_record_active s hst, funext hterminal, ← filter_order_filter, List.filter_filter,
    List.filter_filter]
  refine List.filter_congr fun x _ => ?_
  rw [Bool.and_assoc, Bool.and_self]

/-- The terminal orders after a terminal transition, in their order. -/
theorem filter_record_terminal (s : TerminalRecord) (hst : a.2.isTerminal = true) :
    (s.record a).order.filter (s.record a).tracker.isTerminal =
      (((s.order.filter s.tracker.isTerminal).filter fun x => x ≠ a.1) ++ [a.1]).filter fun x =>
        x ∉ overflow s.tracker.retentionCapacity (s.tracker.terminalQueue ++ [a.1]) := by
  have hterminal : ∀ x, (s.record a).tracker.isTerminal x =
      (decide (x ∉ overflow s.tracker.retentionCapacity (s.tracker.terminalQueue ++ [a.1])) &&
        (decide (x = a.1) || s.tracker.isTerminal x)) := fun x => by
    rw [Bool.eq_iff_iff, record, isTerminal_transition hst, Bool.and_eq_true, Bool.or_eq_true,
      decide_eq_true_eq, decide_eq_true_eq, and_comm]
  rw [order_record_terminal s hst, funext hterminal, ← List.filter_filter, List.filter_append,
    ← filter_order_filter]
  congr 2
  · refine List.filter_congr fun x hx => ?_
    rw [decide_eq_false (of_decide_eq_true (List.mem_filter.mp hx).2), Bool.false_or]
  · rw [List.filter_singleton, decide_eq_true rfl, Bool.true_or, cond_true]

theorem Ordered.queued_record (h : s.Ordered) :
    ((s.record a).order.filter (s.record a).tracker.isTerminal).Sublist
      (s.record a).tracker.terminalQueue := by
  cases hst : a.2.isTerminal with
  | false =>
    rw [filter_record_active s hst, record, (transition_of_active hst).1]
    exact List.filter_sublist.trans h.queued
  | true =>
    rw [filter_record_terminal s hst, record, (transition_frame hst).1]
    have hpushed := (((List.filter_sublist (p := fun x => decide (x ≠ a.1))).trans
      h.queued).append_right [a.1]).filter fun x =>
        decide (x ∉ overflow s.tracker.retentionCapacity (s.tracker.terminalQueue ++ [a.1]))
    exact hpushed.trans (filter_overflow_sublist ..)

theorem Ordered.record (h : s.Ordered) : (s.record a).Ordered :=
  ⟨h.tidy.transition a.1 a.2, nodup_touch h.nodup, h.listed_record, h.queued_record⟩

theorem length_filter_ne_lt {l : List OrderId} (h : i ∈ l) :
    (l.filter fun x => x ≠ i).length < l.length :=
  List.length_filter_lt_length_iff_exists.mpr ⟨i, h, by simp⟩

/-- The order without an id is shorter by one at most. -/
theorem Ordered.length_filter_ne (h : s.Ordered) (i : OrderId) :
    s.order.length ≤ (s.order.filter fun x => x ≠ i).length + 1 := by
  have hne : (fun x => decide (x ≠ i)) = fun x => x != i := by
    funext x
    rw [Bool.eq_iff_iff, decide_eq_true_eq, bne_iff_ne]
  rw [hne, ← h.nodup.erase_eq_filter, List.length_erase]
  split_ifs <;> omega

theorem retentionCapacity_record (s : TerminalRecord) (a : OrderId × OrderStatus) :
    (s.record a).tracker.retentionCapacity = s.tracker.retentionCapacity :=
  s.tracker.retentionCapacity_call (.transition a.1 a.2)

/-- **Without the id of a dropped order or of none**, the order keeps what it kept. -/
theorem Exact.kept_filter (h : s.Exact) (hordered : s.Ordered)
    (hi : s.tracker.isTerminal i → s.order.length ≤ s.tracker.retentionCapacity) :
    kept s.tracker.retentionCapacity (s.order.filter fun x => x ≠ i) =
      (s.order.filter s.tracker.isTerminal).filter fun x => x ≠ i := by
  rw [h.filter_eq hordered]
  by_cases hlen : s.order.length ≤ s.tracker.retentionCapacity
  · rw [kept_of_length_le ((List.length_filter_le ..).trans hlen), kept_of_length_le hlen]
  · -- all places are taken by orders other than this one
    have hfull : s.tracker.retentionCapacity ≤
        (kept s.tracker.retentionCapacity s.order).length := by
      rw [length_kept]
      omega
    have hkeeps : (kept s.tracker.retentionCapacity s.order).filter (fun x => x ≠ i) =
        kept s.tracker.retentionCapacity s.order :=
      List.filter_eq_self.mpr fun x hx => decide_eq_true fun hxi =>
        hlen (hi ((h i).mpr (hxi ▸ hx)))
    rw [hkeeps]
    conv_lhs => rw [← overflow_append_kept s.tracker.retentionCapacity s.order]
    rw [List.filter_append, hkeeps, kept_append_of_le hfull, kept_of_length_le]
    rw [length_kept]
    exact Nat.min_le_right ..

/-- **A terminal order that becomes active** leaves a gap, which only a dropped order could fill. -/
theorem Exact.record_active (h : s.Exact) (hordered : s.Ordered) (hst : a.2.isTerminal = false) :
    (s.record a).Exact ↔ s.EvictsOldest a := by
  rw [EvictsOldest, hst, if_neg Bool.false_ne_true]
  constructor
  · intro hexact hterminal
    by_contra hlen
    have heq := congrArg List.length (hexact.filter_eq hordered.record)
    rw [filter_record_active s hst, h.filter_eq hordered, length_kept, retentionCapacity_record,
      order_record_active s hst] at heq
    have hgap := length_filter_ne_lt ((h a.1).mp hterminal)
    rw [length_kept] at hgap
    have hone := hordered.length_filter_ne a.1
    omega
  · intro hroom x
    rw [retentionCapacity_record, order_record_active s hst, h.kept_filter hordered hroom,
      List.mem_filter, decide_eq_true_eq, h.filter_eq hordered, ← h x, record,
      isTerminal_transition_of_active hst, and_comm]

/-- The queue is full of terminal orders once they are as many as its capacity. -/
theorem Exact.queue_eq (h : s.Exact) (hordered : s.Ordered)
    (hlen : s.tracker.retentionCapacity ≤ s.order.length) :
    s.order.filter s.tracker.isTerminal = s.tracker.terminalQueue := by
  refine hordered.queued.eq_of_length_le ?_
  rw [h.filter_eq hordered, length_kept, Nat.min_eq_right hlen]
  exact hordered.tidy.bounded

/-- **A terminal transition that pushes out no terminal order** has had room for one more. -/
theorem Exact.room (h : s.Exact) (hordered : s.Ordered)
    (hnone : ∀ x ∈ overflow s.tracker.retentionCapacity (s.tracker.terminalQueue ++ [i]),
      ¬(x = i ∨ s.tracker.isTerminal x)) :
    (s.order.filter fun x => x ≠ i).length < s.tracker.retentionCapacity := by
  by_contra hfull
  have hlen : s.tracker.retentionCapacity ≤ s.order.length :=
    (not_lt.mp hfull).trans (List.length_filter_le ..)
  have hqueue := h.queue_eq hordered hlen
  have hcapacity : s.tracker.terminalQueue.length = s.tracker.retentionCapacity := by
    rw [← hqueue, h.filter_eq hordered, length_kept, Nat.min_eq_right hlen]
  -- so the first entry is pushed out, and every entry is terminal
  obtain ⟨x, rest, hx⟩ := List.exists_cons_of_ne_nil
    (List.append_ne_nil_of_right_ne_nil s.tracker.terminalQueue (List.cons_ne_nil i []))
  have hover : x ∈ overflow s.tracker.retentionCapacity (s.tracker.terminalQueue ++ [i]) := by
    rw [overflow, List.length_append, hcapacity, List.length_singleton, Nat.add_sub_cancel_left, hx]
    exact List.mem_cons_self
  refine hnone x hover ?_
  have hmem : x ∈ s.tracker.terminalQueue ++ [i] := hx ▸ List.mem_cons_self
  rw [← hqueue] at hmem
  rcases List.mem_append.mp hmem with hmem | hmem
  · exact Or.inr (List.mem_filter.mp hmem).2
  · exact Or.inl (List.mem_singleton.mp hmem)

/-- **A terminal transition that pushes out a terminal order** drops one order. For the others to be
the right ones the queue has held that many others. -/
theorem Exact.queue_full (h : s.Exact) (hordered : s.Ordered) (hst : a.2.isTerminal = true)
    (hexact : (s.record a).Exact)
    (hx : x ∈ overflow s.tracker.retentionCapacity (s.tracker.terminalQueue ++ [a.1]))
    (hterminal : x = a.1 ∨ s.tracker.isTerminal x) :
    ¬ s.tracker.isTerminal a.1 ∧ s.tracker.retentionCapacity ≤ s.order.length := by
  -- one of the orders that were terminal is gone
  have hlost : ((s.record a).order.filter (s.record a).tracker.isTerminal).length <
      (((s.order.filter s.tracker.isTerminal).filter fun x => x ≠ a.1) ++ [a.1]).length := by
    rw [filter_record_terminal s hst]
    refine List.length_filter_lt_length_iff_exists.mpr ⟨x, ?_, by simpa using hx⟩
    by_cases hxa : x = a.1
    · exact List.mem_append_right _ (hxa ▸ List.mem_cons_self)
    · have hwas := hterminal.resolve_left hxa
      exact List.mem_append_left _ (List.mem_filter.mpr
        ⟨List.mem_filter.mpr ⟨hordered.listed hwas, hwas⟩, decide_eq_true hxa⟩)
  rw [hexact.filter_eq hordered.record, length_kept, retentionCapacity_record,
    order_record_terminal s hst, List.length_append, List.length_append, h.filter_eq hordered,
    List.length_singleton] at hlost
  have hone := hordered.length_filter_ne a.1
  have hkept := length_kept s.tracker.retentionCapacity s.order
  have hle := List.length_filter_le (fun x => decide (x ≠ a.1))
    (kept s.tracker.retentionCapacity s.order)
  refine ⟨fun hi => ?_, ?_⟩
  · have hgap := length_filter_ne_lt ((h a.1).mp hi)
    omega
  · by_contra hlen
    -- the id would have to be among the orders on record
    have hall : kept s.tracker.retentionCapacity s.order = s.order :=
      kept_of_length_le (not_le.mp hlen).le
    rw [hall] at hlost hle
    omega

theorem Exact.record_room (h : s.Exact) (hordered : s.Ordered) (hst : a.2.isTerminal = true)
    (hnone : ∀ x ∈ overflow s.tracker.retentionCapacity (s.tracker.terminalQueue ++ [a.1]),
      ¬(x = a.1 ∨ s.tracker.isTerminal x)) :
    (s.record a).Exact := by
  have hroom := h.room hordered hnone
  have hone := hordered.length_filter_ne a.1
  have hkept : kept s.tracker.retentionCapacity s.order = s.order := kept_of_length_le (by omega)
  intro x
  rw [retentionCapacity_record, order_record_terminal s hst, kept_of_length_le (by
    rw [List.length_append, List.length_singleton]; omega), List.mem_append, List.mem_filter,
    List.mem_singleton, decide_eq_true_eq, record, isTerminal_transition hst, h x, hkept]
  constructor
  · rintro ⟨hx | hx, -⟩
    · exact Or.inr hx
    · exact or_iff_not_imp_right.mpr fun hne => ⟨hx, hne⟩
  · intro hx
    have hwas : x = a.1 ∨ s.tracker.isTerminal x := by
      rw [h x, hkept]
      exact hx.elim (fun hx => Or.inr hx.1) Or.inl
    exact ⟨hx.elim (fun hx => Or.inr hx.1) Or.inl, fun hout => hnone x hout hwas⟩

theorem Exact.record_full (h : s.Exact) (hordered : s.Ordered) (hst : a.2.isTerminal = true)
    (hnodup : (s.tracker.terminalQueue ++ [a.1]).Nodup)
    (hall : ∀ y ∈ s.tracker.terminalQueue, s.tracker.isTerminal y) : (s.record a).Exact := by
  have hqueue : s.order.filter s.tracker.isTerminal = s.tracker.terminalQueue := by
    refine hordered.queued.eq_of_length_le ?_
    refine (hnodup.of_append_left.subperm fun y hy => ?_).length_le
    exact List.mem_filter.mpr ⟨hordered.listed (hall y hy), hall y hy⟩
  have hnew : a.1 ∉ s.tracker.terminalQueue := fun hi =>
    (List.nodup_append.mp hnodup).2.2 a.1 hi a.1 List.mem_cons_self rfl
  have hactive : ¬ s.tracker.isTerminal a.1 := fun hi => hnew (hordered.tidy.queued hi)
  have hothers : (s.tracker.terminalQueue.filter fun x => x ≠ a.1) = s.tracker.terminalQueue :=
    List.filter_eq_self.mpr fun x hx => decide_eq_true fun hxa => hnew (hxa ▸ hx)
  intro x
  rw [retentionCapacity_record, order_record_terminal s hst, kept_append,
    h.kept_filter hordered fun hi => absurd hi hactive, hqueue, hothers, mem_kept_iff hnodup,
    List.mem_append, List.mem_singleton, record, isTerminal_transition hst, or_comm]
  refine and_congr_left' (or_congr_left ?_)
  exact ⟨hordered.tidy.queued, hall x⟩

theorem Exact.record_terminal (h : s.Exact) (hordered : s.Ordered) (hst : a.2.isTerminal = true) :
    (s.record a).Exact ↔ s.EvictsOldest a := by
  rw [EvictsOldest, if_pos hst]
  constructor
  · intro hexact x hx hterminal
    obtain ⟨hi, hlen⟩ := h.queue_full hordered hst hexact hx hterminal
    rw [← h.queue_eq hordered hlen]
    refine ⟨?_, fun y hy => (List.mem_filter.mp hy).2⟩
    refine List.nodup_append.mpr ⟨hordered.nodup.filter _, List.nodup_singleton _, ?_⟩
    intro y hy z hz hyz
    rw [hyz, List.mem_singleton.mp hz] at hy
    exact hi (List.mem_filter.mp hy).2
  · intro hevicts
    by_cases hnone : ∀ x ∈ overflow s.tracker.retentionCapacity (s.tracker.terminalQueue ++ [a.1]),
        ¬(x = a.1 ∨ s.tracker.isTerminal x)
    · exact h.record_room hordered hst hnone
    · push Not at hnone
      obtain ⟨x, hx, hterminal⟩ := hnone
      exact h.record_full hordered hst (hevicts x hx hterminal).1 (hevicts x hx hterminal).2

/-- **One transition** keeps the record exact iff it evicts the oldest. -/
theorem Exact.record_iff (h : s.Exact) (hordered : s.Ordered) :
    (s.record a).Exact ↔ s.EvictsOldest a := by
  cases hst : a.2.isTerminal with
  | false => exact h.record_active hordered hst
  | true => exact h.record_terminal hordered hst

end TerminalRecord

/-- The ids whose last transition is terminal, in the order of these transitions. -/
def lastTerminal (transitions : List (OrderId × OrderStatus)) : List OrderId :=
  transitions.foldl TerminalRecord.touch []

/-- The tracker after a sequence of transitions. -/
def trackerAfter (retentionCapacity : ℕ) (clock : Clock)
    (transitions : List (OrderId × OrderStatus)) : OrderStateTracker :=
  transitions.foldl (fun t a => t.transition a.1 a.2)
    (.withCapacityAndClock retentionCapacity clock)

theorem foldl_record (transitions : List (OrderId × OrderStatus)) (s : TerminalRecord) :
    transitions.foldl TerminalRecord.record s =
      ⟨transitions.foldl (fun t a => t.transition a.1 a.2) s.tracker,
        transitions.foldl TerminalRecord.touch s.order⟩ := by
  induction transitions generalizing s with
  | nil => rfl
  | cons a transitions ih => exact ih (s.record a)

theorem retentionCapacity_trackerAfter (retentionCapacity : ℕ) (clock : Clock)
    (transitions : List (OrderId × OrderStatus)) :
    (trackerAfter retentionCapacity clock transitions).retentionCapacity = retentionCapacity := by
  rw [trackerAfter]
  generalize ht : withCapacityAndClock retentionCapacity clock = t
  replace ht : t.retentionCapacity = retentionCapacity := ht ▸ rfl
  induction transitions generalizing t with
  | nil => exact ht
  | cons a transitions ih =>
    exact ih _ ((t.retentionCapacity_call (.transition a.1 a.2)).trans ht)

/-- **The tracker keeps the most recent terminal orders** throughout a sequence of transitions
exactly when each of them evicts the oldest. -/
theorem tracker_evicts_oldest_iff (retentionCapacity : ℕ) (clock : Clock)
    (transitions : List (OrderId × OrderStatus)) :
    (∀ done, done <+: transitions → ∀ i,
        (trackerAfter retentionCapacity clock done).isTerminal i ↔
          i ∈ kept retentionCapacity (lastTerminal done)) ↔
      RunMeets TerminalRecord.record TerminalRecord.EvictsOldest
        ⟨.withCapacityAndClock retentionCapacity clock, []⟩ transitions := by
  have hempty : TerminalRecord.Ordered ⟨.withCapacityAndClock retentionCapacity clock, []⟩ :=
    ⟨tidy_withCapacityAndClock .., List.nodup_nil, fun hi => (by cases hi), List.Sublist.refl _⟩
  have hexact : TerminalRecord.Exact ⟨.withCapacityAndClock retentionCapacity clock, []⟩ := fun i =>
    iff_of_false (by intro hi; cases hi) (by rw [kept, List.drop_nil]; exact List.not_mem_nil)
  rw [runMeets_iff_all_states (fun h => h.record) (fun _ hordered h => h.record_iff hordered) hempty
    hexact]
  refine forall₂_congr fun done _ => ?_
  rw [foldl_record]
  refine forall_congr' fun i => ?_
  show _ ↔ (_ ↔ i ∈ kept (trackerAfter retentionCapacity clock done).retentionCapacity _)
  rw [retentionCapacity_trackerAfter]
  rfl

/-- Three terminal orders, the second of which was active before: the first is dropped. -/
theorem threeTerminal_evict_oldest :
    let transitions : List (OrderId × OrderStatus) := [(1, .cancelled 0 .userRequested), (2, .open),
      (2, .filled 5), (3, .cancelled 0 .userRequested)]
    RunMeets TerminalRecord.record TerminalRecord.EvictsOldest
        ⟨.withCapacityAndClock 2 ⟨fun n => n, 0⟩, []⟩ transitions ∧
      ∀ i, (trackerAfter 2 ⟨fun n => n, 0⟩ transitions).isTerminal i ↔
        i ∈ kept 2 (lastTerminal transitions) := by
  intro transitions
  have hmeets : RunMeets TerminalRecord.record TerminalRecord.EvictsOldest
      ⟨.withCapacityAndClock 2 ⟨fun n => n, 0⟩, []⟩ transitions := by
    refine ⟨?_, ?_, ?_, ?_, trivial⟩ <;> rw [TerminalRecord.EvictsOldest] <;> decide
  exact ⟨hmeets, (tracker_evicts_oldest_iff 2 ⟨fun n => n, 0⟩ transitions).mpr hmeets transitions
    (List.prefix_refl _)⟩

/-- An order that is cancelled, active again and cancelled again has two entries in the queue; its
last transition is the most recent of all, and it is the one that is dropped. -/
theorem cancelledTwice_dropped :
    let transitions : List (OrderId × OrderStatus) := [(1, .cancelled 0 .userRequested), (1, .open),
      (2, .filled 5), (1, .cancelled 0 .userRequested)]
    ¬ ∀ i, (trackerAfter 2 ⟨fun n => n, 0⟩ transitions).isTerminal i ↔
      i ∈ kept 2 (lastTerminal transitions) := by
  intro transitions h
  have hkept : 1 ∈ kept 2 (lastTerminal transitions) := by decide
  exact absurd ((h 1).mpr hkept) (by decide)

end OrderBookRs
