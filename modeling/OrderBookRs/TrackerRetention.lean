import OrderBookRs.OrderState

/-!
# How long a tracked status is kept

`OrderStateTracker` keeps the ids that became terminal in a queue and drops the statuses of those
that are pushed out of it. A run of cancels therefore has two effects on an id: its own status is
recorded when its turn comes, and whatever entries of the id are pushed out of the queue after that
drop the status again. Which it is may depend on the order of the run.

## Main definitions

* `OrderStateTracker.cancel`, `OrderStateTracker.cancelAll`: the transition of a cancel, and a run
  of them.
* `OrderStateTracker.pushedOut`: the old entries that a run pushes out.
* `OrderStateTracker.OrderFree`: no order of the run matters.

## Main results

* `OrderStateTracker.get_cancelAll`: the status of an id after a run that cancels it.
* `OrderStateTracker.orderFree_iff`: every order of the run records the same statuses, up to the
  reason, iff the run is `OrderFree`.
-/

namespace OrderBookRs

/-- A status up to the reason of a cancel. -/
def OrderStatus.withoutReason : OrderStatus → OrderStatus
  | .cancelled quantity _ => .cancelled quantity .userRequested
  | status => status

namespace OrderStateTracker

/-! ### A bounded queue -/

section Queue

variable {α : Type} (c : ℕ) (l w : List α)

/-- What a queue of capacity `c` pushes out, oldest first. -/
def overflow : List α := l.take (l.length - c)

/-- What a queue of capacity `c` keeps. -/
def kept : List α := l.drop (l.length - c)

theorem length_kept : (kept c l).length = min l.length c := by
  rw [kept, List.length_drop]
  omega

theorem length_append_sub :
    (l ++ w).length - c = (l.length - c) + ((kept c l ++ w).length - c) := by
  rw [List.length_append, List.length_append, length_kept]
  omega

/-- Pushing more pushes out more, on top of what was pushed out before. -/
theorem overflow_append : overflow c (l ++ w) = overflow c l ++ overflow c (kept c l ++ w) := by
  rw [overflow, length_append_sub, List.take_add, List.take_append_of_le_length (Nat.sub_le ..),
    List.drop_append_of_le_length (Nat.sub_le ..)]
  rfl

theorem kept_append : kept c (l ++ w) = kept c (kept c l ++ w) := by
  rw [kept, length_append_sub, ← List.drop_drop, List.drop_append_of_le_length (Nat.sub_le ..)]
  rfl

end Queue

variable {t : OrderStateTracker} {i x : OrderId} {st : OrderStatus}

/-! ### One terminal transition -/

/-- Evicting ids drops the terminal statuses among them. -/
theorem get_foldl_evict (ids : List OrderId) (t : OrderStateTracker) (x : OrderId) :
    (ids.foldl evict t).get x =
      if x ∈ ids ∧ (t.get x).any OrderStatus.isTerminal then none else t.get x := by
  induction ids generalizing t with
  | nil => rw [if_neg fun h => List.not_mem_nil h.1, List.foldl_nil]
  | cons i ids ih =>
    have hone : (t.evict i).get x =
        if x = i ∧ (t.get x).any OrderStatus.isTerminal then none else t.get x := by
      rw [evict]
      by_cases hterminal : (t.get i).any OrderStatus.isTerminal
      · rw [if_pos hterminal]
        by_cases hx : x = i
        · rw [hx, if_pos ⟨rfl, hterminal⟩]
          exact AList.lookup_erase ..
        · rw [if_neg fun h => hx h.1]
          exact AList.lookup_erase_ne hx
      · rw [if_neg hterminal, if_neg]
        rintro ⟨rfl, h⟩
        exact hterminal h
    rw [List.foldl_cons, ih, hone]
    by_cases h : x = i ∧ (t.get x).any OrderStatus.isTerminal
    · rw [if_pos h, ite_self, if_pos ⟨List.mem_cons.mpr (Or.inl h.1), h.2⟩]
    · rw [if_neg h]
      refine if_congr ⟨fun h' => ⟨List.mem_cons_of_mem i h'.1, h'.2⟩, fun h' => ⟨?_, h'.2⟩⟩ rfl rfl
      exact (List.mem_cons.mp h'.1).resolve_left fun hx => h ⟨hx, h'.2⟩

theorem foldl_evict_frame (ids : List OrderId) (t : OrderStateTracker) :
    (ids.foldl evict t).terminalQueue = t.terminalQueue ∧
      (ids.foldl evict t).retentionCapacity = t.retentionCapacity := by
  induction ids generalizing t with
  | nil => exact ⟨rfl, rfl⟩
  | cons i ids ih =>
    obtain ⟨hqueue, hcapacity⟩ := ih (t.evict i)
    rw [List.foldl_cons, hqueue, hcapacity, evict]
    split_ifs
    · exact ⟨rfl, rfl⟩
    · exact ⟨rfl, rfl⟩

/-- A terminal transition records the status and drops what it pushes out. -/
theorem get_transition (hst : st.isTerminal = true) :
    (t.transition i st).get x =
      if x ∈ overflow t.retentionCapacity (t.terminalQueue ++ [i]) ∧
          (if x = i then some st else t.get x).any OrderStatus.isTerminal then none
      else if x = i then some st else t.get x := by
  have hget : ∀ (queue : List OrderId) (history : AssocMap OrderId (List (ℕ × OrderStatus)))
      (clock : Clock), (OrderStateTracker.mk (t.states.insert i st) history queue
        t.retentionCapacity clock).get x = if x = i then some st else t.get x := by
    intro queue history clock
    rw [get, get]
    split_ifs with hx
    · rw [hx, AList.lookup_insert]
    · exact AList.lookup_insert_ne hx
  rw [transition, if_pos hst, enqueueTerminal]
  rw [get_foldl_evict, hget]
  rfl

theorem transition_frame (hst : st.isTerminal = true) :
    (t.transition i st).terminalQueue =
        kept t.retentionCapacity (t.terminalQueue ++ [i]) ∧
      (t.transition i st).retentionCapacity = t.retentionCapacity := by
  rw [transition, if_pos hst, enqueueTerminal]
  obtain ⟨hqueue, hcapacity⟩ := foldl_evict_frame _ _
  rw [hqueue, hcapacity]
  exact ⟨rfl, rfl⟩

/-! ### Runs of cancels -/

/-- The status a cancel records: the executed quantity on record is carried over. -/
def cancelStatus (t : OrderStateTracker) (reason : CancelReason) (i : OrderId) : OrderStatus :=
  .cancelled (((t.get i).map OrderStatus.filledQuantity).getD 0) reason

/-- The transition of a cancel. -/
def cancel (reason : CancelReason) (t : OrderStateTracker) (i : OrderId) : OrderStateTracker :=
  t.transition i (t.cancelStatus reason i)

/-- Cancels in a row. -/
def cancelAll (reason : CancelReason) (ids : List OrderId) (t : OrderStateTracker) :
    OrderStateTracker := ids.foldl (cancel reason) t

variable {reason : CancelReason} {u v ids : List OrderId}

theorem cancelAll_append :
    cancelAll reason (u ++ v) t = cancelAll reason v (cancelAll reason u t) :=
  List.foldl_append

/-- An id that the rest of a run does not cancel loses its status to the queue only. -/
theorem get_cancelAll_transition (hst : st.isTerminal = true) (hx : x ∉ v) :
    (cancelAll reason v (t.transition i st)).get x =
      if x ∈ overflow t.retentionCapacity (t.terminalQueue ++ i :: v) ∧
          (if x = i then some st else t.get x).any OrderStatus.isTerminal then none
      else if x = i then some st else t.get x := by
  induction v generalizing t i st with
  | nil => exact get_transition hst
  | cons j v ih =>
    obtain ⟨hxj, hxv⟩ := not_or.mp (List.mem_cons.not.mp hx)
    obtain ⟨hqueue, hcapacity⟩ := transition_frame (t := t) (i := i) hst
    have hstep : cancelAll reason (j :: v) (t.transition i st) = cancelAll reason v
        ((t.transition i st).transition j ((t.transition i st).cancelStatus reason j)) := rfl
    have hsplit : t.terminalQueue ++ i :: j :: v = (t.terminalQueue ++ [i]) ++ j :: v := by simp
    rw [hstep, ih rfl hxv, if_neg hxj, hqueue, hcapacity, get_transition hst, hsplit,
      overflow_append _ (t.terminalQueue ++ [i])]
    simp only [List.mem_append]
    generalize (if x = i then some st else t.get x) = found
    by_cases hfirst : x ∈ overflow t.retentionCapacity (t.terminalQueue ++ [i]) ∧
        found.any OrderStatus.isTerminal
    · rw [if_pos hfirst, ite_self, if_pos ⟨Or.inl hfirst.1, hfirst.2⟩]
    · rw [if_neg hfirst]
      refine if_congr ⟨fun h => ⟨Or.inr h.1, h.2⟩, fun h => ⟨?_, h.2⟩⟩ rfl rfl
      exact h.1.resolve_left fun hmem => hfirst ⟨hmem, h.2⟩

theorem cancelAll_frame (hst : st.isTerminal = true) :
    (cancelAll reason v (t.transition i st)).terminalQueue =
        kept t.retentionCapacity (t.terminalQueue ++ i :: v) ∧
      (cancelAll reason v (t.transition i st)).retentionCapacity = t.retentionCapacity := by
  induction v generalizing t i st with
  | nil => exact transition_frame hst
  | cons j v ih =>
    obtain ⟨hqueue, hcapacity⟩ := transition_frame (t := t) (i := i) hst
    have hstep : cancelAll reason (j :: v) (t.transition i st) = cancelAll reason v
        ((t.transition i st).transition j ((t.transition i st).cancelStatus reason j)) := rfl
    have hsplit : t.terminalQueue ++ i :: j :: v = (t.terminalQueue ++ [i]) ++ j :: v := by simp
    have hterminal : ((t.transition i st).cancelStatus reason j).isTerminal = true := rfl
    obtain ⟨hqueue', hcapacity'⟩ := ih hterminal
    rw [hstep, hqueue', hcapacity', hqueue, hcapacity, hsplit,
      kept_append _ (t.terminalQueue ++ [i])]
    exact ⟨rfl, rfl⟩

/-- **The status after a run that cancels the id**: the one recorded in its turn, unless an entry of
the id is pushed out of the queue then or later. -/
theorem get_cancelAll (hx : x ∉ v) :
    (cancelAll reason (u ++ x :: v) t).get x =
      if x ∈ overflow (cancelAll reason u t).retentionCapacity
          ((cancelAll reason u t).terminalQueue ++ x :: v) then none
      else some ((cancelAll reason u t).cancelStatus reason x) := by
  have hterminal : ((cancelAll reason u t).cancelStatus reason x).isTerminal = true := rfl
  rw [cancelAll_append]
  refine (get_cancelAll_transition hterminal hx).trans ?_
  simp only [if_true, Option.any_some, hterminal, and_true]

/-- **The status after a run that does not cancel the id.** -/
theorem get_cancelAll_of_notMem (hx : x ∉ ids) (hne : ids ≠ []) :
    (cancelAll reason ids t).get x =
      if x ∈ overflow t.retentionCapacity (t.terminalQueue ++ ids) ∧
          (t.get x).any OrderStatus.isTerminal then none
      else t.get x := by
  obtain ⟨i, v, rfl⟩ := List.exists_cons_of_ne_nil hne
  obtain ⟨hxi, hxv⟩ := not_or.mp (List.mem_cons.not.mp hx)
  have hterminal : (t.cancelStatus reason i).isTerminal = true := rfl
  refine (get_cancelAll_transition hterminal hxv).trans ?_
  rw [if_neg hxi]

/-- The queue after a run. -/
theorem queue_cancelAll (hne : ids ≠ []) :
    (cancelAll reason ids t).terminalQueue = kept t.retentionCapacity (t.terminalQueue ++ ids) := by
  obtain ⟨i, v, rfl⟩ := List.exists_cons_of_ne_nil hne
  have hterminal : (t.cancelStatus reason i).isTerminal = true := rfl
  exact (cancelAll_frame hterminal).1

theorem capacity_cancelAll :
    (cancelAll reason ids t).retentionCapacity = t.retentionCapacity := by
  cases ids with
  | nil => rfl
  | cons i v =>
    have hterminal : (t.cancelStatus reason i).isTerminal = true := rfl
    exact (cancelAll_frame hterminal).2

/-! ### The order of a run -/

/-- The old entries that `n` more pushes push out. -/
def pushedOut (t : OrderStateTracker) (n : ℕ) : List OrderId :=
  t.terminalQueue.take (t.terminalQueue.length + n - t.retentionCapacity)

/-- Nothing is retained, or all of the run is, and an id of the run whose old entry is pushed out is
the last to be. -/
def OrderFree (t : OrderStateTracker) (ids : List OrderId) : Prop :=
  ids.length ≤ 1 ∨ t.retentionCapacity = 0 ∨
    ids.length ≤ t.retentionCapacity ∧
      ∀ x ∈ ids, x ∈ t.pushedOut ids.length → (t.pushedOut ids.length).getLast? = some x

instance (t : OrderStateTracker) (ids : List OrderId) : Decidable (t.OrderFree ids) :=
  inferInstanceAs (Decidable (_ ∨ _ ∨ _ ∧ _))

/-- In a run that fits in the queue, an id is pushed out after its turn iff it is among the old
entries that are still there then. -/
theorem mem_overflow_iff (hfit : (u ++ x :: v).length ≤ t.retentionCapacity) :
    x ∈ overflow (cancelAll reason u t).retentionCapacity
        ((cancelAll reason u t).terminalQueue ++ x :: v) ↔
      x ∈ (t.pushedOut (u ++ x :: v).length).drop
        (if u = [] then 0 else t.terminalQueue.length + u.length - t.retentionCapacity) := by
  rw [capacity_cancelAll, pushedOut]
  have hlength : (u ++ x :: v).length = u.length + 1 + v.length := by simp; omega
  by_cases hu : u = []
  · subst hu
    rw [if_pos rfl, List.drop_zero]
    have hover : overflow t.retentionCapacity ((cancelAll reason [] t).terminalQueue ++ x :: v) =
        t.terminalQueue.take
          (t.terminalQueue.length + ([] ++ x :: v).length - t.retentionCapacity) := by
      rw [overflow, List.length_append]
      refine List.take_append_of_le_length ?_
      rw [List.nil_append] at hfit
      show t.terminalQueue.length + (x :: v).length - _ ≤ t.terminalQueue.length
      omega
    rw [hover]
  · rw [if_neg hu, queue_cancelAll hu]
    have hold : t.terminalQueue.length + u.length - t.retentionCapacity ≤
        t.terminalQueue.length := by omega
    have hover : overflow t.retentionCapacity
          (kept t.retentionCapacity (t.terminalQueue ++ u) ++ x :: v) =
        (t.terminalQueue.take (t.terminalQueue.length + (u ++ x :: v).length -
            t.retentionCapacity)).drop
          (t.terminalQueue.length + u.length - t.retentionCapacity) := by
      rw [overflow, List.length_append, length_kept, kept, List.length_append,
        List.drop_append_of_le_length hold, List.append_assoc, List.drop_take]
      rw [List.take_append_of_le_length]
      · congr 1
        simp only [List.length_cons]
        omega
      · simp only [List.length_cons, List.length_drop]
        omega
    rw [hover]

/-- An id that no push drops still has its status when its turn comes. -/
theorem cancelStatus_cancelAll (hx : x ∉ u) (hfit : u.length ≤ t.retentionCapacity) {n : ℕ}
    (hn : u.length ≤ n) (hout : x ∉ t.pushedOut n) :
    (cancelAll reason u t).cancelStatus reason x = t.cancelStatus reason x := by
  by_cases hu : u = []
  · rw [hu]
    rfl
  · have hover : x ∉ overflow t.retentionCapacity (t.terminalQueue ++ u) := by
      rw [overflow, List.length_append, List.take_append_of_le_length (by omega)]
      refine fun hmem => hout ?_
      exact (List.take_sublist_take_left (by omega)).subset hmem
    have hget : (cancelAll reason u t).get x = t.get x := by
      rw [get_cancelAll_of_notMem hx hu, if_neg fun h => hover h.1]
    rw [cancelStatus, hget, cancelStatus]

/-- What a run of at least two cancels leaves of an id it cancels, whatever its order. -/
theorem OrderFree.get_eq (h : t.OrderFree ids) (htwo : 1 < ids.length) {run : List OrderId}
    (hperm : run.Perm ids) (hnodup : ids.Nodup) (hx : x ∈ ids) :
    (cancelAll reason run t).get x =
      if t.retentionCapacity = 0 ∨ x ∈ t.pushedOut ids.length then none
      else some (t.cancelStatus reason x) := by
  obtain ⟨u, v, rfl⟩ := List.append_of_mem (hperm.mem_iff.mpr hx)
  have hrun := hperm.nodup_iff.mpr hnodup
  have hxu : x ∉ u := fun hmem =>
    (List.nodup_append.mp hrun).2.2 x hmem x List.mem_cons_self rfl
  have hxv : x ∉ v := (List.nodup_cons.mp hrun.of_append_right).1
  have hlength := hperm.length_eq
  rw [get_cancelAll hxv]
  rcases h with hle | hzero | ⟨hfit, hlast⟩
  · omega
  · rw [if_pos (Or.inl hzero), capacity_cancelAll, hzero, overflow, Nat.sub_zero, List.take_length,
      if_pos (List.mem_append_right _ List.mem_cons_self)]
  · by_cases hzero : t.retentionCapacity = 0
    · omega
    have hiff : x ∈ overflow (cancelAll reason u t).retentionCapacity
        ((cancelAll reason u t).terminalQueue ++ x :: v) ↔ x ∈ t.pushedOut ids.length := by
      rw [mem_overflow_iff (by omega), hlength]
      refine ⟨fun hmem => List.mem_of_mem_drop hmem, fun hmem => ?_⟩
      -- its entry is the last to be pushed out, so it still is there
      obtain ⟨before, hout⟩ := List.getLast?_eq_some_iff.mp (hlast x hx hmem)
      have hbefore : before.length + 1 = (t.pushedOut ids.length).length := by rw [hout]; simp
      rw [pushedOut, List.length_take] at hbefore
      rw [List.length_append, List.length_cons] at hlength
      rw [hout, List.drop_append_of_le_length (by split_ifs <;> omega)]
      exact List.mem_append_right _ (List.mem_singleton.mpr rfl)
    by_cases hout : x ∈ t.pushedOut ids.length
    · rw [if_pos (hiff.mpr hout), if_pos (Or.inr hout)]
    · rw [List.length_append] at hlength
      rw [if_neg fun hmem => hout (hiff.mp hmem), if_neg fun hor => hor.elim hzero hout,
        cancelStatus_cancelAll hxu (by omega) (by omega) hout]

theorem mem_overflow_of_notMem (hx : x ∉ ids) :
    x ∈ overflow t.retentionCapacity (t.terminalQueue ++ ids) ↔ x ∈ t.pushedOut ids.length := by
  rw [overflow, List.length_append, List.take_append, List.mem_append, pushedOut]
  exact or_iff_left fun hmem => hx (List.mem_of_mem_take hmem)

/-- The first id of a run is dropped if the run does not fit, or if its old entry is pushed out. -/
theorem get_cancelAll_first (hx : x ∉ v)
    (hdrop : t.retentionCapacity ≤ v.length ∨ x ∈ t.pushedOut (x :: v).length) :
    (cancelAll reason (x :: v) t).get x = none := by
  have hmem : x ∈ overflow (cancelAll reason [] t).retentionCapacity
      ((cancelAll reason [] t).terminalQueue ++ x :: v) := by
    by_cases hfit : v.length < t.retentionCapacity
    · rw [mem_overflow_iff (by simpa using Nat.succ_le_of_lt hfit), if_pos rfl, List.drop_zero]
      exact hdrop.resolve_left fun hle => absurd hfit (by omega)
    · rw [overflow, List.length_append, List.length_cons, List.take_append]
      refine List.mem_append_right _ ?_
      rw [List.take_cons]
      · exact List.mem_cons_self
      · show 0 < t.terminalQueue.length + _ - t.retentionCapacity - t.terminalQueue.length
        omega
  exact (get_cancelAll (u := []) hx).trans (if_pos hmem)

/-- The last id of a run of at least two is dropped only if nothing is retained, or if its old entry
is the last to be pushed out of a queue that fits the run. -/
theorem get_cancelAll_last (hx : x ∉ u) (hu : u ≠ []) (hcapacity : t.retentionCapacity ≠ 0)
    (hdrop : (cancelAll reason (u ++ [x]) t).get x = none) :
    u.length < t.retentionCapacity ∧
      (t.pushedOut (u.length + 1)).getLast? = some x := by
  have hmem : x ∈ overflow (cancelAll reason u t).retentionCapacity
      ((cancelAll reason u t).terminalQueue ++ [x]) := by
    by_contra hnot
    rw [get_cancelAll List.not_mem_nil, if_neg hnot] at hdrop
    cases hdrop
  by_cases hfit : u.length < t.retentionCapacity
  · refine ⟨hfit, ?_⟩
    rw [mem_overflow_iff (by simpa using Nat.succ_le_of_lt hfit), if_neg hu, List.length_append,
      List.length_singleton] at hmem
    -- one entry is left to be pushed out in the last turn
    have hne : t.pushedOut (u.length + 1) ≠ [] := fun hnil => by
      rw [hnil, List.drop_nil] at hmem
      exact List.not_mem_nil hmem
    have hlength : (t.pushedOut (u.length + 1)).length =
        t.terminalQueue.length + u.length - t.retentionCapacity + 1 := by
      have hpos := List.length_pos_iff.mpr hne
      rw [pushedOut, List.length_take] at hpos ⊢
      omega
    have hlast : (t.pushedOut (u.length + 1)).drop
        (t.terminalQueue.length + u.length - t.retentionCapacity) =
          [(t.pushedOut (u.length + 1)).getLast hne] := by
      rw [← List.drop_length_sub_one hne, hlength, Nat.add_sub_cancel]
    rw [hlast, List.mem_singleton] at hmem
    rw [List.getLast?_eq_some_getLast hne, hmem]
  · -- the run does not fit, so the entry pushed out last is one of its own
    exfalso
    rw [capacity_cancelAll, queue_cancelAll hu, overflow, List.length_append, length_kept,
      List.length_append, List.length_singleton] at hmem
    have hone : min (t.terminalQueue.length + u.length) t.retentionCapacity + 1 -
        t.retentionCapacity = 1 := by omega
    rw [hone, kept, List.length_append, List.take_append_of_le_length (by
      rw [List.length_drop, List.length_append]; omega)] at hmem
    have htail := List.mem_of_mem_take hmem
    rw [List.drop_append, List.drop_eq_nil_of_le (by omega), List.nil_append] at htail
    exact hx (List.mem_of_mem_drop htail)

/-- **Every order of a run of cancels records the same statuses**, up to the reason, iff the run is
`OrderFree`. -/
theorem orderFree_iff (hnodup : ids.Nodup) (reason reason' : CancelReason) :
    (∀ run, run.Perm ids → ∀ x,
        ((cancelAll reason ids t).get x).map OrderStatus.withoutReason =
          ((cancelAll reason' run t).get x).map OrderStatus.withoutReason) ↔ t.OrderFree ids := by
  constructor
  · intro h
    by_cases htwo : ids.length ≤ 1
    · exact Or.inl htwo
    by_cases hzero : t.retentionCapacity = 0
    · exact Or.inr (Or.inl hzero)
    -- an id that is dropped when it goes first must be dropped when it goes last
    have hends : ∀ x ∈ ids, (cancelAll reason' (x :: ids.erase x) t).get x = none →
        (cancelAll reason' (ids.erase x ++ [x]) t).get x = none := by
      intro x hx hnone
      have hfirst := h _ (List.perm_cons_erase hx).symm x
      have hlast := h _ ((List.perm_append_singleton x _).trans (List.perm_cons_erase hx).symm) x
      rw [hfirst, hnone, Option.map_none] at hlast
      exact Option.map_eq_none_iff.mp hlast.symm
    have hlast : ∀ x ∈ ids, t.retentionCapacity ≤ (ids.erase x).length ∨
        x ∈ t.pushedOut (x :: ids.erase x).length → (ids.erase x).length < t.retentionCapacity ∧
          (t.pushedOut ((ids.erase x).length + 1)).getLast? = some x := by
      intro x hx hdrop
      have hnot : x ∉ ids.erase x := fun hmem => ((hnodup.mem_erase_iff).mp hmem).1 rfl
      have hlength := List.length_erase_of_mem hx
      refine get_cancelAll_last hnot (fun hnil => ?_) hzero
        (hends x hx (get_cancelAll_first hnot hdrop))
      rw [hnil, List.length_nil] at hlength
      omega
    refine Or.inr (Or.inr ⟨?_, fun x hx hout => ?_⟩)
    · obtain ⟨x, hx⟩ := List.exists_mem_of_ne_nil ids fun hnil => htwo (by rw [hnil]; simp)
      have hlength := List.length_erase_of_mem hx
      by_contra hlt
      have hfit := (hlast x hx (Or.inl (by omega))).1
      omega
    · have hlength : (ids.erase x).length + 1 = ids.length := by
        rw [List.length_erase_of_mem hx]
        omega
      have hend := (hlast x hx (Or.inr (by rwa [List.length_cons, hlength]))).2
      rwa [hlength] at hend
  · intro h run hperm x
    rcases Nat.lt_or_ge 1 ids.length with htwo | hone
    · by_cases hx : x ∈ ids
      · rw [h.get_eq htwo (.refl ids) hnodup hx, h.get_eq htwo hperm hnodup hx]
        split_ifs
        · rfl
        · rfl
      · have hxrun : x ∉ run := fun hmem => hx (hperm.mem_iff.mp hmem)
        have hne : ids ≠ [] := List.ne_nil_of_length_pos (by omega)
        have hrun : run ≠ [] := List.ne_nil_of_length_pos (by rw [hperm.length_eq]; omega)
        rw [get_cancelAll_of_notMem hx hne, get_cancelAll_of_notMem hxrun hrun]
        simp only [mem_overflow_of_notMem hx, mem_overflow_of_notMem hxrun, hperm.length_eq]
    · rcases ids with _ | ⟨i, _ | ⟨j, rest⟩⟩
      · rw [hperm.eq_nil]
        rfl
      · rw [List.perm_singleton.mp hperm]
        have hget : ∀ reason, (cancelAll reason [i] t).get x = _ :=
          fun reason => get_transition (t := t) (i := i) (x := x)
            (show (t.cancelStatus reason i).isTerminal = true from rfl)
        rw [hget, hget]
        by_cases hx : x = i
        · simp only [hx, if_true, Option.any_some, cancelStatus, OrderStatus.isTerminal, and_true]
          split_ifs
          · rfl
          · rfl
        · simp only [if_neg hx]
      · simp at hone

end OrderStateTracker

end OrderBookRs
