import OrderBookRs.Accounting
import OrderBookRs.Queues
import OrderBookRs.Settings
import OrderBookRs.SpecialOrders

/-!
# What the kill switch halts

While the switch is engaged, every call that enters or changes an order is refused before it does
anything, and the cancels still go through. Whatever is called in the meantime, re-pricing included,
the book only drains.

## Main results

* `halted_book_only_drains`: it trades nothing and its queues only lose orders.
-/

namespace OrderBookRs

open PriceLevel Fallible OrderBook

variable {L : Type} [PriceLevel L] {b₀ b b' : OrderBook L}

/-- The book is halted, has not traded since it was `b₀`, and its queues only lost orders. -/
structure OrderBook.Drains (b₀ b : OrderBook L) : Prop where
  halted : b.killSwitch = true
  fills : b.fills = b₀.fills
  queue : ∀ side price, (b.queueAt side price).Sublist (b₀.queueAt side price)

namespace OrderBook.Drains

theorem same (hsame : b.SameState b') (h : b₀.Drains b) : b₀.Drains b' where
  halted := (congrArg BookSettings.killSwitch hsame.settings_eq).trans h.halted
  fills := hsame.fills_eq.trans h.fills
  queue := hsame.queueAt_eq ▸ h.queue

theorem clear (h : b₀.Drains b) : b₀.Drains b.cancelAllOrders.1 := by
  rcases cancelAllOrders_eq b with heq | ⟨b', hsame, -, heq⟩
  · rw [heq]
    exact h.same b.sameState_invalidateCache
  · refine ⟨(congrArg BookSettings.killSwitch (settings_cancelAllOrders b)).trans h.halted, ?_,
      fun side price => ?_⟩
    · rw [heq]
      exact hsame.sameRests.fills_eq.trans h.fills
    · rw [heq]
      cases side <;> exact List.nil_sublist _

variable [LevelQueue L]

/-- Taking an order off its level drains the book. -/
theorem rewritten {side : Side} {price : ℕ} {l l' : L} {o : Order} (h : b₀.Drains b)
    (hoff : b.TakesOff side price l l' o) (hget : b.Rewrites b' side price l')
    (hsettings : b'.settings = b.settings) (hfills : b'.fills = b.fills) : b₀.Drains b' := by
  refine ⟨(congrArg BookSettings.killSwitch hsettings).trans h.halted, hfills.trans h.fills,
    fun s p => List.Sublist.trans ?_ (h.queue s p)⟩
  rw [queueAt_of_rewritten hget]
  split_ifs with hhere
  · rw [hhere.1, hhere.2, queueAt_of_get? hoff.level, hoff.orders_eq]
    exact List.filter_sublist
  · exact .refl _

theorem cancel (id : OrderId) (reason : CancelReason) (h : b₀.Drains b) :
    b₀.Drains (b.cancelOrderWithReason id reason).1 := by
  rcases cancelOrderWithReason_cases b id reason with
    ⟨hsame, -, -⟩ | ⟨side, price, l, l', o, rfl, hout, -, hstate⟩
  · exact h.same hsame
  · exact (h.rewritten hout.off (cancelAt_get? b side price l' o) (settings_cancelAt ..)
      (cancelAt_fills ..)).same hstate

/-- What a halted book is asked for, but for the requests that change an order. -/
theorem guarded : GuardedInvariant (fun b : OrderBook L => b₀.Drains b)
    ⟨fun _ _ => True, fun _ _ _ _ _ => True, fun _ _ _ => False, fun _ _ => True⟩ where
  reads hquiet _ h := h.same hquiet.sameState
  forget h := h.same (sameState_invalidateCache _)
  alike _ hg := hg
  add wantResult _ h :=
    have hrefused hacc := nomatch (OrderBook.Accepted.running hacc).symm.trans h.halted
    h.same (addOrderInner_of_not_accepted hrefused wantResult).2
  market hoff _ h := nomatch hoff.symm.trans h.halted
  halt _ h := h.same (sameView_trackState ..).sameState
  cancel := cancel
  resize hg := hg.elim
  drop {b id} _ h := by
    have hforgot := h.same b.sameState_invalidateCache
    rcases cancelByUpdate_cases b.invalidateCache id with
      hrun | ⟨side, price, l, l', o, rfl, hout, hrun⟩
    · rw [hrun]
      exact hforgot
    · rw [hrun]
      exact hforgot.rewritten hout.off (dropAt_get? _ side price l' o.id) (settings_dropAt ..)
        (dropAt_fills ..)
  clear := clear
  byUser _ h := cancelOrderBatch_keeps (fun id => cancel id _) _ ⟨h.halted, h.fills, h.queue⟩

/-- **A trading call on a halted book drains it.** -/
theorem execute (c : Command) (h : b₀.Drains b) : b₀.Drains (b.execute c) := by
  by_cases hmod : ∃ u, c = .updateOrder u ∧ isModify u
  · obtain ⟨u, rfl, hu⟩ := hmod
    have hstop : checkKillSwitch b = (.error .killSwitchActive, b) := if_pos h.halted
    rw [OrderBook.execute, OrderBook.updateOrder, if_pos hu, bind_run_of_error hstop]
    exact h
  refine guarded.execute ?_ h
  cases c with
  | updateOrder u =>
    exact ⟨fun id q hu => hmod ⟨u, rfl, hu ▸ rfl⟩, fun _ _ => trivial, fun _ _ _ => trivial⟩
  | _ => trivial

theorem repricing : RepriceInvariant fun b : OrderBook L => b₀.Drains b where
  same := same
  update id p _ := execute (.updateOrder (.updatePrice id p))
  forget _ _ h := ⟨h.halted, h.fills, h.queue⟩

end OrderBook.Drains

/-- **A halted book only drains**, whatever is called: nothing trades, and each queue keeps some of
its orders, as they are and in their order. -/
theorem halted_book_only_drains [LevelQueue L] [DisplayId] (hkill : b.killSwitch = true)
    (calls : List BookCall) : b.Drains (calls.foldl (fun b c => (b.call c).2) b) := by
  refine List.foldlRecOn calls _ ⟨hkill, rfl, fun _ _ => .refl _⟩ fun b' h c _ => ?_
  cases c with
  | command c => exact h.execute c
  | reprice r => exact Drains.repricing.reprice r h

/-- A halted book refuses an offer and a market order that would meet its bid, and cancels the bid.
-/
theorem halted_bid_drains :
    letI := tallyIds
    let b : OrderBook FifoLevel := ((withClock "BTC" ⟨fun n => n, 0⟩).execute
      (.addOrder ⟨1, 100, .buy, 7, 0, .gtc, 5, .standard⟩)).configure (.killSwitch true)
    let calls : List BookCall :=
      [.command (.addOrder ⟨2, 100, .sell, 8, 0, .gtc, 5, .standard⟩),
        .command (.submitMarketOrder 3 5 .sell 8), .reprice .specialOrders,
        .command (.cancelOrder 1)]
    b.killSwitch = true ∧ b.Drains (calls.foldl (fun b c => (b.call c).2) b) :=
  letI := tallyIds
  ⟨rfl, halted_book_only_drains rfl _⟩

end OrderBookRs
