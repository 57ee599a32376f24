import OrderBookRs.Alike
import OrderBookRs.EveryLevel
import OrderBookRs.QuietFailures
import OrderBookRs.Sequencer.ReplayComplete

/-!
# Replay reproduces the live book

A replay passes over the events that were rejected, so it reproduces the live book only if every
call that failed left the live book as it was. Then the live and the replayed book stay alike event
by event: an accepted event is the same call on books that are alike, a rejected one changes
neither.

## Main definitions

* `OrderBook.InForce`: the times in force of the orders on the book.
* `Clock.Spares`: the clock lets no order with this time in force expire.
* `replaying`: how the live and the replayed book are compared.
* `Recorded`: the events a live run leaves in the journal.
* `Reproduces`: the replay succeeds and the snapshots match.

## Main results

* `replayInto_alike`: the loop follows the live run.
* `replay_reproduces`: a run whose failing calls leave no trace is reproduced.
-/

namespace OrderBookRs

open PriceLevel Fallible OrderBook

variable {L : Type} [PriceLevel L] {b b' : OrderBook L} {c : Command}

/-! ### Times in force -/

/-- Every order on the book has a time in force in `F`. -/
abbrev OrderBook.InForce (F : TimeInForce → Prop) (b : OrderBook L) : Prop :=
  b.EveryLevel fun _ _ l => ∀ o ∈ orders l, F o.timeInForce

section InForce

variable [LevelQueue L] [LevelResize L] [LevelMatch L] {F : TimeInForce → Prop}

omit [PriceLevel L] [LevelQueue L] [LevelResize L] [LevelMatch L] in
theorem lasting_inForce : Lasting fun o => F o.timeInForce where
  tranches _ _ h := h
  moved hmoved _ h := by
    rw [movedOrder_timeInForce hmoved]
    exact h

/-- **Only a new order brings a time in force onto the book.** -/
theorem OrderBook.InForce.execute (h : b.InForce F)
    (hadd : ∀ o, c = .addOrder o ∨ c = .addOrderWithResult o → F o.timeInForce) :
    (b.execute c).InForce F :=
  lasting_inForce.execute h hadd

end InForce

/-! ### The comparison -/

/-- Without a market close, the clock never lets an order with this time in force expire. -/
def Clock.Spares (L : Type) [PriceLevel L] (clock : Clock) (timeInForce : TimeInForce) : Prop :=
  ∀ n, isExpired L timeInForce (clock.reading n) none = false

variable (L) in
/-- How the live and the replayed book are compared: neither has a market close, both clocks spare
the times in force in `F`, the user lists are the same, and the trades so far do not matter. -/
def replaying (F : TimeInForce → Prop) : Comparison where
  close := none
  lastTrade := True
  clocks k k' := ∀ timeInForce, F timeInForce → k.Spares L timeInForce ∧ k'.Spares L timeInForce
  users m m' := m' = m
  trades _ _ := True
  noUsers := rfl
  tick h := h
  track h user id := by rw [h]
  untrackUser h user id := by rw [h]
  untrackById h id := by rw [h]
  append _ _ := trivial

variable {F : TimeInForce → Prop}

theorem judges_replaying {timeInForce : TimeInForce} (h : F timeInForce) :
    (replaying L F).Judges L timeInForce := by
  intro k k' hclocks
  obtain ⟨hk, hk'⟩ := hclocks timeInForce h
  exact (hk' _).trans (hk _).symm

/-- A command whose new order has a time in force in `F` suits the comparison. -/
theorem OrderBook.InForce.suits (h : b.InForce F)
    (hadd : ∀ o, c = .addOrder o ∨ c = .addOrderWithResult o → F o.timeInForce) :
    Suits (replaying L F) b c where
  resting := by
    rintro side price o ⟨l, hl, ho⟩
    exact judges_replaying (h hl o ho)
  added o ho := judges_replaying (hadd o ho)
  byUser _ _ := Iff.rfl

/-- A live book is alike to itself. -/
theorem OrderBook.Warm.diagonal (h : b.Warm (replaying L F) b') : b.Warm (replaying L F) b :=
  ⟨⟨⟨_, _, _, _, _, _, _, _, _, _, _, rfl⟩, .refl _, ⟨rfl, fun _ => .refl _, fun _ => .refl _⟩,
    Or.inl rfl, rfl,
    fun tif htif => ⟨(h.clocks tif htif).1, (h.clocks tif htif).1⟩, trivial, h.close_eq,
    h.noLevelListener, h.noTradeListener⟩, h.truthful, h.truthful⟩

/-- **A call that fails without a trace is passed over**: the live book after it is alike to the
replayed book before it. -/
theorem OrderBook.Warm.skip [LevelResize L] (h : b.Warm (replaying L F) b')
    (hsuits : Suits (replaying L F) b c) (hstate : b.SameState (b.execute c)) :
    (b.execute c).Warm (replaying L F) b' := by
  obtain ⟨-, hlive⟩ := h.diagonal.execute hsuits
  refine ⟨h.restate hstate (.refl b') fun tif htif => ?_, hlive.truthful, h.truthful'⟩
  exact ⟨(hlive.clocks tif htif).1, (h.clocks tif htif).2⟩

/-! ### The loop -/

/-- The quantity an update asks for is a `u64`. -/
def OrderUpdate.Fits : OrderUpdate → Prop
  | .updatePriceAndQuantity _ _ newQuantity => newQuantity ≤ u64Max
  | .replace _ _ quantity _ => quantity ≤ u64Max
  | _ => True

theorem OrderBook.Moves.fits [LevelCapacity L] {u : OrderUpdate} {newOrder : Order}
    (h : b.Moves u newOrder) (hu : u.Fits) : newOrder.visibleQuantity ≤ u64Max := by
  obtain ⟨original, hget, hmoved⟩ := h.moved
  obtain ⟨side, price, l, -, -, ho, -⟩ := getOrder_eq_some hget
  have hsize : original.size ≤ u64Max := LevelCapacity.size_le ho
  cases u with
  | updatePrice =>
    cases hmoved
    exact le_trans (Nat.le_add_right ..) hsize
  | updatePriceAndQuantity =>
    cases hmoved
    exact le_trans (Order.visibleQuantity_setQuantity_le ..) (max_le hu hsize)
  | replace =>
    cases hmoved
    exact hu
  | updateQuantity | cancel => cases hmoved

/-- The events a run from `b` leaves in a journal whose next number is `n`: numbered one after the
other, and rejected exactly if the call returned an error. -/
def Recorded : ℕ → OrderBook L → List SequencedEvent → Prop
  | _, _, [] => True
  | n, b, e :: events =>
    e.sequenceNum.toNat = n ∧ e.result.isRejected = (b.reply e.command.toCommand).isError ∧
      Recorded (n + 1) (b.execute e.command.toCommand) events

/-- A call that returns no error is replayed as the call. -/
theorem applyCommand_of_reply (n : ℕ) (c : SequencerCommand)
    (h : (b.reply c.toCommand).isError = false) :
    applyCommand n c b = (.ok (), b.execute c.toCommand) := by
  have hrun : ∀ {α : Type} {m : BookM L α}, (!(m b).1.isOk) = false →
      (orReplayError n m b).1 = .ok () := by
    intro α m hok
    rw [orReplayError]
    rcases hm : m b with ⟨e | a, b'⟩
    · rw [hm] at hok
      cases hok
    · rfl
  refine Prod.ext ?_ (applyCommand_snd n c b)
  cases c with
  | addOrder | updateOrder | marketOrder
  | marketOrderByAmount => exact hrun h
  | _ => rfl

/-- The live book after an event. -/
def liveStep (b : OrderBook L) (e : SequencedEvent) : OrderBook L := b.execute e.command.toCommand

/-- The events bring times in force in `F`, and their quantities are machine words. -/
structure EventsWithin (F : TimeInForce → Prop) (events : List SequencedEvent) : Prop where
  inForce : ∀ e ∈ events, ∀ o, e.command = .addOrder o → F o.timeInForce
  fits : ∀ e ∈ events, ∀ u, e.command = .updateOrder u → u.Fits

omit [PriceLevel L] in
theorem EventsWithin.tail {e : SequencedEvent} {events : List SequencedEvent}
    (h : EventsWithin F (e :: events)) : EventsWithin F events :=
  ⟨fun e' he' => h.inForce e' (List.mem_cons_of_mem _ he'),
    fun e' he' => h.fits e' (List.mem_cons_of_mem _ he')⟩

omit [PriceLevel L] in
theorem EventsWithin.added {e : SequencedEvent} {events : List SequencedEvent}
    (h : EventsWithin F (e :: events)) :
    ∀ o, e.command.toCommand = .addOrder o ∨ e.command.toCommand = .addOrderWithResult o →
      F o.timeInForce := by
  rintro o (ho | ho)
  · refine h.inForce e (List.mem_cons_self ..) o ?_
    cases hc : e.command <;> rw [hc] at ho <;> cases ho
    rfl
  · cases hc : e.command <;> rw [hc] at ho <;> cases ho

section Loop

variable [LevelQueue L] [LevelMatch L] [LevelResize L] [LevelCapacity L] [MatchAccounting L]
  [TradeRecords L] [MatchableDryRun L]

/-- **One event keeps the books alike.** -/
theorem applyEvent_alike {e : SequencedEvent} {events : List SequencedEvent}
    (hrecorded : e.result.isRejected = (b.reply e.command.toCommand).isError)
    (hquiet : b.FailsQuietly e.command.toCommand) (hwithin : EventsWithin F (e :: events))
    (hb : b.Sound) (hforce : b.InForce F) (hwarm : b.Warm (replaying L F) b') :
    ∃ book, applyEvent e b' = (.ok (), book) ∧ (liveStep b e).Warm (replaying L F) book := by
  have hsuits := hforce.suits hwithin.added
  rw [applyEvent, hrecorded]
  cases hfails : (b.reply e.command.toCommand).isError with
  | true =>
    have hfits : ∀ u newOrder, e.command.toCommand = .updateOrder u → b.Moves u newOrder →
        newOrder.visibleQuantity ≤ u64Max := by
      intro u newOrder hu hmoves
      refine hmoves.fits (hwithin.fits e (List.mem_cons_self ..) u ?_)
      cases hc : e.command <;> rw [hc] at hu <;> cases hu
      rfl
    exact ⟨b', rfl, hwarm.skip hsuits (hquiet.sameState hb hfits hfails)⟩
  | false =>
    obtain ⟨hreply, hafter⟩ := hwarm.execute hsuits
    refine ⟨_, ?_, hafter⟩
    exact applyCommand_of_reply _ e.command (by rw [hreply, hfails])

/-- **The loop follows the live run.** -/
theorem replayInto_alike {events : List SequencedEvent}
    {items : List (Except JournalError (JournalEntry SequencerCommand SequencerResult))} {n : ℕ}
    (lastApplied count : ℕ) (hitems : eventsOf items = events.map .ok)
    (hrecorded : Recorded n b events)
    (hquiet : RunMeets liveStep (fun b e => b.FailsQuietly e.command.toCommand) b events)
    (hwithin : EventsWithin F events) (hnumbers : n + events.length ≤ u64Max)
    (hcount : count + events.length ≤ u64Max) (hb : b.Sound) (hforce : b.InForce F)
    (hwarm : b.Warm (replaying L F) b') :
    ∃ applied book, replayInto items n lastApplied count b' = (.ok applied, book) ∧
      (events.foldl liveStep b).Warm (replaying L F) book := by
  induction events generalizing items n lastApplied count b b' with
  | nil =>
    rw [eventsOf, List.map_nil, List.map_eq_nil_iff] at hitems
    rw [hitems]
    exact ⟨lastApplied, b', rfl, hwarm⟩
  | cons e events ih =>
    obtain ⟨item, items, rfl, hitem, hrest⟩ := List.map_eq_cons_iff.mp hitems
    obtain ⟨entry, rfl, rfl⟩ : ∃ entry, item = .ok entry ∧ entry.event = e := by
      cases item with
      | error => cases hitem
      | ok entry => exact ⟨entry, rfl, Except.ok.inj hitem⟩
    obtain ⟨hnumber, hresult, hrecorded⟩ := hrecorded
    rw [List.length_cons] at hnumbers hcount
    obtain ⟨book, hevent, hbook⟩ :=
      applyEvent_alike hresult hquiet.1 hwithin hb hforce hwarm
    have hnext : checkedAdd64 n 1 = some (n + 1) := checkedAdd64_eq_some.mpr ⟨rfl, by omega⟩
    have hcounted : checkedAdd64 count 1 = some (count + 1) :=
      checkedAdd64_eq_some.mpr ⟨rfl, by omega⟩
    have hsound : (liveStep b entry.event).Sound :=
      Sound.steps.calls.execute (fun _ _ _ => trivial) hb
    have htail : ∀ lastApplied count', count' ≤ count + 1 → ∃ applied book',
        replayInto items (n + 1) lastApplied count' book = (.ok applied, book') ∧
          (events.foldl liveStep (liveStep b entry.event)).Warm (replaying L F) book' := by
      intro lastApplied count' hle
      exact ih lastApplied count' hrest hrecorded hquiet.2 hwithin.tail (by omega) (by omega) hsound
        (hforce.execute hwithin.added) hbook
    have hcheck : (check (entry.event.sequenceNum.toNat ≠ n)
        (.sequenceGap n entry.event.sequenceNum.toNat) :
          Fallible ReplayError (OrderBook L) Unit) b' = (.ok (), b') := by
      rw [check, if_neg (by simp [hnumber])]
      rfl
    rw [replayInto, bind_run_of_ok hcheck, bind_run_of_ok hevent, hnext]
    dsimp only
    split_ifs
    · exact htail lastApplied count (Nat.le_succ count)
    · rw [hcounted]
      exact htail _ (count + 1) le_rfl

end Loop

/-! ### Whole journals -/

omit [PriceLevel L] in
theorem ReplayBookConfig.applyTo_eq (config : ReplayBookConfig) (b : OrderBook L) :
    config.applyTo b =
      { b with
        feeSchedule := config.feeSchedule
        stpMode := config.stpMode
        tickSize := config.tickSize
        lotSize := config.lotSize
        minOrderSize := config.minOrderSize.or b.minOrderSize
        maxOrderSize := config.maxOrderSize.or b.maxOrderSize } := by
  simp only [applyTo, OrderBook.configure]
  cases config.minOrderSize <;> cases config.maxOrderSize <;> rfl

/-- New books with the same configuration are alike. -/
theorem warm_start (config : ReplayBookConfig) (symbol : String) {clock clock' : Clock}
    (hclocks : ∀ timeInForce, F timeInForce →
      clock.Spares L timeInForce ∧ clock'.Spares L timeInForce) :
    (config.applyTo (withClock symbol clock : OrderBook L)).Warm (replaying L F)
      (config.applyTo (withClock symbol clock')) := by
  rw [config.applyTo_eq, config.applyTo_eq]
  refine ⟨⟨⟨_, _, _, _, _, _, _, _, _, _, _, rfl⟩, .refl _,
    ⟨rfl, fun _ => .refl _, fun _ => .refl _⟩,
    Or.inl rfl, rfl, hclocks, trivial, rfl, rfl, rfl⟩, .of_unread fun side => ?_,
    .of_unread fun side => ?_⟩
  · cases side <;> rfl
  · cases side <;> rfl

omit [PriceLevel L] in
theorem get?_start (config : ReplayBookConfig) (symbol : String) (clock : Clock) (side : Side)
    (price : ℕ) :
    ((config.applyTo (withClock symbol clock : OrderBook L)).levels side).get? price = none := by
  rw [config.applyTo_eq]
  cases side <;> rfl

variable {J : Type} [Journal J SequencerCommand SequencerResult]

/-- The journal holds the events. -/
structure Journaled (journal : J) (events : List SequencedEvent) : Prop where
  read : eventsOf (Journal.readFrom journal 0) = events.map .ok
  last : Journal.lastSequence journal = events.getLast?.map fun e => e.sequenceNum.toNat

/-- Replaying the journal from the start succeeds, and the snapshots of the replayed and of the live
book match at every depth. -/
def Reproduces (journal : J) (symbol : String) (clock : Clock) (config : ReplayBookConfig)
    (live : OrderBook L) : Prop :=
  ∃ (book : OrderBook L) (applied : ℕ),
    replayFromWithConfig journal 0 symbol clock config = .ok (book, applied) ∧
    ∀ depth, snapshotsMatch (book.createSnapshot depth).1 (live.createSnapshot depth).1

/-- **Replay reproduces the live book.** A run of at least one and fewer than `2 ^ 64` commands on a
new book, under clocks that let none of its orders expire, is reproduced from its journal if each
command meets `FailsQuietly` on the live book it is executed on. -/
theorem replay_reproduces [LevelQueue L] [LevelMatch L] [LevelResize L] [LevelCapacity L]
    [MatchAccounting L] [TradeRecords L] [MatchableDryRun L] {journal : J}
    {symbol : String} {clock clock' : Clock} {config : ReplayBookConfig}
    {events : List SequencedEvent} (hjournal : Journaled journal events) (hsome : events ≠ [])
    (hlength : events.length < 2 ^ 64)
    (hwithin : EventsWithin (fun tif => clock.Spares L tif ∧ clock'.Spares L tif) events)
    (hrecorded : Recorded 0 (config.applyTo (withClock symbol clock : OrderBook L)) events)
    (hquiet : RunMeets liveStep (fun b e => b.FailsQuietly e.command.toCommand)
      (config.applyTo (withClock symbol clock : OrderBook L)) events) :
    Reproduces journal symbol clock' config
      (events.foldl liveStep (config.applyTo (withClock symbol clock : OrderBook L))) := by
  have hempty := get?_start (L := L) config symbol clock
  have hsound : (config.applyTo (withClock symbol clock : OrderBook L)).Sound := by
    refine ⟨?_, ?_, ?_⟩
    · rintro side price o ⟨l, hl, -⟩
      rw [hempty] at hl
      cases hl
    · rintro side price o ⟨l, hl, -⟩
      rw [hempty] at hl
      cases hl
    · intro side price l hl
      rw [hempty] at hl
      cases hl
  have hforce : (config.applyTo (withClock symbol clock : OrderBook L)).InForce
      fun tif => clock.Spares L tif ∧ clock'.Spares L tif := by
    intro side price l hl
    rw [hempty] at hl
    cases hl
  have hbound : 0 + events.length ≤ u64Max := by
    have hmax : u64Max = 2 ^ 64 - 1 := rfl
    omega
  obtain ⟨applied, book, hloop, halike⟩ := replayInto_alike 0 0 hjournal.read hrecorded
    hquiet hwithin hbound hbound hsound hforce (warm_start config symbol fun tif htif => htif)
  obtain ⟨e, hlast⟩ := Option.isSome_iff_exists.mp (List.getLast?_isSome.mpr hsome)
  refine ⟨book, applied, ?_, fun depth => ?_⟩
  · rw [replayFromWithConfig, hjournal.last, hlast]
    dsimp only [Option.map_some]
    rw [if_neg (Nat.not_lt_zero _), if_neg (fun h => h.1 rfl), replayOnto, hloop]
  · obtain ⟨_, _, _, _, _, _, _, _, _, _, _, rfl⟩ := halike.frame
    exact snapshotsMatch_of_eq rfl rfl rfl

/-! ### Two journals -/

omit [PriceLevel L] in
/-- An in-memory journal holds the events appended to it. -/
theorem journaled_inMemory (events : List SequencedEvent) :
    Journaled (⟨events⟩ : InMemoryJournal SequencerCommand SequencerResult) events where
  read := by
    have hall : (events.filter fun e => 0 ≤ e.sequenceNum.toNat) = events :=
      List.filter_eq_self.mpr fun e _ => decide_eq_true (Nat.zero_le _)
    show eventsOf (InMemoryJournal.readFrom ⟨events⟩ 0) = _
    rw [InMemoryJournal.readFrom, hall, eventsOf, List.map_map]
    rfl
  last := rfl

/-- An ask, a bid off the tick grid, and a bid that fills the ask. -/
def tickedEvents : List SequencedEvent :=
  [⟨0, 0, .addOrder ⟨1, 100, .sell, 7, 0, .gtc, 5, .standard⟩, .orderAdded 1⟩,
    ⟨1, 0, .addOrder ⟨2, 105, .buy, 8, 0, .gtc, 5, .standard⟩, .rejected "invalid tick size"⟩,
    ⟨2, 0, .addOrder ⟨3, 100, .buy, 8, 0, .gtc, 5, .standard⟩, .orderAdded 3⟩]

def ticked : ReplayBookConfig := { tickSize := some 10 }

/-- A rejected event in the middle of a run that is reproduced. -/
theorem tickedEvents_reproduced :
    Reproduces (⟨tickedEvents⟩ : InMemoryJournal SequencerCommand SequencerResult) "BTC"
      ⟨fun _ => 0, 0⟩ ticked
      (tickedEvents.foldl liveStep
        (ticked.applyTo (withClock "BTC" ⟨fun n => n, 0⟩ : OrderBook FifoLevel))) := by
  refine replay_reproduces (journaled_inMemory tickedEvents) (by decide) (by decide) ⟨?_, ?_⟩ ?_ ?_
  · intro e he o ho
    have hgtc : o.timeInForce = .gtc := by
      simp only [tickedEvents, List.mem_cons, List.not_mem_nil, or_false] at he
      rcases he with rfl | rfl | rfl <;> cases ho <;> rfl
    rw [hgtc]
    exact ⟨fun _ => rfl, fun _ => rfl⟩
  · intro e he u hu
    simp only [tickedEvents, List.mem_cons, List.not_mem_nil, or_false] at he
    rcases he with rfl | rfl | rfl <;> cases hu
  · exact ⟨rfl, by decide, rfl, by decide, rfl, by decide, trivial⟩
  · refine ⟨fun _ => Or.inl ⟨rfl, rfl⟩, fun haccepted => ?_, fun _ => Or.inr ⟨0, ?_, ?_⟩, trivial⟩
    · have hshape := haccepted.shape.shape
      cases hshape
    · exact ⟨rfl, rfl, rfl⟩
    · exact fun hne => absurd rfl hne

/-- An ask, and an immediate-or-cancel bid for more than it offers. -/
def partialFillEvents : List SequencedEvent :=
  [⟨0, 0, .addOrder ⟨1, 100, .sell, 7, 0, .gtc, 5, .standard⟩, .orderAdded 1⟩,
    ⟨1, 0, .addOrder ⟨2, 100, .buy, 8, 0, .ioc, 8, .standard⟩, .rejected "insufficient liquidity"⟩]

/-- **A rejected order that traded is lost by the replay**: the bid takes the whole ask and returns
an error, and the replayed book still shows the ask. -/
theorem partialFillEvents_not_reproduced :
    EventsWithin (fun tif => Clock.Spares FifoLevel ⟨fun n => n, 0⟩ tif ∧
        Clock.Spares FifoLevel ⟨fun n => n, 0⟩ tif) partialFillEvents ∧
      Recorded 0 (({} : ReplayBookConfig).applyTo
        (withClock "BTC" ⟨fun n => n, 0⟩ : OrderBook FifoLevel)) partialFillEvents ∧
      Journaled (⟨partialFillEvents⟩ : InMemoryJournal SequencerCommand SequencerResult)
        partialFillEvents ∧
      ¬ Reproduces (⟨partialFillEvents⟩ : InMemoryJournal SequencerCommand SequencerResult) "BTC"
        ⟨fun n => n, 0⟩ {}
        (partialFillEvents.foldl liveStep (({} : ReplayBookConfig).applyTo
          (withClock "BTC" ⟨fun n => n, 0⟩ : OrderBook FifoLevel))) := by
  refine ⟨⟨?_, ?_⟩, ⟨rfl, by decide, rfl, by decide, trivial⟩, ⟨rfl, rfl⟩, ?_⟩
  · intro e he o ho
    simp only [partialFillEvents, List.mem_cons, List.not_mem_nil, or_false] at he
    rcases he with rfl | rfl <;> cases ho <;> exact ⟨fun _ => rfl, fun _ => rfl⟩
  · intro e he u hu
    simp only [partialFillEvents, List.mem_cons, List.not_mem_nil, or_false] at he
    rcases he with rfl | rfl <;> cases hu
  · rintro ⟨book, applied, hreplay, hmatch⟩
    have hbook : replayFromWithConfig
        (⟨partialFillEvents⟩ : InMemoryJournal SequencerCommand SequencerResult) 0 "BTC"
        ⟨fun n => n, 0⟩ {} = .ok ((partialFillEvents.take 1).foldl liveStep
          (({} : ReplayBookConfig).applyTo
            (withClock "BTC" ⟨fun n => n, 0⟩ : OrderBook FifoLevel)), 0) := rfl
    cases Except.ok.inj (hbook.symm.trans hreplay)
    exact absurd (hmatch 1) (by decide)

end OrderBookRs
