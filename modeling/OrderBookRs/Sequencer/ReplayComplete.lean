import OrderBookRs.FifoLevel
import OrderBookRs.Sequencer.Refinement
import OrderBookRs.Sequencer.Replay

/-!
# What a replay that succeeds has read

The gap check makes a replay read a run of events without holes from the number it was asked to
start with; nothing makes it read on to the last one. The length field of an entry is not under its
checksum, and a reader takes a length of zero for the end of the segment, so damage there can hide
the end of a journal and the replay still succeeds. Damage that a checksum notices can do so in no
other way: a reader of the damaged file walks along the entries that were written, each of which it
yields as it was, refuses, or takes for the end.

## Main definitions

* `SequencerCommand.toCommand`, `acceptedCommands`: the calls a replay makes.
* `UnforgedFrom`: no bytes pass for an entry that was not written there.
* `LengthsKeptFrom`: the length fields of the entries are as they were written.
* `FileJournal.ReplaysAll`: the replay read every event up to the last number.

## Main results

* `replayInto_ok`: what a loop that succeeds has read and done.
* `readSegment_unforged`: what the reader yields from a damaged segment.
* `replay_complete_iff`: a replay of a damaged journal that succeeds is complete exactly when the
  length fields of the newest segment are as they were written.
-/

namespace OrderBookRs

open Fallible

/-! ### The loop -/

/-- The call a command stands for. -/
def SequencerCommand.toCommand : SequencerCommand → Command
  | .addOrder o => .addOrder o
  | .cancelOrder id => .cancelOrder id
  | .updateOrder u => .updateOrder u
  | .marketOrder id quantity side => .submitMarketOrder id quantity side 0
  | .marketOrderByAmount id amount side => .submitMarketOrderByAmount id amount side 0
  | .cancelAll => .cancelAllOrders
  | .cancelBySide side => .cancelOrdersBySide side
  | .cancelByUser user => .cancelOrdersByUser user
  | .cancelByPriceRange side minPrice maxPrice => .cancelOrdersByPriceRange side minPrice maxPrice
  | .evictExpiredOrders now => .evictExpiredOrders now

/-- The calls of the events that were not rejected. -/
def acceptedCommands (events : List SequencedEvent) : List Command :=
  (events.filter fun e => !e.result.isRejected).map fun e => e.command.toCommand

section Loop

variable {L : Type} [PriceLevel L]

omit [PriceLevel L] in
theorem orReplayError_snd {α : Type} (n : ℕ) (m : BookM L α) (b : OrderBook L) :
    (orReplayError n m b).2 = (m b).2 := by
  rw [orReplayError]
  rcases m b with ⟨_ | _, _⟩ <;> rfl

/-- A command leaves the book its call leaves, whether it succeeds or fails. -/
theorem applyCommand_snd (n : ℕ) (c : SequencerCommand) (b : OrderBook L) :
    (applyCommand n c b).2 = b.execute c.toCommand := by
  cases c <;> first | rfl | exact orReplayError_snd ..

theorem applyEvent_snd (e : SequencedEvent) (b : OrderBook L) :
    (applyEvent e b).2 = b.run (acceptedCommands [e]) := by
  rw [applyEvent, acceptedCommands]
  cases hrejected : e.result.isRejected with
  | true => simp [hrejected, OrderBook.run]
  | false => simp [hrejected, OrderBook.run, applyCommand_snd]

/-- **A loop that succeeds** has read events without a gap from the expected number on, and left the
book of their accepted commands. -/
theorem replayInto_ok
    {items : List (Except JournalError (JournalEntry SequencerCommand SequencerResult))}
    {expected lastApplied count applied : ℕ} {b b' : OrderBook L}
    (h : replayInto items expected lastApplied count b = (.ok applied, b')) :
    ∃ events : List SequencedEvent, eventsOf items = events.map .ok ∧
      (events.map fun e => e.sequenceNum.toNat) = List.range' expected events.length ∧
      b' = b.run (acceptedCommands events) := by
  induction items generalizing expected lastApplied count b with
  | nil =>
    cases h
    exact ⟨[], rfl, rfl, rfl⟩
  | cons item items ih =>
    cases item with
    | error => cases h
    | ok entry =>
      rw [replayInto, bind_eq_ok] at h
      obtain ⟨u, b₁, hcheck, h⟩ := h
      obtain ⟨v, b₂, happly, h⟩ := bind_eq_ok.mp h
      have hnumber : entry.event.sequenceNum.toNat = expected ∧ b₁ = b := by
        rw [check] at hcheck
        split_ifs at hcheck with hne
        · cases hcheck
        · cases hcheck
          exact ⟨by simpa using hne, rfl⟩
      obtain ⟨hnumber, rfl⟩ := hnumber
      have hbook : b₂ = b₁.run (acceptedCommands [entry.event]) := by
        rw [← applyEvent_snd, happly]
      -- whatever the counters say, the rest of the items were replayed from the next number
      have htail : ∃ lastApplied count,
          replayInto items (expected + 1) lastApplied count b₂ = (.ok applied, b') := by
        cases hnext : checkedAdd64 expected 1 with
        | none =>
          rw [hnext] at h
          cases h
        | some =>
          obtain ⟨rfl, -⟩ := checkedAdd64_eq_some.mp hnext
          rw [hnext] at h
          dsimp only at h
          split_ifs at h
          · exact ⟨_, _, h⟩
          · cases hcount : checkedAdd64 count 1 with
            | none =>
              rw [hcount] at h
              cases h
            | some =>
              rw [hcount] at h
              exact ⟨_, _, h⟩
      obtain ⟨_, _, htail⟩ := htail
      obtain ⟨events, hevents, hnumbers, rfl⟩ := ih htail
      refine ⟨entry.event :: events, ?_, ?_, ?_⟩
      · rw [List.map_cons, ← hevents]
        rfl
      · rw [List.map_cons, hnumbers, hnumber, List.length_cons, List.range'_succ]
      · rw [hbook, OrderBook.run, OrderBook.run, OrderBook.run, ← List.foldl_append]
        congr 1
        rw [acceptedCommands, acceptedCommands, acceptedCommands, ← List.map_append,
          ← List.filter_append]
        rfl

end Loop

/-! ### Damaged segments -/

section Damage

variable {C R : Type} [Serde (SequencerEvent C R)] [Crc32] {original data : List UInt8}
  {offset next start : ℕ}

variable (C R) in
/-- From the entry at an offset the reader goes on to the next. -/
def LeadsTo (data : List UInt8) (offset next : ℕ) : Prop :=
  ∃ item, decodeNext C R data offset = some (item, next)

variable (C R) in
/-- At every place the reader of the original comes to from an offset on, the end included, bytes
that have room for an entry and the right checksum are what was there. -/
def UnforgedFrom (start : ℕ) (original data : List UInt8) : Prop :=
  ∀ offset, Relation.ReflTransGen (LeadsTo C R original) start offset →
    entryHeaderSize ≤ entryLength data offset → entryCrcValid data offset = true →
    (data.drop offset).take (4 + entryLength data offset) =
      (original.drop offset).take (4 + entryLength data offset)

variable (C R) in
/-- Every entry the reader of the original comes to from an offset on has the length field it had,
and the file still reaches to its end. -/
def LengthsKeptFrom (start : ℕ) (original data : List UInt8) : Prop :=
  ∀ offset, Relation.ReflTransGen (LeadsTo C R original) start offset →
    ∀ next, LeadsTo C R original offset next →
      entryLength data offset = entryLength original offset ∧ next ≤ data.length

theorem LeadsTo.unique (h : LeadsTo C R data offset next) (h' : LeadsTo C R data offset start) :
    next = start := by
  obtain ⟨_, hitem⟩ := h
  obtain ⟨_, hitem'⟩ := h'
  exact (Prod.mk.inj (Option.some.inj (hitem.symm.trans hitem'))).2

/-- What holds wherever the reader comes holds here and wherever it comes from the next entry on. -/
theorem forall_reached_iff {p : ℕ → Prop} (hnext : LeadsTo C R data offset next) :
    (∀ later, Relation.ReflTransGen (LeadsTo C R data) offset later → p later) ↔
      p offset ∧ ∀ later, Relation.ReflTransGen (LeadsTo C R data) next later → p later := by
  constructor
  · exact fun h => ⟨h offset .refl, fun later hlater => h later (.head hnext hlater)⟩
  · rintro ⟨hhere, hrest⟩ later hlater
    rcases hlater.cases_head with rfl | ⟨_, hbetween, hlater⟩
    · exact hhere
    · obtain rfl := hnext.unique hbetween
      exact hrest later hlater

theorem forall_reached_of_none {p : ℕ → Prop} (hend : decodeNext C R data offset = none) :
    (∀ later, Relation.ReflTransGen (LeadsTo C R data) offset later → p later) ↔ p offset := by
  refine ⟨fun h => h offset .refl, fun hhere later hlater => ?_⟩
  rcases hlater.cases_head with rfl | ⟨_, ⟨_, hitem⟩, -⟩
  · exact hhere
  · cases hend.symm.trans hitem

theorem lengthsKeptFrom_iff (hnext : LeadsTo C R original offset next) :
    LengthsKeptFrom C R offset original data ↔
      (entryLength data offset = entryLength original offset ∧ next ≤ data.length) ∧
        LengthsKeptFrom C R next original data := by
  refine (forall_reached_iff hnext).trans (and_congr_left fun _ => ?_)
  exact ⟨fun h => h next hnext, fun h next' hnext' => hnext.unique hnext' ▸ h⟩

/-- Behind the last entry no length field is left to keep. -/
theorem lengthsKeptFrom_of_none (hend : decodeNext C R original offset = none) :
    LengthsKeptFrom C R offset original data := by
  refine (forall_reached_of_none hend).mpr fun next hnext => ?_
  obtain ⟨_, hitem⟩ := hnext
  cases hend.symm.trans hitem

theorem valid_of_decodeNext {entry : JournalEntry C R}
    (h : decodeNext C R data offset = some (.ok entry, next)) :
    entryHeaderSize ≤ entryLength data offset ∧ entryCrcValid data offset = true := by
  rw [decodeNext] at h
  split_ifs at h with _ _ hinside hcrcSize hcrc hheader
  · cases h
  · rw [entryCrcValid, decide_eq_true_eq]
    exact ⟨Nat.le_of_not_lt hheader, Nat.le_of_not_lt hcrcSize, Nat.le_of_not_lt hinside,
      (not_not.mp hcrc).symm⟩

/-- An entry with room for its header that ends inside the file is read or refused. -/
theorem decodeNext_ne_none (hwide : entryHeaderSize ≤ entryLength data offset)
    (hinside : entryEnd data offset ≤ data.length) : decodeNext C R data offset ≠ none := by
  rw [entryEnd] at hinside
  rw [entryHeaderSize] at hwide
  rw [decodeNext, entryEnd, entryHeaderSize, entryCrcSize, if_neg (by omega), if_neg (by omega),
    if_neg (by omega), if_neg (by omega)]
  split_ifs
  · exact Option.some_ne_none _
  · omega
  · split <;> exact Option.some_ne_none _

variable [LawfulSerde (SequencerEvent C R)] {events : List (SequencerEvent C R)} {k : ℕ}

/-- An event read at the place of an entry is the one that was written there. -/
theorem UnforgedFrom.event_eq (h : UnforgedFrom C R offset original data)
    (hfits : ∀ e ∈ events, Fits e)
    (hdrop : original.drop offset = logBytes events ++ List.replicate k 0)
    {entry : JournalEntry C R} (hdecode : decodeNext C R data offset = some (.ok entry, next)) :
    ∃ e rest, events = e :: rest ∧ entry.event = e ∧ next = offset + (entryBytes e).length ∧
      entryLength data offset = entryLength original offset := by
  obtain ⟨hwide, hvalid⟩ := valid_of_decodeNext hdecode
  have hsame := h offset .refl hwide hvalid
  have hlength : entryLength data offset = entryLength original offset := by
    have hfield := congrArg (List.take 4) hsame
    rw [List.take_take, List.take_take, Nat.min_eq_left (Nat.le_add_right ..)] at hfield
    rw [entryLength, hfield, entryLength]
  rw [entryHeaderSize] at hwide
  cases events with
  | nil =>
    rw [hlength, entryLength_of_zeros (by simpa using hdrop)] at hwide
    omega
  | cons e rest =>
    rw [logBytes_cons, List.append_assoc] at hdrop
    obtain ⟨-, hend⟩ := intactAt_of_drop (hfits e (List.mem_cons_self ..)) hdrop
    have hsize : 4 + entryLength data offset = (entryBytes e).length := by
      rw [entryEnd] at hend
      omega
    have hbytes : data.drop offset =
        entryBytes e ++ (data.drop offset).drop (4 + entryLength data offset) := by
      conv_lhs => rw [← List.take_append_drop (4 + entryLength data offset) (data.drop offset)]
      rw [hsame, hsize, hdrop, List.take_left]
    obtain ⟨hintact, hnext⟩ := intactAt_of_drop (hfits e (List.mem_cons_self ..)) hbytes
    have hread := Option.some.inj (hdecode.symm.trans hintact.decodeNext_eq)
    obtain ⟨hentry, rfl⟩ := Prod.mk.inj hread
    exact ⟨e, rest, rfl, congrArg JournalEntry.event (Except.ok.inj hentry), hnext, hlength⟩

/-- **What the reader yields from a damaged segment**, if nothing in it is refused: the first of the
events that were written, and all of them exactly if the length fields were kept. -/
theorem readSegment_unforged (h : UnforgedFrom C R offset original data)
    (hfits : ∀ e ∈ events, Fits e)
    (hdrop : original.drop offset = logBytes events ++ List.replicate k 0)
    (hsafe : ∀ err, Except.error err ∉ eventsOf (readSegment C R data offset)) :
    ∃ kept rest, events = kept ++ rest ∧
      eventsOf (readSegment C R data offset) = kept.map .ok ∧
      (LengthsKeptFrom C R offset original data ↔ rest = []) := by
  induction events generalizing offset with
  | nil =>
    have hend : decodeNext C R original offset = none := by
      have hzero := entryLength_of_zeros (by simpa using hdrop : original.drop offset = _)
      rw [decodeNext, if_pos hzero, ite_self]
    refine ⟨[], [], rfl, ?_, iff_of_true (lengthsKeptFrom_of_none hend) rfl⟩
    cases hdecode : decodeNext C R data offset with
    | none => rw [readSegment_of_none hdecode]; rfl
    | some found =>
      obtain ⟨item, next⟩ := found
      rw [readSegment_of_some hdecode] at hsafe
      cases item with
      | error err => exact absurd (List.mem_cons_self ..) (hsafe err)
      | ok entry =>
        obtain ⟨_, _, hcons, -⟩ := h.event_eq hfits hdrop hdecode
        cases hcons
  | cons e events ih =>
    have htail := hdrop
    rw [logBytes_cons, List.append_assoc] at htail
    obtain ⟨hintact, hend⟩ := intactAt_of_drop (hfits e (List.mem_cons_self ..)) htail
    have hfollows : LeadsTo C R original offset (offset + (entryBytes e).length) :=
      ⟨_, hend ▸ hintact.decodeNext_eq⟩
    rw [lengthsKeptFrom_iff hfollows]
    cases hdecode : decodeNext C R data offset with
    | none =>
      rw [readSegment_of_none hdecode]
      refine ⟨[], e :: events, rfl, rfl, iff_of_false ?_ (List.cons_ne_nil _ _)⟩
      rintro ⟨⟨hlength, hinside⟩, -⟩
      refine decodeNext_ne_none (C := C) (R := R) ?_ ?_ hdecode
      · rw [hlength]
        exact hintact.wide
      · rw [entryEnd, hlength, ← entryEnd, hend]
        exact hinside
    | some found =>
      obtain ⟨item, next⟩ := found
      rw [readSegment_of_some hdecode] at hsafe ⊢
      cases item with
      | error err => exact absurd (List.mem_cons_self ..) (hsafe err)
      | ok entry =>
        obtain ⟨_, _, hcons, hevent, rfl, hlength⟩ := h.event_eq hfits hdrop hdecode
        obtain ⟨rfl, rfl⟩ := List.cons_eq_cons.mp hcons
        obtain ⟨kept, rest, rfl, hread, hkept⟩ := ih ((forall_reached_iff hfollows).mp h).2
          (List.forall_mem_cons.mp hfits).2 (drop_add_of_drop htail)
          fun err herr => hsafe err (List.mem_cons_of_mem _ herr)
        have hinside := (lt_of_decodeNext hdecode).2
        refine ⟨e :: kept, rest, rfl, ?_, ?_⟩
        · rw [List.map_cons, ← hread, ← hevent]
          rfl
        · rw [hkept, and_iff_right ⟨hlength, hinside⟩]

end Damage

/-! ### What is read -/

section Read

variable {C R : Type} {j : FileJournal C R} {sequence : ℕ}

/-- `r` is the journal `j` after its files got other contents. -/
structure FileJournal.Overwritten (j r : FileJournal C R) (contents : ℕ → List UInt8) : Prop where
  files : r.dir.entries = j.dir.entries.map fun file => (file.1, contents file.1)
  lastSeq : r.lastSeq = j.lastSeq

/-- A read always includes the newest file. -/
theorem FileJournal.mem_drop_startIndex {front : List (ℕ × List UInt8)}
    {file : ℕ × List UInt8} (hentries : j.dir.entries = front ++ [file]) :
    file ∈ j.dir.entries.drop (j.startIndex sequence) := by
  have hindex : j.startIndex sequence ≤ front.length := by
    rcases j.startIndex_le sequence with hzero | ⟨_, hentry, -⟩
    · omega
    · have hlt := (List.getElem?_eq_some_iff.mp hentry).1
      rw [hentries, List.length_append, List.length_singleton] at hlt
      omega
  rw [hentries, List.drop_append_of_le_length hindex]
  exact List.mem_append_right _ (List.mem_singleton_self _)

variable [Serde (SequencerEvent C R)] [Crc32] {older : List (Segment C R)} {active : Segment C R}

/-- A read yields the items of the files it goes through, except events before its start. -/
theorem FileJournal.mem_readFrom_iff {item : Except JournalError (SequencerEvent C R)} :
    item ∈ eventsOf (j.readFrom sequence) ↔
      (∃ file ∈ j.dir.entries.drop (j.startIndex sequence),
        item ∈ eventsOf (readSegment C R file.2 0)) ∧
      ∀ e, item = .ok e → sequence ≤ e.sequenceNum.toNat := by
  simp only [eventsOf, readFrom, List.mem_map, List.mem_filter, List.mem_flatMap]
  constructor
  · rintro ⟨entry, ⟨⟨file, hfile, hentry⟩, hnot⟩, rfl⟩
    refine ⟨⟨file, hfile, entry, hentry, rfl⟩, fun e he => ?_⟩
    cases entry with
    | error => cases he
    | ok entry =>
      obtain rfl := Except.ok.inj he
      exact of_decide_eq_true hnot
  · rintro ⟨⟨file, hfile, entry, hentry, rfl⟩, hle⟩
    refine ⟨entry, ⟨⟨file, hfile, hentry⟩, ?_⟩, rfl⟩
    cases entry with
    | error => rfl
    | ok entry => exact decide_eq_true (hle _ rfl)

variable {events : List (SequencerEvent C R)} {e final : SequencerEvent C R}
  (hevents : eventsOf (j.readFrom sequence) = events.map .ok)

include hevents

theorem mem_events_iff : e ∈ events ↔ Except.ok e ∈ eventsOf (j.readFrom sequence) := by
  rw [hevents, List.mem_map_of_injective fun _ _ => Except.ok.inj]

variable [LawfulSerde (SequencerEvent C R)] {whole : FileJournal C R} {contents : ℕ → List UInt8}
  (h : whole.Holds older active)
  (hunforged : ∀ file ∈ whole.dir.entries, UnforgedFrom C R 0 file.2 (contents file.1))

include h hunforged

/-- **What a read without errors finds in a damaged journal**: of each segment it goes through, the
first of the events that were written there. -/
theorem FileJournal.Holds.read_damaged {s : Segment C R} (hs : s ∈ older ++ [active])
    (hfile : (s.start, contents s.start) ∈ j.dir.entries.drop (j.startIndex sequence)) :
    ∃ kept rest, s.events = kept ++ rest ∧
      (∀ e, e ∈ kept ↔ Except.ok e ∈ eventsOf (readSegment C R (contents s.start) 0)) ∧
      (LengthsKeptFrom C R 0 (s.bytes whole.segmentSize) (contents s.start) ↔ rest = []) := by
  have hsafe : ∀ err, Except.error err ∉ eventsOf (readSegment C R (contents s.start) 0) := by
    intro err herr
    have hread := FileJournal.mem_readFrom_iff.mpr ⟨⟨_, hfile, herr⟩, fun e he => by cases he⟩
    rw [hevents] at hread
    obtain ⟨e, -, he⟩ := List.mem_map.mp hread
    cases he
  have hmem : (s.start, s.bytes whole.segmentSize) ∈ whole.dir.entries := by
    rw [h.dir_eq]
    exact List.mem_map_of_mem hs
  obtain ⟨kept, rest, hsplit, hread, hkept⟩ :=
    readSegment_unforged (hunforged _ hmem) (h.stored s hs).fits (s.bytes_eq _) hsafe
  refine ⟨kept, rest, hsplit, fun e => ?_, hkept⟩
  rw [hread, List.mem_map_of_injective fun _ _ => Except.ok.inj]

variable (hfiles : j.dir.entries = (older ++ [active]).map fun s => (s.start, contents s.start))

include hfiles

/-- An event that is read is one of those a segment kept. -/
theorem FileJournal.Holds.mem_damaged (he : e ∈ events) :
    ∃ s ∈ older ++ [active], ∃ kept rest, s.events = kept ++ rest ∧ e ∈ kept ∧
      (LengthsKeptFrom C R 0 (s.bytes whole.segmentSize) (contents s.start) ↔ rest = []) := by
  obtain ⟨⟨file, hfile, hin⟩, -⟩ := FileJournal.mem_readFrom_iff.mp ((mem_events_iff hevents).mp he)
  have hentry := List.mem_of_mem_drop hfile
  rw [hfiles] at hentry
  obtain ⟨s, hs, rfl⟩ := List.mem_map.mp hentry
  obtain ⟨kept, rest, hsplit, hkept, hiff⟩ := h.read_damaged hevents hunforged hs hfile
  exact ⟨s, hs, kept, rest, hsplit, (hkept e).mpr hin, hiff⟩

/-- The last event written is read only if its segment kept its length fields. -/
theorem FileJournal.Holds.lengths_of_last (hfinal : active.events.getLast? = some final)
    (he : e ∈ events)
    (hnumber : final.sequenceNum.toNat ≤ e.sequenceNum.toNat) :
    LengthsKeptFrom C R 0 (active.bytes whole.segmentSize) (contents active.start) := by
  obtain ⟨s, hs, kept, rest, hsplit, hkept, hiff⟩ := h.mem_damaged hevents hunforged hfiles he
  have hpairwise := List.pairwise_append.mp h.consecutive.pairwise_lt
  rcases List.mem_append.mp hs with hs | hs
  · have hin : e ∈ s.events := hsplit ▸ List.mem_append_left _ hkept
    have hlt := hpairwise.2.2 e (List.mem_flatMap.mpr ⟨s, hs, hin⟩) final
      (List.mem_of_getLast? hfinal)
    omega
  · obtain rfl := List.mem_singleton.mp hs
    refine hiff.mpr (by_contra fun hne => ?_)
    have hlater : final ∈ rest := by
      rw [hsplit, List.getLast?_append_of_ne_nil _ hne] at hfinal
      exact List.mem_of_getLast? hfinal
    have hordered := hpairwise.2.1
    rw [hsplit] at hordered
    have hlt := (List.pairwise_append.mp hordered).2.2 e hkept final hlater
    omega

end Read

/-! ### Completeness -/

section Complete

variable {L : Type} [PriceLevel L] [Serde SequencedEvent] [Crc32]
  {j : FileJournal SequencerCommand SequencerResult} {fromSequence lastSequence : ℕ}
  {symbol : String} {clock : Clock} {book : OrderBook L} {applied : ℕ}

/-- The replay read every event from the first number to the last, each once and in order, and the
book is that of their accepted commands. -/
def FileJournal.ReplaysAll (j : FileJournal SequencerCommand SequencerResult)
    (fromSequence lastSequence : ℕ) (fresh book : OrderBook L) : Prop :=
  ∃ events : List SequencedEvent, eventsOf (j.readFrom fromSequence) = events.map .ok ∧
    (events.map fun e => e.sequenceNum.toNat) =
      List.range' fromSequence (lastSequence + 1 - fromSequence) ∧
    book = fresh.run (acceptedCommands events)

/-- A replay that succeeds is complete exactly when it read the last number and not the one after
it. -/
theorem FileJournal.replaysAll_iff (hlast : j.lastSeq = some lastSequence)
    (hfrom : fromSequence ≤ lastSequence)
    (hok : replayFrom j fromSequence symbol clock = .ok (book, applied)) :
    ∃ events : List SequencedEvent, eventsOf (j.readFrom fromSequence) = events.map .ok ∧
      (j.ReplaysAll fromSequence lastSequence (OrderBook.withClock symbol clock) book ↔
        (∃ e ∈ events, e.sequenceNum.toNat = lastSequence) ∧
          ¬ ∃ e ∈ events, e.sequenceNum.toNat = lastSequence + 1) := by
  have hrun : replayInto (j.readFrom fromSequence) fromSequence 0 0
      (OrderBook.withClock symbol clock) = (.ok applied, book) := by
    have hpre : Journal.lastSequence j = some lastSequence := hlast
    rw [replayFrom, hpre] at hok
    dsimp only at hok
    rw [if_neg (Nat.not_lt.mpr hfrom), replayOnto] at hok
    rcases hinto : replayInto (Journal.readFrom j fromSequence) fromSequence 0 0
        (OrderBook.withClock symbol clock : OrderBook L) with ⟨err | last, b⟩
    · rw [hinto] at hok
      cases hok
    · rw [hinto] at hok
      cases hok
      rfl
  obtain ⟨events, hevents, hnumbers, hbook⟩ := replayInto_ok hrun
  have hread : ∀ {n}, fromSequence ≤ n →
      ((∃ e ∈ events, e.sequenceNum.toNat = n) ↔ n < fromSequence + events.length) := by
    intro n hn
    rw [← List.mem_map, hnumbers, List.mem_range'_1]
    omega
  refine ⟨events, hevents, ?_⟩
  rw [hread hfrom, hread (by omega)]
  constructor
  · rintro ⟨events', hevents', hnumbers', -⟩
    have hlen := congrArg List.length hnumbers'
    have hsame := congrArg List.length (hevents'.symm.trans hevents)
    rw [List.length_map, List.length_map] at hsame
    rw [List.length_map, List.length_range'] at hlen
    omega
  · rintro ⟨hreads, hstops⟩
    refine ⟨events, hevents, ?_, hbook⟩
    rw [hnumbers, show events.length = lastSequence + 1 - fromSequence by omega]

end Complete

/-! ### A journal of mass cancels -/

/-- A mass cancel on an empty book. -/
def cancelAllEvent (sequence timestamp : UInt64) : SequencedEvent :=
  ⟨sequence, timestamp, .cancelAll, .massCancelled []⟩

/-- A codec for events that cancelled nothing: their numbers, and as many zeros as the timestamp
says. -/
@[reducible] def cancelAllSerde : Serde SequencedEvent where
  toVec e :=
    if e = cancelAllEvent e.sequenceNum e.timestampNs then
      paddedSerde.toVec (paddedEvent e.sequenceNum e.timestampNs)
    else .error "not a mass cancel"
  fromSlice bytes :=
    (paddedSerde.fromSlice bytes).map fun e => cancelAllEvent e.sequenceNum e.command

theorem lawful_cancelAllSerde : @LawfulSerde _ cancelAllSerde := by
  refine @LawfulSerde.mk _ cancelAllSerde fun {e bytes} h => ?_
  change (if _ then _ else _) = _ at h
  split_ifs at h with he
  have hread := (@LawfulSerde.fromSlice_toVec _ paddedSerde lawful_paddedSerde) h
  show Except.map _ (paddedSerde.fromSlice bytes) = _
  rw [hread]
  exact congrArg Except.ok he.symm

/-- Two mass cancels. -/
def cancelAllTwice : FileJournal SequencerCommand SequencerResult :=
  letI := cancelAllSerde
  letI := byteSum
  FileJournal.run 100 [.append (cancelAllEvent 0 0), .append (cancelAllEvent 1 0)]

/-- The same with the length field of the second entry zeroed. -/
def cancelAllCutShort : FileJournal SequencerCommand SequencerResult :=
  { cancelAllTwice with
    dir := cancelAllTwice.dir.insert 0
      (overwrite ((cancelAllTwice.dir.get? 0).getD []) 48 [0, 0, 0, 0]) }

/-- The same with a byte behind the last entry changed, which no reader looks at. -/
def cancelAllScratched : FileJournal SequencerCommand SequencerResult :=
  { cancelAllTwice with
    dir := cancelAllTwice.dir.insert 0
      (overwrite ((cancelAllTwice.dir.get? 0).getD []) 98 [7]) }

/-- The entries of the one file of a journal, at the offsets they were written to. -/
theorem entries_cancelAllTwice :
    letI := cancelAllSerde
    letI := byteSum
    cancelAllTwice.dir.entries = [(0, (cancelAllTwice.dir.get? 0).getD [])] ∧
      decodeNext _ _ ((cancelAllTwice.dir.get? 0).getD []) 0 =
        some (.ok ⟨cancelAllEvent 0 0, 1⟩, 48) ∧
      decodeNext _ _ ((cancelAllTwice.dir.get? 0).getD []) 48 =
        some (.ok ⟨cancelAllEvent 1 0, 3⟩, 96) ∧
      decodeNext SequencerCommand SequencerResult ((cancelAllTwice.dir.get? 0).getD []) 96 =
        none := by
  decide +kernel

theorem readFrom_cancelAllCutShort :
    letI := cancelAllSerde
    letI := byteSum
    cancelAllCutShort.readFrom 0 = [.ok ⟨cancelAllEvent 0 0, 1⟩] := by
  let _ := cancelAllSerde
  let _ := byteSum
  have hfile : cancelAllCutShort.dir.entries = [(0, (cancelAllCutShort.dir.get? 0).getD [])] := by
    decide +kernel
  have hfirst : decodeNext _ _ ((cancelAllCutShort.dir.get? 0).getD []) 0 =
      some (.ok ⟨cancelAllEvent 0 0, 1⟩, 48) := by decide +kernel
  have hend : decodeNext SequencerCommand SequencerResult
      ((cancelAllCutShort.dir.get? 0).getD []) 48 = none := by decide +kernel
  rw [FileJournal.readFrom_zero, hfile, List.flatMap_singleton, readSegment_of_some hfirst,
    readSegment_of_none hend]

theorem readFrom_cancelAllScratched :
    letI := cancelAllSerde
    letI := byteSum
    cancelAllScratched.readFrom 0 =
      [.ok ⟨cancelAllEvent 0 0, 1⟩, .ok ⟨cancelAllEvent 1 0, 3⟩] := by
  let _ := cancelAllSerde
  let _ := byteSum
  have hfile : cancelAllScratched.dir.entries =
      [(0, (cancelAllScratched.dir.get? 0).getD [])] := by decide +kernel
  have hfirst : decodeNext _ _ ((cancelAllScratched.dir.get? 0).getD []) 0 =
      some (.ok ⟨cancelAllEvent 0 0, 1⟩, 48) := by decide +kernel
  have hsecond : decodeNext _ _ ((cancelAllScratched.dir.get? 0).getD []) 48 =
      some (.ok ⟨cancelAllEvent 1 0, 3⟩, 96) := by decide +kernel
  have hend : decodeNext SequencerCommand SequencerResult
      ((cancelAllScratched.dir.get? 0).getD []) 96 = none := by decide +kernel
  rw [FileJournal.readFrom_zero, hfile, List.flatMap_singleton, readSegment_of_some hfirst,
    readSegment_of_some hsecond, readSegment_of_none hend]

/-- A replay that reads these items succeeds. -/
theorem exists_replayFrom {j : FileJournal SequencerCommand SequencerResult} [Serde SequencedEvent]
    [Crc32] (hlast : j.lastSeq = some 1) {items}
    (hread : j.readFrom 0 = items) {applied : ℕ} {book : OrderBook FifoLevel}
    (hinto : replayInto items 0 0 0 (OrderBook.withClock "BTC" ⟨fun _ => 0, 0⟩) =
      (.ok applied, book)) :
    replayFrom j 0 "BTC" ⟨fun _ => 0, 0⟩ = .ok (book, applied) := by
  have hpre : Journal.lastSequence j = some 1 := hlast
  have hitems : Journal.readFrom j 0 = items := hread
  rw [replayFrom, hpre]
  dsimp only
  rw [if_neg (by decide), replayOnto, hitems, hinto]

theorem consecutive_cancelAllTwice : Consecutive (appended
    [.append (cancelAllEvent 0 0), .append (cancelAllEvent 1 0)]) := by
  rw [Consecutive, appended]
  decide

theorem fits_cancelAllTwice :
    letI := cancelAllSerde
    letI := byteSum
    ∀ e ∈ appended [.append (cancelAllEvent 0 0), .append (cancelAllEvent 1 0)],
      Fits e ∧ (entryBytes e).length ≤ 100 := by
  intro e he
  have hevents : e = cancelAllEvent 0 0 ∨ e = cancelAllEvent 1 0 := by
    simpa [appended] using he
  rcases hevents with rfl | rfl <;> exact ⟨⟨_, rfl, by decide⟩, by decide +kernel⟩

end OrderBookRs
