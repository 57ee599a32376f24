import OrderBookRs.Sequencer.Refinement

/-!
# Archiving segments

`archive_segments_before` goes by the number a segment starts with, while the events in it run up to
the start of the next one. A segment that starts below the number and ends at or above it is
archived with events that are still asked for.

## Main definitions

* `FileJournal.KeepsFrom`: reading from a number still gives all the events from there on.

## Main results

* `archive_keeps_iff`: archiving before a number keeps the events from it on exactly when the number
  does not fall between the starts of two neighbouring segments.
-/

namespace OrderBookRs

variable {C R : Type}

section Files

variable [Serde (SequencerEvent C R)] [Crc32] {e : SequencerEvent C R}

/-- After archiving before `n`, reading from `n` gives the events numbered `n` or more. -/
def FileJournal.KeepsFrom (j : FileJournal C R) (events : List (SequencerEvent C R))
    (n : ℕ) : Prop :=
  eventsOf ((j.archiveSegmentsBefore n).2.readFrom n) =
    (events.filter fun e => n ≤ e.sequenceNum.toNat).map .ok

omit [Serde (SequencerEvent C R)] [Crc32] in
/-- Leaving out segments that hold nothing asked for. -/
theorem filter_flatMap_filter {segments : List (Segment C R)} {keep : Segment C R → Bool}
    {asked : SequencerEvent C R → Bool}
    (h : ∀ s ∈ segments, keep s = false → ∀ e ∈ s.events, asked e = false) :
    ((segments.filter keep).flatMap Segment.events).filter asked =
      (segments.flatMap Segment.events).filter asked := by
  induction segments with
  | nil => rfl
  | cons s segments ih =>
    have htail := ih (List.forall_mem_cons.mp h).2
    rw [List.flatMap_cons, List.filter_append, ← htail]
    cases hkeep : keep s with
    | true => rw [List.filter_cons_of_pos hkeep, List.flatMap_cons, List.filter_append]
    | false =>
      have hnone : s.events.filter asked = [] := by
        rw [List.filter_eq_nil_iff]
        intro e he
        rw [h s (List.mem_cons_self ..) hkeep e he]
        decide
      rw [List.filter_cons_of_neg (by rw [hkeep]; decide), hnone, List.nil_append]

omit [Serde (SequencerEvent C R)] [Crc32] in
/-- Two segments that hold the same event are the same. -/
theorem Ordered.eq_of_mem {segments : List (Segment C R)} (hordered : Ordered segments)
    (habove : ∀ s ∈ segments, ∀ e ∈ s.events, s.start ≤ e.sequenceNum.toNat) {s t : Segment C R}
    (hs : s ∈ segments) (ht : t ∈ segments) (hes : e ∈ s.events) (het : e ∈ t.events) : s = t := by
  by_contra hne
  rcases List.mem_iff_getElem.mp hs with ⟨i, hi, rfl⟩
  rcases List.mem_iff_getElem.mp ht with ⟨k, hk, rfl⟩
  have hlt := List.pairwise_iff_getElem.mp hordered
  rcases Nat.lt_trichotomy i k with hik | rfl | hik
  · exact absurd (habove _ ht e het) (Nat.not_le.mpr (hlt i k hi hk hik e hes))
  · exact hne rfl
  · exact absurd (habove _ hs e hes) (Nat.not_le.mpr (hlt k i hk hi hik e het))

variable {j : FileJournal C R} {older : List (Segment C R)} {active : Segment C R} {n : ℕ}

/-- The segments `archive_segments_before` leaves. -/
def keptBefore (n : ℕ) (active s : Segment C R) : Bool := ¬ (s.start < n ∧ s.start ≠ active.start)

theorem FileJournal.Holds.archived_entries (h : j.Holds older active) (n : ℕ) :
    (j.archiveSegmentsBefore n).2.dir.entries =
      ((older ++ [active]).filter (keptBefore n active)).map
        fun s => (s.start, s.bytes j.segmentSize) := by
  show (j.dir.entries.filter fun e => ¬ (e.1 < n ∧ e.1 ≠ j.segmentStartSeq)) = _
  rw [h.dir_eq, List.filter_map, h.start_eq]
  rfl

omit [Serde (SequencerEvent C R)] [Crc32] in
/-- What is not kept is a closed segment that starts before the number. -/
theorem mem_older_of_dropped {s : Segment C R}
    (hs : s ∈ older ++ [active]) (hdropped : keptBefore n active s = false) :
    s ∈ older ∧ s.start < n := by
  rw [keptBefore, decide_eq_false_iff_not, not_not] at hdropped
  rcases List.mem_append.mp hs with hs | hs
  · exact ⟨hs, hdropped.1⟩
  · rw [List.mem_singleton.mp hs] at hdropped
    exact absurd rfl hdropped.2

/-- A closed segment's start is not that of the active one. -/
theorem FileJournal.Holds.start_ne (h : j.Holds older active) {s : Segment C R} (hs : s ∈ older) :
    s.start ≠ active.start := by
  obtain ⟨e, he⟩ := List.exists_mem_of_ne_nil _ (h.filled s hs)
  have habove := (h.stored s (List.mem_append_left _ hs)).above e he
  have hbelow :=
    (List.pairwise_append.mp h.ordered).2.2 s hs active (List.mem_singleton_self _) e he
  omega

/-- The number does not fall between the starts of two neighbours. -/
def NotBetween (n : ℕ) (starts : List ℕ) : Prop := starts.IsChain fun a b => ¬ (a < n ∧ n < b)

omit [Serde (SequencerEvent C R)] [Crc32] in
/-- A segment that starts before a number not between neighbours has no event from it on. -/
theorem lt_of_notBetween {older : List (Segment C R)} {active : Segment C R}
    (hordered : Ordered (older ++ [active]))
    (hn : NotBetween n ((older ++ [active]).map Segment.start)) {s : Segment C R} (hs : s ∈ older)
    (hstart : s.start < n) (he : e ∈ s.events) : e.sequenceNum.toNat < n := by
  obtain ⟨before, after, rfl⟩ := List.append_of_mem hs
  -- the neighbour on the right starts above the event and not above the number
  obtain ⟨t, rest, ht⟩ : ∃ t rest, after ++ [active] = t :: rest := by
    cases after with
    | nil => exact ⟨active, [], rfl⟩
    | cons t rest => exact ⟨t, rest ++ [active], rfl⟩
  have hsplit : before ++ s :: after ++ [active] = before ++ s :: t :: rest := by
    rw [List.append_assoc, List.cons_append, ht]
  rw [hsplit] at hordered hn
  have hbelow : e.sequenceNum.toNat < t.start :=
    (List.pairwise_cons.mp (List.pairwise_append.mp hordered).2.1).1 t (List.mem_cons_self ..) e he
  rw [NotBetween, List.map_append, List.map_cons, List.map_cons,
    List.isChain_append_cons_cons] at hn
  have hle := hn.2.1
  omega

/-- **Archiving before a number keeps the events from it on** exactly when the number does not fall
between the starts of two neighbouring segments. -/
theorem FileJournal.Holds.keepsFrom_iff [LawfulSerde (SequencerEvent C R)]
    (h : j.Holds older active) (n : ℕ) :
    j.KeepsFrom (eventsIn older active) n ↔ NotBetween n (j.dir.entries.map Prod.fst) := by
  have hstarts : j.dir.entries.map Prod.fst = (older ++ [active]).map Segment.start := by
    rw [h.dir_eq, List.map_map]
    rfl
  have hread := readFrom_segments (h.archived_entries n)
    (fun s hs => h.stored s (List.mem_of_mem_filter hs)) (h.ordered.filter _) n
  rw [KeepsFrom, hread, hstarts, ← Holds.flatMap_events]
  constructor
  · intro hsame
    rw [NotBetween, List.isChain_map, List.isChain_iff_forall_rel_of_append_cons_cons]
    rintro s t before after hsplit ⟨hlt, hgt⟩
    have hs : s ∈ older := by
      have hinit := congrArg List.dropLast hsplit
      rw [List.dropLast_concat, List.dropLast_append_of_ne_nil (List.cons_ne_nil _ _)] at hinit
      rw [hinit]
      exact List.mem_append_right _ (List.mem_cons_self ..)
    have hs' : s ∈ older ++ [active] := List.mem_append_left _ hs
    -- the last event of the archived segment is asked for
    obtain ⟨e, he⟩ : ∃ e, s.events.getLast? = some e :=
      ⟨_, List.getLast?_eq_some_getLast (h.filled s hs)⟩
    have hmem : e ∈ s.events := List.mem_of_getLast? he
    have hnext : t.start = e.sequenceNum.toNat + 1 :=
      List.isChain_iff_forall_rel_of_append_cons_cons.mp h.next hsplit e he
    have hasked : Except.ok e ∈ (((older ++ [active]).flatMap Segment.events).filter
        fun e => n ≤ e.sequenceNum.toNat).map (Except.ok : _ → Except JournalError _) :=
      List.mem_map_of_mem (List.mem_filter.mpr
        ⟨List.mem_flatMap.mpr ⟨s, hs', hmem⟩, decide_eq_true (by omega)⟩)
    rw [← hsame] at hasked
    obtain ⟨e', he', hok⟩ := List.mem_map.mp hasked
    obtain rfl := Except.ok.inj hok
    obtain ⟨s', hs'', hin⟩ := List.mem_flatMap.mp (List.mem_of_mem_filter he')
    obtain ⟨hkept, hpasses⟩ := List.mem_filter.mp hs''
    obtain rfl := h.ordered.eq_of_mem (fun s hs => (h.stored s hs).above) hs' hkept hmem hin
    rw [keptBefore, decide_eq_true_eq] at hpasses
    exact hpasses ⟨hlt, h.start_ne hs⟩
  · intro hn
    rw [filter_flatMap_filter]
    intro s hs hdropped e he
    obtain ⟨hs, hstart⟩ := mem_older_of_dropped hs hdropped
    have hlt := lt_of_notBetween h.ordered hn hs hstart he
    exact decide_eq_false (by omega)

/-- **Archiving keeps what replay still needs** exactly when the number does not fall between the
starts of two neighbouring segments, for every journal filled with consecutive numbers. -/
theorem archive_keeps_iff [LawfulSerde (SequencerEvent C R)] {steps : List (JournalStep C R)}
    {segmentSize : ℕ} (hconsecutive : Consecutive (appended steps))
    (hfits : ∀ e ∈ appended steps, Fits e ∧ (entryBytes e).length ≤ segmentSize) (n : ℕ) :
    (FileJournal.run segmentSize steps).KeepsFrom (appended steps) n ↔
      NotBetween n ((FileJournal.run segmentSize steps).dir.entries.map Prod.fst) := by
  obtain ⟨older, active, h, hevents⟩ := FileJournal.holds_run hconsecutive hfits
  rw [← hevents]
  exact h.keepsFrom_iff n

end Files

/-- Four events, two in a segment. -/
def fourEvents : List (JournalStep UInt64 Unit) :=
  [.append (paddedEvent 5 0), .append (paddedEvent 6 0), .append (paddedEvent 7 0),
    .append (paddedEvent 8 0)]

/-- The second segment starts at 7. -/
theorem fourEvents_keeps_from_seven :
    letI := paddedSerde
    letI := byteSum
    (FileJournal.run 100 fourEvents).KeepsFrom (appended fourEvents) 7 := by
  let _ := paddedSerde
  let _ := byteSum
  have hlawful := lawful_paddedSerde
  have hconsecutive : Consecutive (appended fourEvents) := by
    rw [Consecutive]
    decide
  have hfits : ∀ e ∈ appended fourEvents, Fits e ∧ (entryBytes e).length ≤ 100 := by
    intro e he
    obtain ⟨sequence, rfl⟩ : ∃ sequence, e = paddedEvent sequence 0 := by
      have hevents : e = paddedEvent 5 0 ∨ e = paddedEvent 6 0 ∨ e = paddedEvent 7 0 ∨
          e = paddedEvent 8 0 := by simpa [appended, fourEvents] using he
      rcases hevents with rfl | rfl | rfl | rfl <;> exact ⟨_, rfl⟩
    exact ⟨fits_paddedEvent (by decide), (length_entryBytes_paddedEvent (by decide)).le.trans
      (by decide)⟩
  have hstarts : (FileJournal.run 100 fourEvents).dir.entries.map Prod.fst = [0, 7] := by decide
  refine (archive_keeps_iff hconsecutive hfits 7).mpr ?_
  rw [hstarts, NotBetween]
  decide

/-- **The event numbered 6 is archived with its segment**, which starts at 0. -/
theorem fourEvents_loses_six :
    letI := paddedSerde
    letI := byteSum
    Consecutive (appended fourEvents) ∧
      ¬ (FileJournal.run 100 fourEvents).KeepsFrom (appended fourEvents) 6 := by
  let _ := paddedSerde
  let _ := byteSum
  have hlawful := lawful_paddedSerde
  refine ⟨by rw [Consecutive]; decide, fun hkeeps => ?_⟩
  -- only the segment that starts at 7 is left
  have hleft : ((FileJournal.run 100 fourEvents).archiveSegmentsBefore 6).2.dir.entries =
      [(⟨7, [paddedEvent 7 0, paddedEvent 8 0]⟩ : Segment UInt64 Unit)].map
        fun s => (s.start, s.bytes 100) := by decide +kernel
  have hstored : ∀ s ∈ [(⟨7, [paddedEvent 7 0, paddedEvent 8 0]⟩ : Segment UInt64 Unit)],
      s.Stored 100 := by
    intro s hs
    obtain rfl := List.mem_singleton.mp hs
    refine ⟨fun e he => ?_, by decide, by decide⟩
    obtain ⟨sequence, rfl⟩ : ∃ sequence, e = paddedEvent sequence 0 := by
      have hevents : e = paddedEvent 7 0 ∨ e = paddedEvent 8 0 := by simpa using he
      rcases hevents with rfl | rfl <;> exact ⟨_, rfl⟩
    exact fits_paddedEvent (by decide)
  rw [FileJournal.KeepsFrom,
    readFrom_segments hleft hstored (List.pairwise_singleton ..) 6] at hkeeps
  exact absurd hkeeps (by decide)

end OrderBookRs
