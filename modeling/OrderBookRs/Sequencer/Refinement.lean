import Mathlib.Data.List.Chain
import Mathlib.Data.List.TakeWhile
import OrderBookRs.Sequencer.PaddedEvents

/-!
# The file journal holds a list of events

What a directory of segments means: `FileJournal.Holds` relates a journal to the events in each of
its segments. The segments divide one list of consecutively numbered events, in order; every segment
is a run of encoded events followed by zeros, and is named so that its events are not below its
start and those of earlier segments are. Opening, appending and reopening keep the relation, and
under it the file journal answers like a journal that is the list.

## Main definitions

* `Segment`, `Consecutive`.
* `FileJournal.Holds`: the journal's segments hold these events.
* `JournalStep`, `FileJournal.run`, `InMemoryJournal.run`: appends with reopening in between.

## Main results

* `FileJournal.append_cases`: what an append does.
* `FileJournal.Holds.append`, `FileJournal.Holds.reopen`: the relation is kept.
* `FileJournal.Holds.readFrom_eq`, `FileJournal.Holds.verifyIntegrity_eq`: what it says of the
  answers.
* `file_refines_memory`: the file journal answers like the list.
-/

namespace OrderBookRs

open Fallible

variable {C R : Type}

/-- Each event carries the number after the one before it. -/
def Consecutive (events : List (SequencerEvent C R)) : Prop :=
  events.IsChain fun a b => b.sequenceNum.toNat = a.sequenceNum.toNat + 1

theorem Consecutive.pairwise_lt {events : List (SequencerEvent C R)} (h : Consecutive events) :
    events.Pairwise fun a b => a.sequenceNum.toNat < b.sequenceNum.toNat := by
  have hlt : events.IsChain fun a b => a.sequenceNum.toNat < b.sequenceNum.toNat :=
    h.imp fun a b hab => by omega
  have : IsTrans (SequencerEvent C R) fun a b => a.sequenceNum.toNat < b.sequenceNum.toNat :=
    ⟨fun _ _ _ h₁ h₂ => h₁.trans h₂⟩
  exact List.isChain_iff_pairwise.mp hlt

/-- No event is numbered above the last one. -/
theorem Consecutive.le_last {events : List (SequencerEvent C R)} {e final : SequencerEvent C R}
    (h : Consecutive events) (hfinal : events.getLast? = some final) (he : e ∈ events) :
    e.sequenceNum.toNat ≤ final.sequenceNum.toNat := by
  obtain ⟨front, rfl⟩ := List.getLast?_eq_some_iff.mp hfinal
  rcases List.mem_append.mp he with he | he
  · exact ((List.pairwise_append.mp h.pairwise_lt).2.2 e he final (List.mem_singleton_self _)).le
  · rw [List.mem_singleton.mp he]

/-- A segment: the number it is named by and the events in it. -/
structure Segment (C R : Type) where
  start : ℕ
  events : List (SequencerEvent C R)

/-! ### Searching and reading -/

theorem binarySearch_eq_ok {keys : List ℕ} {i key : ℕ} (h : binarySearch keys key = .ok i) :
    keys[i]? = some key := by
  rw [binarySearch] at h
  split_ifs at h with hfound
  rwa [Except.ok.inj h] at hfound

/-- The key before the place a missing key would go to is below it. -/
theorem binarySearch_eq_error {keys : List ℕ} {i key : ℕ}
    (h : binarySearch keys key = .error (i + 1)) :
    ∃ k, keys[i]? = some k ∧ k < key := by
  rw [binarySearch] at h
  split_ifs at h
  have hlen : (keys.takeWhile (· < key)).length = i + 1 := Except.error.inj h
  have hi : i < (keys.takeWhile (· < key)).length := by omega
  refine ⟨(keys.takeWhile (· < key))[i], ?_, ?_⟩
  · have hsplit := List.takeWhile_append_dropWhile (p := fun x => decide (x < key)) (l := keys)
    rw [← List.getElem?_eq_getElem hi]
    conv_lhs => rw [← hsplit]
    exact List.getElem?_append_left hi
  · simpa using List.mem_takeWhile_imp (List.getElem_mem hi)

/-- `read_from` starts with the first segment, or with one that does not start above the number. -/
theorem FileJournal.startIndex_le (j : FileJournal C R) (sequence : ℕ) :
    j.startIndex sequence = 0 ∨
      ∃ e, j.dir.entries[j.startIndex sequence]? = some e ∧ e.1 ≤ sequence := by
  have hkeys : ∀ {i key : ℕ}, (j.dir.entries.map Prod.fst)[i]? = some key → key ≤ sequence →
      ∃ e : ℕ × List UInt8, j.dir.entries[i]? = some e ∧ e.1 ≤ sequence := by
    intro i key hkey hle
    rw [List.getElem?_map, Option.map_eq_some_iff] at hkey
    obtain ⟨e, he, rfl⟩ := hkey
    exact ⟨e, he, hle⟩
  rw [startIndex]
  cases hsearch : binarySearch (j.dir.entries.map Prod.fst) sequence with
  | ok => exact Or.inr (hkeys (binarySearch_eq_ok hsearch) le_rfl)
  | error i =>
    cases i with
    | zero => exact Or.inl rfl
    | succ =>
      obtain ⟨key, hkey, hlt⟩ := binarySearch_eq_error hsearch
      exact Or.inr (hkeys hkey hlt.le)

theorem eventsOf_append (items items' : List (Except JournalError (JournalEntry C R))) :
    eventsOf (items ++ items') = eventsOf items ++ eventsOf items' := List.map_append

/-- Skipping among items that are all events. -/
theorem eventsOf_filter {items : List (Except JournalError (JournalEntry C R))}
    {events : List (SequencerEvent C R)} (h : eventsOf items = events.map .ok) (start : ℕ) :
    eventsOf (items.filter (notBefore start)) =
      (events.filter fun e => start ≤ e.sequenceNum.toNat).map .ok := by
  induction items generalizing events with
  | nil =>
    cases events with
    | nil => rfl
    | cons => cases h
  | cons item items ih =>
    cases events with
    | nil => cases h
    | cons e es =>
      obtain ⟨hitem, hitems⟩ := List.cons_eq_cons.mp h
      cases item with
      | error => cases hitem
      | ok entry =>
        obtain rfl : entry.event = e := Except.ok.inj hitem
        by_cases hle : start ≤ entry.event.sequenceNum.toNat
        · rw [List.filter_cons_of_pos (by simpa [notBefore] using hle),
            List.filter_cons_of_pos (by simpa using hle), List.map_cons, ← ih hitems]
          rfl
        · rw [List.filter_cons_of_neg (by simpa [notBefore] using hle),
            List.filter_cons_of_neg (by simpa using hle), ih hitems]

section Files

variable [Serde (SequencerEvent C R)] [Crc32]

/-- The file of a segment: its entries, then zeros up to the size. -/
def Segment.bytes (size : ℕ) (s : Segment C R) : List UInt8 :=
  logBytes s.events ++ List.replicate (size - (logBytes s.events).length) 0

/-! ### What an append does -/

namespace FileJournal

variable {j : FileJournal C R} {e : SequencerEvent C R} {bytes : List UInt8}

/-- The journal with a fresh segment. -/
def rotated (j : FileJournal C R) (startSeq : ℕ) : FileJournal C R :=
  { j with
    dir := j.dir.insert startSeq (List.replicate j.segmentSize 0)
    writer := ⟨startSeq, 0, j.segmentSize⟩
    segmentStartSeq := startSeq }

/-- The journal with an entry written at the write position. -/
def written (j : FileJournal C R) (sequence : ℕ) (bytes : List UInt8) : FileJournal C R :=
  { j with
    dir := j.dir.insert j.writer.path
      (overwrite ((j.dir.get? j.writer.path).getD []) j.writer.writePos bytes)
    writer := { j.writer with writePos := j.writer.writePos + bytes.length }
    lastSeq := some sequence }

omit [Serde (SequencerEvent C R)] [Crc32] in
/-- What a rotation does: fail before the file is opened, fail with an empty file in place, or
rotate. -/
theorem rotateSegment_cases (faults : Faults) (m : ℕ) (j : FileJournal C R) :
    ((faults .flush).isSome ∨ (faults .openFile).isSome) ∧
        (∃ err, rotateSegment faults m j = (.error err, j)) ∨
      ¬ ((faults .flush).isSome ∨ (faults .openFile).isSome) ∧
        (((faults .setLen).isSome ∨ (faults .map).isSome ∨ (faults .startLock).isSome) ∧
          (∃ err j' k, rotateSegment faults m j = (.error err, j') ∧
            j'.segmentSize = j.segmentSize ∧ j'.dir = j.dir.insert m (List.replicate k 0)) ∨
        ¬ ((faults .setLen).isSome ∨ (faults .map).isSome ∨ (faults .startLock).isSome) ∧
          rotateSegment faults m j = (.ok (), j.rotated m)) := by
  simp only [rotateSegment, bind_run, get_run]
  cases hflush : faults .flush with
  | some => simp [system_of_some hflush]
  | none =>
  cases hopen : faults .openFile with
  | some => simp [system_of_none hflush, system_of_some hopen]
  | none =>
  simp only [system_of_none hflush, system_of_none hopen, modify_run]
  cases hlen : faults .setLen with
  | some =>
    simp only [system_of_some hlen]
    exact Or.inr ⟨by simp, Or.inl ⟨by simp, _, _, 0, rfl, rfl, rfl⟩⟩
  | none =>
  simp only [system_of_none hlen, SortedMap.insert_insert]
  cases hmap : faults .map with
  | some =>
    simp only [system_of_some hmap]
    exact Or.inr ⟨by simp, Or.inl ⟨by simp, _, _, j.segmentSize, rfl, rfl, rfl⟩⟩
  | none =>
  simp only [system_of_none hmap]
  cases hlock : faults .startLock with
  | some =>
    simp only [lock_of_some hlock]
    exact Or.inr ⟨by simp, Or.inl ⟨by simp, _, _, j.segmentSize, rfl, rfl, rfl⟩⟩
  | none =>
    simp only [lock_of_none hlock]
    exact Or.inr ⟨by simp, Or.inr ⟨by simp, rfl⟩⟩

theorem append_of_error {err : JournalError} (henc : encodeEntry e = .error err) :
    append e j = (.error err, j) := by
  have hlift : (lift (encodeEntry e) : Fallible JournalError (FileJournal C R) _) j =
      (.error err, j) := by rw [lift_run, henc]
  exact bind_run_of_error hlift

/-- The end of an append: the entry is too large, or it is copied, whatever fails after that. -/
theorem appendUnder_of_rotated {faults : Faults} (henc : encodeEntry e = .ok bytes)
    (hlock : faults .writerLock = none) {j₁ : FileJournal C R}
    (hrotate : rotateIfFull faults e.sequenceNum.toNat bytes.length j = (.ok (), j₁)) :
    j₁.writer.remaining < bytes.length ∧
        appendUnder faults e j = (.error (.entryTooLarge bytes.length j₁.segmentSize), j₁) ∨
      bytes.length ≤ j₁.writer.remaining ∧
        (faults .flushRange = none → faults .lastLock = none →
          appendUnder faults e j = (.ok (), j₁.written e.sequenceNum.toNat bytes)) ∧
        ∀ err j', appendUnder faults e j = (.error err, j') →
          j'.segmentSize = j₁.segmentSize ∧
          j'.dir = (j₁.written e.sequenceNum.toNat bytes).dir := by
  have hlift : (lift (encodeEntry e) : Fallible JournalError (FileJournal C R) _) j =
      (.ok bytes, j) := by rw [lift_run, henc]
  rw [appendUnder, bind_run_of_ok hlift, bind_run_of_ok (lock_of_none hlock j),
    bind_run_of_ok hrotate, bind_run_of_ok (get_run j₁)]
  by_cases hroom : j₁.writer.remaining < bytes.length
  · rw [decide_eq_true hroom, bind_run_of_error (check_true_run ..)]
    exact Or.inl ⟨hroom, rfl⟩
  have hcapacity : ¬ j₁.writer.capacity < j₁.writer.writePos + bytes.length := by
    obtain ⟨payload, -, -, rfl⟩ := encodeEntry_eq_ok.mp henc
    rw [SegmentWriter.remaining, length_entryFrame] at hroom
    rw [length_entryFrame]
    omega
  refine Or.inr ⟨Nat.le_of_not_lt hroom, ?_⟩
  rw [decide_eq_false hroom, bind_run_of_ok (check_false_run ..)]
  simp only [bind_run, writeEntry, get_run, modify_run, decide_eq_false hcapacity, check_false_run]
  cases hflush : faults .flushRange with
  | some =>
    simp only [system_of_some hflush]
    refine ⟨fun h => (by cases h), fun err j' h => ?_⟩
    obtain ⟨-, rfl⟩ := Prod.mk.inj h
    exact ⟨rfl, rfl⟩
  | none =>
  simp only [system_of_none hflush]
  cases hlast : faults .lastLock with
  | some =>
    simp only [lock_of_some hlast]
    refine ⟨fun _ h => (by cases h), fun err j' h => ?_⟩
    obtain ⟨-, rfl⟩ := Prod.mk.inj h
    exact ⟨rfl, rfl⟩
  | none =>
    simp only [lock_of_none hlast]
    exact ⟨fun _ _ => rfl, fun err j' h => by cases h⟩

/-- **What an append does**: fail to encode, write to the active segment, write to a fresh one, or
fail with the fresh segment in place. -/
theorem append_cases (e : SequencerEvent C R) (j : FileJournal C R) :
    (∃ err, encodeEntry e = .error err ∧ append e j = (.error err, j)) ∨
      ∃ bytes, encodeEntry e = .ok bytes ∧
        (bytes.length ≤ j.writer.remaining ∧
            append e j = (.ok (), j.written e.sequenceNum.toNat bytes) ∨
          j.writer.remaining < bytes.length ∧ bytes.length ≤ j.segmentSize ∧
            append e j = (.ok (),
              (j.rotated e.sequenceNum.toNat).written e.sequenceNum.toNat bytes) ∨
          j.writer.remaining < bytes.length ∧ j.segmentSize < bytes.length ∧
            append e j = (.error (.entryTooLarge bytes.length j.segmentSize),
              j.rotated e.sequenceNum.toNat)) := by
  cases henc : encodeEntry e with
  | error err => exact Or.inl ⟨err, rfl, append_of_error henc⟩
  | ok bytes =>
    refine Or.inr ⟨bytes, rfl, ?_⟩
    by_cases hroom : j.writer.remaining < bytes.length
    · have hrotate : rotateIfFull (fun _ => none) e.sequenceNum.toNat bytes.length j =
          (.ok (), j.rotated e.sequenceNum.toNat) := by
        rw [rotateIfFull, if_pos hroom]
        rcases rotateSegment_cases (fun _ => none) e.sequenceNum.toNat j with
          ⟨h, -⟩ | ⟨-, ⟨h, -⟩ | ⟨-, hrun⟩⟩
        · simp at h
        · simp at h
        · exact hrun
      rcases appendUnder_of_rotated henc rfl hrotate with ⟨hlarge, hrun⟩ | ⟨hfits, hrun, -⟩
      · exact Or.inr (Or.inr ⟨hroom, hlarge, hrun⟩)
      · exact Or.inr (Or.inl ⟨hroom, hfits, hrun rfl rfl⟩)
    · have hrotate : rotateIfFull (fun _ => none) e.sequenceNum.toNat bytes.length j =
          (.ok (), j) := by
        rw [rotateIfFull, if_neg hroom]
      rcases appendUnder_of_rotated henc rfl hrotate with ⟨hlarge, -⟩ | ⟨hfits, hrun, -⟩
      · exact absurd hlarge hroom
      · exact Or.inl ⟨hfits, hrun rfl rfl⟩

end FileJournal

/-! ### What a directory holds -/

/-- The events of a segment are encodable, fit its size and are not below its start. -/
structure Segment.Stored (size : ℕ) (s : Segment C R) : Prop where
  fits : ∀ e ∈ s.events, Fits e
  room : (logBytes s.events).length ≤ size
  above : ∀ e ∈ s.events, s.start ≤ e.sequenceNum.toNat

section Reading

variable {size : ℕ} {s : Segment C R}

theorem Segment.length_bytes (h : s.Stored size) : (s.bytes size).length = size := by
  have hroom := h.room
  rw [Segment.bytes, List.length_append, List.length_replicate]
  omega

theorem Segment.bytes_eq (size : ℕ) (s : Segment C R) : (s.bytes size).drop 0 =
    logBytes s.events ++ List.replicate (size - (logBytes s.events).length) 0 := rfl

/-- Behind the entries of a segment there are zeros. -/
theorem Segment.drop_bytes (size : ℕ) (s : Segment C R) :
    (s.bytes size).drop (0 + (logBytes s.events).length) =
      List.replicate (size - (logBytes s.events).length) 0 := by
  rw [Nat.zero_add, Segment.bytes, List.drop_left]

variable [LawfulSerde (SequencerEvent C R)]

theorem Segment.readSegment_eq (h : s.Stored size) :
    eventsOf (readSegment C R (s.bytes size) 0) = s.events.map .ok := by
  rw [readSegment_log h.fits (s.bytes_eq size),
    EndsAt.readSegment_eq (Or.inr (entryLength_of_zeros (s.drop_bytes size)))]
  exact List.append_nil _

theorem Segment.verifySegment_eq (h : s.Stored size) : verifySegment (s.bytes size) 0 = .ok () := by
  rw [verifySegment_log h.fits (s.bytes_eq size)]
  exact EndsAt.verifySegment_eq (Or.inr (entryLength_of_zeros (s.drop_bytes size)))

theorem Segment.openExisting_eq (h : s.Stored size) :
    SegmentWriter.openExisting s.start (s.bytes size) =
      ⟨s.start, (logBytes s.events).length, size⟩ := by
  rw [SegmentWriter.openExisting,
    scanWritePosition_log h.fits (s.bytes_eq size),
    scanWritePosition_zeros (s.drop_bytes size), Segment.length_bytes h, Nat.zero_add]

theorem Segment.scanLastSequence_eq (h : s.Stored size) :
    scanLastSequence (s.bytes size) (logBytes s.events).length 0 none =
      s.events.getLast?.map fun e => e.sequenceNum.toNat := by
  have hscan := scanLastSequence_log h.fits (s.bytes_eq size) none
  rwa [Nat.zero_add, Option.or_none] at hscan

end Reading

/-- Reading from zero yields every item of every segment. -/
theorem FileJournal.readFrom_zero (j : FileJournal C R) :
    j.readFrom 0 = j.dir.entries.flatMap fun e => readSegment C R e.2 0 := by
  have hindex : j.startIndex 0 = 0 := by
    have hnone : (j.dir.entries.map Prod.fst).takeWhile (fun key => decide (key < 0)) = [] := by
      rw [List.takeWhile_eq_nil_iff]
      exact fun _ => by simp
    rw [startIndex, binarySearch]
    simp only [hnone, List.length_nil]
    split_ifs <;> rfl
  have hall : ∀ item : Except JournalError (JournalEntry C R), notBefore 0 item = true := by
    intro item
    cases item with
    | ok entry => exact decide_eq_true (Nat.zero_le entry.event.sequenceNum.toNat)
    | error => rfl
  rw [readFrom, hindex, List.drop_zero, List.filter_eq_self]
  exact fun item _ => hall item

/-- Segments in order: those of a segment are below the starts of the later ones. -/
def Ordered (segments : List (Segment C R)) : Prop :=
  segments.Pairwise fun s t => ∀ e ∈ s.events, e.sequenceNum.toNat < t.start

omit [Serde (SequencerEvent C R)] in
/-- A journal is intact iff each of its segments is. -/
theorem FileJournal.verifyIntegrity_eq_ok {j : FileJournal C R} :
    j.verifyIntegrity = .ok () ↔ ∀ e ∈ j.dir.entries, verifySegment e.2 0 = .ok () := by
  rw [verifyIntegrity]
  generalize j.dir.entries = entries
  induction entries with
  | nil => exact iff_of_true rfl fun e he => by cases he
  | cons e entries ih =>
    rw [List.forall_mem_cons, ← ih]
    show (verifySegment e.2 0 >>= fun _ => entries.forM fun e => verifySegment e.2 0) = _ ↔ _
    cases verifySegment e.2 0 with
    | error => exact iff_of_false (fun h => by cases h) fun h => by cases h.1
    | ok => exact ⟨fun h => ⟨rfl, h⟩, fun h => h.2⟩

section Answers

variable [LawfulSerde (SequencerEvent C R)] {j : FileJournal C R} {size : ℕ}
  {segments : List (Segment C R)}

/-- **Reading from a number** gives the events not below it, in order. -/
theorem readFrom_segments
    (hdir : j.dir.entries = segments.map fun s => (s.start, s.bytes size))
    (hstored : ∀ s ∈ segments, s.Stored size) (hordered : Ordered segments) (sequence : ℕ) :
    eventsOf (j.readFrom sequence) = ((segments.flatMap Segment.events).filter
      fun e => sequence ≤ e.sequenceNum.toNat).map .ok := by
  have hread : ∀ segs : List (Segment C R), (∀ s ∈ segs, s.Stored size) →
      eventsOf ((segs.map fun s => (s.start, s.bytes size)).flatMap
        fun e => readSegment C R e.2 0) = (segs.flatMap Segment.events).map .ok := by
    intro segs hsegs
    induction segs with
    | nil => rfl
    | cons s segs ih =>
      rw [List.map_cons, List.flatMap_cons, eventsOf_append,
        Segment.readSegment_eq (hsegs s (List.mem_cons_self ..)),
        ih fun t ht => hsegs t (List.mem_cons_of_mem _ ht), ← List.map_append, List.flatMap_cons]
  -- what the start index skips is below the number
  have hskipped : ((segments.take (j.startIndex sequence)).flatMap Segment.events).filter
      (fun e => sequence ≤ e.sequenceNum.toNat) = [] := by
    rw [List.filter_eq_nil_iff]
    intro e he
    obtain ⟨s, hs, he⟩ := List.mem_flatMap.mp he
    rcases j.startIndex_le sequence with hzero | ⟨entry, hentry, hle⟩
    · rw [hzero] at hs
      cases hs
    · rw [hdir, List.getElem?_map, Option.map_eq_some_iff] at hentry
      obtain ⟨t, ht, rfl⟩ := hentry
      have hmem : t ∈ segments.drop (j.startIndex sequence) :=
        List.mem_of_getElem? (i := 0) (by rwa [List.getElem?_drop, Nat.add_zero])
      rw [Ordered, ← List.take_append_drop (j.startIndex sequence) segments,
        List.pairwise_append] at hordered
      have hlt := hordered.2.2 s hs t hmem e he
      simp only [decide_eq_true_eq]
      omega
  rw [FileJournal.readFrom, hdir, ← List.map_drop,
    eventsOf_filter (hread _ fun s hs => hstored s (List.mem_of_mem_drop hs))]
  conv_rhs => rw [← List.take_append_drop (j.startIndex sequence) segments]
  rw [List.flatMap_append, List.filter_append, hskipped, List.nil_append]

theorem verifyIntegrity_segments
    (hdir : j.dir.entries = segments.map fun s => (s.start, s.bytes size))
    (hstored : ∀ s ∈ segments, s.Stored size) : j.verifyIntegrity = .ok () := by
  rw [FileJournal.verifyIntegrity_eq_ok, hdir]
  intro entry hentry
  obtain ⟨s, hs, rfl⟩ := List.mem_map.mp hentry
  exact Segment.verifySegment_eq (hstored s hs)

end Answers

/-! ### What a journal holds -/

/-- The events of some closed segments and of the one being written. -/
def eventsIn (older : List (Segment C R)) (active : Segment C R) : List (SequencerEvent C R) :=
  older.flatMap Segment.events ++ active.events

/-- **The journal's segments hold these events**: `older` the closed segments, `active` the one
being written. -/
structure FileJournal.Holds (j : FileJournal C R) (older : List (Segment C R))
    (active : Segment C R) : Prop where
  dir_eq : j.dir.entries = (older ++ [active]).map fun s => (s.start, s.bytes j.segmentSize)
  writer_eq : j.writer = ⟨active.start, (logBytes active.events).length, j.segmentSize⟩
  start_eq : j.segmentStartSeq = active.start
  last_eq : j.lastSeq = (eventsIn older active).getLast?.map fun e => e.sequenceNum.toNat
  stored : ∀ s ∈ older ++ [active], s.Stored j.segmentSize
  ordered : Ordered (older ++ [active])
  /-- A segment starts where the one before it ended. -/
  next : (older ++ [active]).IsChain fun s t =>
    ∀ e ∈ s.events.getLast?, t.start = e.sequenceNum.toNat + 1
  first : ∀ s ∈ (older ++ [active]).head?, s.start = 0
  filled : ∀ s ∈ older, s.events ≠ []
  fresh : active.events = [] → older = []
  consecutive : Consecutive (eventsIn older active)

namespace FileJournal.Holds

variable {j : FileJournal C R} {older : List (Segment C R)} {active : Segment C R}
  {e : SequencerEvent C R}

section Events

omit [Serde (SequencerEvent C R)] [Crc32]

theorem flatMap_events (older : List (Segment C R)) (active : Segment C R) :
    (older ++ [active]).flatMap Segment.events = eventsIn older active := by
  rw [eventsIn, List.flatMap_append, List.flatMap_singleton]

theorem mem_eventsIn {s : Segment C R} (hs : s ∈ older ++ [active]) (he : e ∈ s.events) :
    e ∈ eventsIn older active := by
  rw [← flatMap_events]
  exact List.mem_flatMap.mpr ⟨s, hs, he⟩

/-- A number that continues the events is above all of theirs. -/
theorem lt_of_consecutive (hnext : Consecutive (eventsIn older active ++ [e])) {s : Segment C R}
    (hs : s ∈ older ++ [active]) {e' : SequencerEvent C R} (he' : e' ∈ s.events) :
    e'.sequenceNum.toNat < e.sequenceNum.toNat :=
  (List.pairwise_append.mp hnext.pairwise_lt).2.2 e' (mem_eventsIn hs he') e
    (List.mem_singleton_self e)

/-- Writing over zeros. -/
theorem overwrite_zeros (log bytes : List UInt8) {k : ℕ} :
    overwrite (log ++ List.replicate k 0) log.length bytes =
      log ++ bytes ++ List.replicate (k - bytes.length) 0 := by
  rw [overwrite, List.take_left, ← List.drop_drop, List.drop_left, List.drop_replicate]

end Events

variable (h : j.Holds older active)

include h

theorem active_stored : active.Stored j.segmentSize :=
  h.stored active (List.mem_append_right _ (List.mem_singleton_self _))

/-- An event that continues the journal is not below the start of the active segment. -/
theorem start_le (hnext : Consecutive (eventsIn older active ++ [e])) :
    active.start ≤ e.sequenceNum.toNat := by
  cases hactive : active.events with
  | nil =>
    have hfirst := h.first active
    rw [h.fresh hactive] at hfirst
    rw [hfirst rfl]
    exact Nat.zero_le _
  | cons e' es =>
    have he' : e' ∈ active.events := by rw [hactive]; exact List.mem_cons_self ..
    have hlt := lt_of_consecutive hnext (List.mem_append_right _ (List.mem_singleton_self _)) he'
    exact (h.active_stored.above e' he').trans hlt.le

/-- **An entry that fits the active segment** is added to it. -/
theorem written (hfits : Fits e) (hroom : (entryBytes e).length ≤ j.writer.remaining)
    (hnext : Consecutive (eventsIn older active ++ [e])) :
    (j.written e.sequenceNum.toNat (entryBytes e)).Holds older
      { active with events := active.events ++ [e] } := by
  have hlog : logBytes (active.events ++ [e]) = logBytes active.events ++ entryBytes e := by
    rw [logBytes_append, logBytes_cons, logBytes_nil, List.append_nil]
  have hsize : (logBytes active.events).length + (entryBytes e).length ≤ j.segmentSize := by
    have hle := h.active_stored.room
    have hleft : j.writer.remaining = j.segmentSize - (logBytes active.events).length := by
      rw [h.writer_eq]
      rfl
    omega
  have hentries := h.dir_eq
  rw [List.map_append, List.map_singleton] at hentries
  have hget : j.dir.get? active.start = some (active.bytes j.segmentSize) := by
    rw [← SortedMap.mem_entries_iff, hentries]
    exact List.mem_append_right _ (List.mem_singleton_self _)
  have hevents : eventsIn older { active with events := active.events ++ [e] } =
      eventsIn older active ++ [e] := by
    rw [eventsIn, eventsIn, List.append_assoc]
  refine ⟨?_, ?_, h.start_eq, ?_, ?_, ?_, ?_, ?_, h.filled, fun hnil => ?_, hevents ▸ hnext⟩
  · rw [List.map_append, List.map_singleton]
    refine SortedMap.entries_insert_last _ (by rw [h.writer_eq]; exact hentries) |>.trans ?_
    rw [h.writer_eq, hget, Option.getD_some, Segment.bytes, overwrite_zeros, Segment.bytes, hlog,
      List.length_append, Nat.sub_add_eq]
    rfl
  · rw [FileJournal.written, h.writer_eq, hlog, List.length_append]
  · rw [hevents, List.getLast?_append]
    rfl
  · intro s hs
    rcases List.mem_append.mp hs with hs | hs
    · exact h.stored s (List.mem_append_left _ hs)
    · obtain rfl := List.mem_singleton.mp hs
      refine ⟨?_, by rw [hlog, List.length_append]; exact hsize, ?_⟩
      · intro e' he'
        rcases List.mem_append.mp he' with he' | he'
        · exact h.active_stored.fits e' he'
        · rwa [List.mem_singleton.mp he']
      · intro e' he'
        rcases List.mem_append.mp he' with he' | he'
        · exact h.active_stored.above e' he'
        · rw [List.mem_singleton.mp he']
          exact h.start_le hnext
  · have hordered := List.pairwise_append.mp h.ordered
    refine List.pairwise_append.mpr ⟨hordered.1, List.pairwise_singleton .., fun s hs t ht => ?_⟩
    obtain rfl := List.mem_singleton.mp ht
    exact hordered.2.2 s hs active (List.mem_singleton_self _)
  · have hchain := List.isChain_append.mp h.next
    refine List.isChain_append.mpr ⟨hchain.1, List.isChain_singleton _, fun s hs t ht => ?_⟩
    obtain rfl := Option.some.inj ht
    exact hchain.2.2 s hs active rfl
  · have hfirst := h.first
    cases older with
    | nil =>
      intro s hs
      obtain rfl := Option.some.inj hs
      exact hfirst active rfl
    | cons => exact hfirst
  · exact absurd hnil (List.append_ne_nil_of_right_ne_nil _ (List.cons_ne_nil e []))

/-- **An entry that does not fit the active segment** starts a new one. -/
theorem rotated_written (hfits : Fits e) (hactive : active.events ≠ [])
    (hroom : (entryBytes e).length ≤ j.segmentSize)
    (hnext : Consecutive (eventsIn older active ++ [e])) :
    ((j.rotated e.sequenceNum.toNat).written e.sequenceNum.toNat (entryBytes e)).Holds
      (older ++ [active]) ⟨e.sequenceNum.toNat, [e]⟩ := by
  have hlog : logBytes [e] = entryBytes e := by rw [logBytes_cons, logBytes_nil, List.append_nil]
  have hnonempty : ∀ s ∈ older ++ [active], s.events ≠ [] := by
    intro s hs
    rcases List.mem_append.mp hs with hs | hs
    · exact h.filled s hs
    · rwa [List.mem_singleton.mp hs]
  -- every segment so far starts below the new one
  have hstarts : ∀ entry ∈ j.dir.entries, entry.1 < e.sequenceNum.toNat := by
    rw [h.dir_eq]
    intro entry hentry
    obtain ⟨s, hs, rfl⟩ := List.mem_map.mp hentry
    obtain ⟨e', he'⟩ := List.exists_mem_of_ne_nil _ (hnonempty s hs)
    exact ((h.stored s hs).above e' he').trans_lt (lt_of_consecutive hnext hs he')
  have hrotated := SortedMap.entries_insert_of_forall_lt (List.replicate j.segmentSize (0 : UInt8))
    hstarts
  have hget : (j.dir.insert e.sequenceNum.toNat (List.replicate j.segmentSize 0)).get?
      e.sequenceNum.toNat = some (List.replicate j.segmentSize 0) := SortedMap.get?_insert_self ..
  have hevents : eventsIn (older ++ [active]) ⟨e.sequenceNum.toNat, [e]⟩ =
      eventsIn older active ++ [e] := by
    rw [eventsIn, flatMap_events]
  have hlast : active.events.getLast? = (eventsIn older active).getLast? := by
    rw [eventsIn, List.getLast?_append_of_ne_nil _ hactive]
  refine ⟨?_, ?_, rfl, ?_, ?_, ?_, ?_, ?_, hnonempty, fun hnil => ?_, hevents ▸ hnext⟩
  · rw [List.map_append, List.map_singleton, FileJournal.written]
    refine (SortedMap.entries_insert_last _ hrotated).trans ?_
    have hbytes : overwrite (List.replicate j.segmentSize 0) 0 (entryBytes e) =
        entryBytes e ++ List.replicate (j.segmentSize - (entryBytes e).length) 0 :=
      overwrite_zeros [] (entryBytes e)
    rw [h.dir_eq, FileJournal.rotated, hget, Option.getD_some, hbytes, Segment.bytes, hlog]
  · rw [FileJournal.written, FileJournal.rotated, hlog, Nat.zero_add]
  · rw [hevents, List.getLast?_append]
    rfl
  · intro s hs
    rcases List.mem_append.mp hs with hs | hs
    · exact h.stored s hs
    · obtain rfl := List.mem_singleton.mp hs
      refine ⟨fun e' he' => ?_, by rw [hlog]; exact hroom, fun e' he' => ?_⟩
      · rwa [List.mem_singleton.mp he']
      · rw [List.mem_singleton.mp he']
  · refine List.pairwise_append.mpr ⟨h.ordered, List.pairwise_singleton .., fun s hs t ht => ?_⟩
    obtain rfl := List.mem_singleton.mp ht
    exact fun e' he' => lt_of_consecutive hnext hs he'
  · refine List.isChain_append.mpr ⟨h.next, List.isChain_singleton _, fun s hs t ht => ?_⟩
    obtain rfl := Option.some.inj ht
    rw [List.getLast?_append] at hs
    obtain rfl : active = s := Option.some.inj hs
    intro e' he'
    rw [hlast] at he'
    exact (List.isChain_append.mp hnext).2.2 e' he' e rfl
  · have hfirst := h.first
    cases older with
    | nil | cons => exact hfirst
  · exact absurd hnil (List.cons_ne_nil e [])

/-- **An append adds the event**, in the active segment or in a new one. -/
theorem append (hfits : Fits e) (hsize : (entryBytes e).length ≤ j.segmentSize)
    (hnext : Consecutive (eventsIn older active ++ [e])) :
    ∃ j' older' active', FileJournal.append e j = (.ok (), j') ∧
      j'.segmentSize = j.segmentSize ∧ j'.Holds older' active' ∧
      eventsIn older' active' = eventsIn older active ++ [e] := by
  obtain ⟨-, -, -, -, henc⟩ := hfits.encodeEntry_eq
  rcases append_cases e j with ⟨err, herr, -⟩ | ⟨bytes, hok, hcases⟩
  · rw [herr] at henc
    cases henc
  obtain rfl : entryBytes e = bytes := Except.ok.inj (henc.symm.trans hok)
  rcases hcases with ⟨hroom, hrun⟩ | ⟨hfull, -, hrun⟩ | ⟨-, hlarge, -⟩
  · exact ⟨_, _, _, hrun, rfl, h.written hfits hroom hnext, by
      rw [eventsIn, eventsIn, List.append_assoc]⟩
  · have hactive : active.events ≠ [] := by
      intro hnil
      rw [h.writer_eq, hnil] at hfull
      exact absurd hfull (by simpa [SegmentWriter.remaining] using hsize)
    exact ⟨_, _, _, hrun, rfl, h.rotated_written hfits hactive hsize hnext, by
      rw [eventsIn, flatMap_events]⟩
  · omega

/-- The last number is that of the active segment, which is empty only if the journal is. -/
theorem getLast?_eq : (eventsIn older active).getLast? = active.events.getLast? := by
  by_cases hactive : active.events = []
  · rw [eventsIn, h.fresh hactive]
    rfl
  · rw [eventsIn, List.getLast?_append_of_ne_nil _ hactive]

section Lawful

variable [LawfulSerde (SequencerEvent C R)]

/-- **Reopening finds the journal as it was left.** -/
theorem reopen : openWithSegmentSize j.dir j.segmentSize = j := by
  have hlast : j.dir.entries.getLast? = some (active.start, active.bytes j.segmentSize) := by
    rw [h.dir_eq, List.map_append, List.map_singleton, List.getLast?_append]
    rfl
  have hopen := Segment.openExisting_eq h.active_stored
  have hscan := Segment.scanLastSequence_eq h.active_stored
  have hnumber : j.lastSeq = active.events.getLast?.map fun e => e.sequenceNum.toNat := by
    rw [h.last_eq, h.getLast?_eq]
  rw [openWithSegmentSize, hlast]
  dsimp only
  rw [hopen]
  dsimp only
  rw [hscan, ← hnumber, ← h.writer_eq, ← h.start_eq]

theorem readFrom_eq (sequence : ℕ) : eventsOf (j.readFrom sequence) =
    ((eventsIn older active).filter fun e => sequence ≤ e.sequenceNum.toNat).map .ok := by
  rw [readFrom_segments h.dir_eq h.stored h.ordered sequence, flatMap_events]

theorem verifyIntegrity_eq : j.verifyIntegrity = .ok () :=
  verifyIntegrity_segments h.dir_eq h.stored

end Lawful

end FileJournal.Holds

/-! ### Runs -/

/-- Append an event, or close the journal and open it again. -/
inductive JournalStep (C R : Type)
  | append (e : SequencerEvent C R)
  | reopen

/-- The events a run appends. -/
def appended (steps : List (JournalStep C R)) : List (SequencerEvent C R) :=
  steps.filterMap fun
    | .append e => some e
    | .reopen => none

/-- One step of a file journal; a failed append leaves the state it failed in. -/
def FileJournal.perform (j : FileJournal C R) : JournalStep C R → FileJournal C R
  | .append e => (FileJournal.append e j).2
  | .reopen => openWithSegmentSize j.dir j.segmentSize

/-- A file journal in an empty directory, after some steps. -/
def FileJournal.run (segmentSize : ℕ) (steps : List (JournalStep C R)) : FileJournal C R :=
  steps.foldl perform (openWithSegmentSize ∅ segmentSize)

/-- One step of an in-memory journal, which is not closed. -/
def InMemoryJournal.perform (j : InMemoryJournal C R) : JournalStep C R → InMemoryJournal C R
  | .append e => (InMemoryJournal.append e j).2
  | .reopen => j

/-- An in-memory journal after some steps. -/
def InMemoryJournal.run (steps : List (JournalStep C R)) : InMemoryJournal C R :=
  steps.foldl perform {}

omit [Serde (SequencerEvent C R)] [Crc32] in
theorem InMemoryJournal.events_run (steps : List (JournalStep C R)) :
    (InMemoryJournal.run steps).events = appended steps := by
  have hrun : ∀ (j : InMemoryJournal C R), (steps.foldl perform j).events =
      j.events ++ appended steps := by
    induction steps with
    | nil => exact fun j => (List.append_nil _).symm
    | cons step steps ih =>
      intro j
      rw [List.foldl_cons, ih]
      cases step with
      | append e => exact List.append_assoc j.events [e] (appended steps)
      | reopen => rfl
  exact hrun {}

theorem FileJournal.holds_open (segmentSize : ℕ) :
    (openWithSegmentSize ∅ segmentSize : FileJournal C R).Holds [] ⟨0, []⟩ where
  dir_eq := by
    rw [List.nil_append, List.map_singleton, Segment.bytes, logBytes_nil]
    rfl
  writer_eq := rfl
  start_eq := rfl
  last_eq := rfl
  stored := by
    intro s hs
    obtain rfl := List.mem_singleton.mp hs
    exact ⟨fun e he => (by cases he), Nat.zero_le _, fun e he => (by cases he)⟩
  ordered := List.pairwise_singleton ..
  next := List.isChain_singleton _
  first := by
    intro s hs
    rw [← Option.some.inj hs]
  filled := fun s hs => by cases hs
  fresh := fun _ => rfl
  consecutive := List.isChain_nil

section Run

variable [LawfulSerde (SequencerEvent C R)] {steps : List (JournalStep C R)} {segmentSize : ℕ}

/-- A step keeps the relation and adds what it appends. -/
theorem FileJournal.Holds.perform {j : FileJournal C R} {older : List (Segment C R)}
    {active : Segment C R} (h : j.Holds older active) {step : JournalStep C R}
    (hfits : ∀ e ∈ appended [step], Fits e ∧ (entryBytes e).length ≤ j.segmentSize)
    (hnext : Consecutive (eventsIn older active ++ appended [step])) :
    ∃ older' active', (j.perform step).segmentSize = j.segmentSize ∧
      (j.perform step).Holds older' active' ∧
      eventsIn older' active' = eventsIn older active ++ appended [step] := by
  cases step with
  | append e =>
    have he := hfits e (List.mem_singleton_self e)
    obtain ⟨j', older', active', hrun, hsize, hholds, hevents⟩ := h.append he.1 he.2 hnext
    refine ⟨older', active', ?_, ?_, hevents⟩
    · rw [FileJournal.perform, hrun]
      exact hsize
    · rw [FileJournal.perform, hrun]
      exact hholds
  | reopen =>
    have hsame : j.perform .reopen = j := h.reopen
    rw [hsame]
    exact ⟨older, active, rfl, h, (List.append_nil _).symm⟩

/-- **A journal that took appends and reopenings holds what was appended.** -/
theorem FileJournal.holds_run (hconsecutive : Consecutive (appended steps))
    (hfits : ∀ e ∈ appended steps, Fits e ∧ (entryBytes e).length ≤ segmentSize) :
    ∃ older active, (FileJournal.run segmentSize steps).Holds older active ∧
      eventsIn older active = appended steps := by
  -- the journal reached so far holds what was appended so far
  have hrun : ∀ (j : FileJournal C R) older active, j.segmentSize = segmentSize →
      j.Holds older active → Consecutive (eventsIn older active ++ appended steps) →
      ∃ older' active', (steps.foldl FileJournal.perform j).Holds older' active' ∧
        eventsIn older' active' = eventsIn older active ++ appended steps := by
    clear hconsecutive
    induction steps with
    | nil => exact fun j older active _ h _ => ⟨older, active, h, (List.append_nil _).symm⟩
    | cons step steps ih =>
      intro j older active hsize h hnext
      have hsplit : appended (step :: steps) = appended [step] ++ appended steps :=
        List.filterMap_append (l := [step])
      rw [hsplit, ← List.append_assoc] at hnext
      obtain ⟨older', active', hsize', h', hevents⟩ := h.perform
        (fun e he => by
          rw [hsize]
          exact hfits e (hsplit ▸ List.mem_append_left _ he))
        hnext.left_of_append
      obtain ⟨older'', active'', h'', hevents'⟩ := ih
        (fun e he => hfits e (hsplit ▸ List.mem_append_right _ he)) (j.perform step) older' active'
        (hsize'.trans hsize) h' (hevents ▸ hnext)
      exact ⟨older'', active'', h'', by rw [hevents', hevents, hsplit, List.append_assoc]⟩
  exact hrun _ [] ⟨0, []⟩ rfl (FileJournal.holds_open segmentSize) hconsecutive

/-- **The file journal refines the in-memory journal.** For events with consecutive numbers whose
payloads the length field can hold, a segment size at least that of the largest entry and any
reopening in between, both journals give the same events from every number on and the same last
number, and the file journal verifies. -/
theorem file_refines_memory (hconsecutive : Consecutive (appended steps))
    (hsize : ∀ e ∈ appended steps, ∀ bytes, encodeEntry e = .ok bytes → bytes.length ≤ segmentSize)
    (hfits : ∀ e ∈ appended steps, Fits e) :
    (∀ sequence, eventsOf ((FileJournal.run segmentSize steps).readFrom sequence) =
        eventsOf ((InMemoryJournal.run steps).readFrom sequence)) ∧
      (FileJournal.run segmentSize steps).lastSeq = (InMemoryJournal.run steps).lastSequence ∧
      (FileJournal.run segmentSize steps).verifyIntegrity = .ok () := by
  have hbounded : ∀ e ∈ appended steps, Fits e ∧ (entryBytes e).length ≤ segmentSize := by
    intro e he
    obtain ⟨-, -, -, -, henc⟩ := (hfits e he).encodeEntry_eq
    exact ⟨hfits e he, hsize e he _ henc⟩
  obtain ⟨older, active, h, hevents⟩ := FileJournal.holds_run hconsecutive hbounded
  refine ⟨fun sequence => ?_, ?_, h.verifyIntegrity_eq⟩
  · rw [h.readFrom_eq, hevents, InMemoryJournal.readFrom, InMemoryJournal.events_run, eventsOf,
      List.map_map]
    rfl
  · rw [h.last_eq, hevents, InMemoryJournal.lastSequence, InMemoryJournal.events_run]

end Run

/-- A journal with one entry reads its one segment. -/
theorem FileJournal.readFrom_run_append {e : SequencerEvent C R} {bytes : List UInt8}
    {segmentSize : ℕ} (henc : encodeEntry e = .ok bytes) (hsize : bytes.length ≤ segmentSize) :
    (FileJournal.run segmentSize [.append e]).readFrom 0 =
      readSegment C R (bytes ++ List.replicate (segmentSize - bytes.length) 0) 0 := by
  have hopen := FileJournal.holds_open (C := C) (R := R) segmentSize
  have hrun : (FileJournal.append e (openWithSegmentSize ∅ segmentSize)).2 =
      (openWithSegmentSize ∅ segmentSize).written e.sequenceNum.toNat bytes := by
    rcases append_cases e (openWithSegmentSize ∅ segmentSize) with ⟨err, herr, -⟩ | ⟨_, hok, hcases⟩
    · rw [herr] at henc
      cases henc
    obtain rfl := Except.ok.inj (henc.symm.trans hok)
    rcases hcases with ⟨-, hrun⟩ | ⟨hfull, -, -⟩ | ⟨hfull, -, -⟩
    · rw [hrun]
    · rw [hopen.writer_eq] at hfull
      exact absurd hfull (Nat.not_lt.mpr hsize)
    · rw [hopen.writer_eq] at hfull
      exact absurd hfull (Nat.not_lt.mpr hsize)
  have hfirst : (openWithSegmentSize ∅ segmentSize : FileJournal C R).dir.entries =
      [] ++ [(0, List.replicate segmentSize 0)] := rfl
  have hentries : ((openWithSegmentSize ∅ segmentSize : FileJournal C R).written
      e.sequenceNum.toNat bytes).dir.entries =
      [(0, overwrite (List.replicate segmentSize 0) 0 bytes)] :=
    SortedMap.entries_insert_last _ hfirst
  have hbytes : overwrite (List.replicate segmentSize 0) 0 bytes =
      bytes ++ List.replicate (segmentSize - bytes.length) 0 := Holds.overwrite_zeros [] bytes
  rw [FileJournal.run, List.foldl_cons, List.foldl_nil, FileJournal.perform, hrun, readFrom_zero,
    hentries, hbytes, List.flatMap_singleton]

end Files

/-- Three events of 48 bytes over segments of 100 bytes, with the journal reopened in between. -/
theorem file_refines_memory_three :
    letI := paddedSerde
    letI := byteSum
    eventsOf ((FileJournal.run 100 [.append (paddedEvent 5 0), .reopen, .append (paddedEvent 6 0),
        .append (paddedEvent 7 0)]).readFrom 6) =
      [.ok (paddedEvent 6 0), .ok (paddedEvent 7 0)] := by
  let _ := paddedSerde
  let _ := byteSum
  have hlawful := lawful_paddedSerde
  have hfits : ∀ e ∈ appended [.append (paddedEvent 5 0), .reopen, .append (paddedEvent 6 0),
      .append (paddedEvent 7 0)], Fits e := by
    intro e he
    have hevents : e = paddedEvent 5 0 ∨ e = paddedEvent 6 0 ∨ e = paddedEvent 7 0 := by
      simpa [appended] using he
    rcases hevents with rfl | rfl | rfl <;> exact fits_paddedEvent (by decide)
  have hsize : ∀ e ∈ appended [.append (paddedEvent 5 0), .reopen, .append (paddedEvent 6 0),
      .append (paddedEvent 7 0)], ∀ bytes, encodeEntry e = .ok bytes → bytes.length ≤ 100 := by
    intro e he bytes henc
    obtain ⟨payload, hvec, -, rfl⟩ := encodeEntry_eq_ok.mp henc
    have hcommand : e.command = 0 := by
      have hevents : e = paddedEvent 5 0 ∨ e = paddedEvent 6 0 ∨ e = paddedEvent 7 0 := by
        simpa [appended] using he
      rcases hevents with rfl | rfl | rfl <;> rfl
    rw [length_entryFrame, length_toVec hvec, hcommand]
    decide
  have hconsecutive : Consecutive (appended [.append (paddedEvent 5 0), .reopen,
      .append (paddedEvent 6 0), .append (paddedEvent 7 0)]) := by
    rw [Consecutive, appended]
    decide
  exact ((file_refines_memory hconsecutive hsize hfits).1 6).trans (by decide)

/-- **A payload of more than four gigabytes is read back as an error**, though its append succeeded
and the segment is large enough. -/
theorem file_refines_memory_oversize :
    letI := paddedSerde
    letI := byteSum
    let steps : List (JournalStep UInt64 Unit) := [.append (paddedEvent 0 4294967296)]
    Consecutive (appended steps) ∧
      (∀ e ∈ appended steps, ∀ bytes, encodeEntry e = .ok bytes → bytes.length ≤ 4294967344) ∧
      eventsOf ((FileJournal.run 4294967344 steps).readFrom 0) ≠
        eventsOf ((InMemoryJournal.run steps).readFrom 0) := by
  let _ := paddedSerde
  let _ := byteSum
  have hdelimited := delimited_paddedSerde
  obtain ⟨payload, hvec⟩ : ∃ payload, Serde.toVec (paddedEvent 0 4294967296) = .ok payload :=
    ⟨_, rfl⟩
  have hpadding : (4294967296 : UInt64).toNat = 4294967296 := by decide
  have hlen : payload.length = 4294967320 := by
    rw [length_toVec hvec]
    show 24 + (4294967296 : UInt64).toNat = _
    rw [hpadding]
  have hlength : payload.length % 2 ^ 32 + 20 ≤ u32Max := by
    rw [hlen]
    decide
  have henc := encodeEntry_eq_ok.mpr ⟨payload, hvec, hlength, rfl⟩
  have hsize : (entryFrame (payload.length % 2 ^ 32 + 20) (paddedEvent 0 4294967296)
      payload).length = 4294967344 := by
    rw [length_entryFrame, hlen]
  intro steps
  refine ⟨List.isChain_singleton _, fun e he bytes hbytes => ?_, fun hsame => ?_⟩
  · obtain rfl := List.mem_singleton.mp he
    rw [henc] at hbytes
    rw [← Except.ok.inj hbytes, hsize]
  · rw [FileJournal.readFrom_run_append henc hsize.le] at hsame
    have hdrop : ∀ rest, (entryFrame (payload.length % 2 ^ 32 + 20) (paddedEvent 0 4294967296)
        payload ++ rest).drop 0 = entryFrame (payload.length % 2 ^ 32 + 20)
          (paddedEvent 0 4294967296) payload ++ rest := fun rest => rfl
    obtain ⟨err, next, hdecode⟩ := decodeNext_of_oversize hvec (by rw [hlen]; decide) hlength
      (hdrop _)
    rw [readSegment_of_some hdecode] at hsame
    exact absurd (List.cons_eq_cons.mp hsame).1 (by rintro ⟨⟩)

end OrderBookRs
