import OrderBookRs.Sequencer.Archive
import OrderBookRs.Sequencer.ReplayComplete

/-!
# Appends that fail

An append fails because the event cannot be encoded, because its entry is larger than a segment, or
because a call to the operating system or to a lock fails. What the failure leaves on disk depends
on how far the append got. At first nothing is touched. Once a fresh segment was created, an empty
file stays under the number of the event that was refused: reopening takes the last number from the
newest segment alone and finds none there; and if the number is an old one, the new file hides or
replaces part of what was stored. Once the entry was copied, the refused event is in the journal.

## Main definitions

* `AppendProgress`, `appendProgress`: how far an append gets.
* `FileJournal.Undamaged`: a journal reopened after a failed append answers as before.

## Main results

* `FileJournal.appendUnder_error`: what a failed append leaves on disk.
* `failed_append_undamaged_iff`: a failed append does no damage exactly when it touched nothing,
  left a fresh segment in an empty journal, or wrote a file again as it was.
-/

namespace OrderBookRs

open Fallible

/-! ### How far an append gets -/

/-- What an append has done to the directory when it can fail no more or fails. -/
inductive AppendProgress
  | untouched | fresh | copied
  deriving DecidableEq, Repr

section Progress

variable {C R : Type} [Serde (SequencerEvent C R)] [Crc32]

/-- How far an append gets: nothing is touched, a fresh segment was created, or the entry was
copied. -/
def appendProgress (faults : Faults) (e : SequencerEvent C R) (j : FileJournal C R) :
    AppendProgress :=
  match encodeEntry e with
  | .error _ => .untouched
  | .ok bytes =>
    if (faults .writerLock).isSome then .untouched
    else if bytes.length ≤ j.writer.remaining then .copied
    else if (faults .flush).isSome ∨ (faults .openFile).isSome then .untouched
    else if (faults .setLen).isSome ∨ (faults .map).isSome ∨ (faults .startLock).isSome ∨
        j.segmentSize < bytes.length then .fresh
    else .copied

namespace FileJournal

variable {faults : Faults} {e : SequencerEvent C R} {j j' : FileJournal C R} {err : JournalError}

/-- **What a failed append leaves on disk**, by how far it got. -/
theorem appendUnder_error (h : appendUnder faults e j = (.error err, j')) :
    j'.segmentSize = j.segmentSize ∧
      match appendProgress faults e j with
      | .untouched => j'.dir = j.dir
      | .fresh => ∃ k, j'.dir = j.dir.insert e.sequenceNum.toNat (List.replicate k 0)
      | .copied => (encodeEntry e = .ok (entryBytes e)) ∧
        ((entryBytes e).length ≤ j.writer.remaining ∧
            j'.dir = (j.written e.sequenceNum.toNat (entryBytes e)).dir ∨
          j.writer.remaining < (entryBytes e).length ∧ (entryBytes e).length ≤ j.segmentSize ∧
            j'.dir = ((j.rotated e.sequenceNum.toNat).written e.sequenceNum.toNat
              (entryBytes e)).dir) := by
  cases henc : encodeEntry e with
  | error err' =>
    have hlift : (lift (encodeEntry e) : Fallible JournalError (FileJournal C R) _) j =
        (.error err', j) := by rw [lift_run, henc]
    rw [appendUnder, bind_run_of_error hlift] at h
    obtain ⟨-, rfl⟩ := Prod.mk.inj h
    simp only [appendProgress, henc, and_self]
  | ok bytes =>
    have hlift : (lift (encodeEntry e) : Fallible JournalError (FileJournal C R) _) j =
        (.ok bytes, j) := by rw [lift_run, henc]
    have hbytes := entryBytes_of_ok henc
    cases hlock : faults .writerLock with
    | some =>
      rw [appendUnder, bind_run_of_ok hlift, bind_run_of_error (lock_of_some hlock j)] at h
      obtain ⟨-, rfl⟩ := Prod.mk.inj h
      simp [appendProgress, henc, hlock]
    | none =>
    simp only [appendProgress, henc, hlock, Option.isSome_none, Bool.false_eq_true,
      if_false, hbytes, true_and]
    by_cases hroom : bytes.length ≤ j.writer.remaining
    · have hrotate : rotateIfFull faults e.sequenceNum.toNat bytes.length j = (.ok (), j) := by
        rw [rotateIfFull, if_neg (Nat.not_lt.mpr hroom)]
      rw [if_pos hroom]
      rcases appendUnder_of_rotated henc hlock hrotate with ⟨hlt, -⟩ | ⟨-, -, hcopied⟩
      · omega
      · exact ⟨(hcopied err j' h).1, Or.inl ⟨hroom, (hcopied err j' h).2⟩⟩
    · have hfull := Nat.lt_of_not_le hroom
      have hrotate : rotateIfFull faults e.sequenceNum.toNat bytes.length j =
          rotateSegment faults e.sequenceNum.toNat j := by rw [rotateIfFull, if_pos hfull]
      rw [if_neg hroom]
      rcases rotateSegment_cases faults e.sequenceNum.toNat j with
        ⟨hearly, err', hrun⟩ | ⟨hearly, ⟨hlate, err', j₁, k, hrun, hsize, hdir⟩ | ⟨hlate, hrun⟩⟩
      · rw [appendUnder, bind_run_of_ok hlift, bind_run_of_ok (lock_of_none hlock j),
          bind_run_of_error (hrotate.trans hrun)] at h
        obtain ⟨-, rfl⟩ := Prod.mk.inj h
        rw [if_pos hearly]
        exact ⟨rfl, rfl⟩
      · rw [appendUnder, bind_run_of_ok hlift, bind_run_of_ok (lock_of_none hlock j),
          bind_run_of_error (hrotate.trans hrun)] at h
        obtain ⟨-, rfl⟩ := Prod.mk.inj h
        rw [if_neg hearly, if_pos (by tauto)]
        exact ⟨hsize, k, hdir⟩
      · rw [if_neg hearly]
        rcases appendUnder_of_rotated henc hlock (hrotate.trans hrun) with
          ⟨hlarge, hrun⟩ | ⟨hfits, -, hcopied⟩
        · obtain ⟨-, rfl⟩ := Prod.mk.inj (hrun.symm.trans h)
          have hlarge : j.segmentSize < bytes.length := hlarge
          rw [if_pos (Or.inr (Or.inr (Or.inr hlarge)))]
          exact ⟨rfl, j.segmentSize, rfl⟩
        · have hnotLarge : ¬ j.segmentSize < bytes.length := Nat.not_lt.mpr hfits
          rw [if_neg (by tauto)]
          exact ⟨(hcopied err j' h).1, Or.inr ⟨hfull, hfits, (hcopied err j' h).2⟩⟩

end FileJournal

end Progress

/-! ### The fresh segment -/

section Files

variable {C R : Type} [Serde (SequencerEvent C R)] [Crc32] {j : FileJournal C R}

omit [Serde (SequencerEvent C R)] [Crc32] in
/-- Reading from the start of a segment begins with that segment. -/
theorem FileJournal.le_of_mem_drop {sequence : ℕ} {data : List UInt8}
    (hmem : (sequence, data) ∈ j.dir.entries) {file : ℕ × List UInt8}
    (hfile : file ∈ j.dir.entries.drop (j.startIndex sequence)) : sequence ≤ file.1 := by
  have hsearch : ∀ entries : List (ℕ × List UInt8), (entries.Pairwise fun a b => a.1 < b.1) →
      (sequence, data) ∈ entries →
      (entries.map Prod.fst)[((entries.map Prod.fst).takeWhile (· < sequence)).length]? =
          some sequence ∧
        ∀ file ∈ entries.drop ((entries.map Prod.fst).takeWhile (· < sequence)).length,
          sequence ≤ file.1 := by
    intro entries hsorted hmem
    induction entries with
    | nil => cases hmem
    | cons entry entries ih =>
      obtain ⟨hlt, hsorted⟩ := List.pairwise_cons.mp hsorted
      by_cases hbelow : entry.1 < sequence
      · have hrest : (sequence, data) ∈ entries := by
          rcases List.mem_cons.mp hmem with rfl | hrest
          · exact absurd hbelow (lt_irrefl _)
          · exact hrest
        rw [List.map_cons, List.takeWhile_cons_of_pos (by simpa using hbelow), List.length_cons]
        exact ih hsorted hrest
      · rw [List.map_cons, List.takeWhile_cons_of_neg (by simpa using hbelow)]
        rcases List.mem_cons.mp hmem with rfl | hrest
        · refine ⟨rfl, fun file hfile => ?_⟩
          rcases List.mem_cons.mp hfile with rfl | hfile
          · exact le_rfl
          · exact (hlt file hfile).le
        · exact absurd (hlt _ hrest) hbelow
  obtain ⟨hfound, hdrop⟩ := hsearch j.dir.entries j.dir.sorted hmem
  have hindex : j.startIndex sequence =
      ((j.dir.entries.map Prod.fst).takeWhile (· < sequence)).length := by
    rw [startIndex, binarySearch, if_pos hfound]
  rw [hindex] at hfile
  exact hdrop file hfile

/-- A file of zeros has no entry. -/
theorem readSegment_zeros (size : ℕ) : readSegment C R (List.replicate size 0) 0 = [] :=
  EndsAt.readSegment_eq (Or.inr (entryLength_of_zeros (k := size) rfl))

omit [Serde (SequencerEvent C R)] [Crc32] in
theorem scanLastSequence_zeros (size writePos : ℕ) :
    scanLastSequence (List.replicate size 0) writePos 0 none = none := by
  have hzero : entryLength (List.replicate size 0) 0 = 0 := entryLength_of_zeros (k := size) rfl
  rw [scanLastSequence, hzero]
  split_ifs <;> first | rfl | omega

omit [Serde (SequencerEvent C R)] in
/-- A journal whose newest segment is empty has no last number once it is reopened. -/
theorem FileJournal.lastSeq_of_getLast? {dir : SegmentDir} {start size : ℕ}
    (h : dir.entries.getLast? = some (start, List.replicate size 0)) (segmentSize : ℕ) :
    (openWithSegmentSize dir segmentSize : FileJournal C R).lastSeq = none := by
  rw [openWithSegmentSize, h]
  exact scanLastSequence_zeros ..

variable {older : List (Segment C R)} {active : Segment C R} {m : ℕ}

/-- A number below the start of the active segment lies in the range of some closed segment. -/
theorem FileJournal.Holds.exists_neighbours (h : j.Holds older active) (hm : m < active.start) :
    ∃ before s t after, older ++ [active] = before ++ s :: t :: after ∧ s ∈ older ∧
      s.start ≤ m ∧ m < t.start := by
  have hsearch : ∀ older : List (Segment C R), (∀ s ∈ older.head?, s.start ≤ m) → older ≠ [] →
      ∃ before s t after, older ++ [active] = before ++ s :: t :: after ∧ s ∈ older ∧
        s.start ≤ m ∧ m < t.start := by
    intro older hfirst hne
    induction older with
    | nil => exact absurd rfl hne
    | cons s older ih =>
      have hs := hfirst s rfl
      cases older with
      | nil => exact ⟨[], s, active, [], rfl, List.mem_singleton_self s, hs, hm⟩
      | cons t older =>
        by_cases ht : m < t.start
        · exact ⟨[], s, t, older ++ [active], rfl, List.mem_cons_self .., hs, ht⟩
        · obtain ⟨before, s', t', after, hsplit, hmem, hs', ht'⟩ := ih
            (fun t' ht' => by obtain rfl := Option.some.inj ht'; omega) (List.cons_ne_nil _ _)
          exact ⟨s :: before, s', t', after, by rw [List.cons_append, hsplit]; rfl,
            List.mem_cons_of_mem _ hmem, hs', ht'⟩
  have hne : older ≠ [] := by
    rintro rfl
    have hstart := h.first active rfl
    omega
  refine hsearch older (fun s hs => ?_) hne
  have hstart := h.first s
  rw [List.head?_append, hs] at hstart
  rw [hstart rfl]
  exact Nat.zero_le m

/-- A fresh segment under an old number hides an event that was readable from there. -/
theorem FileJournal.Holds.hidden [LawfulSerde (SequencerEvent C R)] (h : j.Holds older active)
    (hm : m < active.start) {r : FileJournal C R} {size : ℕ}
    (hdir : r.dir = j.dir.insert m (List.replicate size 0)) :
    eventsOf (r.readFrom m) ≠ eventsOf (j.readFrom m) := by
  intro hsame
  obtain ⟨before, s, t, after, hsplit, hs, hle, hlt⟩ := h.exists_neighbours hm
  have hs' : s ∈ older ++ [active] := List.mem_append_left _ hs
  obtain ⟨e, he⟩ : ∃ e, s.events.getLast? = some e :=
    ⟨_, List.getLast?_eq_some_getLast (h.filled s hs)⟩
  have hmem : e ∈ s.events := List.mem_of_getLast? he
  have hnext : t.start = e.sequenceNum.toNat + 1 :=
    List.isChain_iff_forall_rel_of_append_cons_cons.mp h.next hsplit e he
  have hread : Except.ok e ∈ eventsOf (r.readFrom m) := by
    rw [hsame, h.readFrom_eq]
    exact List.mem_map_of_mem (List.mem_filter.mpr
      ⟨Holds.mem_eventsIn hs' hmem, decide_eq_true (by omega)⟩)
  -- the reader starts with the fresh segment
  obtain ⟨item, hitem, hevent⟩ := List.mem_map.mp hread
  obtain ⟨file, hfile, hin⟩ := List.mem_flatMap.mp (List.mem_of_mem_filter hitem)
  have hfresh : (m, List.replicate size 0) ∈ r.dir.entries := by
    rw [hdir, SortedMap.mem_entries_insert]
    exact Or.inl rfl
  have hstart := le_of_mem_drop hfresh hfile
  have hfile' := List.mem_of_mem_drop hfile
  rw [hdir, SortedMap.mem_entries_insert] at hfile'
  rcases hfile' with rfl | ⟨hold, hne⟩
  · rw [readSegment_zeros] at hin
    cases hin
  · rw [h.dir_eq] at hold
    obtain ⟨u, hu, rfl⟩ := List.mem_map.mp hold
    have hu' : e ∈ u.events := by
      have hmap : Except.ok e ∈ eventsOf (readSegment C R (u.bytes j.segmentSize) 0) :=
        List.mem_map.mpr ⟨item, hin, hevent⟩
      rw [Segment.readSegment_eq (h.stored u hu)] at hmap
      obtain ⟨e', he', hok⟩ := List.mem_map.mp hmap
      rwa [← Except.ok.inj hok]
    obtain rfl := h.ordered.eq_of_mem (fun s hs => (h.stored s hs).above) hs' hu hmem hu'
    have hstart' : m ≤ s.start := hstart
    exact hne (by dsimp only; omega)

/-- A fresh segment that is the newest leaves no last number. -/
theorem FileJournal.Holds.getLast?_insert (h : j.Holds older active) (hm : active.start ≤ m)
    (data : List UInt8) : (j.dir.insert m data).entries.getLast? = some (m, data) := by
  have hentries := h.dir_eq
  rw [List.map_append, List.map_singleton] at hentries
  rcases hm.lt_or_eq with hlt | rfl
  · rw [SortedMap.entries_insert_of_forall_lt data, List.getLast?_append]
    · rfl
    · have hsorted := j.dir.sorted
      rw [hentries, List.pairwise_append] at hsorted
      rw [hentries]
      intro entry hentry
      rcases List.mem_append.mp hentry with hentry | hentry
      · exact (hsorted.2.2 entry hentry _ (List.mem_singleton_self _)).trans hlt
      · rw [List.mem_singleton.mp hentry]
        exact hlt
  · rw [SortedMap.entries_insert_last data hentries, List.getLast?_append]
    rfl

/-- Where a whole read is as before, so is that of the one file that was written. -/
theorem FileJournal.readSegment_eq_of_insert {r : FileJournal C R} {data : List UInt8}
    (hdir : r.dir = j.dir.insert m data)
    (hread : eventsOf (r.readFrom 0) = eventsOf (j.readFrom 0)) :
    eventsOf (readSegment C R data 0) =
      eventsOf (readSegment C R ((j.dir.get? m).getD []) 0) := by
  obtain ⟨before, after, hsplit, -, -, hinsert, herase⟩ :=
    SortedMap.entries_split (SortedMap.get?_insert_self j.dir m data)
  rw [readFrom_zero, readFrom_zero, hdir, hsplit] at hread
  cases hget : j.dir.get? m with
  | none =>
    have hentries : j.dir.entries = before ++ after := by
      rw [← herase]
      congr 1
      refine SortedMap.ext_get? fun key => ?_
      rw [SortedMap.get?_erase, SortedMap.get?_insert]
      split_ifs with hkey
      · rw [hkey, hget]
      · rfl
    rw [hentries] at hread
    simp only [List.flatMap_append, List.flatMap_cons, eventsOf_append,
      List.append_cancel_left_eq, List.append_left_eq_self] at hread
    rw [hread, Option.getD_none, readSegment_of_none (by rw [decodeNext, if_pos (by decide)])]
    rfl
  | some old =>
    have hentries : j.dir.entries = before ++ (m, old) :: after := by
      rw [← hinsert old, SortedMap.insert_insert, SortedMap.insert_eq_self hget]
    rw [hentries] at hread
    simp only [List.flatMap_append, List.flatMap_cons, eventsOf_append, List.append_cancel_left_eq,
      List.append_cancel_right_eq] at hread
    exact hread

/-- Entries with zeros behind them are read one by one. -/
theorem readSegment_padded [LawfulSerde (SequencerEvent C R)] {events : List (SequencerEvent C R)}
    (hfits : ∀ e ∈ events, Fits e) (k : ℕ) :
    eventsOf (readSegment C R (logBytes events ++ List.replicate k 0) 0) = events.map .ok := by
  have hzeros : (logBytes events ++ List.replicate k (0 : UInt8)).drop
      (0 + (logBytes events).length) = List.replicate k 0 := by rw [Nat.zero_add, List.drop_left]
  rw [readSegment_log hfits List.drop_zero,
    EndsAt.readSegment_eq (Or.inr (entryLength_of_zeros hzeros))]
  exact List.append_nil _

variable {e : SequencerEvent C R}

/-- The bytes of a fresh file with one entry in it. -/
def loneEntry (size : ℕ) (e : SequencerEvent C R) : List UInt8 :=
  entryBytes e ++ List.replicate (size - (entryBytes e).length) 0

/-- An entry that was copied is read, unless it replaced a file that was the same. -/
theorem FileJournal.Holds.eq_of_copied [LawfulSerde (SequencerEvent C R)]
    (h : j.Holds older active) (hfits : Fits e) {r : FileJournal C R}
    (hread : eventsOf (r.readFrom 0) = eventsOf (j.readFrom 0)) :
    r.dir ≠ (j.written e.sequenceNum.toNat (entryBytes e)).dir ∧
      (r.dir = ((j.rotated e.sequenceNum.toNat).written e.sequenceNum.toNat (entryBytes e)).dir →
        j.dir.get? e.sequenceNum.toNat = some (loneEntry j.segmentSize e)) := by
  have hstored : ∀ {start data}, j.dir.get? start = some data →
      ∃ s ∈ older ++ [active], s.start = start ∧ data = s.bytes j.segmentSize := by
    intro start data hget
    rw [← SortedMap.mem_entries_iff, h.dir_eq] at hget
    obtain ⟨s, hs, heq⟩ := List.mem_map.mp hget
    obtain ⟨rfl, rfl⟩ := Prod.mk.inj heq
    exact ⟨s, hs, rfl, rfl⟩
  constructor
  · intro hdir
    have hget : j.dir.get? active.start = some (active.bytes j.segmentSize) := by
      rw [← SortedMap.mem_entries_iff, h.dir_eq]
      exact List.mem_map_of_mem (List.mem_append_right _ (List.mem_singleton_self active))
    have hdata : r.dir = j.dir.insert active.start (logBytes (active.events ++ [e]) ++
        List.replicate (j.segmentSize - (logBytes active.events).length - (entryBytes e).length)
          0) := by
      rw [hdir, FileJournal.written, h.writer_eq, hget, Option.getD_some, Segment.bytes,
        overwrite_zeros, logBytes_append, logBytes_cons, logBytes_nil, List.append_nil]
    have hlater : ∀ e' ∈ active.events ++ [e], Fits e' := by
      intro e' he'
      rcases List.mem_append.mp he' with he' | he'
      · exact h.active_stored.fits e' he'
      · rwa [List.mem_singleton.mp he']
    have hsame := FileJournal.readSegment_eq_of_insert hdata hread
    rw [readSegment_padded hlater, hget, Option.getD_some,
      Segment.readSegment_eq h.active_stored] at hsame
    have hlength := congrArg List.length hsame
    simp only [List.length_map, List.length_append, List.length_singleton] at hlength
    omega
  · intro hdir
    have hdata : r.dir = j.dir.insert e.sequenceNum.toNat (loneEntry j.segmentSize e) := by
      have hlone : overwrite (List.replicate j.segmentSize 0) 0 (entryBytes e) =
          loneEntry j.segmentSize e := overwrite_zeros [] (entryBytes e)
      rw [hdir, FileJournal.written, FileJournal.rotated, SortedMap.get?_insert_self,
        Option.getD_some, hlone, SortedMap.insert_insert]
    have hone : loneEntry j.segmentSize e =
        logBytes [e] ++ List.replicate (j.segmentSize - (entryBytes e).length) 0 := by
      rw [loneEntry, logBytes_cons, logBytes_nil, List.append_nil]
    have hsame := FileJournal.readSegment_eq_of_insert hdata hread
    rw [hone, readSegment_padded fun e' he' => List.mem_singleton.mp he' ▸ hfits] at hsame
    cases hget : j.dir.get? e.sequenceNum.toNat with
    | none =>
      rw [hget, Option.getD_none, readSegment_of_none (by rw [decodeNext, if_pos (by decide)])]
        at hsame
      cases hsame
    | some data =>
      obtain ⟨s, hs, -, rfl⟩ := hstored hget
      rw [hget, Option.getD_some, Segment.readSegment_eq (h.stored s hs)] at hsame
      have hevents : s.events = [e] := by
        have hinj := List.map_injective_iff.mpr (fun _ _ => Except.ok.inj) hsame
        exact hinj.symm
      rw [Segment.bytes, hevents, hone, logBytes_cons, logBytes_nil, List.append_nil]

end Files

/-! ### Damage -/

section Damage

variable {L : Type} [PriceLevel L] [Serde SequencedEvent] [Crc32]

variable (L) in
/-- `r` reports the last of the events, reads like `j`, and replays where `j` does. -/
structure FileJournal.Undamaged (j r : FileJournal SequencerCommand SequencerResult)
    (events : List SequencedEvent) : Prop where
  last : r.lastSeq = events.getLast?.map fun e => e.sequenceNum.toNat
  read : ∀ sequence, eventsOf (r.readFrom sequence) = eventsOf (j.readFrom sequence)
  replay : ∀ symbol clock (x : OrderBook L × ℕ),
    replayFrom j 0 symbol clock = .ok x → replayFrom r 0 symbol clock = .ok x

variable {j : FileJournal SequencerCommand SequencerResult}
  {older : List (Segment SequencerCommand SequencerResult)}
  {active : Segment SequencerCommand SequencerResult} {m : ℕ}

omit [Serde SequencedEvent] in
/-- Opening a directory with a file in it creates no other. -/
theorem FileJournal.dir_open_insert (dir : SegmentDir) (m : ℕ) (data : List UInt8)
    (segmentSize : ℕ) :
    (openWithSegmentSize (dir.insert m data) segmentSize :
      FileJournal SequencerCommand SequencerResult).dir = dir.insert m data := by
  have hmem : (m, data) ∈ (dir.insert m data).entries :=
    SortedMap.mem_entries_insert.mpr (Or.inl rfl)
  rw [openWithSegmentSize, List.getLast?_eq_some_getLast (List.ne_nil_of_mem hmem)]

variable {size : ℕ}

/-- An empty file damages a journal that holds events. -/
theorem FileJournal.Holds.damaged [LawfulSerde SequencedEvent] (h : j.Holds older active)
    (hne : eventsIn older active ≠ []) :
    ¬ j.Undamaged L (openWithSegmentSize (j.dir.insert m (List.replicate size 0)) j.segmentSize)
      (eventsIn older active) := by
  intro hund
  rcases Nat.lt_or_ge m active.start with hlt | hge
  · exact h.hidden hlt (dir_open_insert ..) (hund.read m)
  · have hnone := lastSeq_of_getLast? (C := SequencerCommand) (R := SequencerResult)
      (h.getLast?_insert hge (List.replicate size 0)) j.segmentSize
    have hlast := hund.last
    rw [hnone] at hlast
    have hempty := Option.map_eq_none_iff.mp hlast.symm
    exact hne (List.getLast?_eq_none_iff.mp hempty)

/-- An empty file in an empty journal is another one of zeros. -/
theorem FileJournal.Holds.undamaged_of_empty [LawfulSerde SequencedEvent] (h : j.Holds older active)
    (hempty : eventsIn older active = []) :
    j.Undamaged L (openWithSegmentSize (j.dir.insert m (List.replicate size 0)) j.segmentSize)
      (eventsIn older active) := by
  have hactive : active.events = [] := (List.append_eq_nil_iff.mp hempty).2
  have hzeros : ∀ file ∈ (j.dir.insert m (List.replicate size 0)).entries,
      ∃ k, file.2 = List.replicate k 0 := by
    intro file hfile
    rw [SortedMap.mem_entries_insert, h.dir_eq, h.fresh hactive] at hfile
    rcases hfile with rfl | ⟨hfile, -⟩
    · exact ⟨size, rfl⟩
    · rw [List.mem_singleton.mp hfile]
      refine ⟨j.segmentSize, ?_⟩
      show active.bytes j.segmentSize = _
      rw [Segment.bytes, hactive]
      rfl
  have hlast : (openWithSegmentSize (j.dir.insert m (List.replicate size 0)) j.segmentSize :
      FileJournal SequencerCommand SequencerResult).lastSeq = none := by
    cases hlatest : (j.dir.insert m (List.replicate size 0)).entries.getLast? with
    | none =>
      rw [openWithSegmentSize, hlatest]
    | some latest =>
      obtain ⟨k, hk⟩ := hzeros latest (List.mem_of_getLast? hlatest)
      rw [← Prod.mk.eta (p := latest), hk] at hlatest
      exact lastSeq_of_getLast? hlatest j.segmentSize
  refine ⟨by rw [hlast, hempty]; rfl, fun sequence => ?_, fun symbol clock x hok => ?_⟩
  · rw [h.readFrom_eq, hempty, readFrom, dir_open_insert, List.flatMap_eq_nil_iff.mpr]
    · rfl
    · intro file hfile
      obtain ⟨k, hk⟩ := hzeros file (List.mem_of_mem_drop hfile)
      rw [hk, readSegment_zeros]
  · have hnone : Journal.lastSequence j = none := by
      rw [show Journal.lastSequence j = j.lastSeq from rfl, h.last_eq, hempty]
      rfl
    rw [replayFrom, hnone] at hok
    cases hok

/-- **A failed append does no damage** exactly when it touched nothing, left a fresh segment in a
journal without events, or wrote a file with one entry again as it was. Any of the calls it makes to
the operating system and to its locks may have failed. -/
theorem failed_append_undamaged_iff [LawfulSerde SequencedEvent]
    {steps : List (JournalStep SequencerCommand SequencerResult)} {segmentSize : ℕ}
    (hconsecutive : Consecutive (appended steps))
    (hfits : ∀ e ∈ appended steps, Fits e ∧ (entryBytes e).length ≤ segmentSize)
    {faults : Faults} {e : SequencedEvent} {err : JournalError}
    {j' : FileJournal SequencerCommand SequencerResult}
    (hbound : appendProgress faults e (FileJournal.run segmentSize steps) = .copied → Fits e)
    (hfail : FileJournal.appendUnder faults e (FileJournal.run segmentSize steps) =
      (.error err, j')) :
    (FileJournal.run segmentSize steps).Undamaged L
        (FileJournal.openWithSegmentSize j'.dir j'.segmentSize) (appended steps) ↔
      match appendProgress faults e (FileJournal.run segmentSize steps) with
      | .untouched => True
      | .fresh => appended steps = []
      | .copied =>
        (FileJournal.run segmentSize steps).writer.remaining < (entryBytes e).length ∧
          (FileJournal.run segmentSize steps).dir.get? e.sequenceNum.toNat =
            some (loneEntry (FileJournal.run segmentSize steps).segmentSize e) := by
  obtain ⟨older, active, h, hevents⟩ := FileJournal.holds_run hconsecutive hfits
  rw [← hevents]
  generalize FileJournal.run segmentSize steps = j at h hfail hbound
  obtain ⟨hsize, hdir⟩ := FileJournal.appendUnder_error hfail
  have hsame : j'.dir = j.dir → j.Undamaged L
      (FileJournal.openWithSegmentSize j'.dir j'.segmentSize) (eventsIn older active) := by
    intro heq
    rw [heq, hsize, h.reopen]
    exact ⟨h.last_eq, fun _ => rfl, fun _ _ _ => id⟩
  cases hprogress : appendProgress faults e j with
  | untouched =>
    rw [hprogress] at hdir
    exact iff_of_true (hsame hdir) trivial
  | fresh =>
    rw [hprogress] at hdir
    obtain ⟨k, hdir⟩ := hdir
    rw [hdir, hsize]
    exact ⟨fun hund => by_contra fun hne => h.damaged hne hund, h.undamaged_of_empty⟩
  | copied =>
    rw [hprogress] at hdir
    have hopen : (FileJournal.openWithSegmentSize j'.dir j'.segmentSize :
        FileJournal SequencerCommand SequencerResult).dir = j'.dir := by
      rcases hdir.2 with ⟨-, hdir⟩ | ⟨-, -, hdir⟩ <;>
      · rw [hdir]
        exact FileJournal.dir_open_insert ..
    constructor
    · intro hund
      obtain ⟨hne, hlone⟩ := h.eq_of_copied (hbound hprogress) (hund.read 0)
      rw [hopen] at hne hlone
      rcases hdir.2 with ⟨-, hdir⟩ | ⟨hfull, -, hdir⟩
      · exact absurd hdir hne
      · exact ⟨hfull, hlone hdir⟩
    · rintro ⟨hfull, hlone⟩
      rcases hdir.2 with ⟨hroom, -⟩ | ⟨-, -, hdir⟩
      · omega
      · refine hsame (hdir.trans ?_)
        have hbytes : overwrite (List.replicate j.segmentSize 0) 0 (entryBytes e) =
            loneEntry j.segmentSize e := FileJournal.Holds.overwrite_zeros [] (entryBytes e)
        rw [FileJournal.written, FileJournal.rotated, SortedMap.get?_insert_self,
          Option.getD_some, hbytes, SortedMap.insert_insert, SortedMap.insert_eq_self hlone]

end Damage

/-- An entry larger than the active segment and than a fresh one is refused after the rotation. -/
theorem FileJournal.append_tooLarge {C R : Type} [Serde (SequencerEvent C R)] [Crc32]
    {e : SequencerEvent C R} {j : FileJournal C R} (hfits : Fits e) {n size : ℕ}
    (hlength : (entryBytes e).length = n) (hsize : j.segmentSize = size)
    (hroom : j.writer.remaining < n) (hlarge : size < n) :
    append e j = (.error (.entryTooLarge n size), j.rotated e.sequenceNum.toNat) := by
  obtain ⟨-, -, -, -, hok⟩ := hfits.encodeEntry_eq
  rcases append_cases e j with ⟨err, herr, -⟩ | ⟨bytes, henc, hcases⟩
  · cases hok.symm.trans herr
  · obtain rfl := Except.ok.inj (hok.symm.trans henc)
    rw [hlength, hsize] at hcases
    rcases hcases with ⟨hle, -⟩ | ⟨-, hle, -⟩ | ⟨-, -, hrun⟩
    · omega
    · omega
    · exact hrun

/-- An entry larger than a segment leaves an empty journal as it was. -/
theorem oversize_undamaged :
    letI := cancelAllSerde
    letI := byteSum
    ∃ j', FileJournal.appendUnder (fun _ => none) (cancelAllEvent 0 200)
        (FileJournal.run 100 []) = (.error (.entryTooLarge 248 100), j') ∧
      (FileJournal.run 100 [] : FileJournal SequencerCommand SequencerResult).Undamaged FifoLevel
        (FileJournal.openWithSegmentSize j'.dir j'.segmentSize) [] := by
  let _ := cancelAllSerde
  let _ := byteSum
  have hlawful := lawful_cancelAllSerde
  have hprogress : appendProgress (fun _ => none) (cancelAllEvent 0 200)
      (FileJournal.run 100 []) = .fresh := by decide +kernel
  have hfail : FileJournal.appendUnder (fun _ => none) (cancelAllEvent 0 200)
      (FileJournal.run 100 []) = (.error (.entryTooLarge 248 100),
        (FileJournal.run 100 [] : FileJournal SequencerCommand SequencerResult).rotated 0) := by
    exact FileJournal.append_tooLarge ⟨_, rfl, by decide +kernel⟩ (by decide +kernel) rfl
      (by decide +kernel) (by decide)
  have hnone : @Consecutive SequencerCommand SequencerResult (appended []) := List.isChain_nil
  refine ⟨_, hfail, (failed_append_undamaged_iff hnone
    (fun e he => absurd he List.not_mem_nil) (fun hcopied => ?_) hfail).mpr ?_⟩
  · cases hprogress.symm.trans hcopied
  · rw [hprogress]
    rfl

/-- **An entry larger than a segment makes the journal forget its last number**, so that it no
longer replays. -/
theorem cancelAllTwice_damaged :
    letI := cancelAllSerde
    letI := byteSum
    ∃ j', FileJournal.append (cancelAllEvent 2 200) cancelAllTwice =
        (.error (.entryTooLarge 248 100), j') ∧
      (FileJournal.openWithSegmentSize j'.dir 100 :
        FileJournal SequencerCommand SequencerResult).lastSeq = none ∧
      ¬ cancelAllTwice.Undamaged FifoLevel (FileJournal.openWithSegmentSize j'.dir 100)
        [cancelAllEvent 0 0, cancelAllEvent 1 0] := by
  let _ := cancelAllSerde
  let _ := byteSum
  have hlast : (cancelAllTwice.rotated 2).dir.entries.getLast? =
      some (2, List.replicate 100 0) := by decide +kernel
  have hnone := FileJournal.lastSeq_of_getLast? (C := SequencerCommand) (R := SequencerResult)
    hlast 100
  have hfail : FileJournal.append (cancelAllEvent 2 200) cancelAllTwice =
      (.error (.entryTooLarge 248 100), cancelAllTwice.rotated 2) :=
    FileJournal.append_tooLarge ⟨_, rfl, by decide +kernel⟩ (by decide +kernel)
      (by decide +kernel) (by decide +kernel) (by decide)
  refine ⟨cancelAllTwice.rotated 2, hfail, hnone, fun hund => ?_⟩
  have hsome := hund.last
  rw [hnone] at hsome
  cases hsome

end OrderBookRs
