import OrderBookRs.Sequencer.Refinement

/-!
# Recovery from a torn entry

A crash in the middle of a write leaves an entry whose length field is on disk but whose checksum is
wrong. Reopening moves the write position back to the start of that entry and nothing else: its
bytes stay in the file until appends overwrite them. Reader and verifier know no write position.
Behind the last entry they take whatever bytes are left there for an entry, so that they see the
torn entry if nothing was appended, and its middle if what was appended is shorter.

## Main definitions

* `TornAt`: a torn entry, with zeros behind it.
* `TornTail`: a directory whose newest segment ends with one.
* `Passes`: the verifier accepts the bytes from an offset on.
* `CleanAt`: neither reader nor verifier finds anything from an offset on.

## Main results

* `passes_iff`: what the verifier accepts.
* `torn_tail_recovers_iff`: what reopening and appending recovers from a torn tail.
-/

namespace OrderBookRs

open Fallible

variable {rest : List UInt8}

/-! ### Leftover bytes -/

section Leftover

variable [Crc32] {data : List UInt8} {offset : ℕ}

/-- An entry with a whole length field and a wrong checksum; behind it the file is empty. -/
structure TornAt (data : List UInt8) (offset : ℕ) : Prop where
  wide : 20 ≤ entryLength data offset
  inside : entryEnd data offset ≤ data.length
  crc : storedCrc data offset ≠ computedCrc data offset
  zeros : ∀ byte ∈ data.drop (entryEnd data offset), byte = 0

/-- From an offset on the length fields lead through right checksums to an end. -/
inductive Passes (data : List UInt8) : ℕ → Prop
  | ends {offset : ℕ} (hends : EndsAt data offset) : Passes data offset
  | entry {offset : ℕ} (hwide : entryCrcSize ≤ entryLength data offset)
      (hinside : entryEnd data offset ≤ data.length)
      (hcrc : storedCrc data offset = computedCrc data offset)
      (hrest : Passes data (entryEnd data offset)) : Passes data offset

/-- **The verifier accepts** what leads through right checksums to an end. -/
theorem passes_iff : Passes data offset ↔ verifySegment data offset = .ok () := by
  constructor
  · intro h
    induction h with
    | ends hends => exact hends.verifySegment_eq
    | @entry offset hwide hinside hcrc hrest ih =>
      rw [verifySegment, ih]
      split_ifs <;> first | rfl | omega
  · fun_induction verifySegment data offset with
    | case1 offset hshort => exact fun _ => .ends (Or.inl hshort)
    | case2 offset _ hzero => exact fun _ => .ends (Or.inr hzero)
    | case3 | case4 | case5 => exact fun h => by cases h
    | case6 offset _ _ hinside hwide hcrc ih =>
      exact fun h => .entry (by omega) (by omega) (not_not.mp hcrc) (ih h)

/-- **The bytes from an offset on hold nothing**: they end there, or they are a stub too short for
an event, with a right checksum and nothing wrong behind it. -/
def CleanAt (data : List UInt8) (offset : ℕ) : Prop :=
  EndsAt data offset ∨
    (entryCrcSize ≤ entryLength data offset ∧ entryLength data offset < entryHeaderSize ∧
      entryEnd data offset ≤ data.length ∧ storedCrc data offset = computedCrc data offset ∧
      Passes data (entryEnd data offset))

/-- Behind a torn entry the file is clean. -/
theorem TornAt.cleanAt (h : TornAt data offset) {next : ℕ} (hnext : entryEnd data offset ≤ next) :
    CleanAt data next := by
  have hzeros : data.drop next = List.replicate (data.drop next).length 0 := by
    rw [List.eq_replicate_iff]
    refine ⟨rfl, fun byte hbyte => h.zeros byte ?_⟩
    rw [← Nat.add_sub_cancel' hnext, ← List.drop_drop] at hbyte
    exact List.mem_of_mem_drop hbyte
  exact Or.inl (Or.inr (entryLength_of_zeros hzeros))

theorem TornAt.scanWritePosition_eq (h : TornAt data offset) :
    scanWritePosition data data.length offset = offset := by
  have hinvalid : entryCrcValid data offset = false := by
    rw [entryCrcValid, decide_eq_false_iff_not]
    exact fun hvalid => h.crc hvalid.2.2.symm
  rw [scanWritePosition, if_pos hinvalid, ite_self, ite_self, ite_self]

variable {C R : Type} [Serde (SequencerEvent C R)]

/-- **Clean bytes** are those that the reader takes for the end and the verifier accepts. -/
theorem cleanAt_iff : CleanAt data offset ↔
    readSegment C R data offset = [] ∧ verifySegment data offset = .ok () := by
  constructor
  · rintro (hends | ⟨hwide, hstub, hinside, hcrc, hrest⟩)
    · exact ⟨hends.readSegment_eq, hends.verifySegment_eq⟩
    · refine ⟨readSegment_of_none ?_, passes_iff.mp (.entry hwide hinside hcrc hrest)⟩
      rw [decodeNext]
      split_ifs <;> first | rfl | omega
  · rintro ⟨hread, hverify⟩
    rcases passes_iff.mpr hverify with hends | ⟨hwide, hinside, hcrc, hrest⟩
    · exact Or.inl hends
    · by_cases hends : EndsAt data offset
      · exact Or.inl hends
      · refine Or.inr ⟨hwide, ?_, hinside, hcrc, hrest⟩
        -- an entry with room for an event is an item, whether it decodes or not
        by_contra hlong
        obtain ⟨hshort, hzero⟩ := not_or.mp hends
        cases hdecode : decodeNext C R data offset with
        | some =>
          rw [readSegment_of_some hdecode] at hread
          cases hread
        | none =>
          rw [decodeNext, if_neg hshort, if_neg hzero, if_neg (by omega), if_neg (by omega),
            if_neg (not_not.mpr hcrc), if_neg hlong] at hdecode
          split at hdecode <;> cases hdecode

end Leftover

/-! ### Bytes that were not overwritten -/

/-- Two files of one length agree from an offset on. -/
structure SameFrom (data data' : List UInt8) (offset : ℕ) : Prop where
  length_eq : data'.length = data.length
  drop_eq : data'.drop offset = data.drop offset

namespace SameFrom

variable {data data' : List UInt8} {offset next : ℕ} (h : SameFrom data data' offset)

include h

theorem symm : SameFrom data' data offset := ⟨h.length_eq.symm, h.drop_eq.symm⟩

theorem mono (hnext : offset ≤ next) : SameFrom data data' next := by
  refine ⟨h.length_eq, ?_⟩
  rw [← Nat.add_sub_cancel' hnext, ← List.drop_drop, h.drop_eq, List.drop_drop]

theorem entryLength_eq : entryLength data' offset = entryLength data offset := by
  rw [entryLength, entryLength, h.drop_eq]

theorem entryEnd_eq : entryEnd data' offset = entryEnd data offset := by
  rw [entryEnd, entryEnd, h.entryLength_eq]

theorem storedCrc_eq : storedCrc data' offset = storedCrc data offset := by
  have hcrc : offset ≤ entryEnd data offset - entryCrcSize := by
    rw [entryEnd, entryCrcSize]
    omega
  rw [storedCrc, storedCrc, h.entryEnd_eq, (h.mono hcrc).drop_eq]

theorem computedCrc_eq [Crc32] : computedCrc data' offset = computedCrc data offset := by
  rw [computedCrc, computedCrc, checksummed, checksummed, h.entryLength_eq,
    (h.mono (Nat.le_add_right offset 4)).drop_eq]

theorem endsAt (hends : EndsAt data offset) : EndsAt data' offset := by
  rw [EndsAt, h.length_eq, h.entryLength_eq]
  exact hends

theorem passes [Crc32] (hpasses : Passes data offset) : Passes data' offset := by
  induction hpasses with
  | ends hends => exact .ends (h.endsAt hends)
  | entry hwide hinside hcrc _ ih =>
    have hrest := ih (h.mono (by rw [entryEnd]; omega))
    exact .entry (by rwa [h.entryLength_eq]) (by rwa [h.entryEnd_eq, h.length_eq])
      (by rwa [h.storedCrc_eq, h.computedCrc_eq]) (by rwa [h.entryEnd_eq])

theorem cleanAt [Crc32] (hclean : CleanAt data offset) : CleanAt data' offset := by
  rcases hclean with hends | ⟨hwide, hstub, hinside, hcrc, hrest⟩
  · exact Or.inl (h.endsAt hends)
  · have hrest' := (h.mono (by rw [entryEnd]; omega)).passes hrest
    rw [CleanAt, h.entryLength_eq, h.entryEnd_eq, h.storedCrc_eq, h.computedCrc_eq, h.length_eq]
    exact Or.inr ⟨hwide, hstub, hinside, hcrc, hrest'⟩

end SameFrom

/-! ### Reopening and appending -/

section Journal

variable {C R : Type} [Serde (SequencerEvent C R)] [Crc32] {events : List (SequencerEvent C R)}
  {data : List UInt8}

/-- **A directory with a torn tail**: its closed segments are whole and hold the events `stored`;
the newest segment is a run of entries of the events `intact` with a torn entry behind it. -/
structure TornTail (dir : SegmentDir) (closed : List (ℕ × List UInt8)) (start : ℕ)
    (data : List UInt8) (stored intact : List (SequencerEvent C R)) : Prop where
  entries_eq : dir.entries = closed ++ [(start, data)]
  closed_read : eventsOf (closed.flatMap fun file => readSegment C R file.2 0) = stored.map .ok
  closed_verify : ∀ file ∈ closed, verifySegment file.2 0 = .ok ()
  fits : ∀ e ∈ intact, Fits e
  log : ∃ rest, data = logBytes intact ++ rest
  torn : TornAt data (logBytes intact).length

namespace FileJournal

/-- Append some events in turn. -/
def appendAll (events : List (SequencerEvent C R)) (j : FileJournal C R) : FileJournal C R :=
  events.foldl (fun j e => (append e j).2) j

/-- **The journal has recovered**: it reads as some events with no error item, and it verifies. -/
structure Recovered (j : FileJournal C R) (events : List (SequencerEvent C R)) : Prop where
  read : eventsOf (j.readFrom 0) = events.map .ok
  verify : j.verifyIntegrity = .ok ()

omit [Serde (SequencerEvent C R)] [Crc32] in
/-- Writing behind a beginning of the file. -/
theorem overwrite_append (log rest bytes : List UInt8) :
    overwrite (log ++ rest) log.length bytes = log ++ bytes ++ rest.drop bytes.length := by
  rw [overwrite, List.take_left, ← List.drop_drop, List.drop_left]

/-- **Appends that fit** overwrite what is behind the write position. -/
theorem appendAll_eq {closed : List (ℕ × List UInt8)} {start : ℕ}
    (henc : ∀ e ∈ events, ∃ bytes, encodeEntry e = .ok bytes) {j : FileJournal C R}
    {log : List UInt8} (hentries : j.dir.entries = closed ++ [(start, log ++ rest)])
    (hwriter : j.writer = ⟨start, log.length, (log ++ rest).length⟩)
    (hroom : (logBytes events).length ≤ rest.length) :
    (appendAll events j).dir.entries =
      closed ++ [(start, log ++ logBytes events ++ rest.drop (logBytes events).length)] := by
  induction events generalizing j log rest with
  | nil =>
    rw [logBytes_nil, List.append_nil]
    exact hentries
  | cons e events ih =>
    obtain ⟨bytes, hbytes⟩ := henc e (List.mem_cons_self ..)
    rw [logBytes_cons, entryBytes_of_ok hbytes, List.length_append] at hroom
    have hrun : (append e j).2 = j.written e.sequenceNum.toNat bytes := by
      have hremaining : j.writer.remaining = (log ++ rest).length - log.length := by
        rw [hwriter]
        rfl
      rw [List.length_append] at hremaining
      rcases append_cases e j with ⟨err, herr, -⟩ | ⟨bytes', hok, hcases⟩
      · cases hbytes.symm.trans herr
      · obtain rfl := Except.ok.inj (hbytes.symm.trans hok)
        rcases hcases with ⟨-, hrun⟩ | ⟨hfull, -⟩ | ⟨hfull, -⟩
        · rw [hrun]
        · omega
        · omega
    have hget : j.dir.get? start = some (log ++ rest) := by
      rw [← SortedMap.mem_entries_iff, hentries]
      exact List.mem_append_right _ (List.mem_singleton_self _)
    have hwritten : (j.written e.sequenceNum.toNat bytes).dir.entries =
        closed ++ [(start, (log ++ bytes) ++ rest.drop bytes.length)] := by
      rw [written, hwriter, hget, Option.getD_some, overwrite_append]
      exact SortedMap.entries_insert_last _ hentries
    have htail := ih (List.forall_mem_cons.mp henc).2 hwritten
      (by
        rw [written, hwriter]
        simp only [List.length_append, List.length_drop, SegmentWriter.mk.injEq, true_and]
        omega)
      (by rw [List.length_drop]; omega)
    rw [appendAll, List.foldl_cons, hrun]
    refine htail.trans ?_
    rw [logBytes_cons, entryBytes_of_ok hbytes, List.drop_drop, List.length_append,
      List.append_assoc log bytes]

end FileJournal

/-- A run of entries that is read without an error has only payloads the length field can hold. -/
theorem fits_of_read [LawfulSerde (SequencerEvent C R)] [DelimitedSerde (SequencerEvent C R)]
    {offset : ℕ} (henc : ∀ e ∈ events, ∃ bytes, encodeEntry e = .ok bytes)
    (hdrop : data.drop offset = logBytes events ++ rest)
    (hread : ∀ err, Except.error err ∉ eventsOf (readSegment C R data offset)) :
    ∀ e ∈ events, Fits e := by
  induction events generalizing offset with
  | nil => exact fun e he => by cases he
  | cons e events ih =>
    obtain ⟨bytes, hbytes⟩ := henc e (List.mem_cons_self ..)
    rw [logBytes_cons, List.append_assoc] at hdrop
    have hfits : Fits e := by
      obtain ⟨payload, hvec, hlength, rfl⟩ := encodeEntry_eq_ok.mp hbytes
      by_contra hbig
      rw [entryBytes_of_ok hbytes] at hdrop
      have hlong : 2 ^ 32 ≤ payload.length := by
        have hover : ¬ payload.length + 20 ≤ u32Max := fun hle => hbig ⟨payload, hvec, hle⟩
        by_contra hlt
        exact hover (by rwa [Nat.mod_eq_of_lt (by omega)] at hlength)
      obtain ⟨err, next, hdecode⟩ := decodeNext_of_oversize hvec hlong hlength hdrop
      rw [readSegment_of_some hdecode] at hread
      exact hread err (List.mem_cons_self ..)
    obtain ⟨hintact, hend⟩ := intactAt_of_drop hfits hdrop
    rw [hintact.readSegment_eq, hend] at hread
    have htail := ih (List.forall_mem_cons.mp henc).2 (drop_add_of_drop hdrop)
      fun err herr => hread err (List.mem_cons_of_mem _ herr)
    exact List.forall_mem_cons.mpr ⟨hfits, htail⟩

/-- **A file of encoded events** reads back and verifies iff their payloads fit the length field and
what is behind them is clean. -/
theorem reads_back_iff [LawfulSerde (SequencerEvent C R)] [DelimitedSerde (SequencerEvent C R)]
    (henc : ∀ e ∈ events, ∃ bytes, encodeEntry e = .ok bytes)
    (hdata : data = logBytes events ++ rest) :
    eventsOf (readSegment C R data 0) = events.map .ok ∧ verifySegment data 0 = .ok () ↔
      (∀ e ∈ events, Fits e) ∧ CleanAt data (logBytes events).length := by
  have hdrop : data.drop 0 = logBytes events ++ rest := hdata
  constructor
  · rintro ⟨hread, hverify⟩
    have hfits : ∀ e ∈ events, Fits e := by
      refine fits_of_read henc hdrop fun err herr => ?_
      rw [hread] at herr
      obtain ⟨e, -, he⟩ := List.mem_map.mp herr
      cases he
    rw [readSegment_log hfits hdrop, List.append_right_eq_self, Nat.zero_add] at hread
    rw [verifySegment_log hfits hdrop, Nat.zero_add] at hverify
    exact ⟨hfits, cleanAt_iff.mpr ⟨List.map_eq_nil_iff.mp hread, hverify⟩⟩
  · rintro ⟨hfits, hclean⟩
    obtain ⟨hread, hverify⟩ := (cleanAt_iff (C := C) (R := R)).mp hclean
    rw [readSegment_log hfits hdrop, verifySegment_log hfits hdrop, Nat.zero_add, hread]
    exact ⟨List.append_nil _, hverify⟩

section Recovery

variable {dir : SegmentDir} {closed : List (ℕ × List UInt8)} {start : ℕ} {data : List UInt8}
  {stored intact events : List (SequencerEvent C R)}

/-- Reopening sets the write position to the torn entry. -/
theorem TornTail.reopen [LawfulSerde (SequencerEvent C R)]
    (h : TornTail dir closed start data stored intact) (segmentSize : ℕ) :
    (FileJournal.openWithSegmentSize dir segmentSize : FileJournal C R).dir = dir ∧
      (FileJournal.openWithSegmentSize dir segmentSize : FileJournal C R).writer =
        ⟨start, (logBytes intact).length, data.length⟩ := by
  obtain ⟨rest, hlog⟩ := h.log
  have hlast : dir.entries.getLast? = some (start, data) := by
    rw [h.entries_eq, List.getLast?_append]
    rfl
  have hdrop : data.drop 0 = logBytes intact ++ rest := hlog
  have hscan := scanWritePosition_log h.fits hdrop
  rw [Nat.zero_add, h.torn.scanWritePosition_eq] at hscan
  have hopen : SegmentWriter.openExisting start data =
      ⟨start, (logBytes intact).length, data.length⟩ := by
    rw [SegmentWriter.openExisting, hscan]
  rw [FileJournal.openWithSegmentSize, hlast]
  exact ⟨rfl, hopen⟩

/-- **Torn-tail recovery.** After reopening a directory with a torn tail and appending events that
fit the segment, the journal reads as what was intact and what was appended and verifies, exactly
when the payloads appended fit the length field and the old bytes behind the last of them are clean.
-/
theorem torn_tail_recovers_iff [LawfulSerde (SequencerEvent C R)]
    [DelimitedSerde (SequencerEvent C R)] (h : TornTail dir closed start data stored intact)
    (henc : ∀ e ∈ events, ∃ bytes, encodeEntry e = .ok bytes)
    (hroom : (logBytes intact).length + (logBytes events).length ≤ data.length) (segmentSize : ℕ) :
    (FileJournal.appendAll events (FileJournal.openWithSegmentSize dir segmentSize)).Recovered
        (stored ++ intact ++ events) ↔
      (∀ e ∈ events, Fits e) ∧
        CleanAt data ((logBytes intact).length + (logBytes events).length) := by
  obtain ⟨hdir, hwriter⟩ := h.reopen segmentSize
  obtain ⟨rest, rfl⟩ := h.log
  rw [List.length_append] at hroom
  have hentries := FileJournal.appendAll_eq henc (hdir ▸ h.entries_eq) hwriter (by omega)
  obtain ⟨file, hfile⟩ : ∃ file,
      file = logBytes intact ++ logBytes events ++ rest.drop (logBytes events).length := ⟨_, rfl⟩
  rw [← hfile] at hentries
  -- the old file is written over up to the end of the last entry
  have hsame : SameFrom (logBytes intact ++ rest) file
      ((logBytes intact).length + (logBytes events).length) := by
    refine ⟨?_, ?_⟩
    · rw [hfile]
      simp only [List.length_append, List.length_drop]
      omega
    · rw [hfile, ← List.length_append, List.drop_left, List.length_append, ← List.drop_drop,
        List.drop_left]
  have hclean : CleanAt (logBytes intact ++ rest)
        ((logBytes intact).length + (logBytes events).length) ↔
      CleanAt file (logBytes (intact ++ events)).length := by
    rw [logBytes_append, List.length_append]
    exact ⟨hsame.cleanAt, hsame.symm.cleanAt⟩
  have hfits : (∀ e ∈ events, Fits e) ↔ ∀ e ∈ intact ++ events, Fits e := by
    rw [List.forall_mem_append]
    exact (and_iff_right h.fits).symm
  have hall : ∀ e ∈ intact ++ events, ∃ bytes, encodeEntry e = .ok bytes := by
    intro e he
    rcases List.mem_append.mp he with he | he
    · obtain ⟨-, -, -, -, hok⟩ := (h.fits e he).encodeEntry_eq
      exact ⟨_, hok⟩
    · exact henc e he
  rw [hfits, hclean, ← reads_back_iff hall (by rw [logBytes_append]; exact hfile)]
  -- the closed segments read and verify as before
  have hread := FileJournal.readFrom_zero
    (FileJournal.appendAll events (FileJournal.openWithSegmentSize dir segmentSize))
  rw [hentries, List.flatMap_append, List.flatMap_singleton] at hread
  have hverify := FileJournal.verifyIntegrity_eq_ok
    (j := FileJournal.appendAll events (FileJournal.openWithSegmentSize dir segmentSize))
  rw [hentries, List.forall_mem_append, List.forall_mem_singleton,
    and_iff_right h.closed_verify] at hverify
  constructor
  · rintro ⟨hevents, hok⟩
    rw [hread, eventsOf_append, h.closed_read, List.append_assoc stored, List.map_append] at hevents
    exact ⟨List.append_cancel_left hevents, hverify.mp hok⟩
  · rintro ⟨hevents, hok⟩
    refine ⟨?_, hverify.mpr hok⟩
    rw [hread, eventsOf_append, h.closed_read, hevents, ← List.map_append, List.append_assoc]

end Recovery

end Journal

/-! ### A torn entry of 48 bytes -/

/-- An entry and behind it another one whose checksum is wrong. -/
def tornFile : List UInt8 :=
  letI := paddedSerde
  letI := byteSum
  logBytes [paddedEvent 0 0] ++
    (overwrite (entryBytes (paddedEvent 1 0)) 47 [255] ++ List.replicate 104 0)

/-- A directory with this file. -/
def tornDir : SegmentDir := (∅ : SegmentDir).insert 0 tornFile

theorem tornTail_tornDir :
    letI := paddedSerde
    letI := byteSum
    TornTail tornDir [] 0 tornFile [] [paddedEvent 0 0] := by
  let _ := paddedSerde
  let _ := byteSum
  refine ⟨rfl, rfl, fun file hfile => (by cases hfile), fun e he => ?_, ⟨_, rfl⟩, ?_⟩
  · rw [List.mem_singleton.mp he]
    exact fits_paddedEvent (by decide)
  · exact ⟨by decide +kernel, by decide +kernel, by decide +kernel, by decide +kernel⟩

/-- An entry as long as the torn one covers it. -/
theorem tornDir_recovers :
    letI := paddedSerde
    letI := byteSum
    (FileJournal.appendAll [paddedEvent 1 0]
      (FileJournal.openWithSegmentSize tornDir 200)).Recovered
      [paddedEvent 0 0, paddedEvent 1 0] := by
  let _ := paddedSerde
  let _ := byteSum
  have hlawful := lawful_paddedSerde
  have hdelimited := delimited_paddedSerde
  have hfits : ∀ e ∈ [paddedEvent 1 0], Fits e := by
    intro e he
    rw [List.mem_singleton.mp he]
    exact fits_paddedEvent (by decide)
  have henc : ∀ e ∈ [paddedEvent 1 0], ∃ bytes, encodeEntry e = .ok bytes := by
    intro e he
    obtain ⟨-, -, -, -, hok⟩ := (hfits e he).encodeEntry_eq
    exact ⟨_, hok⟩
  have hcovered : entryEnd tornFile (logBytes [paddedEvent 0 0]).length ≤
      (logBytes [paddedEvent 0 0]).length + (logBytes [paddedEvent 1 0]).length := by
    decide +kernel
  exact (torn_tail_recovers_iff tornTail_tornDir henc (by decide +kernel) 200).mpr
    ⟨hfits, tornTail_tornDir.torn.cleanAt hcovered⟩

/-- **With nothing appended the torn entry is still there**: it is read as an error. -/
theorem tornDir_still_torn :
    letI := paddedSerde
    letI := byteSum
    TornTail tornDir [] 0 tornFile [] [paddedEvent 0 0] ∧
      ¬ (FileJournal.appendAll [] (FileJournal.openWithSegmentSize tornDir 200)).Recovered
        [paddedEvent 0 0] := by
  let _ := paddedSerde
  let _ := byteSum
  refine ⟨tornTail_tornDir, fun hrecovered => ?_⟩
  have hread := hrecovered.read
  have hentries : (FileJournal.appendAll [] (FileJournal.openWithSegmentSize tornDir 200 :
      FileJournal UInt64 Unit)).dir.entries = [(0, tornFile)] := by decide +kernel
  have hfirst : decodeNext UInt64 Unit tornFile 0 = some (.ok ⟨paddedEvent 0 0, 1⟩, 48) := by
    decide +kernel
  have hsecond : decodeNext UInt64 Unit tornFile 48 =
      some (.error (.corruptEntry 1 4278190083 3), 96) := by decide +kernel
  rw [FileJournal.readFrom_zero, hentries, List.flatMap_singleton, readSegment_of_some hfirst,
    readSegment_of_some hsecond] at hread
  cases hread

end OrderBookRs
