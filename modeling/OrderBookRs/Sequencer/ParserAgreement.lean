import OrderBookRs.Sequencer.TornTail

/-!
# The parsers of a segment

Four loops walk over the bytes of a segment: `verify_integrity`, the reader, and the two scans of a
reopen. They all follow the length fields, but they do not ask for the same room. The verifier and
the reader want 20 bytes before they look at a length, the scan for the write position wants four.
The verifier takes an entry that is only a length and a checksum; the reader also wants the sequence
number and the timestamp, and stops at an entry without them.

## Main definitions

* `entryOffsets`: the entries the length fields lead through.
* `ParsersAgree`: reader and scans find the entries the verifier has checked.
* `Framed`: every entry has room for its header, and what is left behind them is no entry.

## Main results

* `parsers_agree_iff`: on a segment the verifier accepts, the parsers agree iff it is framed.
-/

namespace OrderBookRs

/-! ### The entries of a segment -/

section Entries

variable {data : List UInt8} {offset : ℕ}

/-- The offsets of the entries from an offset on: those the loop of `verify_integrity` goes
through. -/
def entryOffsets (data : List UInt8) (offset : ℕ) : List ℕ :=
  if data.length < offset + entryHeaderSize then []
  else if entryLength data offset = 0 then []
  else offset :: entryOffsets data (entryEnd data offset)
termination_by data.length - offset
decreasing_by
  rw [entryEnd, entryHeaderSize] at *
  omega

/-- The end of the last entry from an offset on. -/
def endOfEntries (data : List UInt8) (offset : ℕ) : ℕ :=
  ((entryOffsets data offset).getLast?.map (entryEnd data)).getD offset

theorem lt_entryEnd (data : List UInt8) (offset : ℕ) : offset < entryEnd data offset := by
  rw [entryEnd]
  omega

theorem EndsAt.entryOffsets_eq (h : EndsAt data offset) : entryOffsets data offset = [] := by
  rw [entryOffsets]
  rcases h with h | h
  · rw [if_pos h]
  · rw [if_pos h, ite_self]

theorem EndsAt.endOfEntries_eq (h : EndsAt data offset) : endOfEntries data offset = offset := by
  rw [endOfEntries, h.entryOffsets_eq]
  rfl

theorem entryOffsets_of_not_ends (h : ¬ EndsAt data offset) :
    entryOffsets data offset = offset :: entryOffsets data (entryEnd data offset) := by
  obtain ⟨hroom, hlength⟩ := not_or.mp h
  rw [entryOffsets, if_neg hroom, if_neg hlength]

theorem endOfEntries_of_not_ends (h : ¬ EndsAt data offset) :
    endOfEntries data offset = endOfEntries data (entryEnd data offset) := by
  rw [endOfEntries, entryOffsets_of_not_ends h, endOfEntries, List.getLast?_cons]
  cases (entryOffsets data (entryEnd data offset)).getLast? with
  | none | some => rfl

theorem le_endOfEntries (data : List UInt8) (offset : ℕ) : offset ≤ endOfEntries data offset := by
  fun_induction entryOffsets data offset with
  | case1 offset hshort => rw [EndsAt.endOfEntries_eq (Or.inl hshort)]
  | case2 offset _ hzero => rw [EndsAt.endOfEntries_eq (Or.inr hzero)]
  | case3 offset hroom hlength ih =>
    rw [endOfEntries_of_not_ends (not_or.mpr ⟨hroom, hlength⟩)]
    exact (lt_entryEnd data offset).le.trans ih

end Entries

section Parsers

variable [Crc32] {data : List UInt8} {offset : ℕ}

/-- **What the verifier accepts**, by one entry: it ends here, or there is an entry with a right
checksum and it accepts what is behind it. -/
theorem verifySegment_cases (h : verifySegment data offset = .ok ()) :
    EndsAt data offset ∨ ¬ EndsAt data offset ∧ entryCrcSize ≤ entryLength data offset ∧
      entryEnd data offset ≤ data.length ∧ storedCrc data offset = computedCrc data offset ∧
      verifySegment data (entryEnd data offset) = .ok () := by
  by_cases hends : EndsAt data offset
  · exact Or.inl hends
  · obtain ⟨hroom, hlength⟩ := not_or.mp hends
    rw [verifySegment, if_neg hroom, if_neg hlength] at h
    split_ifs at h with hinside hwide hcrc
    exact Or.inr ⟨hends, not_lt.mp hwide, not_lt.mp hinside, not_not.mp hcrc, h⟩

/-- **Induction over the entries of an accepted segment.** -/
theorem accepted_induction {motive : ℕ → Prop}
    (hends : ∀ {offset}, EndsAt data offset → motive offset)
    (hentry : ∀ {offset}, ¬ EndsAt data offset → entryCrcSize ≤ entryLength data offset →
      entryEnd data offset ≤ data.length → storedCrc data offset = computedCrc data offset →
      motive (entryEnd data offset) → motive offset)
    (h : verifySegment data offset = .ok ()) : motive offset := by
  fun_induction entryOffsets data offset with
  | case1 offset hshort => exact hends (Or.inl hshort)
  | case2 offset _ hzero => exact hends (Or.inr hzero)
  | case3 offset hroom hlength ih =>
    rcases verifySegment_cases h with hends' | ⟨hends', hwide, hinside, hcrc, hrest⟩
    · exact hends hends'
    · exact hentry hends' hwide hinside hcrc (ih hrest)

/-! ### The scans -/

theorem le_scanWritePosition (data : List UInt8) (capacity offset : ℕ) :
    offset ≤ scanWritePosition data capacity offset := by
  fun_induction scanWritePosition data capacity offset with
  | case1 | case2 | case3 | case4 => exact le_rfl
  | case5 offset _ _ _ _ ih => exact (lt_entryEnd data offset).le.trans ih

theorem entryCrcValid_iff : entryCrcValid data offset = true ↔
    entryCrcSize ≤ entryLength data offset ∧ entryEnd data offset ≤ data.length ∧
      computedCrc data offset = storedCrc data offset := by
  rw [entryCrcValid, decide_eq_true_eq]

theorem scanWritePosition_of_valid (h : entryCrcValid data offset = true) :
    scanWritePosition data data.length offset =
      scanWritePosition data data.length (entryEnd data offset) := by
  obtain ⟨hwide, hinside, -⟩ := entryCrcValid_iff.mp h
  have hend : entryEnd data offset = offset + 4 + entryLength data offset := rfl
  rw [entryCrcSize] at hwide
  rw [scanWritePosition, if_neg (by omega), if_neg (by omega), if_neg (by omega),
    if_neg (by rw [h]; exact Bool.noConfusion)]

theorem scanWritePosition_of_invalid (h : entryCrcValid data offset = false) :
    scanWritePosition data data.length offset = offset := by
  rw [scanWritePosition, if_pos h, ite_self, ite_self, ite_self]

/-- The scan for the write position passes every entry the verifier accepts. -/
theorem scanWritePosition_accepted (h : verifySegment data offset = .ok ()) :
    scanWritePosition data data.length offset =
      scanWritePosition data data.length (endOfEntries data offset) := by
  refine accepted_induction (motive := fun offset => scanWritePosition data data.length offset =
    scanWritePosition data data.length (endOfEntries data offset)) ?_ ?_ h
  · intro offset hends
    rw [hends.endOfEntries_eq]
  · intro offset hends hwide hinside hcrc ih
    rw [scanWritePosition_of_valid (entryCrcValid_iff.mpr ⟨hwide, hinside, hcrc.symm⟩), ih,
      endOfEntries_of_not_ends hends]

/-- **The write position is the end of the last entry** iff what is behind it is no entry. -/
theorem scanWritePosition_eq_iff (h : verifySegment data offset = .ok ()) :
    scanWritePosition data data.length offset = endOfEntries data offset ↔
      entryCrcValid data (endOfEntries data offset) = false := by
  rw [scanWritePosition_accepted h]
  constructor
  · intro hstops
    by_contra hvalid
    rw [scanWritePosition_of_valid (Bool.not_eq_false _ ▸ hvalid)] at hstops
    have hle := le_scanWritePosition data data.length (entryEnd data (endOfEntries data offset))
    rw [hstops] at hle
    exact absurd (lt_entryEnd data (endOfEntries data offset)) (not_lt.mpr hle)
  · exact scanWritePosition_of_invalid

/-- Every entry from an offset on has room for its header. -/
def Roomy (data : List UInt8) (offset : ℕ) : Prop :=
  ∀ entry ∈ entryOffsets data offset, entryHeaderSize ≤ entryLength data entry

omit [Crc32] in
theorem Roomy.tail (hends : ¬ EndsAt data offset) (h : Roomy data offset) :
    entryHeaderSize ≤ entryLength data offset ∧ Roomy data (entryEnd data offset) := by
  rw [Roomy, entryOffsets_of_not_ends hends] at h
  exact ⟨h offset List.mem_cons_self, fun entry hentry => h entry (List.mem_cons_of_mem _ hentry)⟩

/-- The scan for the last number up to the end of the last entry finds that entry's. -/
theorem scanLastSequence_accepted (h : verifySegment data offset = .ok ())
    (hroomy : Roomy data offset) (last : Option ℕ) :
    scanLastSequence data (endOfEntries data offset) offset last =
      ((entryOffsets data offset).getLast?.map (sequenceAt data)).or last := by
  refine accepted_induction (motive := fun offset => Roomy data offset → ∀ last,
    scanLastSequence data (endOfEntries data offset) offset last =
      ((entryOffsets data offset).getLast?.map (sequenceAt data)).or last) ?_ ?_ h hroomy last
  · intro offset hends _ last
    rw [hends.endOfEntries_eq, hends.entryOffsets_eq, scanLastSequence, if_pos (by
      rw [entryHeaderSize]; omega)]
    rfl
  · intro offset hends _ hinside _ ih hroomy last
    obtain ⟨hwide, htail⟩ := hroomy.tail hends
    have hend : entryEnd data offset = offset + 4 + entryLength data offset := rfl
    have hlast := le_endOfEntries data (entryEnd data offset)
    rw [entryHeaderSize] at hwide
    rw [endOfEntries_of_not_ends hends, scanLastSequence,
      if_neg (by rw [entryHeaderSize]; omega), if_neg (by omega), if_neg (by omega),
      if_neg (by omega), if_neg (by omega), ih htail, entryOffsets_of_not_ends hends,
      List.getLast?_cons]
    cases (entryOffsets data (entryEnd data offset)).getLast? with
    | none | some => rfl

/-! ### The reader -/

variable {C R : Type} [Serde (SequencerEvent C R)]

/-- **Behind a right checksum** the reader has an item iff the entry has room for its header. -/
theorem decodeNext_of_crc (hends : ¬ EndsAt data offset)
    (hwide : entryCrcSize ≤ entryLength data offset) (hinside : entryEnd data offset ≤ data.length)
    (hcrc : storedCrc data offset = computedCrc data offset) :
    if entryHeaderSize ≤ entryLength data offset then
      ∃ item, decodeNext C R data offset = some (item, entryEnd data offset) ∧
        ∀ sequence expected actual, item ≠ .error (.corruptEntry sequence expected actual)
    else decodeNext C R data offset = none := by
  obtain ⟨hroom, hlength⟩ := not_or.mp hends
  rw [decodeNext, if_neg hroom, if_neg hlength, if_neg (not_lt.mpr hinside),
    if_neg (not_lt.mpr hwide), if_neg (not_not.mpr hcrc)]
  split_ifs with hheader hshort
  · omega
  · cases (Serde.fromSlice (jsonData data offset) : Except String (SequencerEvent C R)) with
    | ok | error => exact ⟨_, rfl, fun _ _ _ h => by cases h⟩
  · rfl
  · omega

/-- The reader meets no wrong checksum in a segment the verifier accepts. -/
theorem readSegment_accepted (h : verifySegment data offset = .ok ()) :
    ∀ sequence expected actual,
      .error (.corruptEntry sequence expected actual) ∉ readSegment C R data offset := by
  refine accepted_induction (motive := fun offset => ∀ sequence expected actual,
    .error (.corruptEntry sequence expected actual) ∉ readSegment C R data offset) ?_ ?_ h
  · intro offset hends sequence expected actual
    rw [hends.readSegment_eq]
    exact List.not_mem_nil
  · intro offset hends hwide hinside hcrc ih sequence expected actual
    have hdecode := decodeNext_of_crc (C := C) (R := R) hends hwide hinside hcrc
    split_ifs at hdecode with hheader
    · obtain ⟨item, hitem, hright⟩ := hdecode
      rw [readSegment_of_some hitem]
      exact List.not_mem_cons_of_ne_of_not_mem (hright sequence expected actual).symm
        (ih sequence expected actual)
    · rw [readSegment_of_none hdecode]
      exact List.not_mem_nil

/-- **The reader has an item for each entry** iff all of them have room for their headers. -/
theorem readSegment_visits_iff (h : verifySegment data offset = .ok ()) :
    (readSegment C R data offset).map some =
        (entryOffsets data offset).map (fun entry => (decodeNext C R data entry).map Prod.fst) ↔
      Roomy data offset := by
  refine accepted_induction (motive := fun offset => (readSegment C R data offset).map some =
    (entryOffsets data offset).map (fun entry => (decodeNext C R data entry).map Prod.fst) ↔
      Roomy data offset) ?_ ?_ h
  · intro offset hends
    rw [hends.readSegment_eq, Roomy, hends.entryOffsets_eq]
    exact iff_of_true rfl fun entry hentry => absurd hentry List.not_mem_nil
  · intro offset hends hwide hinside hcrc ih
    have hdecode := decodeNext_of_crc (C := C) (R := R) hends hwide hinside hcrc
    rw [Roomy, entryOffsets_of_not_ends hends, List.forall_mem_cons, List.map_cons]
    split_ifs at hdecode with hheader
    · obtain ⟨item, hitem, -⟩ := hdecode
      rw [readSegment_of_some hitem, List.map_cons, hitem, and_iff_right hheader, ← Roomy, ← ih]
      exact List.cons_inj_right _
    · rw [readSegment_of_none hdecode, hdecode]
      exact iff_of_false nofun fun hroomy => hheader hroomy.1

end Parsers

/-! ### Agreement -/

section Agreement

variable (C R : Type) [Serde (SequencerEvent C R)] [Crc32] (data : List UInt8)

/-- **The parsers agree** on the entries the verifier has gone through: the reader has no wrong
checksum and an item for each of them, the write position is the end of the last and the last number
is that one's. -/
structure ParsersAgree : Prop where
  crc : ∀ sequence expected actual,
    .error (.corruptEntry sequence expected actual) ∉ readSegment C R data 0
  visits : (readSegment C R data 0).map some =
    (entryOffsets data 0).map fun entry => (decodeNext C R data entry).map Prod.fst
  writePosition : scanWritePosition data data.length 0 = endOfEntries data 0
  lastSequence : scanLastSequence data (scanWritePosition data data.length 0) 0 none =
    (entryOffsets data 0).getLast?.map (sequenceAt data)

/-- Every entry has room for its header, and what is left behind the last one is not itself an entry
with a right checksum. -/
def Framed : Prop := Roomy data 0 ∧ entryCrcValid data (endOfEntries data 0) = false

instance : Decidable (Framed data) :=
  inferInstanceAs (Decidable
    ((∀ entry ∈ entryOffsets data 0, entryHeaderSize ≤ entryLength data entry) ∧ _ = _))

end Agreement

/-- **The parsers of an accepted segment agree** iff it is framed. -/
theorem parsers_agree_iff {C R : Type} [Serde (SequencerEvent C R)] [Crc32] {data : List UInt8}
    (h : verifySegment data 0 = .ok ()) : ParsersAgree C R data ↔ Framed data := by
  constructor
  · intro hagree
    exact ⟨(readSegment_visits_iff h).mp hagree.visits,
      (scanWritePosition_eq_iff h).mp hagree.writePosition⟩
  · rintro ⟨hroomy, hleft⟩
    have hposition := (scanWritePosition_eq_iff h).mpr hleft
    refine ⟨readSegment_accepted h, (readSegment_visits_iff h).mpr hroomy, hposition, ?_⟩
    rw [hposition, scanLastSequence_accepted h hroomy, Option.or_none]

/-- The sum of the bytes, which is zero for no bytes. -/
@[reducible] def plainSum : Crc32 := ⟨fun bytes => .ofNat (bytes.map UInt8.toNat).sum⟩

/-- Two entries and zeros behind them. -/
theorem twoEntries_agree :
    letI := paddedSerde
    letI := plainSum
    let data := logBytes [paddedEvent 7 0, paddedEvent 8 3] ++ List.replicate 30 0
    ParsersAgree UInt64 Unit data := by
  let _ := paddedSerde
  let _ := plainSum
  exact (parsers_agree_iff (by decide +kernel)).mpr (by decide +kernel)

/-- **An entry without a header.** A length of four, and zeros: the checksum of nothing is right.
The verifier accepts an entry which the reader does not see. -/
theorem bareChecksum_disagree :
    letI := paddedSerde
    letI := plainSum
    let data : List UInt8 := 4 :: List.replicate 19 0
    plainSum.hash [] = 0 ∧ verifySegment data 0 = .ok () ∧ entryOffsets data 0 = [0] ∧
      ¬ ParsersAgree UInt64 Unit data := by
  let _ := paddedSerde
  let _ := plainSum
  refine ⟨by decide +kernel, by decide +kernel, by decide +kernel, fun hagree => ?_⟩
  have hvisits := hagree.visits
  rw [readSegment_of_none (by decide +kernel)] at hvisits
  revert hvisits
  decide +kernel

end OrderBookRs
