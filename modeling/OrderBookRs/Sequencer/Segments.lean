import OrderBookRs.Sequencer.FileJournal

/-!
# Reading what was written

The four loops over a segment (`decode_next`, `verify_integrity`, `scan_write_position`,
`scan_last_sequence`) read an entry in the same way and differ in where they stop. `IntactAt` says
what all of them need to know of an entry to pass over it; an encoded event provides it, and so each
loop walks a run of encoded events in step with the others. Behind the run they meet what was there
before it was written.

## Main definitions

* `Fits`: the event has an encoding whose length the length field can hold.
* `entryBytes`, `logBytes`: the encoding of an event and of a list of events.
* `IntactAt`: an entry that every loop passes over.
* `EndsAt`: the entries end here for every loop.

## Main results

* `intactAt_of_drop`: an encoded event is intact wherever it stands.
* `readSegment_log`, `verifySegment_log`, `scanWritePosition_log`, `scanLastSequence_log`: the loops
  over a run of encoded events.
-/

namespace OrderBookRs

section Bytes

variable {data a b c : List UInt8} {offset : ℕ}

theorem take_drop_of_drop (h : data.drop offset = a ++ (b ++ c)) :
    (data.drop (offset + a.length)).take b.length = b := by
  rw [← List.drop_drop, h, List.drop_left, List.take_left]

theorem drop_add_of_drop (h : data.drop offset = a ++ b) : data.drop (offset + a.length) = b := by
  rw [← List.drop_drop, h, List.drop_left]

theorem length_of_drop (h : data.drop offset = a ++ b) (hne : a ≠ []) :
    offset + a.length + b.length = data.length := by
  have hlen := congrArg List.length h
  have hpos := List.length_pos_of_ne_nil hne
  rw [List.length_drop, List.length_append] at hlen
  omega

end Bytes

variable {C R : Type} [Serde (SequencerEvent C R)] [Crc32] {e : SequencerEvent C R}
  {data rest : List UInt8} {offset : ℕ}

/-! ### Encoding -/

/-- The bytes an entry's checksum covers. -/
def entryBody (e : SequencerEvent C R) (payload : List UInt8) : List UInt8 :=
  leBytes 8 e.sequenceNum.toNat ++ leBytes 8 e.timestampNs.toNat ++ payload

/-- An entry with a given length field. -/
def entryFrame (length : ℕ) (e : SequencerEvent C R) (payload : List UInt8) : List UInt8 :=
  leBytes 4 length ++ entryBody e payload ++ leBytes 4 (Crc32.hash (entryBody e payload)).toNat

omit [Serde (SequencerEvent C R)] in
theorem length_entryFrame (length : ℕ) (e : SequencerEvent C R) (payload : List UInt8) :
    (entryFrame length e payload).length = payload.length + 24 := by
  simp only [entryFrame, entryBody, List.length_append, length_leBytes]
  omega

/-- **What `encode_entry` writes.** The length field counts the payload modulo `2 ^ 32`. -/
theorem encodeEntry_eq_ok {bytes : List UInt8} :
    encodeEntry e = .ok bytes ↔ ∃ payload, Serde.toVec e = .ok payload ∧
      payload.length % 2 ^ 32 + 20 ≤ u32Max ∧
      bytes = entryFrame (payload.length % 2 ^ 32 + 20) e payload := by
  rw [encodeEntry]
  cases Serde.toVec e with
  | error => simp
  | ok payload =>
    have hlength : (checkedAdd32 (8 + 8) (payload.length % 2 ^ 32)).bind
        (fun v => checkedAdd32 v 4) =
        if payload.length % 2 ^ 32 + 20 ≤ u32Max then some (payload.length % 2 ^ 32 + 20)
        else none := by
      simp only [checkedAdd32]
      split_ifs with h₁ h₂ h₂
      · simp only [Option.bind_some]
        rw [if_pos (by omega)]
        congr 1
        omega
      · simp only [Option.bind_some]
        rw [if_neg (by omega)]
      · omega
      · rfl
    simp only [hlength]
    split_ifs with h
    · constructor
      · intro heq
        exact ⟨payload, rfl, h, (Except.ok.inj heq).symm⟩
      · rintro ⟨payload', heq, -, rfl⟩
        rw [← Except.ok.inj heq]
        rfl
    · constructor
      · intro heq
        cases heq
      · rintro ⟨payload', heq, h', -⟩
        rw [← Except.ok.inj heq] at h'
        exact absurd h' h

/-- The event has a payload, and the length field can hold the length of its entry. -/
def Fits (e : SequencerEvent C R) : Prop :=
  ∃ payload, Serde.toVec e = .ok payload ∧ payload.length + 20 ≤ u32Max

/-- The entry of an event, empty if it has none. -/
def entryBytes (e : SequencerEvent C R) : List UInt8 :=
  match encodeEntry e with
  | .ok bytes => bytes
  | .error _ => []

theorem entryBytes_of_ok {bytes : List UInt8} (h : encodeEntry e = .ok bytes) :
    entryBytes e = bytes := by
  rw [entryBytes, h]

theorem Fits.encodeEntry_eq (h : Fits e) :
    ∃ payload, Serde.toVec e = .ok payload ∧ payload.length + 20 ≤ u32Max ∧
      entryBytes e = entryFrame (payload.length + 20) e payload ∧
      encodeEntry e = .ok (entryBytes e) := by
  obtain ⟨payload, hvec, hlen⟩ := h
  have hmod : payload.length % 2 ^ 32 = payload.length := by
    rw [u32Max] at hlen
    omega
  have henc : encodeEntry e = .ok (entryFrame (payload.length + 20) e payload) :=
    encodeEntry_eq_ok.mpr ⟨payload, hvec, by rw [hmod]; exact hlen, by rw [hmod]⟩
  rw [entryBytes_of_ok henc]
  exact ⟨payload, hvec, hlen, rfl, henc⟩

/-- The entries of a list of events, one after the other. -/
def logBytes (events : List (SequencerEvent C R)) : List UInt8 := events.flatMap entryBytes

@[simp] theorem logBytes_nil : logBytes ([] : List (SequencerEvent C R)) = [] := rfl

@[simp] theorem logBytes_cons (e : SequencerEvent C R) (es : List (SequencerEvent C R)) :
    logBytes (e :: es) = entryBytes e ++ logBytes es := rfl

theorem logBytes_append (es es' : List (SequencerEvent C R)) :
    logBytes (es ++ es') = logBytes es ++ logBytes es' := List.flatMap_append

/-! ### The reader -/

section Reader

variable {data : List UInt8} {offset next : ℕ} {item : Except JournalError (JournalEntry C R)}

theorem readSegment_of_some (h : decodeNext C R data offset = some (item, next)) :
    readSegment C R data offset = item :: readSegment C R data next := by
  rw [readSegment]
  split
  · next hnone =>
    rw [h] at hnone
    cases hnone
  · next item' next' hsome =>
    rw [h] at hsome
    cases hsome
    rfl

theorem readSegment_of_none (h : decodeNext C R data offset = none) :
    readSegment C R data offset = [] := by
  rw [readSegment]
  split
  · rfl
  · next hsome =>
    rw [h] at hsome
    cases hsome

end Reader

/-! ### Intact entries -/

/-- The bytes at an offset are an entry that holds an event. -/
structure IntactAt (data : List UInt8) (offset : ℕ) (e : SequencerEvent C R) : Prop where
  wide : 20 ≤ entryLength data offset
  inside : entryEnd data offset ≤ data.length
  crc : storedCrc data offset = computedCrc data offset
  decodes : Serde.fromSlice (jsonData data offset) = .ok e
  sequence : sequenceAt data offset = e.sequenceNum.toNat

omit [Serde (SequencerEvent C R)] in
/-- **The fields of an entry**, with a length field that may be wrong. -/
theorem fields_of_drop {payload : List UInt8} {length : ℕ}
    (hdrop : data.drop offset = entryFrame length e payload ++ rest) (hlength : length ≤ u32Max) :
    entryLength data offset = length ∧
      sequenceAt data offset = e.sequenceNum.toNat ∧
      offset + payload.length + 24 + rest.length = data.length := by
  have hshape : data.drop offset = [] ++ (leBytes 4 length ++ (entryBody e payload ++
      (leBytes 4 (Crc32.hash (entryBody e payload)).toNat ++ rest))) := by
    rw [hdrop, entryFrame]
    simp only [List.append_assoc, List.nil_append]
  refine ⟨?_, ?_, ?_⟩
  · have h := take_drop_of_drop hshape
    rw [length_leBytes, List.length_nil, Nat.add_zero] at h
    rw [entryLength, h, leValue_leBytes]
    rw [u32Max] at hlength
    omega
  · have hbody := drop_add_of_drop (by rwa [List.nil_append] at hshape)
    rw [length_leBytes] at hbody
    have hseq : data.drop (offset + 4) = [] ++ (leBytes 8 e.sequenceNum.toNat ++
        (leBytes 8 e.timestampNs.toNat ++ payload ++
          (leBytes 4 (Crc32.hash (entryBody e payload)).toNat ++ rest))) := by
      rw [hbody, entryBody]
      simp only [List.append_assoc, List.nil_append]
    have h := take_drop_of_drop hseq
    rw [length_leBytes, List.length_nil, Nat.add_zero] at h
    rw [sequenceAt, h, leValue_leBytes]
    exact e.sequenceNum.toNat_lt
  · have hne : entryFrame length e payload ≠ [] := by
      apply List.ne_nil_of_length_pos
      rw [length_entryFrame]
      omega
    have hlen := length_of_drop hdrop hne
    rw [length_entryFrame] at hlen
    omega

/-- **An encoded event is intact wherever it stands.** -/
theorem intactAt_of_drop [LawfulSerde (SequencerEvent C R)] (hfits : Fits e)
    (hdrop : data.drop offset = entryBytes e ++ rest) :
    IntactAt data offset e ∧ entryEnd data offset = offset + (entryBytes e).length := by
  obtain ⟨payload, hvec, hmax, heq, -⟩ := hfits.encodeEntry_eq
  rw [heq] at hdrop ⊢
  obtain ⟨hlength, hsequence, hinside⟩ := fields_of_drop hdrop hmax
  have hend : entryEnd data offset = offset + payload.length + 24 := by
    rw [entryEnd, hlength]
    omega
  have hshape : data.drop (offset + 4) = entryBody e payload ++
      (leBytes 4 (Crc32.hash (entryBody e payload)).toNat ++ rest) := by
    have h : data.drop offset = leBytes 4 (payload.length + 20) ++ (entryBody e payload ++
        (leBytes 4 (Crc32.hash (entryBody e payload)).toNat ++ rest)) := by
      rw [hdrop, entryFrame]
      simp only [List.append_assoc]
    exact drop_add_of_drop h
  have hbodylen : (entryBody e payload).length = payload.length + 16 := by
    simp only [entryBody, List.length_append, length_leBytes]
    omega
  have hcovered : checksummed data offset = entryBody e payload := by
    rw [checksummed, hlength, hshape,
      show payload.length + 20 - entryCrcSize = (entryBody e payload).length by
        rw [hbodylen, entryCrcSize]
        omega, List.take_left]
  refine ⟨⟨by omega, by omega, ?_, ?_, hsequence⟩, by rw [hend, length_entryFrame]; omega⟩
  · have hcrc := take_drop_of_drop hshape
    rw [length_leBytes, hbodylen] at hcrc
    rw [storedCrc, computedCrc, hcovered, hend, entryCrcSize,
      show offset + payload.length + 24 - 4 = offset + 4 + (payload.length + 16) by omega, hcrc,
      leValue_leBytes]
    exact (Crc32.hash _).toNat_lt
  · have hjson : data.drop (offset + 4) = (leBytes 8 e.sequenceNum.toNat ++
        leBytes 8 e.timestampNs.toNat) ++ (payload ++
          (leBytes 4 (Crc32.hash (entryBody e payload)).toNat ++ rest)) := by
      rw [hshape, entryBody]
      simp only [List.append_assoc]
    have h := take_drop_of_drop hjson
    rw [List.length_append, length_leBytes, length_leBytes] at h
    rw [jsonData, hlength, entryHeaderSize, Nat.add_sub_cancel,
      show offset + (4 + 8 + 8) = offset + 4 + (8 + 8) by omega, h]
    exact LawfulSerde.fromSlice_toVec hvec

/-- **A payload too long for the length field** is read as an error: the length field says less than
was written, and what it covers does not decode. -/
theorem decodeNext_of_oversize [DelimitedSerde (SequencerEvent C R)] {payload : List UInt8}
    (hvec : Serde.toVec e = .ok payload) (hbig : 2 ^ 32 ≤ payload.length)
    (hlength : payload.length % 2 ^ 32 + 20 ≤ u32Max)
    (hdrop : data.drop offset = entryFrame (payload.length % 2 ^ 32 + 20) e payload ++ rest) :
    ∃ err next, decodeNext C R data offset = some (.error err, next) := by
  obtain ⟨hlen, -, hinside⟩ := fields_of_drop hdrop hlength
  have hshort : payload.length % 2 ^ 32 < payload.length := by omega
  have hjson : jsonData data offset = payload.take (payload.length % 2 ^ 32) := by
    have hshape : data.drop offset = (leBytes 4 (payload.length % 2 ^ 32 + 20) ++
        (leBytes 8 e.sequenceNum.toNat ++ leBytes 8 e.timestampNs.toNat)) ++ (payload ++
          (leBytes 4 (Crc32.hash (entryBody e payload)).toNat ++ rest)) := by
      rw [hdrop, entryFrame]
      simp only [entryBody, List.append_assoc]
    have hpayload := drop_add_of_drop hshape
    simp only [List.length_append, length_leBytes] at hpayload
    rw [jsonData, hlen, entryHeaderSize, Nat.add_sub_cancel, Nat.add_assoc 4 8 8, hpayload,
      List.take_append_of_le_length hshort.le]
  obtain ⟨message, hmessage⟩ := DelimitedSerde.fromSlice_take hvec hshort
  have hend : entryEnd data offset = offset + 4 + (payload.length % 2 ^ 32 + 20) := by
    rw [entryEnd, hlen]
  rw [decodeNext, hlen, hend, hjson, hmessage, entryHeaderSize, entryCrcSize, if_neg (by omega),
    if_neg (by omega), if_neg (by omega), if_neg (by omega)]
  split_ifs
  · exact ⟨_, _, rfl⟩
  · omega
  · exact ⟨_, _, rfl⟩

/-! ### One entry -/

namespace IntactAt

variable {data : List UInt8} {offset : ℕ} {e : SequencerEvent C R} (h : IntactAt data offset e)

include h

theorem header_le : offset + entryHeaderSize ≤ data.length := by
  have hwide := h.wide
  have hinside := h.inside
  rw [entryEnd] at hinside
  rw [entryHeaderSize]
  omega

theorem decodeNext_eq : decodeNext C R data offset =
    some (.ok ⟨e, storedCrc data offset⟩, entryEnd data offset) := by
  have hheader := h.header_le
  have hwide := h.wide
  have hinside := h.inside
  have hcrcSize : ¬ entryLength data offset < entryCrcSize := by
    rw [entryCrcSize]
    omega
  have hheaderSize : ¬ entryLength data offset < entryHeaderSize := by
    rw [entryHeaderSize]
    omega
  rw [decodeNext, if_neg (by omega), if_neg (by omega), if_neg (by omega), if_neg hcrcSize,
    if_neg (not_not.mpr h.crc), if_neg hheaderSize, h.decodes]

theorem readSegment_eq : readSegment C R data offset =
    .ok ⟨e, storedCrc data offset⟩ :: readSegment C R data (entryEnd data offset) :=
  readSegment_of_some h.decodeNext_eq

theorem verifySegment_eq :
    verifySegment data offset = verifySegment data (entryEnd data offset) := by
  have hheader := h.header_le
  have hwide := h.wide
  have hinside := h.inside
  have hcrcSize : ¬ entryLength data offset < entryCrcSize := by
    rw [entryCrcSize]
    omega
  rw [verifySegment, if_neg (by omega), if_neg (by omega), if_neg (by omega), if_neg hcrcSize,
    if_neg (not_not.mpr h.crc)]

theorem entryCrcValid_eq : entryCrcValid data offset = true := by
  have hwide := h.wide
  have hcrcSize : entryCrcSize ≤ entryLength data offset := by
    rw [entryCrcSize]
    omega
  rw [entryCrcValid, decide_eq_true_eq]
  exact ⟨hcrcSize, h.inside, h.crc.symm⟩

theorem scanWritePosition_eq : scanWritePosition data data.length offset =
    scanWritePosition data data.length (entryEnd data offset) := by
  have hheader := h.header_le
  have hwide := h.wide
  have hinside := h.inside
  rw [entryHeaderSize] at hheader
  rw [scanWritePosition, if_neg (by omega), if_neg (by omega), if_neg (by omega),
    if_neg (by rw [h.entryCrcValid_eq]; decide)]

theorem scanLastSequence_eq {writePos : ℕ} (hpos : entryEnd data offset ≤ writePos)
    (last : Option ℕ) : scanLastSequence data writePos offset last =
      scanLastSequence data writePos (entryEnd data offset) (some e.sequenceNum.toNat) := by
  have hwide := h.wide
  have hinside := h.inside
  have hheader : ¬ writePos < offset + entryHeaderSize := by
    rw [entryHeaderSize]
    rw [entryEnd] at hpos
    omega
  rw [entryEnd] at hinside
  rw [scanLastSequence, if_neg hheader, if_neg (by omega), if_neg (by omega), if_neg (by omega),
    if_neg (by omega), h.sequence]

end IntactAt

/-! ### A run of entries -/

section Log

variable [LawfulSerde (SequencerEvent C R)] {data rest : List UInt8} {offset : ℕ}
  {events : List (SequencerEvent C R)}

/-- The reader yields the events of a run and goes on behind it. -/
theorem readSegment_log (hfits : ∀ e ∈ events, Fits e)
    (hdrop : data.drop offset = logBytes events ++ rest) :
    eventsOf (readSegment C R data offset) = events.map .ok ++
      eventsOf (readSegment C R data (offset + (logBytes events).length)) := by
  induction events generalizing offset with
  | nil => rfl
  | cons e es ih =>
    rw [logBytes_cons, List.append_assoc] at hdrop
    obtain ⟨hintact, hend⟩ := intactAt_of_drop (hfits e (List.mem_cons_self ..)) hdrop
    have htail := ih (List.forall_mem_cons.mp hfits).2 (drop_add_of_drop hdrop)
    rw [hintact.readSegment_eq, hend, logBytes_cons, List.length_append, ← Nat.add_assoc,
      List.map_cons, List.cons_append, ← htail]
    rfl

/-- What a loop that keeps no accounts finds, it finds behind the run. -/
theorem eq_of_log {α : Type} {f : ℕ → α}
    (hf : ∀ offset (e : SequencerEvent C R), IntactAt data offset e →
      f offset = f (entryEnd data offset))
    (hfits : ∀ e ∈ events, Fits e) (hdrop : data.drop offset = logBytes events ++ rest) :
    f offset = f (offset + (logBytes events).length) := by
  induction events generalizing offset with
  | nil => rfl
  | cons e es ih =>
    rw [logBytes_cons, List.append_assoc] at hdrop
    obtain ⟨hintact, hend⟩ := intactAt_of_drop (hfits e (List.mem_cons_self ..)) hdrop
    rw [hf offset e hintact, hend, logBytes_cons, List.length_append, ← Nat.add_assoc,
      ih (List.forall_mem_cons.mp hfits).2 (drop_add_of_drop hdrop)]

theorem verifySegment_log (hfits : ∀ e ∈ events, Fits e)
    (hdrop : data.drop offset = logBytes events ++ rest) :
    verifySegment data offset = verifySegment data (offset + (logBytes events).length) :=
  eq_of_log (fun _ _ h => h.verifySegment_eq) hfits hdrop

theorem scanWritePosition_log (hfits : ∀ e ∈ events, Fits e)
    (hdrop : data.drop offset = logBytes events ++ rest) :
    scanWritePosition data data.length offset =
      scanWritePosition data data.length (offset + (logBytes events).length) :=
  eq_of_log (fun _ _ h => h.scanWritePosition_eq) hfits hdrop

/-- The number found is that of the last event of the run, or the one found before it. -/
theorem scanLastSequence_log (hfits : ∀ e ∈ events, Fits e)
    (hdrop : data.drop offset = logBytes events ++ rest) (last : Option ℕ) :
    scanLastSequence data (offset + (logBytes events).length) offset last =
      (events.getLast?.map fun e => e.sequenceNum.toNat).or last := by
  induction events generalizing offset last with
  | nil =>
    rw [scanLastSequence, if_pos]
    · rfl
    · rw [logBytes_nil, List.length_nil, entryHeaderSize]
      omega
  | cons e es ih =>
    rw [logBytes_cons, List.append_assoc] at hdrop
    obtain ⟨hintact, hend⟩ := intactAt_of_drop (hfits e (List.mem_cons_self ..)) hdrop
    rw [logBytes_cons, List.length_append, ← Nat.add_assoc,
      hintact.scanLastSequence_eq (by omega), hend,
      ih (List.forall_mem_cons.mp hfits).2 (drop_add_of_drop hdrop)]
    cases es with
    | nil => rfl
    | cons e' es =>
      rw [List.getLast?_cons_cons]
      cases h : (e' :: es).getLast? with
      | none => simp at h
      | some => rfl

end Log

/-! ### Behind the entries -/

section Zeros

variable {data : List UInt8} {offset k : ℕ} (hdrop : data.drop offset = List.replicate k 0)

include hdrop

omit [Crc32] in
theorem entryLength_of_zeros : entryLength data offset = 0 := by
  rw [entryLength, hdrop, List.take_replicate, leValue_eq_zero_iff]
  exact fun byte hbyte => List.eq_of_mem_replicate hbyte

omit [Serde (SequencerEvent C R)] in
theorem scanWritePosition_zeros : scanWritePosition data data.length offset = offset := by
  rw [scanWritePosition, entryLength_of_zeros hdrop]
  split_ifs <;> first | rfl | omega

end Zeros

/-- Reader and verifier stop at an offset where no entry fits or the length is zero. -/
def EndsAt (data : List UInt8) (offset : ℕ) : Prop :=
  data.length < offset + entryHeaderSize ∨ entryLength data offset = 0

variable {data : List UInt8} {offset : ℕ}

theorem EndsAt.readSegment_eq (h : EndsAt data offset) : readSegment C R data offset = [] := by
  have hnone : decodeNext C R data offset = none := by
    rw [decodeNext]
    rcases h with h | h
    · rw [if_pos h]
    · rw [if_pos h, ite_self]
  exact readSegment_of_none hnone

omit [Serde (SequencerEvent C R)] in
theorem EndsAt.verifySegment_eq (h : EndsAt data offset) : verifySegment data offset = .ok () := by
  rw [verifySegment]
  rcases h with h | h
  · rw [if_pos h]
  · rw [if_pos h, ite_self]

end OrderBookRs
