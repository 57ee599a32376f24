import OrderBookRs.Collections.SortedMap
import OrderBookRs.Collections.LittleEndian
import OrderBookRs.Order
import OrderBookRs.Sequencer.Journal

/-!
# The file journal

`sequencer/file_journal.rs`: events in append-only segment files. An entry is

```
[4 bytes: length][8 bytes: sequence][8 bytes: timestamp][payload][4 bytes: checksum]
```

where the length counts everything after itself and the checksum covers sequence, timestamp and
payload, but not the length. A segment file is created full of zeros at a fixed size and named by
the sequence number it starts with; an entry that does not fit goes to a new segment. The end of the
entries is not recorded anywhere: a reader stops at a zero length or where no further entry fits.

A directory is a map from start sequences to file contents, so listing it gives the starts in order.
A mapped file is its contents, and a write to it is a write to the directory. Which of the calls
an append makes to the operating system and to its locks fail is a parameter; in the other
operations, and in an `append` without the parameter, none does. Offsets are `usize` and the source
checks their sums for overflow; an overflowing offset is beyond the file in any case, where the code
does the same.

## Main definitions

* `FileJournal`, `SegmentWriter`.
* `encodeEntry`, `decodeNext`: one entry.
* `AppendCall`, `Faults`: the calls of an append that can fail.
* `FileJournal.openWithSegmentSize`, `appendUnder`, `append`, `readFrom`, `verifyIntegrity`,
  `archiveSegmentsBefore`.
-/

namespace OrderBookRs

open Fallible

/-- `ENTRY_HEADER_SIZE`. -/
def entryHeaderSize : ℕ := 4 + 8 + 8

/-- `ENTRY_CRC_SIZE`. -/
def entryCrcSize : ℕ := 4

/-! ### The fields of an entry

Read off the bytes at an offset, wherever it points. -/

section Fields

variable (data : List UInt8) (offset : ℕ)

/-- The length field. -/
def entryLength : ℕ := leValue ((data.drop offset).take 4)

/-- The offset after the entry. -/
def entryEnd : ℕ := offset + 4 + entryLength data offset

/-- The sequence field. -/
def sequenceAt : ℕ := leValue ((data.drop (offset + 4)).take 8)

/-- The bytes the checksum covers. -/
def checksummed : List UInt8 :=
  (data.drop (offset + 4)).take (entryLength data offset - entryCrcSize)

/-- The payload, between timestamp and checksum. -/
def jsonData : List UInt8 :=
  (data.drop (offset + entryHeaderSize)).take (entryLength data offset - entryHeaderSize)

/-- The checksum field. -/
def storedCrc : ℕ := leValue ((data.drop (entryEnd data offset - entryCrcSize)).take 4)

/-- The checksum the entry should have. -/
def computedCrc [Crc32] : ℕ := (Crc32.hash (checksummed data offset)).toNat

end Fields

section Scan

variable [Crc32]

/-- `entry_crc_valid`. -/
def entryCrcValid (data : List UInt8) (offset : ℕ) : Bool :=
  entryCrcSize ≤ entryLength data offset ∧ entryEnd data offset ≤ data.length ∧
    computedCrc data offset = storedCrc data offset

/-- `scan_write_position`, from an offset on: the end of the last entry whose checksum is right. -/
def scanWritePosition (data : List UInt8) (capacity offset : ℕ) : ℕ :=
  if capacity < offset + 4 ∨ data.length < offset + 4 then offset
  else if entryLength data offset = 0 then offset
  else if capacity < entryEnd data offset ∨ data.length < entryEnd data offset then offset
  else if entryCrcValid data offset = false then offset
  else scanWritePosition data capacity (entryEnd data offset)
termination_by data.length - offset
decreasing_by
  rw [entryEnd] at *
  omega

/-- `scan_last_sequence`, from an offset on: the number of the last entry before the write
position. -/
def scanLastSequence (data : List UInt8) (writePos offset : ℕ) (lastSeq : Option ℕ) : Option ℕ :=
  if writePos < offset + entryHeaderSize then lastSeq
  else if data.length < offset + 4 then none
  else if entryLength data offset = 0 then lastSeq
  else if writePos < entryEnd data offset then lastSeq
  else if data.length < offset + 4 + 8 then none
  else scanLastSequence data writePos (entryEnd data offset) (some (sequenceAt data offset))
termination_by writePos - offset
decreasing_by
  rw [entryEnd] at *
  omega

/-- The loop of `verify_integrity` over one segment, from an offset on. -/
def verifySegment (data : List UInt8) (offset : ℕ) : Except JournalError Unit :=
  if data.length < offset + entryHeaderSize then .ok ()
  else if entryLength data offset = 0 then .ok ()
  else if data.length < entryEnd data offset then
    .error (.invalidEntryHeader offset "truncated entry (extends beyond segment data)")
  else if entryLength data offset < entryCrcSize then
    .error (.invalidEntryHeader offset "truncated payload")
  else if storedCrc data offset ≠ computedCrc data offset then
    .error (.corruptEntry (sequenceAt data offset) (storedCrc data offset)
      (computedCrc data offset))
  else verifySegment data (entryEnd data offset)
termination_by data.length - offset
decreasing_by
  rw [entryEnd] at *
  omega

end Scan

section Codec

variable {C R : Type} [Serde (SequencerEvent C R)] [Crc32]

/-- `u32::checked_add`. -/
def checkedAdd32 (a b : ℕ) : Option ℕ := if a + b ≤ u32Max then some (a + b) else none

/-- `encode_entry`. The payload length is cast to `u32` before it is added up. -/
def encodeEntry (e : SequencerEvent C R) : Except JournalError (List UInt8) :=
  match Serde.toVec e with
  | .error message => .error (.serializationError message)
  | .ok payload =>
    match (checkedAdd32 (8 + 8) (payload.length % 2 ^ 32)).bind fun v => checkedAdd32 v 4 with
    | none => .error (.serializationError "entry size overflow")
    | some length =>
      let body := leBytes 8 e.sequenceNum.toNat ++ leBytes 8 e.timestampNs.toNat ++ payload
      .ok (leBytes 4 length ++ body ++ leBytes 4 (Crc32.hash body).toNat)

variable (C R) in
/-- `decode_next`: the item at an offset and the offset after it, or the end of the segment. -/
def decodeNext (data : List UInt8) (offset : ℕ) :
    Option (Except JournalError (JournalEntry C R) × ℕ) :=
  if data.length < offset + entryHeaderSize then none
  else if entryLength data offset = 0 then none
  else if data.length < entryEnd data offset then none
  -- the slices of checksum and payload are empty ranges turned around
  else if entryLength data offset < entryCrcSize then none
  else if storedCrc data offset ≠ computedCrc data offset then
    some (.error (.corruptEntry (sequenceAt data offset) (storedCrc data offset)
      (computedCrc data offset)), entryEnd data offset)
  else if entryLength data offset < entryHeaderSize then none
  else
    match Serde.fromSlice (jsonData data offset) with
    | .ok event => some (.ok ⟨event, storedCrc data offset⟩, entryEnd data offset)
    | .error message =>
      some (.error (.deserializationError (sequenceAt data offset) message), entryEnd data offset)

/-- An item lies inside the segment and is not empty. -/
theorem lt_of_decodeNext {data : List UInt8} {offset next : ℕ}
    {item : Except JournalError (JournalEntry C R)}
    (h : decodeNext C R data offset = some (item, next)) : offset < next ∧ next ≤ data.length := by
  have hend : next = entryEnd data offset ∧ ¬ data.length < entryEnd data offset := by
    rw [decodeNext] at h
    split_ifs at h with _ _ hinside
    · cases h
      exact ⟨rfl, hinside⟩
    · cases hjson :
        (Serde.fromSlice (jsonData data offset) : Except String (SequencerEvent C R)) with
      | ok | error =>
        rw [hjson] at h
        cases h
        exact ⟨rfl, hinside⟩
  rw [entryEnd] at hend
  omega

variable (C R) in
/-- What the iterator yields from one segment, from an offset on. -/
def readSegment (data : List UInt8) (offset : ℕ) :
    List (Except JournalError (JournalEntry C R)) :=
  match _h : decodeNext C R data offset with
  | none => []
  | some (item, next) => item :: readSegment data next
termination_by data.length - offset
decreasing_by
  have := lt_of_decodeNext _h
  omega

/-- The test in `next` that skips entries before the requested start. -/
def notBefore (start : ℕ) : Except JournalError (JournalEntry C R) → Bool
  | .ok entry => start ≤ entry.event.sequenceNum.toNat
  | .error _ => true

end Codec

/-! ### The journal -/

/-- `SegmentWriter`; `path` is the start sequence the file is named by. -/
structure SegmentWriter where
  path : ℕ
  writePos : ℕ
  capacity : ℕ
  deriving DecidableEq, Repr

/-- The segment files of a directory by start sequence. -/
abbrev SegmentDir := SortedMap ℕ (List UInt8)

/-- `FileJournal`. -/
structure FileJournal (C R : Type) where
  dir : SegmentDir
  writer : SegmentWriter
  segmentSize : ℕ
  segmentStartSeq : ℕ
  lastSeq : Option ℕ

namespace SegmentWriter

/-- `remaining`. -/
def remaining (w : SegmentWriter) : ℕ := w.capacity - w.writePos

/-- `create`: a file of zeros under the name, whatever was there before. -/
def create (path capacity : ℕ) (dir : SegmentDir) : SegmentWriter × SegmentDir :=
  (⟨path, 0, capacity⟩, dir.insert path (List.replicate capacity 0))

/-- `open_existing`. -/
def openExisting [Crc32] (path : ℕ) (data : List UInt8) : SegmentWriter :=
  ⟨path, scanWritePosition data data.length 0, data.length⟩

end SegmentWriter

/-- The calls an append makes to the operating system and to its locks. -/
inductive AppendCall
  | writerLock | flush | openFile | setLen | map | startLock | flushRange | lastLock
  deriving DecidableEq, Repr

/-- The calls that fail, each with the message of its error. A call that fails does nothing. -/
abbrev Faults := AppendCall → Option String

section Faults

variable {σ : Type} (faults : Faults) (call : AppendCall)

/-- A call to the operating system about a segment file. -/
def system (path : ℕ) : Fallible JournalError σ Unit :=
  match faults call with
  | none => pure ()
  | some message => fail (.io message path)

/-- Take a lock, unless it is poisoned. -/
def lock : Fallible JournalError σ Unit :=
  match faults call with
  | none => pure ()
  | some _ => fail .mutexPoisoned

variable {faults call}

theorem system_of_none (h : faults call = none) (path : ℕ) (s : σ) :
    system faults call path s = (.ok (), s) := by rw [system, h]; rfl

theorem system_of_some {message : String} (h : faults call = some message) (path : ℕ) (s : σ) :
    system faults call path s = (.error (.io message path), s) := by rw [system, h]; rfl

theorem lock_of_none (h : faults call = none) (s : σ) : lock faults call s = (.ok (), s) := by
  rw [lock, h]; rfl

theorem lock_of_some {message : String} (h : faults call = some message) (s : σ) :
    lock faults call s = (.error .mutexPoisoned, s) := by rw [lock, h]; rfl

end Faults

/-- Copy bytes over the contents of a file. -/
def overwrite (data : List UInt8) (pos : ℕ) (bytes : List UInt8) : List UInt8 :=
  data.take pos ++ bytes ++ data.drop (pos + bytes.length)

/-- `slice::binary_search` in ascending keys: where the key is, or where it would go. -/
def binarySearch (keys : List ℕ) (key : ℕ) : Except ℕ ℕ :=
  let idx := (keys.takeWhile (· < key)).length
  if keys[idx]? = some key then .ok idx else .error idx

namespace FileJournal

variable {C R : Type} [Serde (SequencerEvent C R)] [Crc32]

/-- `open_with_segment_size`. -/
def openWithSegmentSize (dir : SegmentDir) (segmentSize : ℕ) : FileJournal C R :=
  match dir.entries.getLast? with
  | some (latest, data) =>
    let writer := SegmentWriter.openExisting latest data
    ⟨dir, writer, segmentSize, latest, scanLastSequence data writer.writePos 0 none⟩
  | none =>
    let (writer, dir) := SegmentWriter.create 0 segmentSize dir
    ⟨dir, writer, segmentSize, 0, none⟩

/-- `archive_segments_before`: rename every segment that starts before a number, except the one
being written. The number of segments renamed comes with it. -/
def archiveSegmentsBefore (beforeSequence : ℕ) (j : FileJournal C R) : ℕ × FileJournal C R :=
  let archived := fun start : ℕ => start < beforeSequence ∧ start ≠ j.segmentStartSeq
  ((j.dir.entries.filter fun e => archived e.1).length,
    { j with dir := j.dir.filter fun start => ¬ archived start })

section Append

variable (faults : Faults)

/-- `rotate_segment`, with `SegmentWriter::create` inside: the file is opened and truncated, grown
to its size and mapped. -/
def rotateSegment (startSeq : ℕ) : Fallible JournalError (FileJournal C R) Unit := do
  let j ← get
  system faults .flush j.writer.path
  system faults .openFile startSeq
  modify fun j => { j with dir := j.dir.insert startSeq [] }
  system faults .setLen startSeq
  modify fun j => { j with dir := j.dir.insert startSeq (List.replicate j.segmentSize 0) }
  system faults .map startSeq
  modify fun j => { j with writer := ⟨startSeq, 0, j.segmentSize⟩ }
  lock faults .startLock
  modify fun j => { j with segmentStartSeq := startSeq }

/-- Rotate if the current segment cannot fit an entry. -/
def rotateIfFull (startSeq entrySize : ℕ) : Fallible JournalError (FileJournal C R) Unit := fun j =>
  if j.writer.remaining < entrySize then rotateSegment faults startSeq j else (.ok (), j)

/-- `write_entry`. -/
def writeEntry (entryBytes : List UInt8) : Fallible JournalError (FileJournal C R) Unit := do
  let j ← get
  let stop := j.writer.writePos + entryBytes.length
  check (j.writer.capacity < stop) (.entryTooLarge entryBytes.length j.writer.capacity)
  modify fun j =>
    { j with
      dir := j.dir.insert j.writer.path
        (overwrite ((j.dir.get? j.writer.path).getD []) j.writer.writePos entryBytes) }
  system faults .flushRange j.writer.path
  modify fun j => { j with writer := { j.writer with writePos := stop } }

/-- `append`: an entry that does not fit goes to a new segment, and only then is it asked whether it
fits there. -/
def appendUnder (e : SequencerEvent C R) : Fallible JournalError (FileJournal C R) Unit := do
  let entryBytes ← lift (encodeEntry e)
  lock faults .writerLock
  rotateIfFull faults e.sequenceNum.toNat entryBytes.length
  let j ← get
  check (j.writer.remaining < entryBytes.length) (.entryTooLarge entryBytes.length j.segmentSize)
  writeEntry faults entryBytes
  lock faults .lastLock
  modify fun j => { j with lastSeq := some e.sequenceNum.toNat }

end Append

/-- `append` when no call fails. -/
def append (e : SequencerEvent C R) : Fallible JournalError (FileJournal C R) Unit :=
  appendUnder (fun _ => none) e

/-- Where `read_from` starts: the segment with the largest start not above the number, or the
first. -/
def startIndex (j : FileJournal C R) (sequence : ℕ) : ℕ :=
  match binarySearch (j.dir.entries.map Prod.fst) sequence with
  | .ok idx => idx
  | .error idx => idx - 1

/-- `read_from`, with all the items the iterator yields. -/
def readFrom (j : FileJournal C R) (sequence : ℕ) :
    List (Except JournalError (JournalEntry C R)) :=
  ((j.dir.entries.drop (j.startIndex sequence)).flatMap fun e => readSegment C R e.2 0).filter
    (notBefore sequence)

/-- `verify_integrity`. -/
def verifyIntegrity (j : FileJournal C R) : Except JournalError Unit :=
  j.dir.entries.forM fun e => verifySegment e.2 0

instance : Journal (FileJournal C R) C R where
  append := append
  readFrom := readFrom
  lastSequence := lastSeq
  verifyIntegrity := verifyIntegrity

end FileJournal

end OrderBookRs
