import OrderBookRs.Fallible

/-!
# Event journals

`sequencer/journal.rs`, `types.rs`, `error.rs` and `in_memory_journal.rs`: an append-only record of
sequencer events. A journal stores commands and results and never looks into them, so both are type
parameters here.

Serialisation (`serde_json`) and the checksum (`crc32fast`) are third-party code and stay
parameters: `Serde` with the laws that what was encoded is decoded and that no proper beginning of
it is, and `Crc32` with no law at all.

## Main definitions

* `SequencerEvent`, `JournalEntry`, `JournalError`.
* `Journal`: what every journal offers.
* `InMemoryJournal`: the journal that is a list.
-/

namespace OrderBookRs

/-- `SequencerEvent`. -/
structure SequencerEvent (C R : Type) where
  sequenceNum : UInt64
  timestampNs : UInt64
  command : C
  result : R
  deriving DecidableEq, Repr

/-- `JournalError`, as far as it is returned below. A path is the number a segment file is named
by. -/
inductive JournalError
  | io (message : String) (path : ℕ)
  | mutexPoisoned
  | corruptEntry (sequence expectedCrc actualCrc : ℕ)
  | deserializationError (sequence : ℕ) (message : String)
  | serializationError (message : String)
  | entryTooLarge (entryBytes segmentSize : ℕ)
  | invalidEntryHeader (offset : ℕ) (message : String)
  deriving DecidableEq, Repr

/-- `JournalEntry`: a decoded event and the checksum stored with it. -/
structure JournalEntry (C R : Type) where
  event : SequencerEvent C R
  storedCrc : ℕ
  deriving DecidableEq, Repr

/-- `serde_json` on the events of a journal. -/
class Serde (α : Type) where
  toVec : α → Except String (List UInt8)
  fromSlice : List UInt8 → Except String α

/-- What was encoded is decoded. -/
class LawfulSerde (α : Type) [Serde α] : Prop where
  fromSlice_toVec : ∀ {a : α} {bytes : List UInt8}, Serde.toVec a = .ok bytes →
    Serde.fromSlice bytes = .ok a

/-- No proper beginning of an encoding decodes: a JSON object lasts until its closing brace. -/
class DelimitedSerde (α : Type) [Serde α] : Prop where
  fromSlice_take : ∀ {a : α} {bytes : List UInt8} {k : ℕ}, Serde.toVec a = .ok bytes →
    k < bytes.length → ∃ message,
      (Serde.fromSlice (bytes.take k) : Except String α) = .error message

/-- `crc32fast`. -/
class Crc32 where
  hash : List UInt8 → UInt32

/-- `Journal`: the operations every journal offers. `readFrom` gives everything the iterator would
yield, decoded entries and errors alike. -/
class Journal (J : Type) (C R : outParam Type) where
  append : SequencerEvent C R → Fallible JournalError J Unit
  readFrom : J → ℕ → List (Except JournalError (JournalEntry C R))
  lastSequence : J → Option ℕ
  verifyIntegrity : J → Except JournalError Unit

/-- The events among the items of an iterator, with the errors in their places. -/
def eventsOf {C R : Type} (items : List (Except JournalError (JournalEntry C R))) :
    List (Except JournalError (SequencerEvent C R)) :=
  items.map (Except.map JournalEntry.event)

/-- `InMemoryJournal`. -/
structure InMemoryJournal (C R : Type) where
  events : List (SequencerEvent C R) := []

namespace InMemoryJournal

variable {C R : Type}

/-- `append`. -/
def append (e : SequencerEvent C R) : Fallible JournalError (InMemoryJournal C R) Unit :=
  Fallible.modify fun j => { j with events := j.events ++ [e] }

/-- `read_from`. -/
def readFrom (j : InMemoryJournal C R) (sequence : ℕ) :
    List (Except JournalError (JournalEntry C R)) :=
  (j.events.filter fun e => sequence ≤ e.sequenceNum.toNat).map fun e => .ok ⟨e, 0⟩

/-- `last_sequence`. -/
def lastSequence (j : InMemoryJournal C R) : Option ℕ :=
  j.events.getLast?.map fun e => e.sequenceNum.toNat

/-- `verify_integrity`: there is nothing on disk to verify. -/
def verifyIntegrity (_ : InMemoryJournal C R) : Except JournalError Unit := .ok ()

instance : Journal (InMemoryJournal C R) C R where
  append := append
  readFrom := readFrom
  lastSequence := lastSequence
  verifyIntegrity := verifyIntegrity

end InMemoryJournal

end OrderBookRs
