import OrderBookRs.Sequencer.Segments

/-!
# Events of any size

A codec to try a journal on: an event is written as its numbers and as many zeros as its command
says, so that entries of every length can be had. It has both laws of `serde_json` that proofs about
the journal use.

## Main definitions

* `paddedSerde`, `paddedEvent`: the codec and its events.
* `byteSum`: a checksum.

## Main results

* `lawful_paddedSerde`, `delimited_paddedSerde`: the laws.
-/

namespace OrderBookRs

/-- An event with a payload of numbers and as many zeros as its command says. -/
@[reducible] def paddedSerde : Serde (SequencerEvent UInt64 Unit) where
  toVec e := .ok (leBytes 8 e.sequenceNum.toNat ++ leBytes 8 e.timestampNs.toNat ++
    leBytes 8 e.command.toNat ++ List.replicate e.command.toNat 0)
  fromSlice bytes :=
    if bytes.length = 24 + leValue ((bytes.drop 16).take 8) then
      .ok ⟨.ofNat (leValue (bytes.take 8)), .ofNat (leValue ((bytes.drop 8).take 8)),
        .ofNat (leValue ((bytes.drop 16).take 8)), ()⟩
    else .error "wrong length"

/-- The sum of the bytes, as a checksum. -/
@[reducible] def byteSum : Crc32 := ⟨fun bytes => .ofNat ((bytes.map UInt8.toNat).sum + 1)⟩

/-- An event with a number and a padding. -/
def paddedEvent (sequence padding : UInt64) : SequencerEvent UInt64 Unit :=
  ⟨sequence, 0, padding, ()⟩

theorem length_toVec {e : SequencerEvent UInt64 Unit} {bytes : List UInt8}
    (h : paddedSerde.toVec e = .ok bytes) : bytes.length = 24 + e.command.toNat := by
  rw [← Except.ok.inj h]
  simp only [List.length_append, length_leBytes, List.length_replicate]

theorem lawful_paddedSerde : @LawfulSerde _ paddedSerde := by
  refine @LawfulSerde.mk _ paddedSerde fun {e bytes} h => ?_
  have hlen := length_toVec h
  have hbytes : bytes.drop 0 = leBytes 8 e.sequenceNum.toNat ++ (leBytes 8 e.timestampNs.toNat ++
      (leBytes 8 e.command.toNat ++ List.replicate e.command.toNat 0)) := by
    rw [← Except.ok.inj h]
    simp only [List.drop_zero, List.append_assoc]
  have hts := drop_add_of_drop hbytes
  have hcommand := drop_add_of_drop hts
  rw [length_leBytes] at hts hcommand
  rw [length_leBytes] at hcommand
  have hnumbers : bytes.take 8 = leBytes 8 e.sequenceNum.toNat ∧
      (bytes.drop 8).take 8 = leBytes 8 e.timestampNs.toNat ∧
      (bytes.drop 16).take 8 = leBytes 8 e.command.toNat := by
    refine ⟨?_, ?_, ?_⟩
    · rw [← List.drop_zero (l := bytes), hbytes]
      exact List.take_left' (length_leBytes ..)
    · rw [hts]
      exact List.take_left' (length_leBytes ..)
    · rw [hcommand]
      exact List.take_left' (length_leBytes ..)
  have hread : ∀ n : UInt64, leValue (leBytes 8 n.toNat) = n.toNat :=
    fun n => leValue_leBytes n.toNat_lt
  show (if bytes.length = 24 + leValue ((bytes.drop 16).take 8) then _ else _) = _
  rw [hnumbers.1, hnumbers.2.1, hnumbers.2.2, hread, hread, hread, if_pos hlen]
  simp only [UInt64.ofNat_toNat]

theorem delimited_paddedSerde : @DelimitedSerde _ paddedSerde := by
  refine @DelimitedSerde.mk _ paddedSerde fun {e bytes k} h hk => ⟨"wrong length", ?_⟩
  have hlen := length_toVec h
  refine if_neg fun hsame => ?_
  rw [List.length_take, Nat.min_eq_left hk.le] at hsame
  -- the length field is among the bytes that are left
  have hcommand : leValue (((bytes.take k).drop 16).take 8) = e.command.toNat := by
    have hbytes : bytes = (leBytes 8 e.sequenceNum.toNat ++ leBytes 8 e.timestampNs.toNat) ++
        (leBytes 8 e.command.toNat ++ List.replicate e.command.toNat 0) := by
      rw [← Except.ok.inj h]
      simp only [List.append_assoc]
    have hdrop : bytes.drop 16 = leBytes 8 e.command.toNat ++ List.replicate e.command.toNat 0 := by
      rw [hbytes]
      exact List.drop_left' (by simp)
    rw [List.drop_take, List.take_take, Nat.min_eq_left (by omega), hdrop,
      List.take_left' (length_leBytes ..), leValue_leBytes e.command.toNat_lt]
  omega

theorem fits_paddedEvent {sequence padding : UInt64} (h : padding.toNat + 44 ≤ u32Max) :
    @Fits _ _ paddedSerde (paddedEvent sequence padding) := by
  refine ⟨_, rfl, ?_⟩
  rw [length_toVec (e := paddedEvent sequence padding) rfl]
  show 24 + padding.toNat + 20 ≤ u32Max
  omega

theorem length_entryBytes_paddedEvent [Crc32] {sequence padding : UInt64}
    (h : padding.toNat + 44 ≤ u32Max) :
    (@entryBytes _ _ paddedSerde _ (paddedEvent sequence padding)).length = padding.toNat + 48 := by
  let _ := paddedSerde
  obtain ⟨payload, hvec, -, hbytes, -⟩ := (fits_paddedEvent h).encodeEntry_eq
  rw [hbytes, length_entryFrame, length_toVec hvec]
  show 24 + padding.toNat + 24 = _
  omega

end OrderBookRs
