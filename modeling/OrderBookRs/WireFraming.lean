import OrderBookRs.Collections.LittleEndian
import OrderBookRs.Order

/-!
# The wire frame codec

`wire/framing.rs`: a frame is a little-endian `u32` length, a kind byte and a payload, where the
length counts kind and payload. Frames follow each other on a byte stream with nothing in between,
so a reader has to find every boundary from the lengths alone.

## Main definitions

* `encodeFrame`, `decodeFrame`: one frame.
* `encodeFrames`, `decodeFrames`: a stream of frames, written one after the other and read until
  `decodeFrame` fails.

## Main results

* `decodeFrame_append`: what was encoded is decoded, whatever follows it.
* `frameBytes_of_decodeFrame`: what was decoded is what its encoding says.
* `framing_self_delimiting`: a stream is read back frame by frame.
-/

namespace OrderBookRs

variable {buf bytes out payload : List UInt8} {n : ℕ}

/-- `WireError`. -/
inductive WireError
  | truncated
  | unknownKind (byte : UInt8)
  | invalidPayload (reason : String)
  deriving DecidableEq, Repr

/-- The `io::Error` of `encode_frame` over a writer that cannot fail. -/
inductive EncodeError
  | invalidInput (reason : String)
  deriving DecidableEq, Repr

/-- `LEN_PREFIX`. -/
def lenPrefix : ℕ := 4

/-- `KIND_SIZE`. -/
def kindSize : ℕ := 1

/-- `MIN_FRAME_SIZE`. -/
def minFrameSize : ℕ := lenPrefix + kindSize

/-- `encode_frame`: append a frame to what was written so far. -/
def encodeFrame (kind : UInt8) (payload out : List UInt8) : Except EncodeError (List UInt8) :=
  match checkedAdd64 payload.length kindSize with
  | none => .error (.invalidInput "frame payload too large")
  | some bodyLen =>
    if bodyLen ≤ u32Max then .ok (out ++ leBytes lenPrefix bodyLen ++ [kind] ++ payload)
    else .error (.invalidInput "frame payload too large")

/-- `decode_frame`: kind, payload and the number of bytes consumed. -/
def decodeFrame (buf : List UInt8) : Except WireError (UInt8 × List UInt8 × ℕ) :=
  if buf.length < minFrameSize then .error .truncated
  else
    let bodyLen := leValue (buf.take lenPrefix)
    if bodyLen < kindSize then .error (.invalidPayload "frame body shorter than kind")
    else
      match checkedAdd64 lenPrefix bodyLen with
      | none => .error .truncated
      | some total =>
        if buf.length < total then .error .truncated
        else
          match buf[lenPrefix]? with
          | none => .error .truncated
          | some kind => .ok (kind, (buf.take total).drop minFrameSize, total)

/-! ### One frame -/

/-- A payload is accepted when it fits the length field together with its kind byte. -/
theorem encodeFrame_eq_ok_iff {kind : UInt8} :
    encodeFrame kind payload out = .ok bytes ↔
      payload.length < u32Max ∧
        bytes = out ++ leBytes lenPrefix (payload.length + 1) ++ [kind] ++ payload := by
  rw [encodeFrame]
  have hwide : u32Max ≤ u64Max := by decide
  by_cases hfits : payload.length < u32Max
  · have hadd : checkedAdd64 payload.length kindSize = some (payload.length + 1) :=
      checkedAdd64_eq_some.mpr ⟨rfl, by omega⟩
    have hle : payload.length + 1 ≤ u32Max := hfits
    simp only [hadd, if_pos hle, Except.ok.injEq]
    exact ⟨fun h => ⟨hfits, h.symm⟩, fun h => h.2.symm⟩
  · refine iff_of_false (fun h => ?_) fun h => hfits h.1
    split at h
    · cases h
    · next bodyLen hadd =>
      obtain ⟨hsum, -⟩ := checkedAdd64_eq_some.mp hadd
      have hlong : ¬ bodyLen ≤ u32Max := by
        rw [kindSize] at hsum
        omega
      rw [if_neg hlong] at h
      cases h

/-- The bytes of an accepted frame. -/
def frameBytes (kind : UInt8) (payload : List UInt8) : List UInt8 :=
  leBytes lenPrefix (payload.length + 1) ++ kind :: payload

@[simp] theorem length_frameBytes (kind : UInt8) (payload : List UInt8) :
    (frameBytes kind payload).length = payload.length + minFrameSize := by
  simp only [frameBytes, List.length_append, length_leBytes, List.length_cons, minFrameSize,
    lenPrefix, kindSize]
  omega

theorem encodeFrame_eq_ok_frameBytes {kind : UInt8} :
    encodeFrame kind payload out = .ok bytes ↔
      payload.length < u32Max ∧ bytes = out ++ frameBytes kind payload := by
  rw [encodeFrame_eq_ok_iff, frameBytes]
  simp only [List.append_assoc, List.singleton_append]

/-- The length field of an accepted frame reads back. -/
theorem leValue_take_frameBytes (kind : UInt8) (rest : List UInt8) (h : payload.length < u32Max) :
    leValue ((frameBytes kind payload ++ rest).take lenPrefix) = payload.length + 1 := by
  have htake : (frameBytes kind payload ++ rest).take lenPrefix =
      leBytes lenPrefix (payload.length + 1) := by
    rw [frameBytes, List.append_assoc]
    exact List.take_left' (length_leBytes ..)
  have hwidth : u32Max < 256 ^ lenPrefix := by decide
  rw [htake, leValue_leBytes (by omega)]

/-- **What was encoded is decoded**, whatever follows it. -/
theorem decodeFrame_append {kind : UInt8} (rest : List UInt8) (h : payload.length < u32Max) :
    decodeFrame (frameBytes kind payload ++ rest) =
      .ok (kind, payload, payload.length + minFrameSize) := by
  have hwide : u32Max + minFrameSize ≤ u64Max := by decide
  have hlen : (frameBytes kind payload ++ rest).length =
      payload.length + minFrameSize + rest.length := by
    rw [List.length_append, length_frameBytes]
  have hbody := leValue_take_frameBytes kind rest h
  have htotal : checkedAdd64 lenPrefix (payload.length + 1) =
      some (payload.length + minFrameSize) := by
    refine checkedAdd64_eq_some.mpr ⟨?_, by omega⟩
    rw [minFrameSize, lenPrefix, kindSize]
    omega
  have hkind : (frameBytes kind payload ++ rest)[lenPrefix]? = some kind := by
    rw [frameBytes, List.append_assoc, List.getElem?_append_right (length_leBytes ..).le,
      length_leBytes]
    rfl
  have hpayload : ((frameBytes kind payload ++ rest).take (payload.length + minFrameSize)).drop
      minFrameSize = payload := by
    rw [List.take_left' (length_frameBytes ..), frameBytes, minFrameSize, ← List.drop_drop,
      List.drop_left' (length_leBytes ..)]
    rfl
  have hshort : ¬ payload.length + minFrameSize + rest.length < minFrameSize := by omega
  have hkindSize : ¬ payload.length + 1 < kindSize := by
    rw [kindSize]
    omega
  have hwhole : ¬ payload.length + minFrameSize + rest.length < payload.length + minFrameSize := by
    omega
  rw [decodeFrame]
  simp only [hlen, if_neg hshort, hbody, if_neg hkindSize, htotal, if_neg hwhole, hkind, hpayload]

/-- **A frame cut short is truncated**: a strict prefix of a frame gives no frame and no other
error. -/
theorem decodeFrame_of_truncated {kind : UInt8} {front : List UInt8} (h : payload.length < u32Max)
    (hfront : front <+: frameBytes kind payload) (hstrict : front ≠ frameBytes kind payload) :
    decodeFrame front = .error .truncated := by
  have hlt : front.length < payload.length + minFrameSize := by
    rw [← length_frameBytes kind]
    exact lt_of_le_of_ne hfront.length_le fun heq => hstrict (hfront.eq_of_length heq)
  rw [decodeFrame]
  by_cases hshort : front.length < minFrameSize
  · rw [if_pos hshort]
  · have hbody : leValue (front.take lenPrefix) = payload.length + 1 := by
      obtain ⟨rest, hrest⟩ := hfront
      have hle : lenPrefix ≤ front.length := by
        rw [minFrameSize] at hshort
        omega
      have hsame : front.take lenPrefix = (frameBytes kind payload ++ []).take lenPrefix := by
        rw [List.append_nil, ← hrest, List.take_append_of_le_length hle]
      rw [hsame, leValue_take_frameBytes kind [] h]
    have hkindSize : ¬ payload.length + 1 < kindSize := by
      rw [kindSize]
      omega
    simp only [if_neg hshort, hbody, if_neg hkindSize]
    split
    · rfl
    · next total hadd =>
      obtain ⟨hsum, -⟩ := checkedAdd64_eq_some.mp hadd
      have htotal : front.length < total := by
        rw [minFrameSize, kindSize] at hlt
        omega
      rw [if_pos htotal]

/-- **What was decoded is what its encoding says**: the consumed bytes are the encoding of the
result. -/
theorem frameBytes_of_decodeFrame {kind : UInt8} (h : decodeFrame buf = .ok (kind, payload, n)) :
    payload.length < u32Max ∧ n = payload.length + minFrameSize ∧
      buf.take n = frameBytes kind payload := by
  rw [decodeFrame] at h
  by_cases hshort : buf.length < minFrameSize
  · rw [if_pos hshort] at h
    cases h
  by_cases hkindSize : leValue (buf.take lenPrefix) < kindSize
  · simp only [if_neg hshort, if_pos hkindSize] at h
    cases h
  simp only [if_neg hshort, if_neg hkindSize] at h
  split at h
  · cases h
  next total hadd =>
  obtain ⟨hsum, -⟩ := checkedAdd64_eq_some.mp hadd
  by_cases hwhole : buf.length < total
  · rw [if_pos hwhole] at h
    cases h
  rw [if_neg hwhole] at h
  split at h
  · cases h
  next kind' hkind =>
  simp only [Except.ok.injEq, Prod.mk.injEq] at h
  obtain ⟨rfl, hpayload, rfl⟩ := h
  have hhead : (buf.take lenPrefix).length = lenPrefix := by
    rw [List.length_take]
    rw [minFrameSize] at hshort
    omega
  have hvalue : leValue (buf.take lenPrefix) < 256 ^ lenPrefix := by
    have := leValue_lt (buf.take lenPrefix)
    rwa [hhead] at this
  have hlen : payload.length + 1 = leValue (buf.take lenPrefix) := by
    rw [← hpayload, List.length_drop, List.length_take, minFrameSize]
    rw [kindSize] at hkindSize ⊢
    omega
  have hu32 : u32Max + 1 = 256 ^ lenPrefix := by decide
  refine ⟨by omega, ?_, ?_⟩
  · rw [minFrameSize, kindSize]
    omega
  · -- the buffer is its length field, its kind byte and the rest of the frame
    have hfour : lenPrefix < (buf.take total).length := by
      rw [List.length_take]
      rw [kindSize] at hkindSize
      omega
    have hget : (buf.take total)[lenPrefix]? = some kind' := by
      rw [List.getElem?_take_of_lt (by rw [List.length_take] at hfour; omega), hkind]
    have hdrop : (buf.take total).drop lenPrefix = kind' :: payload := by
      rw [List.drop_eq_getElem_cons hfour, ← hpayload]
      rw [List.getElem?_eq_getElem hfour] at hget
      rw [Option.some.inj hget]
      rfl
    have htake : (buf.take total).take lenPrefix = buf.take lenPrefix := by
      rw [List.take_take, min_eq_left (by omega)]
    rw [← List.take_append_drop lenPrefix (buf.take total), hdrop, htake, frameBytes, hlen]
    congr 1
    have := leBytes_leValue (buf.take lenPrefix)
    rw [hhead] at this
    exact this.symm

/-! ### Streams -/

/-- Encode frames one after the other into one writer. -/
def encodeFrames : List (UInt8 × List UInt8) → List UInt8 → Except EncodeError (List UInt8)
  | [], out => .ok out
  | (kind, payload) :: rest, out =>
    match encodeFrame kind payload out with
    | .error e => .error e
    | .ok out' => encodeFrames rest out'

theorem decodeFrame_consumes {kind : UInt8} (h : decodeFrame buf = .ok (kind, payload, n)) :
    (buf.drop n).length < buf.length := by
  obtain ⟨-, hn, htake⟩ := frameBytes_of_decodeFrame h
  have hle : n ≤ buf.length := by
    have := congrArg List.length htake
    rw [List.length_take, length_frameBytes, ← hn] at this
    omega
  rw [List.length_drop]
  rw [minFrameSize, lenPrefix] at hn
  omega

/-- Decode frames off the front until `decodeFrame` fails: the frames, the bytes left and the
error. -/
def decodeFrames (buf : List UInt8) : List (UInt8 × List UInt8) × List UInt8 × WireError :=
  match _h : decodeFrame buf with
  | .error e => ([], buf, e)
  | .ok (kind, payload, n) =>
    let r := decodeFrames (buf.drop n)
    ((kind, payload) :: r.1, r.2)
termination_by buf.length
decreasing_by exact decodeFrame_consumes _h

theorem decodeFrames_of_error {e : WireError} (h : decodeFrame buf = .error e) :
    decodeFrames buf = ([], buf, e) := by
  rw [decodeFrames]
  split
  · next e' h' =>
    rw [h] at h'
    cases h'
    rfl
  · next h' =>
    rw [h] at h'
    cases h'

theorem decodeFrames_of_ok {kind : UInt8} (h : decodeFrame buf = .ok (kind, payload, n)) :
    decodeFrames buf =
      ((kind, payload) :: (decodeFrames (buf.drop n)).1, (decodeFrames (buf.drop n)).2) := by
  rw [decodeFrames]
  split
  · next h' =>
    rw [h] at h'
    cases h'
  · next h' =>
    rw [h] at h'
    cases h'
    rfl

/-- An accepted stream is the frames' bytes back to back. -/
theorem encodeFrames_eq_ok {frames : List (UInt8 × List UInt8)}
    (h : encodeFrames frames out = .ok bytes) :
    (∀ f ∈ frames, f.2.length < u32Max) ∧
      bytes = out ++ frames.flatMap fun f => frameBytes f.1 f.2 := by
  induction frames generalizing out with
  | nil =>
    cases h
    simp
  | cons f frames ih =>
    obtain ⟨kind, payload⟩ := f
    rw [encodeFrames] at h
    split at h
    · cases h
    next out' hout =>
    obtain ⟨hfits, rfl⟩ := encodeFrame_eq_ok_frameBytes.mp hout
    obtain ⟨hall, rfl⟩ := ih h
    refine ⟨List.forall_mem_cons.mpr ⟨hfits, hall⟩, ?_⟩
    rw [List.flatMap_cons, List.append_assoc]

/-- The frames in front of bytes that hold no frame are read off one by one. -/
theorem decodeFrames_append {frames : List (UInt8 × List UInt8)} {front : List UInt8}
    {e : WireError} (hfits : ∀ f ∈ frames, f.2.length < u32Max)
    (hfront : decodeFrame front = .error e) :
    decodeFrames ((frames.flatMap fun f => frameBytes f.1 f.2) ++ front) = (frames, front, e) := by
  induction frames with
  | nil => exact decodeFrames_of_error hfront
  | cons f frames ih =>
    obtain ⟨kind, payload⟩ := f
    rw [List.forall_mem_cons] at hfits
    rw [List.flatMap_cons, List.append_assoc, decodeFrames_of_ok (decodeFrame_append _ hfits.1),
      List.drop_left' (length_frameBytes ..), ih hfits.2]

/-- **Framing is self-delimiting.** A stream of accepted frames followed by the beginning of another
one is read back as exactly those frames, leaves exactly the beginning, and reports it as truncated;
and whatever is decoded from any bytes encodes to exactly the bytes consumed. -/
theorem framing_self_delimiting :
    (∀ frames bytes, encodeFrames frames [] = .ok bytes →
      ∀ kind payload next front, encodeFrame kind payload [] = .ok next → front <+: next →
        front ≠ next → decodeFrames (bytes ++ front) = (frames, front, .truncated)) ∧
      ∀ buf kind payload n, decodeFrame buf = .ok (kind, payload, n) →
        n ≤ buf.length ∧ encodeFrame kind payload [] = .ok (buf.take n) := by
  refine ⟨fun frames bytes hbytes kind payload next front hnext hfront hstrict => ?_,
    fun buf kind payload n h => ?_⟩
  · obtain ⟨hfits, rfl⟩ := encodeFrames_eq_ok hbytes
    obtain ⟨hpayload, rfl⟩ := encodeFrame_eq_ok_frameBytes.mp hnext
    rw [List.nil_append] at hfront hstrict ⊢
    exact decodeFrames_append hfits (decodeFrame_of_truncated hpayload hfront hstrict)
  · obtain ⟨hpayload, hn, htake⟩ := frameBytes_of_decodeFrame h
    refine ⟨?_, ?_⟩
    · have := congrArg List.length htake
      rw [List.length_take, length_frameBytes, ← hn] at this
      omega
    · rw [encodeFrame_eq_ok_frameBytes, List.nil_append]
      exact ⟨hpayload, htake⟩

/-- Two frames and half of a third. -/
theorem framing_two_and_a_half :
    encodeFrames [(1, [7, 8]), (2, [])] [] = .ok [3, 0, 0, 0, 1, 7, 8, 1, 0, 0, 0, 2] ∧
      decodeFrames [3, 0, 0, 0, 1, 7, 8, 1, 0, 0, 0, 2, 2, 0, 0, 0, 9] =
        ([(1, [7, 8]), (2, [])], [2, 0, 0, 0, 9], .truncated) ∧
      decodeFrame [1, 0, 0, 0, 2, 5] = .ok (2, [], 5) ∧
      encodeFrame 2 [] [] = .ok [1, 0, 0, 0, 2] := by
  have hstream : encodeFrames [(1, [7, 8]), (2, [])] [] =
      .ok [3, 0, 0, 0, 1, 7, 8, 1, 0, 0, 0, 2] := by decide
  have hnext : encodeFrame 9 [4] [] = .ok [2, 0, 0, 0, 9, 4] := by decide
  have hone : decodeFrame [1, 0, 0, 0, 2, 5] = .ok (2, [], 5) := by decide
  exact ⟨hstream, framing_self_delimiting.1 _ _ hstream 9 [4] _ [2, 0, 0, 0, 9] hnext (by decide)
    (by decide), hone, (framing_self_delimiting.2 _ _ _ _ hone).2⟩

end OrderBookRs
