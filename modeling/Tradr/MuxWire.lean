import Tradr.Framing

/-!
# Multiplexing Frames

The in-band multiplexing frame `[len : u32 BE][type : u8][stream_id : u32 BE][payload]`.
A stream identifier is a 32-bit number whose two low bits classify it: bit 0 says which
side opened the stream and bit 1 whether it is unidirectional, so that the identifiers
fall into four residue spaces. `StreamAllocator` hands out the identifiers of one side
in ascending order and stops at the ceiling.

## Main results

* `StreamId.openedBy_congr`, `StreamId.isBidirectional_congr`: the residue decides both.
* `StreamId.nextInSpace_eq_some`: the successor keeps the residue and skips nothing.
* `decodeMuxFrame_encodeMuxFrame`: a frame on the wire is parsed back.
-/

open BigEndian

namespace Tradr

/-! ### Stream identifiers -/

/-- The fixed four-byte big-endian stream identifier on the wire. -/
def muxStreamIdLen : ℕ := 4

/-- Lowest type code reserved for the multiplexing layer. -/
def muxCodeLow : UInt8 := 0x60

/-- Highest type code reserved for the multiplexing layer. -/
def muxCodeHigh : UInt8 := 0x7f

/-- Which side opened a stream, encoded in stream identifier bit 0. -/
inductive StreamOpener
  | dialler
  | listener
  deriving DecidableEq, Repr

/-- The other end of the link. -/
def StreamOpener.other : StreamOpener → StreamOpener
  | .dialler => .listener
  | .listener => .dialler

@[simp] theorem StreamOpener.other_other (o : StreamOpener) : o.other.other = o := by
  cases o <;> rfl

@[simp] theorem StreamOpener.other_ne (o : StreamOpener) : o.other ≠ o := by
  cases o <;> decide

@[simp] theorem StreamOpener.ne_other (o : StreamOpener) : o ≠ o.other := by
  cases o <;> decide

/-- There are two sides. -/
theorem StreamOpener.ne_iff {o p : StreamOpener} : p ≠ o ↔ p = o.other := by
  cases o <;> cases p <;> decide

/-- A 32-bit stream identifier partitioned into four residue spaces. -/
structure StreamId where
  value : UInt32
  deriving DecidableEq, Repr

instance : LE StreamId := ⟨fun s t => s.value ≤ t.value⟩

instance : LT StreamId := ⟨fun s t => s.value < t.value⟩

instance (s t : StreamId) : Decidable (s ≤ t) := inferInstanceAs (Decidable (s.value ≤ t.value))

instance (s t : StreamId) : Decidable (s < t) := inferInstanceAs (Decidable (s.value < t.value))

/-- The order of identifiers is that of their numbers. -/
theorem StreamId.le_iff {s t : StreamId} : s ≤ t ↔ s.value.toNat ≤ t.value.toNat :=
  UInt32.le_iff_toNat_le

/-- The strict order of identifiers is that of their numbers. -/
theorem StreamId.lt_iff {s t : StreamId} : s < t ↔ s.value.toNat < t.value.toNat :=
  UInt32.lt_iff_toNat_lt

/-- Identifiers with the same number are the same. -/
theorem StreamId.ext_toNat {s t : StreamId} (h : s.value.toNat = t.value.toNat) : s = t := by
  cases s
  cases t
  exact congrArg _ (UInt32.toNat_inj.mp h)

/-- The side that opened the stream, from bit 0. -/
def StreamId.openedBy (s : StreamId) : StreamOpener :=
  if s.value &&& 0x01 = 0 then .dialler else .listener

/-- Whether bytes travel both ways, from bit 1. -/
def StreamId.isBidirectional (s : StreamId) : Bool :=
  s.value &&& 0x02 = 0

/-- The next identifier of the same residue, `none` at the ceiling. -/
def StreamId.nextInSpace (s : StreamId) : Option StreamId :=
  if s.value.toNat + 4 < UInt32.size then some ⟨s.value + 4⟩ else none

/-- The residue space of an identifier. -/
def StreamId.spaceIndex (s : StreamId) : Fin 4 :=
  Fin.ofNat 4 (s.value &&& 0x03).toNat

/-- The lowest identifier of a residue space. -/
def StreamId.baseStreamId (s : StreamId) : StreamId :=
  ⟨UInt32.ofNat s.spaceIndex.val⟩

/-- The residue space is the number modulo four. -/
theorem StreamId.spaceIndex_val (s : StreamId) : s.spaceIndex.val = s.value.toNat % 4 := by
  have h : (s.value &&& 0x03).toNat = s.value.toNat % 4 := by
    rw [UInt32.toNat_and]
    exact Nat.and_two_pow_sub_one_eq_mod _ 2
  simp only [spaceIndex, Fin.ofNat, h]
  omega

/-- Two identifiers share a space when their numbers agree modulo four. -/
theorem StreamId.spaceIndex_eq_iff {s t : StreamId} :
    s.spaceIndex = t.spaceIndex ↔ s.value.toNat % 4 = t.value.toNat % 4 := by
  rw [Fin.ext_iff, spaceIndex_val, spaceIndex_val]

/-- The low two bits of an identifier of one of the four spaces. -/
theorem StreamId.and_three (s : StreamId) :
    s.value &&& 0x03 = UInt32.ofNat (s.value.toNat % 4) := by
  apply UInt32.toNat_inj.mp
  rw [UInt32.toNat_and, UInt32.toNat_ofNat']
  have h : s.value.toNat &&& (3 : UInt32).toNat = s.value.toNat % 4 :=
    Nat.and_two_pow_sub_one_eq_mod _ 2
  rw [h]
  omega

/-- The opener depends on the residue alone. -/
theorem StreamId.openedBy_eq (s : StreamId) :
    s.openedBy = if s.value.toNat % 2 = 0 then .dialler else .listener := by
  have h : (s.value &&& 0x01).toNat = s.value.toNat % 2 := by
    rw [UInt32.toNat_and]
    exact Nat.and_two_pow_sub_one_eq_mod _ 1
  have h0 : s.value &&& 0x01 = 0 ↔ s.value.toNat % 2 = 0 := by
    rw [← UInt32.toNat_inj, h]
    rfl
  simp only [openedBy, h0]

/-- The direction depends on the residue alone. -/
theorem StreamId.isBidirectional_eq (s : StreamId) :
    s.isBidirectional = decide (s.value.toNat % 4 < 2) := by
  have h : s.value &&& 0x02 = (s.value &&& 0x03) &&& 0x02 := by
    rw [UInt32.and_assoc]
    rfl
  have hlt : s.value.toNat % 4 < 4 := Nat.mod_lt _ (by omega)
  rw [isBidirectional, h, and_three]
  generalize s.value.toNat % 4 = r at hlt
  match r, hlt with
  | 0, _ => decide
  | 1, _ => decide
  | 2, _ => decide
  | 3, _ => decide

/-- Identifiers of one space have one opener. -/
theorem StreamId.openedBy_congr {s t : StreamId} (h : s.spaceIndex = t.spaceIndex) :
    s.openedBy = t.openedBy := by
  have := spaceIndex_eq_iff.mp h
  rw [openedBy_eq, openedBy_eq, show s.value.toNat % 2 = t.value.toNat % 2 by omega]

/-- Identifiers of one space have one direction. -/
theorem StreamId.isBidirectional_congr {s t : StreamId}
    (h : s.spaceIndex = t.spaceIndex) : s.isBidirectional = t.isBidirectional := by
  rw [isBidirectional_eq, isBidirectional_eq, spaceIndex_eq_iff.mp h]

/-- The successor of an identifier. -/
theorem StreamId.nextInSpace_eq_some {s t : StreamId} (h : s.nextInSpace = some t) :
    t.value.toNat = s.value.toNat + 4 ∧ t.spaceIndex = s.spaceIndex := by
  simp only [nextInSpace] at h
  split at h
  case isFalse => cases h
  case isTrue hlt =>
    cases h
    have hval : (s.value + 4).toNat = s.value.toNat + 4 := by
      rw [UInt32.toNat_add]
      exact Nat.mod_eq_of_lt hlt
    refine ⟨hval, spaceIndex_eq_iff.mpr ?_⟩
    change (s.value + 4).toNat % 4 = _
    omega

/-- Nothing of the space lies above an identifier without a successor. -/
theorem StreamId.nextInSpace_eq_none {s t : StreamId} (h : s.nextInSpace = none)
    (hst : t.spaceIndex = s.spaceIndex) : t ≤ s := by
  have hs := s.value.toNat_lt
  have ht := t.value.toNat_lt
  have hmod := spaceIndex_eq_iff.mp hst
  simp only [nextInSpace, UInt32.size] at h
  split at h
  case isTrue => cases h
  case isFalse hge =>
    rw [le_iff]
    omega

/-- The base of a space is its least identifier. -/
theorem StreamId.baseStreamId_le {s t : StreamId} (h : t.spaceIndex = s.spaceIndex) :
    s.baseStreamId ≤ t ∧ s.baseStreamId.spaceIndex = s.spaceIndex := by
  have hval : s.baseStreamId.value.toNat = s.value.toNat % 4 := by
    simp only [baseStreamId, UInt32.toNat_ofNat', spaceIndex_val]
    omega
  have hmod := spaceIndex_eq_iff.mp h
  rw [le_iff, spaceIndex_eq_iff, hval]
  omega

/-! ### Allocation -/

/-- Failure to encode or parse an in-band multiplexing frame. -/
inductive MuxError
  | frame (err : FrameError)
  | notAMuxCode (code : UInt8)
  | unassignedCode (code : UInt8)
  | truncatedHeader (len : ℕ)
  | finCarriesPayload (len : ℕ)
  | streamIdsExhausted
  deriving DecidableEq, Repr

/-- Allocates ascending stream identifiers in a single side's residue spaces. -/
structure StreamAllocator where
  nextBidi : Option StreamId
  nextUni : Option StreamId
  deriving DecidableEq, Repr

/-- An allocator at the lowest identifiers of this opener. -/
def StreamAllocator.new : StreamOpener → StreamAllocator
  | .dialler => ⟨some ⟨0⟩, some ⟨2⟩⟩
  | .listener => ⟨some ⟨1⟩, some ⟨3⟩⟩

/-- The lowest unused bidirectional identifier. -/
def StreamAllocator.nextBidirectional (a : StreamAllocator) :
    Except MuxError (StreamId × StreamAllocator) :=
  match a.nextBidi with
  | none => .error .streamIdsExhausted
  | some current => .ok (current, { a with nextBidi := current.nextInSpace })

/-- The lowest unused unidirectional identifier. -/
def StreamAllocator.nextUnidirectional (a : StreamAllocator) :
    Except MuxError (StreamId × StreamAllocator) :=
  match a.nextUni with
  | none => .error .streamIdsExhausted
  | some current => .ok (current, { a with nextUni := current.nextInSpace })

/-! ### Frames -/

/-- Wire type codes assigned to in-band multiplexing frames. -/
inductive MuxKind
  | data
  | fin
  deriving DecidableEq, Repr

/-- The wire type code assigned to a kind. -/
def MuxKind.code : MuxKind → UInt8
  | .data => 0x60
  | .fin => 0x61

/-- The kind of an assigned code. -/
def MuxKind.fromCode (code : UInt8) : Option MuxKind :=
  if code = 0x60 then some .data else if code = 0x61 then some .fin else none

/-- A multiplexing frame: a stream identifier and a slice of that stream's bytes. -/
structure MuxFrame where
  kind : MuxKind
  streamId : StreamId
  payload : List UInt8
  deriving DecidableEq, Repr

/-- Encode a multiplexing frame under the link's own record bound. -/
def encodeMuxFrame (kind : MuxKind) (streamId : StreamId) (payload : List UInt8)
    (limit : UInt32) : Except MuxError (List UInt8) :=
  if kind = .fin ∧ payload ≠ [] then .error (.finCarriesPayload payload.length)
  else
    match encodeFrame kind.code (toBE 4 streamId.value.toNat ++ payload) limit with
    | .error err => .error (.frame err)
    | .ok bytes => .ok bytes

/-- Parse a decoded frame as a multiplexing frame. -/
def muxFrameFromWire (frame : Frame) : Except MuxError MuxFrame :=
  let code := frame.typeCode
  if ¬(muxCodeLow ≤ code ∧ code ≤ muxCodeHigh) then .error (.notAMuxCode code)
  else
    match MuxKind.fromCode code with
    | none => .error (.unassignedCode code)
    | some kind =>
      if frame.payload.length < muxStreamIdLen then
        .error (.truncatedHeader frame.payload.length)
      else if kind = .fin ∧ frame.payload.length > muxStreamIdLen then
        .error (.finCarriesPayload (frame.payload.length - muxStreamIdLen))
      else
        .ok ⟨kind, ⟨UInt32.ofNat (ofBE (frame.payload.take muxStreamIdLen))⟩,
          frame.payload.drop muxStreamIdLen⟩

/-- Where a writer chops a stream. -/
def maxMuxPayload (limit : UInt32) : ℕ :=
  limit.toNat - (1 + muxStreamIdLen)

/-- The frame an encoder was asked for, read back by `muxFrameFromWire`. -/
theorem muxFrameFromWire_frame {kind : MuxKind} {s : StreamId} {payload : List UInt8}
    (h : kind = .fin → payload = []) :
    muxFrameFromWire ⟨kind.code, toBE 4 s.value.toNat ++ payload⟩ =
      .ok ⟨kind, s, payload⟩ := by
  have hlen : (toBE 4 s.value.toNat).length = 4 := length_toBE _ _
  have htake : (toBE 4 s.value.toNat ++ payload).take muxStreamIdLen =
      toBE 4 s.value.toNat := List.take_left' hlen
  have hdrop : (toBE 4 s.value.toNat ++ payload).drop muxStreamIdLen = payload :=
    List.drop_left' hlen
  have hval : (⟨UInt32.ofNat (ofBE (toBE 4 s.value.toNat))⟩ : StreamId) = s := by
    rw [ofBE_toBE s.value.toNat_lt, UInt32.ofNat_toNat]
  have hshort : ¬ (toBE 4 s.value.toNat ++ payload).length < muxStreamIdLen := by
    simp only [List.length_append, hlen, muxStreamIdLen]
    omega
  cases kind with
  | data =>
      simp only [muxFrameFromWire, MuxKind.code, muxCodeLow, muxCodeHigh,
        MuxKind.fromCode, hshort, htake, hdrop, hval]
      rfl
  | fin =>
      obtain rfl := h rfl
      have hlong : ¬ (toBE 4 s.value.toNat ++ []).length > muxStreamIdLen := by
        simp [hlen, muxStreamIdLen]
      simp only [muxFrameFromWire, MuxKind.code, muxCodeLow, muxCodeHigh,
        MuxKind.fromCode, hshort, hlong, htake, hdrop, hval]
      rfl

/-- When an encoder accepts, and what it then emits. -/
theorem encodeMuxFrame_eq_ok {kind : MuxKind} {s : StreamId} {payload : List UInt8}
    {limit : UInt32} (h : kind = .fin → payload = [])
    (hlen : payload.length + 5 ≤ limit.toNat) :
    ∃ bytes, encodeMuxFrame kind s payload limit = .ok bytes ∧
      encodeFrame kind.code (toBE 4 s.value.toNat ++ payload) limit = .ok bytes := by
  have hguard : ¬ (kind = .fin ∧ payload ≠ []) := fun hk => hk.2 (h hk.1)
  have hok : encodeFrame kind.code (toBE 4 s.value.toNat ++ payload) limit =
      .ok (toBE 4 (1 + (toBE 4 s.value.toNat ++ payload).length) ++
        kind.code :: (toBE 4 s.value.toNat ++ payload)) := by
    rw [encodeFrame_eq_ok_iff]
    refine ⟨?_, rfl⟩
    simp only [List.length_append, length_toBE]
    omega
  refine ⟨_, ?_, hok⟩
  rw [encodeMuxFrame, if_neg hguard, hok]

/-- Read one record off the link: decode its frame and parse it. -/
def decodeMuxFrame (limit : UInt32) (record : List UInt8) : Option MuxFrame :=
  match (((FrameDecoder.new limit).feed record).nextFrame).1 with
  | .ok (some frame) => (muxFrameFromWire frame).toOption
  | _ => none

/-- **A multiplexing frame survives the wire.** -/
theorem decodeMuxFrame_encodeMuxFrame {kind : MuxKind} {s : StreamId}
    {payload bytes : List UInt8} {limit : UInt32} (h : kind = .fin → payload = [])
    (hlen : payload.length + 5 ≤ limit.toNat)
    (henc : encodeMuxFrame kind s payload limit = .ok bytes) :
    decodeMuxFrame limit bytes = some ⟨kind, s, payload⟩ := by
  obtain ⟨bytes', henc', hframe⟩ := encodeMuxFrame_eq_ok h hlen (s := s)
  obtain rfl : bytes = bytes' := Except.ok.inj (henc.symm.trans henc')
  have hnext : ((FrameDecoder.new limit).feed bytes).nextFrame.1 =
      .ok (some ⟨kind.code, toBE 4 s.value.toNat ++ payload⟩) :=
    FrameDecoder.nextFrame_encodeFrame hframe
  simp only [decodeMuxFrame, hnext, muxFrameFromWire_frame h, Except.toOption]

end Tradr
