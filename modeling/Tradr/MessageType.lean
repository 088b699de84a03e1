import Mathlib.Data.List.Basic

/-!
# The Type Byte Registry

Which plane a type byte belongs to, which codes that plane has assigned, and what a
receiver does with a code it did not expect. A plane owns a fixed range of the byte;
an unassigned code inside the receiving plane's own range is skippable, everything else
that is not assigned there closes the stream.

## Main results

* `MessageType.rangeOwner_code`: every message lies in its own plane's range.
* `MessageType.code_injective`: no two messages share a code.
* `classify_known_iff`: a message is dispatched on its own plane and on no other.
-/

namespace Tradr

/-- The three streams a frame can arrive on. -/
inductive Plane
  | control
  | data
  | browse
  deriving DecidableEq, Repr

/-- All three planes. -/
def Plane.all : List Plane := [.control, .data, .browse]

/-- The inclusive bounds of the plane's range on the type byte. -/
def Plane.range : Plane → UInt8 × UInt8
  | .control => (0x01, 0x1f)
  | .data => (0x20, 0x3f)
  | .browse => (0x40, 0x5f)

/-- Every message the type byte can name. -/
inductive MessageType
  | hello
  | helloAck
  | transferOffer
  | transferAccept
  | transferReject
  | transferComplete
  | transferAbort
  | pathChanged
  | keepAlive
  | itemComplete
  | transferProgress
  | linkReply
  | linkApprove
  | linkDecline
  | broadcastKeyOffer
  | chunkRequest
  | chunkRerequest
  | chunkData
  | flowControl
  | listDir
  | dirListing
  | stat
  | statResult
  | readFile
  | readFileBegin
  | writeFile
  | mkdir
  | delete
  | rename
  | ack
  | watch
  | fsEvent
  | refused
  deriving DecidableEq, Repr

/-- Every assigned message. -/
def MessageType.all : List MessageType :=
  [.hello, .helloAck, .transferOffer, .transferAccept, .transferReject, .transferComplete,
    .transferAbort, .pathChanged, .keepAlive, .itemComplete, .transferProgress, .linkReply,
    .linkApprove, .linkDecline, .broadcastKeyOffer, .chunkRequest, .chunkRerequest,
    .chunkData, .flowControl, .listDir, .dirListing, .stat, .statResult, .readFile,
    .readFileBegin, .writeFile, .mkdir, .delete, .rename, .ack, .watch, .fsEvent, .refused]

/-- The type byte assigned to a message. -/
def MessageType.code : MessageType → UInt8
  | .hello => 0x01
  | .helloAck => 0x02
  | .transferOffer => 0x03
  | .transferAccept => 0x04
  | .transferReject => 0x05
  | .transferComplete => 0x06
  | .transferAbort => 0x07
  | .pathChanged => 0x08
  | .keepAlive => 0x09
  | .itemComplete => 0x0a
  | .transferProgress => 0x0b
  | .linkReply => 0x0c
  | .linkApprove => 0x0d
  | .linkDecline => 0x0e
  | .broadcastKeyOffer => 0x10
  | .chunkRequest => 0x20
  | .chunkRerequest => 0x21
  | .chunkData => 0x22
  | .flowControl => 0x23
  | .listDir => 0x40
  | .dirListing => 0x41
  | .stat => 0x42
  | .statResult => 0x43
  | .readFile => 0x44
  | .readFileBegin => 0x45
  | .writeFile => 0x46
  | .mkdir => 0x47
  | .delete => 0x48
  | .rename => 0x49
  | .ack => 0x4a
  | .watch => 0x4b
  | .fsEvent => 0x4c
  | .refused => 0x4d

/-- The plane a message travels on. -/
def MessageType.plane : MessageType → Plane
  | .hello | .helloAck | .transferOffer | .transferAccept | .transferReject
  | .transferComplete | .transferAbort | .pathChanged | .keepAlive | .itemComplete
  | .transferProgress | .linkReply | .linkApprove | .linkDecline
  | .broadcastKeyOffer => .control
  | .chunkRequest | .chunkRerequest | .chunkData | .flowControl => .data
  | .listDir | .dirListing | .stat | .statResult | .readFile | .readFileBegin | .writeFile
  | .mkdir | .delete | .rename | .ack | .watch | .fsEvent | .refused => .browse

/-- Why a code closes the stream. -/
inductive Refusal
  | zero
  | wrongPlane (rangeOwner : Plane)
  | outsideEveryPlane
  deriving DecidableEq, Repr

/-- What a receiver does with a code, once the plane it arrived on is known. -/
inductive Classification
  | known (message : MessageType)
  | ignorable
  | refused (why : Refusal)
  deriving DecidableEq, Repr

/-- The plane whose range holds a code. -/
def rangeOwner (code : UInt8) : Option Plane :=
  Plane.all.find? fun plane => plane.range.1 ≤ code ∧ code ≤ plane.range.2

/-- Classify a code as it arrives on a plane. -/
def classify (code : UInt8) (arrivingOn : Plane) : Classification :=
  if code = 0x00 then .refused .zero
  else
    match rangeOwner code with
    | none => .refused .outsideEveryPlane
    | some owner =>
      if owner ≠ arrivingOn then .refused (.wrongPlane owner)
      else
        match MessageType.all.find? fun message => message.code = code with
        | some message => .known message
        | none => .ignorable

/-- The list of messages is complete. -/
theorem MessageType.mem_all (m : MessageType) : m ∈ MessageType.all := by
  cases m <;> decide

/-- Every message lies in its own plane's range. -/
theorem MessageType.rangeOwner_code (m : MessageType) : rangeOwner m.code = some m.plane := by
  cases m <;> decide

/-- No two messages share a code. -/
theorem MessageType.code_injective : Function.Injective MessageType.code := by
  intro m n h
  cases m <;> cases n <;> first | rfl | exact absurd h (by decide)

/-- Looking a message's code up finds the message. -/
theorem MessageType.find?_code (m : MessageType) :
    MessageType.all.find? (fun message => message.code = m.code) = some m := by
  cases m <;> decide

/-- A message is dispatched on its own plane and on no other. -/
theorem classify_known_iff {code : UInt8} {plane : Plane} {m : MessageType} :
    classify code plane = .known m ↔ m.code = code ∧ m.plane = plane := by
  constructor
  · intro h
    unfold classify at h
    split_ifs at h
    split at h
    · exact absurd h (by simp)
    · rename_i owner howner
      split_ifs at h with hne
      split at h
      · rename_i message hfind
        obtain rfl : message = m := Classification.known.inj h
        have hcode : message.code = code := by simpa using List.find?_some hfind
        have hplane : rangeOwner message.code = some message.plane :=
          message.rangeOwner_code
        rw [hcode, howner] at hplane
        exact ⟨hcode, (Option.some.inj hplane).symm.trans (not_not.mp hne)⟩
      · exact absurd h (by simp)
  · rintro ⟨rfl, rfl⟩
    have h0 : m.code ≠ 0 := by cases m <;> decide
    simp [classify, h0, m.rangeOwner_code, m.find?_code]

end Tradr
