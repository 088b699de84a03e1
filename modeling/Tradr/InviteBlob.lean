import Tradr.Base64
import Tradr.Link
import Tradr.Protobuf

/-!
# Invite Blobs

An invite travels as one text, in a QR code or a chat message: a version byte and the invite as
protobuf, in base64. A reader refuses a text of more than 4096 characters before it decodes it; a
writer writes an invite of any size.

Base64 and protobuf are third-party code. What is asked of them is asked of one invite
(`InviteCoding.Reads`), and of one text that was read (`InviteCoding.Shortest`).

## Main definitions

* `inviteToBlob`, `inviteFromBlob`: the writer and the reader.
* `WireInvite.size`: how many bytes an invite is as protobuf.
* `Invite.Fits`: the size of an invite that is read.

## Main results

* `inviteFromBlob_toBlob_iff`: an invite is read back exactly when it fits.
* `size_of_inviteFromWire`: an invite that was read is not longer when it is written again.
-/

namespace Tradr

open Fallible Protobuf

/-! ### Invites as protobuf carries them -/

/-- An invite as protobuf carries it. -/
structure WireInvite where
  inviteId : List UInt8
  device : Option WireDeviceInfo
  attestation : Option WireAttestation
  halfSecret : List UInt8
  expiresAt : Int64
  deriving DecidableEq

/-- Why the fields of a decoded invite are refused. -/
inductive InviteWireError
  | missingDevice
  | missingAttestation
  | emptyAttestationToken
  | invalidInviteId (e : LinkError)
  | invalidIdentityPub (e : PublicKeyPointError)
  | invalidAgreementPub (e : PublicKeyPointError)
  | invalidHalfSecret (e : LinkError)
  | zeroExpiresAt
  deriving DecidableEq, Repr

/-- Validate a decoded invite; a name that is none is dropped. -/
def inviteFromWire (message : WireInvite) : Except InviteWireError Invite := do
  let inviteId ← (InviteId.fromBytes message.inviteId).mapError .invalidInviteId
  let device ← okOr message.device .missingDevice
  let identityPub ← (PublicKeyPoint.fromBytes device.identityPub).mapError .invalidIdentityPub
  let agreementPub ←
    (PublicKeyPoint.fromBytes device.agreementPub).mapError .invalidAgreementPub
  let displayName := (DisplayName.new device.displayName).toOption
  let attestation ← okOr message.attestation .missingAttestation
  require (attestation.idToken ≠ []) .emptyAttestationToken
  let halfSecret ← (HalfSecret.fromBytes message.halfSecret).mapError .invalidHalfSecret
  require (message.expiresAt ≠ 0) .zeroExpiresAt
  return ⟨inviteId, identityPub, agreementPub, attestation.idToken, halfSecret,
    ⟨message.expiresAt⟩, displayName⟩

/-- An invite on its way to protobuf; what nothing reads is left at its default. -/
def inviteToWire (invite : Invite) : WireInvite where
  inviteId := invite.inviteId.bytes.val
  device := some
    { deviceId := []
      identityPub := invite.identityPub.bytes.val
      agreementPub := invite.agreementPub.bytes.val
      displayName := (invite.displayName.map DisplayName.value).getD []
      platform := 0
      capabilities := 0 }
  attestation := some ⟨invite.attestationToken, [], 0⟩
  halfSecret := invite.halfSecret.bytes.val
  expiresAt := invite.expiresAt.secs

/-- An invite with a token that expires is read back. -/
theorem inviteFromWire_toWire {invite : Invite} (htoken : invite.attestationToken ≠ [])
    (hexpires : invite.expiresAt.secs ≠ 0) :
    inviteFromWire (inviteToWire invite) = .ok invite := by
  have hset : (inviteToWire invite).expiresAt ≠ 0 := hexpires
  unfold inviteFromWire
  rw [require_of hset]
  simp only [inviteToWire, InviteId.fromBytes_bytes, PublicKeyPoint.fromBytes_bytes,
    HalfSecret.fromBytes_bytes, mapError_ok, okOr_some, ok_bind, require_of htoken,
    DisplayName.toOption_new_getD]
  rfl

/-! ### Blobs -/

/-- The byte a blob opens with. -/
def inviteBlobVersion : UInt8 := 0x01

/-- The most characters a blob may have. -/
def inviteBlobMaxChars : ℕ := 4096

/-- Base64 and protobuf, as far as invites need them. -/
structure InviteCoding where
  encode64 : List UInt8 → Text
  decode64 : Text → Option (List UInt8)
  encodeInvite : WireInvite → List UInt8
  decodeInvite : List UInt8 → Option WireInvite

/-- Why a blob is no invite. -/
inductive InviteBlobError
  | tooLong (actual : ℕ)
  | base64
  | empty
  | unsupportedVersion (version : UInt8)
  | decode
  | wire (e : InviteWireError)
  deriving DecidableEq, Repr

/-- Write an invite as a blob. -/
def inviteToBlob (coding : InviteCoding) (invite : Invite) : Text :=
  coding.encode64 (inviteBlobVersion :: coding.encodeInvite (inviteToWire invite))

/-- Read a blob; one that is too long is not decoded. -/
def inviteFromBlob (coding : InviteCoding) (blob : Text) : Except InviteBlobError Invite :=
  if utf8Len blob > inviteBlobMaxChars then .error (.tooLong (utf8Len blob))
  else
    match coding.decode64 blob with
    | none => .error .base64
    | some [] => .error .empty
    | some (version :: body) =>
      if version ≠ inviteBlobVersion then .error (.unsupportedVersion version)
      else
        match coding.decodeInvite body with
        | none => .error .decode
        | some wire => (inviteFromWire wire).mapError .wire

/-! ### Sizes -/

/-- The bytes of an invite's fields as protobuf, without those that nothing reads. -/
def WireInvite.size (wire : WireInvite) : ℕ :=
  bytesSize wire.inviteId.length +
    (wire.device.elim 0 fun device => messageSize (bytesSize device.identityPub.length +
      bytesSize device.agreementPub.length + bytesSize (utf8Len device.displayName))) +
    (wire.attestation.elim 0 fun attestation =>
      messageSize (bytesSize (utf8Len attestation.idToken))) +
    bytesSize wire.halfSecret.length + intSize wire.expiresAt.toUInt64

/-- Base64 and protobuf read what they write of an invite, and it has the size it is to have. -/
structure InviteCoding.Reads (coding : InviteCoding) (invite : Invite) : Prop where
  proto : coding.decodeInvite (coding.encodeInvite (inviteToWire invite)) =
    some (inviteToWire invite)
  size : (coding.encodeInvite (inviteToWire invite)).length = (inviteToWire invite).size
  decoded64 : coding.decode64 (inviteToBlob coding invite) =
    some (inviteBlobVersion :: coding.encodeInvite (inviteToWire invite))
  chars : utf8Len (inviteToBlob coding invite) =
    base64Chars (1 + (coding.encodeInvite (inviteToWire invite)).length)

/-- A text has the length of the bytes it decodes to, and protobuf reads no field that does not
take its bytes. -/
def InviteCoding.Shortest (coding : InviteCoding) (blob : Text) : Prop :=
  ∀ bytes, coding.decode64 blob = some bytes → utf8Len blob = base64Chars bytes.length ∧
    ∀ wire, coding.decodeInvite bytes.tail = some wire → wire.size ≤ bytes.tail.length

/-- The bytes of an invite that depend on it: its token, its name and when it expires. -/
def Invite.variableSize (invite : Invite) : ℕ :=
  utf8Len invite.attestationToken +
    bytesSize (utf8Len ((invite.displayName.map DisplayName.value).getD [])) +
    varintLen invite.expiresAt.secs.toUInt64.toNat

/-- An invite that is not too long to be read. -/
def Invite.Fits (invite : Invite) : Prop := invite.variableSize ≤ 2891

instance (invite : Invite) : Decidable invite.Fits := inferInstanceAs (Decidable (_ ≤ _))

/-- A name is not empty, and at most 32 bytes. -/
theorem DisplayName.utf8Len_le (name : DisplayName) : utf8Len name.value ≤ displayNameMaxLen := by
  have hvalid := name.valid
  unfold validateBoundedString at hvalid
  split_ifs at hvalid with hnil hlong
  exact Nat.le_of_not_lt hlong

/-- A text that is not empty takes bytes. -/
theorem utf8Len_pos {s : Text} (h : s ≠ []) : 0 < utf8Len s := by
  rcases s with _ | ⟨c, s⟩
  · exact absurd rfl h
  · have hc := Char.utf8Size_pos c
    rw [utf8Len, List.map_cons, List.sum_cons]
    omega

/-- A name and its field are at most 34 bytes. -/
theorem bytesSize_displayName_le (name : Option DisplayName) :
    bytesSize (utf8Len ((name.map DisplayName.value).getD [])) ≤ 34 := by
  rcases name with _ | name
  · exact Nat.zero_le _
  · have hle : utf8Len name.value ≤ 32 := name.utf8Len_le
    have hone : varintLen (utf8Len name.value) = 1 := varintLen_eq_one (by omega)
    rw [Option.map_some, Option.getD_some, bytesSize]
    split_ifs
    · exact Nat.zero_le _
    · omega

theorem int64_eq_zero {x : Int64} (h : x.toUInt64 = 0) : x = 0 := by
  rcases x with ⟨u⟩
  obtain rfl : u = 0 := h
  rfl

/-- The size of an invite with a token that expires. -/
theorem size_inviteToWire {invite : Invite} (htoken : invite.attestationToken ≠ [])
    (hexpires : invite.expiresAt.secs ≠ 0) :
    (inviteToWire invite).size =
      174 + bytesSize (utf8Len ((invite.displayName.map DisplayName.value).getD [])) +
        messageSize (1 + varintLen (utf8Len invite.attestationToken) +
          utf8Len invite.attestationToken) +
        varintLen invite.expiresAt.secs.toUInt64.toNat := by
  have hname := bytesSize_displayName_le invite.displayName
  have hshort : bytesSize 16 = 18 := by decide
  have hkey : bytesSize 65 = 67 := by decide
  have hid : invite.inviteId.bytes.val.length = 16 := invite.inviteId.bytes.property
  have hhalf : invite.halfSecret.bytes.val.length = 16 := invite.halfSecret.bytes.property
  have hidentity : invite.identityPub.bytes.val.length = 65 := invite.identityPub.bytes.property
  have hagreement : invite.agreementPub.bytes.val.length = 65 := invite.agreementPub.bytes.property
  have htokenpos := utf8Len_pos htoken
  have hset : invite.expiresAt.secs.toUInt64 ≠ 0 := by
    exact fun hzero => hexpires (int64_eq_zero hzero)
  unfold WireInvite.size inviteToWire
  dsimp only [Option.elim]
  generalize bytesSize (utf8Len ((invite.displayName.map DisplayName.value).getD [])) = n at hname ⊢
  rw [hid, hhalf, hidentity, hagreement, hshort, hkey, intSize, if_neg hset, messageSize,
    varintLen_eq_two (by omega) (by omega), bytesSize, if_neg (by omega)]
  omega

/-- **An invite is written short enough** exactly when its token, its name and its expiry are. -/
theorem base64Chars_le_iff_fits {invite : Invite} (htoken : invite.attestationToken ≠ [])
    (hexpires : invite.expiresAt.secs ≠ 0) :
    base64Chars (1 + (inviteToWire invite).size) ≤ inviteBlobMaxChars ↔ invite.Fits := by
  have hname := bytesSize_displayName_le invite.displayName
  have hvarint := varintLen_le invite.expiresAt.secs.toUInt64.toNat
  have hmax : inviteBlobMaxChars = 4096 := rfl
  rw [size_inviteToWire htoken hexpires, hmax]
  unfold base64Chars Invite.Fits Invite.variableSize
  generalize bytesSize (utf8Len ((invite.displayName.map DisplayName.value).getD [])) = n at hname ⊢
  generalize varintLen invite.expiresAt.secs.toUInt64.toNat = e at hvarint ⊢
  generalize utf8Len invite.attestationToken = t
  -- A token of one length byte always fits, one of three or more never does.
  rcases Nat.lt_or_ge t 128 with hshort | hlong
  · have hone : varintLen t = 1 := varintLen_eq_one hshort
    have hle := varintLen_le (1 + varintLen t + t)
    unfold messageSize
    omega
  rcases Nat.lt_or_ge t 16000 with hfits | hhuge
  · have htwo : varintLen t = 2 := varintLen_eq_two hlong (by omega)
    rw [messageSize, htwo, varintLen_eq_two (by omega) (by omega)]
    omega
  · unfold messageSize
    omega

/-- **An invite is read back** exactly when it fits. -/
theorem inviteFromBlob_toBlob_iff {coding : InviteCoding} {invite : Invite}
    (hreads : coding.Reads invite) (htoken : invite.attestationToken ≠ [])
    (hexpires : invite.expiresAt.secs ≠ 0) :
    inviteFromBlob coding (inviteToBlob coding invite) = .ok invite ↔ invite.Fits := by
  have hchars : utf8Len (inviteToBlob coding invite) =
      base64Chars (1 + (inviteToWire invite).size) := by
    rw [hreads.chars, hreads.size]
  have hiff := base64Chars_le_iff_fits htoken hexpires
  rw [← hchars] at hiff
  unfold inviteFromBlob
  constructor
  · intro h
    split_ifs at h with hlong
    exact hiff.mp (Nat.le_of_not_lt hlong)
  · intro hfits
    rw [if_neg (Nat.not_lt_of_le (hiff.mpr hfits)), hreads.decoded64]
    dsimp only
    rw [if_neg (not_not_intro rfl), hreads.proto]
    dsimp only
    rw [inviteFromWire_toWire htoken hexpires, mapError_ok]

/-- The bytes that made a point are as many as it has. -/
theorem PublicKeyPoint.length_of_fromBytes {bytes : List UInt8} {p : PublicKeyPoint}
    (h : PublicKeyPoint.fromBytes bytes = .ok p) : bytes.length = p.bytes.val.length := by
  unfold PublicKeyPoint.fromBytes at h
  split_ifs at h
  obtain rfl := Except.ok.inj h
  rfl

/-- Bytes of an exact length are as they were. -/
theorem val_of_map_exactBytes {n : ℕ} {α : Type} {make : Bytes n → α} {bytes : List UInt8} {a : α}
    (h : (exactBytes n bytes).map make = .ok a) : ∃ b, make b = a ∧ b.val = bytes := by
  unfold exactBytes at h
  split_ifs at h
  · exact ⟨_, Except.ok.inj h, rfl⟩
  · cases h

/-- What was read has a token and expires, and is not longer when it is written again. -/
theorem size_of_inviteFromWire {wire : WireInvite} {invite : Invite}
    (h : inviteFromWire wire = .ok invite) :
    invite.attestationToken ≠ [] ∧ invite.expiresAt.secs ≠ 0 ∧
      (inviteToWire invite).size ≤ wire.size := by
  obtain ⟨inviteId, hid, h⟩ := bind_eq_ok.mp h
  obtain ⟨device, hdevice, h⟩ := bind_eq_ok.mp h
  obtain ⟨identityPub, hidentity, h⟩ := bind_eq_ok.mp h
  obtain ⟨agreementPub, hagreement, h⟩ := bind_eq_ok.mp h
  obtain ⟨attestation, hattestation, h⟩ := bind_eq_ok.mp h
  obtain ⟨_, htoken, h⟩ := bind_eq_ok.mp h
  obtain ⟨halfSecret, hhalf, h⟩ := bind_eq_ok.mp h
  obtain ⟨_, hexpires, h⟩ := bind_eq_ok.mp h
  obtain rfl := Except.ok.inj h
  refine ⟨require_eq_ok.mp htoken, require_eq_ok.mp hexpires, ?_⟩
  rw [okOr_eq_ok] at hdevice hattestation
  rw [mapError_eq_ok] at hid hidentity hagreement hhalf
  obtain ⟨b, rfl, hb⟩ := val_of_map_exactBytes hid
  obtain ⟨c, rfl, hc⟩ := val_of_map_exactBytes hhalf
  -- Only the name may get shorter: one that is none is dropped.
  have hname : bytesSize (utf8Len (((DisplayName.new device.displayName).toOption.map
      DisplayName.value).getD [])) ≤ bytesSize (utf8Len device.displayName) := by
    rcases hnew : DisplayName.new device.displayName with _ | name
    · exact Nat.zero_le _
    · have hvalue : name.value = device.displayName := by
        unfold DisplayName.new at hnew
        split at hnew
        · exact congrArg DisplayName.value (Except.ok.inj hnew).symm
        · cases hnew
      rw [← hvalue]
      exact Nat.le_refl _
  unfold WireInvite.size inviteToWire
  dsimp only [Option.elim]
  rw [hdevice, hattestation, ← hb, ← hc]
  dsimp only [Option.elim]
  rw [PublicKeyPoint.length_of_fromBytes hidentity, PublicKeyPoint.length_of_fromBytes hagreement]
  have hmessage := messageSize_mono (Nat.add_le_add_left hname
    (bytesSize identityPub.bytes.val.length + bytesSize agreementPub.bytes.val.length))
  omega

/-- **An invite is read from its blob exactly when it fits**, and one that was read from some blob
is read again from its own. -/
theorem invite_is_read_iff_fits (coding : InviteCoding) {invite : Invite}
    (hreads : coding.Reads invite) :
    (invite.attestationToken ≠ [] → invite.expiresAt.secs ≠ 0 →
      (inviteFromBlob coding (inviteToBlob coding invite) = .ok invite ↔ invite.Fits)) ∧
    ∀ blob, coding.Shortest blob → inviteFromBlob coding blob = .ok invite →
      inviteFromBlob coding (inviteToBlob coding invite) = .ok invite := by
  refine ⟨inviteFromBlob_toBlob_iff hreads, ?_⟩
  intro blob hshortest hblob
  unfold inviteFromBlob at hblob
  split_ifs at hblob with hlong
  split at hblob
  · cases hblob
  · cases hblob
  rename_i version body hbytes
  split_ifs at hblob
  split at hblob
  · cases hblob
  rename_i wire hwire
  rw [mapError_eq_ok] at hblob
  obtain ⟨hchars, hsize⟩ := hshortest _ hbytes
  obtain ⟨htoken, hexpires, hle⟩ := size_of_inviteFromWire hblob
  have hbody : wire.size ≤ body.length := hsize wire hwire
  refine (inviteFromBlob_toBlob_iff hreads htoken hexpires).mpr
    ((base64Chars_le_iff_fits htoken hexpires).mp ?_)
  rw [hchars, List.length_cons] at hlong
  unfold base64Chars at hlong ⊢
  omega

section Example

/-- The bytes of a text in ASCII. -/
def asciiBytes (s : Text) : List UInt8 := s.map fun c => c.toNat.toUInt8

/-- An invite as protobuf, with texts in ASCII. -/
def writeInvite (wire : WireInvite) : List UInt8 :=
  bytesField 1 wire.inviteId ++
    (wire.device.elim [] fun device => messageField 2 (bytesField 1 device.deviceId ++
      bytesField 2 device.identityPub ++ bytesField 3 device.agreementPub ++
      bytesField 4 (asciiBytes device.displayName) ++ intField 5 device.platform.toUInt32.toUInt64 ++
      intField 6 device.capabilities.toUInt64)) ++
    (wire.attestation.elim [] fun attestation => messageField 3
      (bytesField 1 (asciiBytes attestation.idToken) ++ bytesField 2 (asciiBytes attestation.issuer) ++
        intField 3 attestation.issuedAt.toUInt64)) ++
    bytesField 4 wire.halfSecret ++ intField 5 wire.expiresAt.toUInt64

/-- An invite whose token is so many letters. -/
def inviteOf (n : ℕ) : Invite where
  inviteId := ⟨.replicate 16 1⟩
  identityPub := ⟨⟨List.replicate 65 4, rfl⟩⟩
  agreementPub := ⟨⟨List.replicate 65 5, rfl⟩⟩
  attestationToken := List.replicate n 'a'
  halfSecret := ⟨.replicate 16 2⟩
  expiresAt := ⟨1790000000⟩
  displayName := none

/-- Base64, and protobuf as far as one invite needs it. -/
def codingOf (invite : Invite) : InviteCoding where
  encode64 := base64
  decode64 blob :=
    if blob = base64 (inviteBlobVersion :: writeInvite (inviteToWire invite)) then
      some (inviteBlobVersion :: writeInvite (inviteToWire invite))
    else none
  encodeInvite := writeInvite
  decodeInvite bytes :=
    if bytes = writeInvite (inviteToWire invite) then some (inviteToWire invite) else none

/-- An invite without a name, whose token is in ASCII, has its size. -/
theorem length_writeInvite {invite : Invite} (hname : invite.displayName = none)
    (htoken : utf8Len invite.attestationToken = invite.attestationToken.length) :
    (writeInvite (inviteToWire invite)).length = (inviteToWire invite).size := by
  have hzero : intSize (0 : Int32).toUInt32.toUInt64 = 0 ∧ intSize (0 : UInt32).toUInt64 = 0 ∧
      intSize (0 : Int64).toUInt64 = 0 ∧ bytesSize 0 = 0 := by decide
  obtain ⟨hplatform, hcapabilities, hissued, hempty⟩ := hzero
  unfold writeInvite WireInvite.size inviteToWire asciiBytes
  dsimp only [Option.elim]
  rw [hname]
  simp only [List.length_append, length_bytesField, length_messageField, length_intField,
    List.length_map, Option.map_none, Option.getD_none, List.length_nil, hplatform, hcapabilities,
    hissued, hempty, utf8Len, List.map_nil, List.sum_nil, Nat.zero_add, Nat.add_zero]
  rw [← htoken, utf8Len]

theorem utf8Len_replicate (n : ℕ) : utf8Len (List.replicate n 'a') = n := by
  induction n with
  | zero => rfl
  | succ n ih =>
      have hone : 'a'.utf8Size = 1 := rfl
      rw [utf8Len] at ih ⊢
      rw [List.replicate_succ, List.map_cons, List.sum_cons, ih, hone, Nat.add_comm]

/-- What is coded for an invite is read back. -/
theorem codingOf_reads {invite : Invite} (hname : invite.displayName = none)
    (htoken : utf8Len invite.attestationToken = invite.attestationToken.length) :
    (codingOf invite).Reads invite where
  proto := if_pos rfl
  size := length_writeInvite hname htoken
  decoded64 := if_pos rfl
  chars := by
    have hblob : inviteToBlob (codingOf invite) invite =
        base64 (inviteBlobVersion :: writeInvite (inviteToWire invite)) := rfl
    rw [hblob, utf8Len_base64, List.length_cons, Nat.add_comm]
    rfl

theorem inviteOf_reads (n : ℕ) : (codingOf (inviteOf n)).Reads (inviteOf n) := by
  refine codingOf_reads rfl ?_
  have htoken : (inviteOf n).attestationToken = List.replicate n 'a' := rfl
  rw [htoken, utf8Len_replicate, List.length_replicate]

/-- What is coded for an invite is as short as it can be. -/
theorem codingOf_shortest {invite : Invite} (hreads : (codingOf invite).Reads invite) (blob : Text) :
    (codingOf invite).Shortest blob := by
  intro bytes hbytes
  obtain ⟨rfl, hsome⟩ := Option.ite_none_right_eq_some.mp hbytes
  obtain rfl := Option.some.inj hsome
  refine ⟨utf8Len_base64 _, ?_⟩
  intro wire hwire
  obtain ⟨-, hsome⟩ := Option.ite_none_right_eq_some.mp hwire
  obtain rfl := Option.some.inj hsome
  exact hreads.size.ge

/-- **An invite with a long token is written and not read**: its blob has 4115 characters. -/
theorem long_token_is_not_read :
    (codingOf (inviteOf 2900)).Reads (inviteOf 2900) ∧
      (inviteOf 2900).attestationToken ≠ [] ∧ (inviteOf 2900).expiresAt.secs ≠ 0 ∧
      inviteFromBlob (codingOf (inviteOf 2900)) (inviteToBlob (codingOf (inviteOf 2900))
        (inviteOf 2900)) = .error (.tooLong 4115) := by
  have hreads := inviteOf_reads 2900
  have htoken : (inviteOf 2900).attestationToken ≠ [] := List.cons_ne_nil _ _
  have hexpires : (inviteOf 2900).expiresAt.secs ≠ 0 := by decide
  have hletters : utf8Len (inviteOf 2900).attestationToken = 2900 := utf8Len_replicate 2900
  have hsize : (inviteToWire (inviteOf 2900)).size = 3085 := by
    rw [size_inviteToWire htoken hexpires, hletters]
    decide
  have hchars : utf8Len (inviteToBlob (codingOf (inviteOf 2900)) (inviteOf 2900)) = 4115 := by
    rw [hreads.chars, hreads.size, hsize]
    rfl
  refine ⟨hreads, htoken, hexpires, ?_⟩
  rw [inviteFromBlob, hchars, if_pos (by decide)]

/-- An invite with a token of five letters is read, and read again. -/
theorem invite_is_read_iff_fits_five :
    inviteFromBlob (codingOf (inviteOf 5)) (inviteToBlob (codingOf (inviteOf 5)) (inviteOf 5)) =
      .ok (inviteOf 5) := by
  have hreads := inviteOf_reads 5
  obtain ⟨hiff, hagain⟩ := invite_is_read_iff_fits (codingOf (inviteOf 5)) hreads
  exact hagain _ (codingOf_shortest hreads _) ((hiff (by decide) (by decide)).mpr (by decide))

end Example

end Tradr
