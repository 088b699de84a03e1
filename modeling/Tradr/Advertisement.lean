import Tradr.KnownDevices
import Tradr.Link

/-!
# BLE Advertisements

A device is found over BLE by an identifier that changes every fifteen minutes: it is
derived from a secret the devices share and from the window the sender's clock is in, and
a listener tries the window of its own clock and the two beside it. The identifier travels
in ten bytes of service data with a version, the sender's platform and four capability
bits.

## Main results

* `BroadcastSecret.isSome_matchesAt`: clocks at most one window apart agree on an identifier.
* `Advertisement.fromServiceData_serviceData`: what is written is read back.
-/

open BigEndian

namespace Tradr

/-! ### Ephemeral identifiers -/

/-- The bytes of an ephemeral identifier. -/
def eidLen : ℕ := 8

/-- The length of a window in seconds. -/
def eidWindowSecs : ℤ := 900

/-- The bytes of a broadcast secret. -/
def broadcastSecretLen : ℕ := 32

/-- The context of an identifier's derivation. -/
def eidContext : List UInt8 := ascii "tradr-eid-v1"

/-- Why bytes are not a value of this domain. -/
inductive EidError
  | wrongLength (expected actual : ℕ)
  deriving DecidableEq, Repr

/-- A window of fifteen minutes. -/
structure EidWindow where
  index : Int64
  deriving DecidableEq

/-- The window a time is in; the division rounds down. -/
def EidWindow.containing (time : UnixTime) : EidWindow :=
  ⟨Int64.ofInt (time.secs.toInt / eidWindowSecs)⟩

/-- An ephemeral identifier. -/
structure Eid where
  bytes : Bytes eidLen
  deriving DecidableEq

/-- An identifier from exactly as many bytes as it has. -/
def Eid.fromBytes (bytes : List UInt8) : Except EidError Eid :=
  if h : bytes.length = eidLen then .ok ⟨⟨bytes, h⟩⟩
  else .error (.wrongLength eidLen bytes.length)

@[simp] theorem Eid.fromBytes_bytes (eid : Eid) : Eid.fromBytes eid.bytes.val = .ok eid := by
  rw [fromBytes, dif_pos eid.bytes.property]

/-- A secret that devices share, to derive identifiers from. -/
structure BroadcastSecret where
  bytes : Bytes broadcastSecretLen
  deriving DecidableEq

namespace BroadcastSecret

variable (blake3 : Blake3Kdf)

/-- The identifier of a window: the head of a key derived from the secret and the window's
index in eight bytes. -/
def eid (secret : BroadcastSecret) (window : EidWindow) : Eid :=
  let derived := blake3.deriveKey eidContext
    (secret.bytes.val ++ toBE 8 window.index.toUInt64.toNat)
  ⟨⟨derived.val.take eidLen, by rw [List.length_take, derived.property]; rfl⟩⟩

/-- The windows a listener tries: the one before its own, its own, and the one after. -/
def candidateWindows (now : UnixTime) : List EidWindow :=
  [-1, 0, 1].map fun offset => ⟨saturatingAdd (EidWindow.containing now).index offset⟩

/-- The first of those windows in which a secret gives the identifier that was observed. -/
def matchesAt (secret : BroadcastSecret) (observed : Eid) (now : UnixTime) : Option EidWindow :=
  (candidateWindows now).find? fun window => secret.eid blake3 window = observed

/-- The index of a window is the number of whole windows before the time. -/
theorem toInt_containing (time : UnixTime) :
    (EidWindow.containing time).index.toInt = time.secs.toInt / eidWindowSecs := by
  have hlt := time.secs.toInt_lt
  have hge := time.secs.le_toInt
  unfold EidWindow.containing eidWindowSecs
  exact Int64.toInt_ofInt_of_le (by omega) (by omega)

/-- The neighbours of a window are far from the bounds of the index. -/
theorem toInt_saturatingAdd_containing (time : UnixTime) {offset : Int64}
    (hlow : -1 ≤ offset.toInt) (hhigh : offset.toInt ≤ 1) :
    (saturatingAdd (EidWindow.containing time).index offset).toInt =
      time.secs.toInt / eidWindowSecs + offset.toInt := by
  have hlt := time.secs.toInt_lt
  have hge := time.secs.le_toInt
  rw [saturatingAdd, toInt_containing]
  unfold eidWindowSecs
  rw [Int64.toInt_ofInt_of_le (by omega) (by omega)]
  omega

/-- A time at most one window away is in one of the windows that are tried. -/
theorem containing_mem_candidateWindows {sent received : UnixTime}
    (h : |sent.secs.toInt - received.secs.toInt| ≤ eidWindowSecs) :
    EidWindow.containing sent ∈ candidateWindows received := by
  rw [abs_le, eidWindowSecs] at h
  obtain ⟨offset, hmem, hlow, hhigh, hdiff⟩ : ∃ offset ∈ ([-1, 0, 1] : List Int64),
      -1 ≤ offset.toInt ∧ offset.toInt ≤ 1 ∧
        sent.secs.toInt / eidWindowSecs = received.secs.toInt / eidWindowSecs + offset.toInt := by
    unfold eidWindowSecs
    rcases (by omega : sent.secs.toInt / 900 = received.secs.toInt / 900 - 1 ∨
        sent.secs.toInt / 900 = received.secs.toInt / 900 ∨
        sent.secs.toInt / 900 = received.secs.toInt / 900 + 1) with hd | hd | hd
    · exact ⟨-1, by simp, by decide, by decide, hd⟩
    · exact ⟨0, by simp, by decide, by decide, hd.trans (Int.add_zero _).symm⟩
    · exact ⟨1, by simp, by decide, by decide, hd⟩
  have hindex : saturatingAdd (EidWindow.containing received).index offset =
      (EidWindow.containing sent).index := by
    rw [← Int64.toInt_inj, toInt_saturatingAdd_containing received hlow hhigh,
      toInt_containing, hdiff]
  exact List.mem_map.mpr ⟨offset, hmem, congrArg EidWindow.mk hindex⟩

/-- **A listener whose clock is at most one window off** recognizes the identifier. -/
theorem isSome_matchesAt (secret : BroadcastSecret) {sent received : UnixTime}
    (h : |sent.secs.toInt - received.secs.toInt| ≤ eidWindowSecs) :
    (secret.matchesAt blake3 (secret.eid blake3 (EidWindow.containing sent)) received).isSome := by
  rw [matchesAt, List.find?_isSome]
  exact ⟨_, containing_mem_candidateWindows h, decide_eq_true rfl⟩

end BroadcastSecret

/-! ### Service data -/

/-- The version of the payload. -/
def advertisementVersion : UInt8 := 0x01

/-- The bytes of the payload. -/
def serviceDataLen : ℕ := 10

/-- Why a payload is not made or not read. -/
inductive AdvertisementError
  | wrongLength (expected actual : ℕ)
  | unknownVersion (version : UInt8)
  | invalidPlatformCode (code : UInt8)
  deriving DecidableEq, Repr

/-- A platform, as a number of four bits. -/
structure PlatformCode where
  code : UInt8
  valid : code ≤ 15
  deriving DecidableEq

/-- A platform from a number of four bits. -/
def PlatformCode.fromCode (code : UInt8) : Except AdvertisementError PlatformCode :=
  if h : code ≤ 15 then .ok ⟨code, h⟩ else .error (.invalidPlatformCode code)

theorem PlatformCode.fromCode_eq (code : UInt8) (h : code ≤ 15) :
    fromCode code = .ok ⟨code, h⟩ := dif_pos h

/-- What is advertised. -/
structure Advertisement where
  eid : Eid
  platform : PlatformCode
  capabilities : UInt16
  deriving DecidableEq

namespace Advertisement

/-- An advertisement keeps the low four bits of the capabilities: the transports. -/
def new (eid : Eid) (platform : PlatformCode) (capabilities : UInt16) : Advertisement :=
  ⟨eid, platform, capabilities &&& 0x000F⟩

/-- The payload: the version, the identifier, and a byte for platform and capabilities. -/
def serviceData (ad : Advertisement) : Bytes serviceDataLen :=
  ⟨advertisementVersion :: ad.eid.bytes.val ++
      [(ad.platform.code <<< 4) ||| (ad.capabilities.toUInt8 &&& 0x0F)], by
    rw [List.length_append, List.length_cons, ad.eid.bytes.property]; rfl⟩

/-- Read a payload. The two parts that are cut out of it are taken to be well formed: the
call panics when they are not. -/
def fromServiceData (bytes : List UInt8) : OrPanic AdvertisementError Advertisement :=
  if bytes.length ≠ serviceDataLen then
    .of (.error (.wrongLength serviceDataLen bytes.length))
  else if bytes.getD 0 0 ≠ advertisementVersion then
    .of (.error (.unknownVersion (bytes.getD 0 0)))
  else
    match Eid.fromBytes ((bytes.drop 1).take eidLen),
      PlatformCode.fromCode (bytes.getD (1 + eidLen) 0 >>> 4) with
    | .ok eid, .ok platform =>
      .of (.ok ⟨eid, platform, (bytes.getD (1 + eidLen) 0 &&& 0x0F).toUInt16⟩)
    | _, _ => .panicked

/-- The byte for platform and capabilities gives both back. -/
theorem flags_eq : ∀ code < 16, ∀ flags < 16,
    ((UInt8.ofNat code <<< 4) ||| UInt8.ofNat flags) >>> 4 = UInt8.ofNat code ∧
      ((UInt8.ofNat code <<< 4) ||| UInt8.ofNat flags) &&& 0x0F = UInt8.ofNat flags := by
  decide +kernel

/-- Masking with four bits leaves the remainder by `16`. -/
theorem toNat_and_mask (n : ℕ) : n &&& 15 = n % 16 := Nat.and_two_pow_sub_one_eq_mod n 4

/-- **What is written is read back**, with the capabilities that an advertisement keeps. -/
theorem fromServiceData_serviceData (eid : Eid) (platform : PlatformCode)
    (capabilities : UInt16) :
    fromServiceData (new eid platform capabilities).serviceData.val =
      .of (.ok ⟨eid, platform, capabilities &&& 0x000F⟩) := by
  obtain ⟨code, hcode⟩ := platform
  have hcode' : code.toNat < 16 := Nat.lt_succ_of_le (UInt8.le_iff_toNat_le.mp hcode)
  have hsmall : capabilities.toNat % 16 < 16 := Nat.mod_lt _ (by omega)
  have hflags : (capabilities &&& 0x000F).toUInt8 &&& 0x0F =
      UInt8.ofNat (capabilities.toNat % 16) := by
    refine UInt8.toNat_inj.mp ?_
    rw [UInt8.toNat_and, UInt16.toNat_toUInt8, UInt16.toNat_and,
      UInt8.toNat_ofNat_of_lt' (hsmall.trans (by decide))]
    change (capabilities.toNat &&& 15) % 256 &&& 15 = _
    rw [toNat_and_mask, toNat_and_mask]
    omega
  have hback : (UInt8.ofNat (capabilities.toNat % 16)).toUInt16 = capabilities &&& 0x000F := by
    refine UInt16.toNat_inj.mp ?_
    rw [UInt8.toNat_toUInt16, UInt8.toNat_ofNat_of_lt' (hsmall.trans (by decide)),
      UInt16.toNat_and]
    exact (toNat_and_mask _).symm
  obtain ⟨hplatform, hmask⟩ := flags_eq code.toNat hcode' _ hsmall
  rw [UInt8.ofNat_toNat] at hplatform hmask
  generalize hbyte : (code <<< 4) ||| UInt8.ofNat (capabilities.toNat % 16) = byte
    at hplatform hmask
  have hbytes : (new eid ⟨code, hcode⟩ capabilities).serviceData.val =
      advertisementVersion :: (eid.bytes.val ++ [byte]) := by
    rw [← hbyte, ← hflags]
    rfl
  have hlength : (advertisementVersion :: (eid.bytes.val ++ [byte])).length = serviceDataLen :=
    hbytes ▸ (new eid ⟨code, hcode⟩ capabilities).serviceData.property
  have hlast : (advertisementVersion :: (eid.bytes.val ++ [byte])).getD (1 + eidLen) 0 = byte := by
    rw [Nat.add_comm, List.getD_cons_succ, List.getD_append_right _ _ _ _
      eid.bytes.property.le, eid.bytes.property]
    rfl
  have heid : ((advertisementVersion :: (eid.bytes.val ++ [byte])).drop 1).take eidLen =
      eid.bytes.val := by
    rw [List.drop_one, List.tail_cons]
    exact List.take_left' eid.bytes.property
  have hfirst : (advertisementVersion :: (eid.bytes.val ++ [byte])).getD 0 0 =
      advertisementVersion := rfl
  rw [hbytes, fromServiceData, if_neg (not_not.mpr hlength), if_neg (not_not.mpr hfirst), heid,
    hlast, hplatform, hmask, hback, Eid.fromBytes_bytes, PlatformCode.fromCode_eq code hcode]

/-- No payload makes the reader panic. -/
theorem fromServiceData_ne_panicked (bytes : List UInt8) :
    fromServiceData bytes ≠ .panicked := by
  unfold fromServiceData
  split_ifs with hlength hversion
  · exact OrPanic.of_ne_panicked
  · exact OrPanic.of_ne_panicked
  · have heid : ((bytes.drop 1).take eidLen).length = eidLen := by
      rw [List.length_take, List.length_drop, not_not.mp hlength]
      rfl
    have hplatform : bytes.getD (1 + eidLen) 0 >>> 4 ≤ 15 := by
      rw [UInt8.le_iff_toNat_le, UInt8.toNat_shiftRight]
      have hlt := (bytes.getD (1 + eidLen) 0).toNat_lt
      change (bytes.getD (1 + eidLen) 0).toNat >>> 4 ≤ 15
      rw [Nat.shiftRight_eq_div_pow]
      omega
    rw [Eid.fromBytes, dif_pos heid, PlatformCode.fromCode_eq _ hplatform]
    exact OrPanic.of_ne_panicked

end Advertisement

end Tradr
