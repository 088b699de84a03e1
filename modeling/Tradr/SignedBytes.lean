import Tradr.Envelope

/-!
# Signed Bytes Are Unambiguous

An identity key signs in several contexts, each of which puts a head before the message or
requires one of it; and what it signs for a deferred delivery is a manifest without a count of its
items, in which only the paths are announced with their length. None of this leaves room for a
second reading: the heads are prefix-free, and the item list is determined by its bytes.

## Main results

* `head_prefix_free`: no context's head begins another's.
* `transferIdToBytes_eq`: the bytes of an identifier come back from its rendering.
* `signatureItems_injective`: items with the same bytes are the same items.
* `signed_bytes_unambiguous`: payloads that are equal are of one context, message and manifest.
-/

namespace Tradr

open BigEndian Fallible

/-! ### Contexts -/

/-- The bytes that begin every payload of a context. -/
def DomainTag.head (tag : DomainTag) : List UInt8 :=
  match tag.separation with
  | .prepended head | .required head => head

/-- A payload begins with the head of its context. -/
theorem DomainTag.head_prefix_payload {tag : DomainTag} {message payload : List UInt8}
    (h : tag.payload message = .ok payload) : tag.head <+: payload := by
  unfold DomainTag.payload at h
  unfold DomainTag.head
  cases hsep : tag.separation with
  | prepended head =>
    rw [hsep] at h
    obtain rfl := Except.ok.inj h
    exact List.prefix_append _ _
  | required head =>
    rw [hsep] at h
    dsimp only at h
    split_ifs at h with hstarts
    obtain rfl := Except.ok.inj h
    exact hstarts

/-- **No context's head begins another's.** -/
theorem DomainTag.head_prefix_free (tag tag' : DomainTag) (h : tag.head <+: tag'.head) :
    tag = tag' := by
  revert h
  cases tag <;> cases tag' <;> decide

/-- A context's payload determines the message. -/
theorem DomainTag.payload_inj {tag : DomainTag} {message message' payload : List UInt8}
    (h : tag.payload message = .ok payload) (h' : tag.payload message' = .ok payload) :
    message = message' := by
  unfold DomainTag.payload at h h'
  split at h
  · rename_i head hsep
    rw [hsep] at h'
    obtain rfl := Except.ok.inj h
    exact (List.append_cancel_left (Except.ok.inj h')).symm
  · rename_i head hsep
    rw [hsep] at h'
    dsimp only at h'
    split_ifs at h
    split_ifs at h'
    exact (Except.ok.inj h).trans (Except.ok.inj h').symm

/-- **A payload is of one context and one message.** -/
theorem DomainTag.payload_injective {tag tag' : DomainTag} {message message' payload : List UInt8}
    (h : tag.payload message = .ok payload) (h' : tag'.payload message' = .ok payload) :
    tag = tag' ∧ message = message' := by
  obtain rfl : tag = tag' := by
    rcases List.prefix_or_prefix_of_prefix (head_prefix_payload h) (head_prefix_payload h')
      with hpre | hpre
    · exact head_prefix_free tag tag' hpre
    · exact (head_prefix_free tag' tag hpre).symm
  exact ⟨rfl, payload_inj h h'⟩

/-! ### Transfer identifiers -/

/-- A lowercase digit is not a hyphen. -/
theorem hexChars_ne_hyphen {v : ℕ} (h : v < 16) : hexChars.getD v '0' ≠ '-' := by
  interval_cases v <;> decide

/-- Two halves of a byte make the byte. -/
theorem shiftLeft_or_nibbles (b : UInt8) :
    UInt8.ofNat (b.toNat / 16) <<< 4 ||| UInt8.ofNat (b.toNat % 16) = b := by
  have hall : ∀ n < 256, UInt8.ofNat (n / 16) <<< 4 ||| UInt8.ofNat (n % 16) = UInt8.ofNat n := by
    decide +kernel
  rw [hall b.toNat b.toNat_lt, UInt8.ofNat_toNat]

/-- The digits of a byte are read as the byte. -/
theorem transferIdDigits_hexByte (room : ℕ) (b : UInt8) (rest : Text) :
    transferIdDigits (room + 1) (hexByte b ++ rest) = b :: transferIdDigits room rest := by
  have hb : b.toNat < 256 := b.toNat_lt
  have hdiv : b.toNat / 16 < 16 := by omega
  have hmod : b.toNat % 16 < 16 := by omega
  have hcons : hexByte b ++ rest =
      hexChars.getD (b.toNat / 16) '0' :: hexChars.getD (b.toNat % 16) '0' :: rest := rfl
  rw [hcons, transferIdDigits, hexDigit_hexChars hdiv, hexDigit_hexChars hmod]
  · dsimp only
    rw [shiftLeft_or_nibbles]
  · exact hexChars_ne_hyphen hdiv

/-- The digits of some bytes are read as the bytes. -/
theorem transferIdDigits_hexText (room : ℕ) (bytes : List UInt8) (rest : Text) :
    transferIdDigits (room + bytes.length) (hexText bytes ++ rest) =
      bytes ++ transferIdDigits room rest := by
  induction bytes with
  | nil => rfl
  | cons b bytes ih =>
    have hcons : hexText (b :: bytes) ++ rest = hexByte b ++ (hexText bytes ++ rest) := by
      rw [hexText, List.flatMap_cons, List.append_assoc]
      rfl
    rw [hcons, List.length_cons, ← Nat.add_assoc, transferIdDigits_hexByte, ih, List.cons_append]

/-- A hyphen is passed over. -/
theorem transferIdDigits_hyphen (room : ℕ) (rest : Text) :
    transferIdDigits room ('-' :: rest) = transferIdDigits room rest := by
  cases room with
  | zero => cases rest <;> rfl
  | succ room => rw [transferIdDigits]

/-- The pieces of an identifier's bytes. -/
theorem pieces_eq (bytes : List UInt8) :
    bytes.take 4 ++ ((bytes.drop 4).take 2 ++ ((bytes.drop 6).take 2 ++
      ((bytes.drop 8).take 2 ++ bytes.drop 10))) = bytes := by
  rw [show bytes.drop 10 = (bytes.drop 8).drop 2 by simp, List.take_append_drop,
    show bytes.drop 8 = (bytes.drop 6).drop 2 by simp, List.take_append_drop,
    show bytes.drop 6 = (bytes.drop 4).drop 2 by simp, List.take_append_drop,
    List.take_append_drop]

/-- **The bytes of an identifier come back from its rendering.** -/
theorem transferIdToBytes_eq (id : TransferId) : transferIdToBytes id = id.bytes := by
  have hlen := id.length_bytes
  have hdigits : transferIdDigits 16 id.display = id.bytes := by
    have h₁ := transferIdDigits_hexText 12 (id.bytes.take 4)
    have h₂ := transferIdDigits_hexText 10 ((id.bytes.drop 4).take 2)
    have h₃ := transferIdDigits_hexText 8 ((id.bytes.drop 6).take 2)
    have h₄ := transferIdDigits_hexText 6 ((id.bytes.drop 8).take 2)
    have h₅ := transferIdDigits_hexText 0 (id.bytes.drop 10) []
    simp only [List.length_take, List.length_drop, hlen, List.append_nil, Nat.reduceSub,
      Nat.reduceLeDiff, inf_of_le_left, Nat.reduceAdd] at h₁ h₂ h₃ h₄ h₅
    simp only [TransferId.display, List.append_assoc, List.cons_append]
    rw [h₁, transferIdDigits_hyphen, h₂, transferIdDigits_hyphen, h₃, transferIdDigits_hyphen, h₄,
      transferIdDigits_hyphen, h₅, transferIdDigits, List.append_nil]
    exact pieces_eq id.bytes
  unfold transferIdToBytes
  rw [hdigits]
  dsimp only
  rw [hlen, Nat.sub_self, List.replicate_zero, List.append_nil]

/-! ### Manifests -/

/-- Texts with the same UTF-8 bytes are the same. -/
theorem utf8Bytes_injective {s t : Text} (h : utf8Bytes s = utf8Bytes t) : s = t := by
  have henc : s.utf8Encode = t.utf8Encode := congrArg List.toByteArray h
  have hdec := congrArg ByteArray.utf8Decode? henc
  rw [List.utf8Decode?_utf8Encode, List.utf8Decode?_utf8Encode] at hdec
  exact List.toArray_inj (Option.some.inj hdec)

/-- Numbers with the same big-endian bytes are the same. -/
theorem toBE_inj {w m n : ℕ} (hm : m < 256 ^ w) (hn : n < 256 ^ w) (h : toBE w m = toBE w n) :
    m = n := by
  rw [← ofBE_toBE hm, h, ofBE_toBE hn]

/-- The bytes of an item and of those after it. -/
theorem signatureItems_cons {path : Text} {size : UInt64} {hash : ContentHash}
    {rest : List (Text × UInt64 × ContentHash)} {bytes : List UInt8}
    (h : signatureItems ((path, size, hash) :: rest) = .ok bytes) :
    (utf8Bytes path).length < 2 ^ 32 ∧ ∃ more, signatureItems rest = .ok more ∧
      bytes = toBE 4 (utf8Bytes path).length ++ (utf8Bytes path ++ (toBE 8 size.toNat ++
        (hash.bytes ++ more))) := by
  rw [signatureItems] at h
  obtain ⟨_, hlen, hrest⟩ := bind_eq_ok.mp h
  obtain ⟨more, hmore, hbytes⟩ := bind_eq_ok.mp hrest
  refine ⟨?_, more, hmore, ?_⟩
  · exact require_eq_ok.mp hlen
  · rw [← Except.ok.inj hbytes]
    simp only [List.append_assoc]

/-- **Items with the same bytes are the same items**: each announces the length of its path, and
the rest of it is of one length. -/
theorem signatureItems_injective {items items' : List (Text × UInt64 × ContentHash)}
    {bytes : List UInt8} (h : signatureItems items = .ok bytes)
    (h' : signatureItems items' = .ok bytes) : items = items' := by
  induction items generalizing items' bytes with
  | nil =>
    cases items' with
    | nil => rfl
    | cons item' items' =>
      obtain ⟨path', size', hash'⟩ := item'
      obtain ⟨-, more', -, rfl⟩ := signatureItems_cons h'
      have hlen := congrArg List.length (Except.ok.inj h)
      rw [List.length_append, length_toBE, List.length_nil] at hlen
      omega
  | cons item items ih =>
    obtain ⟨path, size, hash⟩ := item
    obtain ⟨hpath, more, hmore, rfl⟩ := signatureItems_cons h
    cases items' with
    | nil =>
      have hlen := congrArg List.length (Except.ok.inj h')
      rw [List.length_append, length_toBE, List.length_nil] at hlen
      omega
    | cons item' items' =>
      obtain ⟨path', size', hash'⟩ := item'
      obtain ⟨hpath', more', hmore', heq⟩ := signatureItems_cons h'
      obtain ⟨hannounced, heq⟩ := List.append_inj heq (by rw [length_toBE, length_toBE])
      obtain ⟨hpaths, heq⟩ := List.append_inj heq (toBE_inj hpath hpath' hannounced)
      obtain ⟨hsizes, heq⟩ := List.append_inj heq (by rw [length_toBE, length_toBE])
      obtain ⟨hhashes, heq⟩ := List.append_inj heq
        (by rw [hash.length_bytes, hash'.length_bytes])
      subst heq
      obtain rfl := utf8Bytes_injective hpaths
      obtain rfl := UInt64.toNat_inj.mp (toBE_inj size.toNat_lt size'.toNat_lt hsizes)
      obtain rfl : hash = hash' := by
        cases hash
        cases hash'
        rw [ContentHash.mk.injEq]
        exact hhashes
      rw [ih hmore hmore']

/-- The bytes before the items. -/
theorem buildSignaturePayload_eq_ok {enc : Bytes 65} {recipient sender : DeviceId}
    {createdAt : Int64} {id : List UInt8} {items : List (Text × UInt64 × ContentHash)}
    {payload : List UInt8}
    (h : buildSignaturePayload enc recipient sender createdAt id items = .ok payload) :
    ∃ more, signatureItems items = .ok more ∧
      payload = enc.val ++ (recipient.bytes.val ++ (sender.bytes.val ++
        (toBE 8 createdAt.toUInt64.toNat ++ (id ++ more)))) := by
  obtain ⟨more, hmore, hpayload⟩ := bind_eq_ok.mp h
  refine ⟨more, hmore, ?_⟩
  rw [← Except.ok.inj hpayload]
  simp only [List.append_assoc]

/-- What a manifest's signature covers. -/
structure SignedManifest where
  enc : Bytes 65
  recipientDeviceId : DeviceId
  senderDeviceId : DeviceId
  createdAtSecs : Int64
  transferId : TransferId
  items : List (Text × UInt64 × ContentHash)

/-- The bytes it covers. -/
def SignedManifest.payload (m : SignedManifest) : Except EnvelopeError (List UInt8) :=
  buildSignaturePayload m.enc m.recipientDeviceId m.senderDeviceId m.createdAtSecs
    (transferIdToBytes m.transferId) m.items

/-- **A manifest is determined by the bytes its signature covers.** -/
theorem SignedManifest.payload_injective {m m' : SignedManifest} {payload : List UInt8}
    (h : m.payload = .ok payload) (h' : m'.payload = .ok payload) : m = m' := by
  obtain ⟨more, hmore, rfl⟩ := buildSignaturePayload_eq_ok h
  obtain ⟨more', hmore', heq⟩ := buildSignaturePayload_eq_ok h'
  obtain ⟨henc, heq⟩ := List.append_inj heq (m.enc.property.trans m'.enc.property.symm)
  obtain ⟨hrecipient, heq⟩ := List.append_inj heq
    (m.recipientDeviceId.bytes.property.trans m'.recipientDeviceId.bytes.property.symm)
  obtain ⟨hsender, heq⟩ := List.append_inj heq
    (m.senderDeviceId.bytes.property.trans m'.senderDeviceId.bytes.property.symm)
  obtain ⟨hcreated, heq⟩ := List.append_inj heq (by rw [length_toBE, length_toBE])
  rw [transferIdToBytes_eq, transferIdToBytes_eq] at heq
  obtain ⟨hid, heq⟩ := List.append_inj heq
    (m.transferId.length_bytes.trans m'.transferId.length_bytes.symm)
  subst heq
  have hsecs := UInt64.toNat_inj.mp
    (toBE_inj (UInt64.toNat_lt _) (UInt64.toNat_lt _) hcreated)
  obtain ⟨enc, ⟨recipient⟩, ⟨sender⟩, created, ⟨idBytes, _, _, _⟩, items⟩ := m
  obtain ⟨enc', ⟨recipient'⟩, ⟨sender'⟩, created', ⟨idBytes', _, _, _⟩, items'⟩ := m'
  obtain rfl := Subtype.ext henc
  obtain rfl := Subtype.ext hrecipient
  obtain rfl := Subtype.ext hsender
  obtain rfl : created = created' := by
    obtain ⟨secs⟩ := created
    obtain ⟨secs'⟩ := created'
    exact congrArg Int64.ofUInt64 hsecs
  obtain rfl : idBytes = idBytes' := hid
  obtain rfl := signatureItems_injective hmore hmore'
  rfl

/-! ### Signatures -/

/-- A key's signatures are accepted for what it signed and for nothing else: a signature that
verifies over some bytes was made over them, for an entry of the log. -/
def Unforgeable (ecdsa : Signatures) (key : ecdsa.VerifyingKey)
    (log : List (DomainTag × List UInt8 × Signature)) : Prop :=
  ∀ payload raw, ecdsa.verify key payload raw = true → ∃ entry ∈ log,
    entry.1.payload entry.2.1 = .ok payload ∧ ecdsa.fromSlice entry.2.2.bytes = some raw

/-- **Signed bytes are unambiguous.** Equal payloads are of one context and one message; the bytes
of a transfer identifier come back from its rendering; manifests with the same signed bytes are the
same; and where signatures cannot be forged, one that verifies for a context and a message was made
for that context and that message. -/
structure Unambiguous : Prop where
  payload : ∀ (tag tag' : DomainTag) (message message' payload : List UInt8),
    tag.payload message = .ok payload → tag'.payload message' = .ok payload →
    tag = tag' ∧ message = message'
  transferId : ∀ id : TransferId, transferIdToBytes id = id.bytes
  manifest : ∀ (enc enc' : Bytes 65) (recipient recipient' sender sender' : DeviceId)
    (createdAt createdAt' : Int64) (id id' : TransferId)
    (items items' : List (Text × UInt64 × ContentHash)) (payload : List UInt8),
    buildSignaturePayload enc recipient sender createdAt (transferIdToBytes id) items =
      .ok payload →
    buildSignaturePayload enc' recipient' sender' createdAt' (transferIdToBytes id') items' =
      .ok payload →
    enc = enc' ∧ recipient = recipient' ∧ sender = sender' ∧ createdAt = createdAt' ∧ id = id' ∧
      items = items'
  signature : ∀ (ecdsa : Signatures) (key : ecdsa.VerifyingKey)
    (log : List (DomainTag × List UInt8 × Signature)), Unforgeable ecdsa key log →
    ∀ (tag : DomainTag) (message : List UInt8) (signature : Signature),
    signatureVerifies ecdsa key tag message signature = true →
    ∃ made, (tag, message, made) ∈ log ∧
      ecdsa.fromSlice made.bytes = ecdsa.fromSlice signature.bytes

/-- The bytes an identity key signs have one reading. -/
theorem signed_bytes_unambiguous : Unambiguous where
  payload _ _ _ _ _ h h' := DomainTag.payload_injective h h'
  transferId := transferIdToBytes_eq
  manifest := by
    intro enc enc' recipient recipient' sender sender' createdAt createdAt' id id' items items'
      payload h h'
    have heq : (⟨enc, recipient, sender, createdAt, id, items⟩ : SignedManifest) =
        ⟨enc', recipient', sender', createdAt', id', items'⟩ :=
      SignedManifest.payload_injective h h'
    simpa only [SignedManifest.mk.injEq] using heq
  signature := by
    intro ecdsa key log hlog tag message signature h
    unfold signatureVerifies at h
    split at h
    · rename_i payload raw hpayload hraw
      obtain ⟨⟨tag', message', made⟩, hmem, hsigned, hmade⟩ := hlog payload raw h
      obtain ⟨rfl, rfl⟩ := DomainTag.payload_injective hpayload hsigned
      exact ⟨made, hmem, hmade.trans hraw.symm⟩
    · cases h

end Tradr
