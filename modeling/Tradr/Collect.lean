import Tradr.CollisionNames
import Tradr.Eff
import Tradr.EnvelopeReader
import Tradr.Receive

/-!
# Collecting Deliveries

A pass asks the Brokr what is waiting, oldest first. A delivery is downloaded into the staging
directory while its envelope is opened, and each item is moved to its destination as soon as it is
verified. Only after the last one its identifier is written to a journal; then its arrival is
announced, what is left of it removed, and the Brokr told that it may forget it. A delivery whose
identifier is in the journal is not downloaded again.

The Brokr, the filesystem and the file of the journal are parameters whose calls may fail. What the
trust in a sender is at the time of a download, and what the clock shows, are inputs of a pass.

## Main definitions

* `PlacedDeliveries`: the journal.
* `Placing.placeVerifiedFile`: moving a file to a destination that is free.
* `CollectContext.attempt`: one download of a delivery.
* `CollectContext.collectDelivery`, `CollectContext.collectOnce`: a delivery, and a whole pass.
-/

namespace Tradr

/-! ### Failures -/

/-- Why the journal could not be read or written. -/
inductive PlacedError
  | io (e : String)
  | malformed (e : String)
  deriving DecidableEq, Repr

/-- What failed on this device. -/
inductive LocalFailure
  | vfs (e : VfsError)
  | placed (e : PlacedError)
  | path (e : RelPathError)
  deriving DecidableEq, Repr

/-- Why a call on the Brokr, or a step around one, failed. -/
inductive BrokrError
  | network (message : String)
  | unauthorized
  | rejected (message : String)
  | malformed (message : String)
  | key (e : KeyStoreError)
  | onDevice (e : LocalFailure)
  | notEligible
  | storageFull
  | tooManyWaiting

/-- How a pass ends early: with an error, or in a panic. -/
inductive PassStop
  | failed (e : BrokrError)
  | panicked

/-! ### The journal -/

/-- The file of the journal: reading it, with nothing for a file that is not there, and replacing
it. -/
structure PlacedFile (J : Type) where
  read : J → Except String (Option (List UInt8)) × J
  writeAtomic : J → List UInt8 → Except String Unit × J

/-- Identifiers as bytes and back. -/
structure IdsJson where
  fromSlice : List UInt8 → Except String (List Text)
  toVec : List Text → Except String (List UInt8)

namespace PlacedDeliveries

variable {J : Type} (file : PlacedFile J) (json : IdsJson)

/-- The identifiers of the journal. -/
def readIds : Eff J PlacedError (List Text) := fun j =>
  match file.read j with
  | (.error e, j) => (.error (.io e), j)
  | (.ok none, j) => (.ok [], j)
  | (.ok (some bytes), j) =>
    match json.fromSlice bytes with
    | .error e => (.error (.malformed e), j)
    | .ok ids => (.ok ids, j)

/-- Replace the journal. -/
def writeIds (ids : List Text) : Eff J PlacedError Unit := fun j =>
  match json.toVec ids with
  | .error e => (.error (.malformed e), j)
  | .ok bytes =>
    match file.writeAtomic j bytes with
    | (.error e, j) => (.error (.io e), j)
    | (.ok (), j) => (.ok (), j)

/-- Whether a delivery was placed. -/
def contains (id : Text) : Eff J PlacedError Bool := do
  let ids ← readIds file json
  return ids.any (· = id)

/-- Note that a delivery was placed. -/
def remember (id : Text) : Eff J PlacedError Unit := do
  let ids ← readIds file json
  if ids.any (· = id) then return () else writeIds file json (ids ++ [id])

/-- Write the identifiers that are kept, unless all are. -/
def keep (kept : Text → Bool) : Eff J PlacedError Unit := do
  let ids ← readIds file json
  if (ids.filter kept).length = ids.length then return ()
  else writeIds file json (ids.filter kept)

/-- Drop a delivery that was acknowledged. -/
def forget (id : Text) : Eff J PlacedError Unit := keep file json (· ≠ id)

/-- Drop the deliveries that no longer wait. -/
def retainListed (listed : List Text) : Eff J PlacedError Unit :=
  keep file json fun id => listed.any (· = id)

end PlacedDeliveries

/-! ### Placing a file -/

namespace Placing

variable {σ H : Type} (vfs : Vfs σ H) (nfc : Text → Text)

/-- Try the numbered names of a path from a counter on; the counter overflows when there are no
more. -/
def probeNumbered (path : RelPath) : ℕ → ℕ → Eff σ PassStop (Except VfsError RelPath)
  | 0, _ => Eff.fail .panicked
  | remaining + 1, counter =>
    match RelPath.new (collisionName path.value counter) with
    | .error _ => pure (.error (.io .invalidInput))
    | .ok candidate => do
      match ← Eff.attempt (vfs.stat · candidate : Eff σ VfsError Metadata) with
      | .ok _ => probeNumbered path remaining (counter + 1)
      | .error .notFound => pure (.ok candidate)
      | .error e => pure (.error e)

/-- The path itself when it is free, and else the first numbered one that is. -/
def resolveCollision (path : RelPath) : Eff σ PassStop (Except VfsError RelPath) := do
  match ← Eff.attempt (vfs.stat · path : Eff σ VfsError Metadata) with
  | .ok _ => probeNumbered vfs path DestinationName.counters 2
  | .error .notFound => pure (.ok path)
  | .error e => pure (.error e)

/-- Move a file to a name that is free, as often as the name is taken in between. -/
def placeAt (partialRel sanitized : RelPath) : ℕ →
    Eff σ PassStop (Except TransferSessionError RelPath)
  | 0 => pure (.error (.vfs .alreadyExists))
  | attempts + 1 => do
    match ← resolveCollision vfs sanitized with
    | .error e => pure (.error (.vfs e))
    | .ok candidate =>
      match ← Eff.attempt (vfs.renameNoReplace · partialRel candidate : Eff σ VfsError Unit) with
      | .ok () => pure (.ok candidate)
      | .error .alreadyExists => placeAt partialRel sanitized attempts
      | .error e => pure (.error (.vfs e))

/-- Move a verified file to its destination. -/
def placeVerifiedFile (partialRel dest : RelPath) :
    Eff σ PassStop (Except TransferSessionError RelPath) :=
  match sanitizeDestinationPath nfc dest.value with
  | .error e => pure (.error (.protocolViolation (.destination e)))
  | .ok sanitized => placeAt vfs partialRel sanitized maxPlacementAttempts

end Placing

/-! ### A delivery that is downloaded -/

/-- An element of the inbox. -/
structure InboxEntry where
  id : Text
  senderDeviceId : Text
  size : UInt64
  uploadedAt : Int64

/-- The calls on the Brokr. A download answers with a stream of pieces, each of which may be the end
of the connection instead. -/
structure BrokrApi (B : Type) where
  inbox : B → Except BrokrError (List InboxEntry) × B
  download : B → Text → Except BrokrError (List (Except BrokrError (List UInt8))) × B
  acknowledge : B → Text → Except BrokrError Unit × B

/-- What the trust in senders is during one download: how the classification answers, and which of
its refusals come with an address that keys are to be fetched from. -/
structure SenderTrust where
  verify : AttestFn
  jwksNeeded : Text → Option Text

/-- Why a delivery is given up. -/
inductive RefusedReason
  | idNotHex
  | envelope (e : EnvelopeError)
  | keysDoNotVerify
  | placing (e : TransferSessionError)

/-- How a download ends. -/
inductive CollectStep
  | opened (sender : DeviceId) (placed : List RelPath)
  | refused (why : RefusedReason)
  | jwksNeeded (uri : Text)

/-- The variables of a download: the destinations, the open file with the item it is for and the
bytes written so far, and the paths placed so far. -/
structure Partials (H : Type) where
  dests : List RelPath
  current : Option (ℕ × H × ℕ)
  placed : List RelPath

/-- What a pass sets out to do, and what arrives. -/
inductive CollectEvent (σ : Type)
  | downloading (id : Text) (now : UnixTime) (trust : SenderTrust)
  | arrived (id : Text) (sender : DeviceId) (placed : List RelPath) (store : σ)
  | acknowledging (id : Text) (refused : Option RefusedReason)

/-- What collecting changes: the files of the root, the Brokr and the journal. The log is what
happened in the passes so far, the earliest first. -/
structure Collecting (σ B J : Type) where
  store : σ
  brokr : B
  journal : J
  log : List (CollectEvent σ)

/-- What a pass needs of the device. -/
structure CollectContext (σ H B J : Type) where
  vfs : Vfs σ H
  api : BrokrApi B
  file : PlacedFile J
  json : IdsJson
  primitives : Primitives
  nfc : Text → Text
  recipient : PublicIdentity
  agree : PublicKeyPoint → Except KeyStoreError SharedSecret

/-- What a pass finds when it comes to a delivery: the clock and the trust at the first download,
how fetching keys ends, and the clock and the trust at the second. -/
structure Circumstances where
  now : UnixTime
  trust : SenderTrust
  warm : Option String
  laterNow : UnixTime
  laterTrust : SenderTrust

/-- What a pass did. -/
structure CollectReport where
  delivered : ℕ
  refused : List (Text × RefusedReason)

namespace CollectContext

variable {σ H B J A E : Type} (ctx : CollectContext σ H B J)

/-- The longest identifier of a delivery. -/
def maxDeliveryIdLen : ℕ := 64

/-- A failure of the filesystem ends the pass. -/
def onDevice (m : Eff σ VfsError A) : Eff σ PassStop A :=
  Eff.mapError (fun e => .failed (.onDevice (.vfs e))) m

/-- A path that is built by the pass itself. -/
def localPath (s : Text) : Eff σ PassStop RelPath :=
  match RelPath.new s with
  | .error e => Eff.fail (.failed (.onDevice (.path e)))
  | .ok path => pure path

/-- The staged file of an item. -/
def partialPath (dir : RelPath) (index : ℕ) : Text :=
  dir.value ++ ("/item-".toList ++ decimal index)

/-- Remove the entries of a listing of a directory. -/
def removeEntries (dir : RelPath) : List DirEntry → Eff σ PassStop Unit
  | [] => pure ()
  | entry :: rest => do
    let path ← localPath (dir.value ++ '/' :: entry.name)
    match ← Eff.attempt (ctx.vfs.remove · path : Eff σ VfsError Unit) with
    | .ok () | .error .notFound => removeEntries dir rest
    | .error e => Eff.fail (.failed (.onDevice (.vfs e)))

/-- Remove what is staged of a delivery. -/
def removePartial (dir : RelPath) : Eff σ PassStop Unit := do
  match ← Eff.attempt (ctx.vfs.list · dir : Eff σ VfsError (List DirEntry)) with
  | .error .notFound => pure ()
  | .error e => Eff.fail (.failed (.onDevice (.vfs e)))
  | .ok entries =>
    ctx.removeEntries dir entries
    match ← Eff.attempt (ctx.vfs.remove · dir : Eff σ VfsError Unit) with
    | .ok () | .error .notFound => pure ()
    | .error e => Eff.fail (.failed (.onDevice (.vfs e)))

/-- Open the staged file of an item. -/
def openItem (dir : RelPath) (index : ℕ) : Eff σ PassStop (ℕ × H × ℕ) := do
  let path ← localPath (partialPath dir index)
  let writer ← onDevice (ctx.vfs.openWrite · path)
  return (index, writer, 0)

/-- Have the staged file of an item open. -/
def ensureOpen (dir : RelPath) (partials : Partials H) (index : ℕ) :
    Eff σ PassStop (ℕ × H × ℕ) :=
  match partials.current with
  | some (openIndex, writer, offset) =>
    if openIndex = index then pure (openIndex, writer, offset) else ctx.openItem dir index
  | none => ctx.openItem dir index

/-- Do what an event of the reader asks for. -/
def apply (dir : RelPath) (partials : Partials H) :
    ReaderEvent → Eff σ PassStop (Option CollectStep × Partials H)
  | .manifest manifest => do
    onDevice (ctx.vfs.createDir · dir)
    return (none, { partials with dests := manifest.items.map EnvelopeItem.relPath })
  | .itemData index bytes => do
    let (index, writer, offset) ← ctx.ensureOpen dir partials index
    onDevice (ctx.vfs.writeAt · writer offset bytes)
    return (none, { partials with current := some (index, writer, offset + bytes.length) })
  | .itemVerified index => do
    let (_, writer, _) ← ctx.ensureOpen dir partials index
    onDevice (ctx.vfs.sync · writer)
    let source ← localPath (partialPath dir index)
    match partials.dests[index]? with
    | none => Eff.fail (.failed (.malformed "item index outside the manifest"))
    | some dest =>
      match ← Placing.placeVerifiedFile ctx.vfs ctx.nfc source dest with
      | .ok placed =>
        return (none, { partials with current := none, placed := partials.placed ++ [placed] })
      | .error (.vfs e) => Eff.fail (.failed (.onDevice (.vfs e)))
      | .error e => return (some (.refused (.placing e)), { partials with current := none })

/-- Do what the events of a feed ask for, until one ends the download. -/
def applyAll (dir : RelPath) (partials : Partials H) :
    List ReaderEvent → Eff σ PassStop (Option CollectStep × Partials H)
  | [] => pure (none, partials)
  | event :: rest => do
    match ← ctx.apply dir partials event with
    | (some step, partials) => return (some step, partials)
    | (none, partials) => applyAll dir partials rest

/-- A feed that was refused: keys are to be fetched, or the delivery is given up. -/
def refusedFeed (trust : SenderTrust) (e : EnvelopeError) : CollectStep :=
  match e with
  | .attestationRefused message =>
    match trust.jwksNeeded message with
    | some uri => .jwksNeeded uri
    | none => .refused (.envelope e)
  | _ => .refused (.envelope e)

/-- What envelopes are opened with. -/
def receiver (now : UnixTime) (trust : SenderTrust) : EnvelopeRecipient :=
  ⟨ctx.recipient, ctx.agree, now, trust.verify⟩

/-- Feed the pieces of a download to the reader of its envelope. -/
def takeIn (now : UnixTime) (trust : SenderTrust) (dir : RelPath) :
    List (Except BrokrError (List UInt8)) → EnvelopeReader → Partials H →
      Eff σ PassStop CollectStep
  | [], reader, partials =>
    match reader.finish with
    | .ok manifest => pure (.opened manifest.sender.deviceId partials.placed)
    | .error e => pure (.refused (.envelope e))
  | .error e :: _, _, _ => Eff.fail (.failed e)
  | .ok bytes :: rest, reader, partials =>
    match reader.feed ctx.primitives (ctx.receiver now trust) bytes with
    | (.error e, _) => pure (refusedFeed trust e)
    | (.ok events, reader) => do
      match ← ctx.applyAll dir partials events with
      | (some step, _) => return step
      | (none, partials) => takeIn now trust dir rest reader partials

/-- A call on the filesystem. -/
def onStore (m : Eff σ E A) : Eff (Collecting σ B J) E A := fun w =>
  ((m w.store).1, { w with store := (m w.store).2 })

/-- A call on the Brokr. -/
def onBrokr (m : Eff B BrokrError A) : Eff (Collecting σ B J) PassStop A := fun w =>
  ((m w.brokr).1.mapError .failed, { w with brokr := (m w.brokr).2 })

/-- A call on the journal. -/
def onJournal (m : Eff J PlacedError A) : Eff (Collecting σ B J) PassStop A := fun w =>
  ((m w.journal).1.mapError fun e => .failed (.onDevice (.placed e)),
    { w with journal := (m w.journal).2 })

/-- Note what happened. -/
def note (event : Collecting σ B J → CollectEvent σ) : Eff (Collecting σ B J) PassStop Unit :=
  Eff.modify fun w => { w with log := w.log ++ [event w] }

/-- Download a delivery and open it. What an interrupted pass left is removed first, since it would
be written over and not truncated. -/
def attempt (now : UnixTime) (trust : SenderTrust) (id : Text) (dir : RelPath) :
    Eff (Collecting σ B J) PassStop CollectStep := do
  onStore (ctx.removePartial dir)
  note fun _ => .downloading id now trust
  let stream ← onBrokr (ctx.api.download · id)
  onStore (ctx.takeIn now trust dir stream .new ⟨[], none, []⟩)

/-- Tell the Brokr that a delivery may be forgotten. -/
def acknowledge (id : Text) (refused : Option RefusedReason) :
    Eff (Collecting σ B J) PassStop Unit := do
  note fun _ => .acknowledging id refused
  onBrokr (ctx.api.acknowledge · id)

/-- What comes after the downloads of a delivery. -/
def conclude (id : Text) (dir : RelPath) :
    Except PassStop CollectStep → Eff (Collecting σ B J) PassStop (Option RefusedReason)
  | .error .panicked => Eff.fail .panicked
  | .error (.failed e) => do
    onStore (ctx.removePartial dir)
    Eff.fail (.failed e)
  | .ok (.refused why) => do
    onStore (ctx.removePartial dir)
    ctx.acknowledge id (some why)
    return some why
  | .ok (.opened sender placed) => do
    onJournal (PlacedDeliveries.remember ctx.file ctx.json id)
    note fun w => .arrived id sender placed w.store
    onStore (ctx.removePartial dir)
    ctx.acknowledge id none
    onJournal (PlacedDeliveries.forget ctx.file ctx.json id)
    return none
  | .ok (.jwksNeeded _) => Eff.fail (.failed (.malformed "a retry reported a missing key twice"))

/-- The outcome of a second download; keys that are still missing will not verify it. -/
def secondStep : CollectStep → CollectStep
  | .jwksNeeded _ => .refused .keysDoNotVerify
  | step => step

/-- The identifier of a delivery may be a name in the staging directory. -/
def isDeliveryId (id : Text) : Bool :=
  !id.isEmpty && utf8Len id ≤ maxDeliveryIdLen && id.all fun c => (hexDigit c).isSome

/-- Collect one delivery: nothing is answered when it was delivered, and else why it was given up.
It is downloaded once more when keys had to be fetched for it. -/
def collectDelivery (c : Circumstances) (id : Text) :
    Eff (Collecting σ B J) PassStop (Option RefusedReason) :=
  if !isDeliveryId id then pure (some .idNotHex)
  else do
    let dir ← onStore (localPath (".tradr-partial/deferred-".toList ++ id))
    if ← onJournal (PlacedDeliveries.contains ctx.file ctx.json id) then
      onStore (ctx.removePartial dir)
      ctx.acknowledge id none
      onJournal (PlacedDeliveries.forget ctx.file ctx.json id)
      return none
    else
      match ← Eff.attempt (ctx.attempt c.now c.trust id dir) with
      | .ok (.jwksNeeded _) =>
        match c.warm with
        | some e => Eff.fail (.failed (.network ("the provider's keys: " ++ e)))
        | none =>
          let again ← Eff.attempt (ctx.attempt c.laterNow c.laterTrust id dir)
          ctx.conclude id dir (again.map secondStep)
      | first => ctx.conclude id dir first

/-- Collect the deliveries of a listing. -/
def collectEntries (c : ℕ → Circumstances) :
    ℕ → List InboxEntry → CollectReport → Eff (Collecting σ B J) PassStop CollectReport
  | _, [], report => pure report
  | i, entry :: rest, report => do
    match ← ctx.collectDelivery (c i) entry.id with
    | none => collectEntries c (i + 1) rest { report with delivered := report.delivered + 1 }
    | some why =>
      collectEntries c (i + 1) rest { report with refused := report.refused ++ [(entry.id, why)] }

/-- A pass: the deliveries that wait, oldest first. -/
def collectOnce (c : ℕ → Circumstances) : Eff (Collecting σ B J) PassStop CollectReport := do
  let listed ← onBrokr ctx.api.inbox
  let entries := listed.mergeSort fun a b => a.uploadedAt ≤ b.uploadedAt
  onJournal (PlacedDeliveries.retainListed ctx.file ctx.json (entries.map InboxEntry.id))
  ctx.collectEntries c 0 entries ⟨0, []⟩

end CollectContext

end Tradr
