import Tradr.Sanitization
import Tradr.SentDeliveries
import Tradr.StaticPeer

/-!
# The Journal of Sent Deliveries on Disk

The journal is a list in memory and a file beside it. Recording a delivery first drops what is
past retention, then appends the new record, both in memory, and only then writes the whole list
to a temporary file and renames it over the one before. The file is therefore never half
written; but a call whose write fails has already changed the memory.

## Main definitions

* `SentDeliveries.load`: the journal as its file has it.
* `SentJournal.save`, `SentJournal.record`, `SentJournal.updateStates`: the operations on the
  memory and the directory.
* `SentJournal.KeepsRecords`: what recording should leave, whether it succeeds or not.

## Main results

* `SentJournal.save_cases`: a save replaces the file or leaves it alone.
* `SentJournal.keeps_records_iff`: memory and file keep to each other exactly as long as every
  write succeeds.
-/

namespace Tradr

/-! ### The file -/

/-- A record as the file has it. -/
structure SentRecordWire where
  id : Text
  recipientDeviceId : Text
  names : List Text
  sentAt : Int64
  state : Option OutboxState
  collectedAt : Option Int64
  deriving DecidableEq

/-- Records as bytes and back. -/
structure SentRecordsJson where
  fromSlice : List UInt8 → Except String (List SentRecordWire)
  toVecPretty : List SentRecordWire → Except String (List UInt8)

/-- Records are read back as they were written. -/
def SentRecordsJson.RoundTrips (json : SentRecordsJson) : Prop :=
  ∀ wires bytes, json.toVecPretty wires = .ok bytes → json.fromSlice bytes = .ok wires

/-- What is wrong with a file. -/
inductive OutboxMalformed
  | json (e : String)
  | deviceId (e : DeviceIdError)

/-- Why reading or writing the journal failed. -/
inductive OutboxError
  | io (e : String)
  | malformed (what : OutboxMalformed)

/-- An entry of the outbox as the Brokr answers it. -/
structure OutboxEntry where
  id : Text
  recipientDeviceId : Text
  size : UInt64
  uploadedAt : Int64
  state : OutboxState
  collectedAt : Option Int64

/-- An entry with its numbers as they are. -/
def OutboxEntry.toItem (e : OutboxEntry) : OutboxItem :=
  ⟨e.id, e.recipientDeviceId, e.size.toNat, e.uploadedAt.toInt, e.state,
    e.collectedAt.map Int64.toInt⟩

/-- A record as it is written. -/
def SentRecord.toWire (r : SentRecord) : SentRecordWire :=
  ⟨r.id, r.recipientDeviceId.display, r.names, r.sentAt.secs, r.state,
    r.collectedAt.map Int64.ofInt⟩

/-- A record as it is read. -/
def SentRecordWire.toRecord (w : SentRecordWire) : Except OutboxError SentRecord :=
  match DeviceId.fromStr w.recipientDeviceId with
  | .error e => .error (.malformed (.deviceId e))
  | .ok recipientDeviceId =>
    .ok ⟨w.id, recipientDeviceId, w.names, ⟨w.sentAt⟩, w.state, w.collectedAt.map Int64.toInt⟩

namespace SentDeliveries

/-- The name of the journal's file. -/
def deliveriesFile : Text := "deliveries.json".toList

/-- How many names a temporary file is tried under. -/
def maxTempAttempts : ℕ := 100

/-- The records of a file. -/
def readRecords : List SentRecordWire → Except OutboxError (List SentRecord)
  | [] => .ok []
  | w :: ws =>
    match w.toRecord with
    | .error e => .error e
    | .ok r =>
      match readRecords ws with
      | .error e => .error e
      | .ok rs => .ok (r :: rs)

/-- The journal as its file has it; none stands for a file that is not there. -/
def load (json : SentRecordsJson) (read : Except String (Option (List UInt8))) :
    Except OutboxError (List SentRecord) :=
  match read with
  | .error e => .error (.io e)
  | .ok none => .ok []
  | .ok (some bytes) =>
    match json.fromSlice bytes with
    | .error e => .error (.malformed (.json e))
    | .ok wires => readRecords wires

/-- The name of a temporary file beside the journal's. -/
def tempName (pid : ℕ) (count : UInt64) : Text :=
  deliveriesFile ++ (".tmp-".toList ++ (decimal pid ++ '-' :: decimal count.toNat))

end SentDeliveries

/-! ### The journal -/

/-- The journal in memory, the files of its directory by their names, and the counter that
temporary files are named by. -/
structure SentJournal where
  entries : List SentRecord
  files : Text → Option (List UInt8)
  counter : UInt64

/-- What fails during one save: a write fails after some of the bytes, or after all of them
when it is the file that cannot be synced. -/
structure SaveFaults where
  createDirAll : Option String
  openTemp : ℕ → Option String
  write : Option (ℕ × String)
  rename : Option String
  removeFile : Option String

/-- A delivery to record, and the clock when it is. -/
structure NewDelivery where
  id : Text
  recipientDeviceId : DeviceId
  names : List Text
  sentAt : UnixTime
  clock : UnixTime

/-- The record of a new delivery. -/
def NewDelivery.toRecord (d : NewDelivery) : SentRecord :=
  ⟨d.id, d.recipientDeviceId, d.names, d.sentAt, some .waiting, none⟩

/-- The time that old records are measured against. -/
def NewDelivery.nowSecs (d : NewDelivery) : ℤ := max d.sentAt.secs.toInt d.clock.secs.toInt

/-- What happens to a journal. -/
inductive JournalAction
  | record (d : NewDelivery) (faults : SaveFaults)
  | updateStates (outbox : List OutboxEntry) (clock : UnixTime)

namespace SentJournal

open SentDeliveries

/-- Try the next names until one is not taken. -/
def createTempSibling (pid : ℕ) (openTemp : ℕ → Option String)
    (files : Text → Option (List UInt8)) : ℕ → ℕ → UInt64 → Except OutboxError Text × UInt64
  | 0, _, counter => (.error (.io "no fresh temporary file name was free"), counter)
  | left + 1, attempt, counter =>
    match openTemp attempt with
    | some e => (.error (.io e), counter + 1)
    | none =>
      if (files (tempName pid counter)).isSome then
        createTempSibling pid openTemp files left (attempt + 1) (counter + 1)
      else (.ok (tempName pid counter), counter + 1)

/-- Remove a temporary file; that this fails is only printed. -/
def removeTemp (removeFile : Option String) (files : Text → Option (List UInt8)) (temp : Text) :
    Text → Option (List UInt8) :=
  match removeFile with
  | none => Function.update files temp none
  | some _ => files

/-- Write the entries to a temporary file and rename it over the one before. -/
def save (json : SentRecordsJson) (pid : ℕ) (s : SentJournal) (faults : SaveFaults) :
    Except OutboxError Unit × SentJournal :=
  match faults.createDirAll with
  | some e => (.error (.io e), s)
  | none =>
    match json.toVecPretty (s.entries.map SentRecord.toWire) with
    | .error e => (.error (.malformed (.json e)), s)
    | .ok bytes =>
      match createTempSibling pid faults.openTemp s.files maxTempAttempts 0 s.counter with
      | (.error e, counter) => (.error e, { s with counter })
      | (.ok temp, counter) =>
        match faults.write with
        | some (n, e) =>
          let written := Function.update s.files temp (some (bytes.take n))
          (.error (.io e), { s with files := removeTemp faults.removeFile written temp, counter })
        | none =>
          let written := Function.update s.files temp (some bytes)
          match faults.rename with
          | some e =>
            (.error (.io e),
              { s with files := removeTemp faults.removeFile written temp, counter })
          | none =>
            (.ok (), { s with
              files := Function.update (Function.update written temp none) deliveriesFile
                (some bytes)
              counter })

/-- Record a delivery: the memory is changed before anything is written. -/
def record (json : SentRecordsJson) (pid : ℕ) (s : SentJournal) (d : NewDelivery)
    (faults : SaveFaults) : Except OutboxError Unit × SentJournal :=
  save json pid { s with
    entries := SentDeliveries.record s.entries d.id d.recipientDeviceId d.names d.sentAt d.clock }
    faults

/-- Note the states that the Brokr lists, in memory. -/
def updateStates (s : SentJournal) (outbox : List OutboxEntry) (clock : UnixTime) : SentJournal :=
  { s with
    entries := SentDeliveries.updateStates s.entries (outbox.map OutboxEntry.toItem) clock }

/-- One of these, and what it answers. -/
def step (json : SentRecordsJson) (pid : ℕ) (s : SentJournal) :
    JournalAction → Option (Except OutboxError Unit) × SentJournal
  | .record d faults => ((s.record json pid d faults).1, (s.record json pid d faults).2)
  | .updateStates outbox clock => (none, s.updateStates outbox clock)

/-! ### What recording should leave -/

/-- What nothing changes in a record: its delivery, recipient, names and time. -/
def core (r : SentRecord) : Text × DeviceId × List Text × UnixTime :=
  (r.id, r.recipientDeviceId, r.names, r.sentAt)

/-- A delivery was recorded: the file holds what the memory does, the new record and all that
is not past retention are there, and nothing else is. -/
structure Recorded (json : SentRecordsJson) (s s' : SentJournal) (d : NewDelivery) : Prop where
  loads : load json (.ok (s'.files deliveriesFile)) = .ok s'.entries
  present : d.toRecord ∈ s'.entries
  kept : (s.entries.filter (retained d.nowSecs)).Sublist s'.entries
  invented : s'.entries.Sublist (s.entries ++ [d.toRecord])

/-- Neither the memory nor the file changed. -/
def Unchanged (s s' : SentJournal) : Prop :=
  s'.entries = s.entries ∧ s'.files deliveriesFile = s.files deliveriesFile

/-- A record that is answered is recorded, and one that fails changes nothing; an update of
the states changes nothing else. -/
def KeepsRecords (json : SentRecordsJson) (pid : ℕ) (s : SentJournal) : JournalAction → Prop
  | .record d faults =>
    ((s.record json pid d faults).1 = .ok () →
      Recorded json s (s.record json pid d faults).2 d) ∧
    ∀ e, (s.record json pid d faults).1 = .error e →
      Unchanged s (s.record json pid d faults).2
  | .updateStates outbox clock =>
    (s.updateStates outbox clock).entries.map core = s.entries.map core ∧
      (s.updateStates outbox clock).files deliveriesFile = s.files deliveriesFile

/-- A name is found that is not taken, and no file before it fails to be opened in another
way. -/
def FindsName (pid : ℕ) (openTemp : ℕ → Option String) (files : Text → Option (List UInt8))
    (left attempt : ℕ) (counter : UInt64) : Prop :=
  ∃ n < left, (∀ i ≤ n, openTemp (attempt + i) = none) ∧
    (∀ i < n, (files (tempName pid (counter + .ofNat i))).isSome = true) ∧
    files (tempName pid (counter + .ofNat n)) = none

/-- No step of writing the entries fails. -/
structure Writes (json : SentRecordsJson) (pid : ℕ) (s : SentJournal) (faults : SaveFaults) :
    Prop where
  createDirAll : faults.createDirAll = none
  encoded : ∃ bytes, json.toVecPretty (s.entries.map SentRecord.toWire) = .ok bytes
  findsName : FindsName pid faults.openTemp s.files maxTempAttempts 0 s.counter
  write : faults.write = none
  rename : faults.rename = none

/-- The journal as a record call is about to write it. -/
def withRecord (s : SentJournal) (d : NewDelivery) : SentJournal :=
  { s with entries := s.entries.filter (retained d.nowSecs) ++ [d.toRecord] }

/-- The last record is the one to be added, and it alone is past retention. -/
def Repeats (s : SentJournal) (d : NewDelivery) : Prop :=
  ∃ kept, s.entries = kept ++ [d.toRecord] ∧ retained d.nowSecs d.toRecord = false ∧
    ∀ r ∈ kept, retained d.nowSecs r = true

/-- Nothing fails while a record is written, or it takes the place of its like. -/
def WritesRecords (json : SentRecordsJson) (pid : ℕ) (s : SentJournal) : JournalAction → Prop
  | .record d faults => (s.withRecord d).Writes json pid faults ∨ s.Repeats d
  | .updateStates _ _ => True

variable {json : SentRecordsJson} {pid : ℕ} {s : SentJournal} {faults : SaveFaults}

/-! ### Reading back what was written -/

/-- The collection times are ones that the file can hold. -/
def Fits (entries : List SentRecord) : Prop :=
  ∀ r ∈ entries, ∀ ms, r.collectedAt = some ms → ∃ n : Int64, n.toInt = ms

/-- A record is read back as it was written. -/
theorem toRecord_toWire {r : SentRecord}
    (hfits : ∀ ms, r.collectedAt = some ms → ∃ n : Int64, n.toInt = ms) :
    r.toWire.toRecord = .ok r := by
  have hcollected : (r.collectedAt.map Int64.ofInt).map Int64.toInt = r.collectedAt := by
    cases hms : r.collectedAt with
    | none => rfl
    | some ms =>
      obtain ⟨n, rfl⟩ := hfits ms hms
      rw [Option.map_some, Option.map_some, Int64.ofInt_toInt]
  rw [SentRecordWire.toRecord, SentRecord.toWire]
  dsimp only
  rw [DeviceId.fromStr_display, hcollected]

/-- **Records are read back as they were written.** -/
theorem readRecords_toWire {entries : List SentRecord} (hfits : Fits entries) :
    readRecords (entries.map SentRecord.toWire) = .ok entries := by
  induction entries with
  | nil => rfl
  | cons r entries ih =>
    have hrest : Fits entries := fun x hx => hfits x (List.mem_cons_of_mem _ hx)
    rw [List.map_cons, readRecords, toRecord_toWire (hfits r List.mem_cons_self), ih hrest]

/-- The file of some entries is read back as them. -/
theorem load_toVecPretty (hjson : json.RoundTrips) {entries : List SentRecord}
    (hfits : Fits entries) {bytes : List UInt8}
    (hbytes : json.toVecPretty (entries.map SentRecord.toWire) = .ok bytes) :
    load json (.ok (some bytes)) = .ok entries := by
  rw [load, hjson _ _ hbytes]
  exact readRecords_toWire hfits

/-- What is read can be written again. -/
theorem fits_of_readRecords {wires : List SentRecordWire} {entries : List SentRecord}
    (h : readRecords wires = .ok entries) : Fits entries := by
  induction wires generalizing entries with
  | nil =>
    obtain rfl : [] = entries := Except.ok.inj h
    exact fun _ hr => absurd hr List.not_mem_nil
  | cons w wires ih =>
    rw [readRecords] at h
    generalize hr : w.toRecord = r at h
    cases r with
    | error e => cases h
    | ok r =>
      generalize hrs : readRecords wires = rs at h
      cases rs with
      | error e => cases h
      | ok rs =>
        obtain rfl : r :: rs = entries := Except.ok.inj h
        intro x hx ms hms
        rcases List.mem_cons.mp hx with rfl | hx
        · rw [SentRecordWire.toRecord] at hr
          split at hr
          · cases hr
          · obtain rfl := Except.ok.inj hr
            obtain ⟨n, -, hn⟩ := Option.map_eq_some_iff.mp hms
            exact ⟨n, hn⟩
        · exact ih hrs x hx ms hms

/-- A journal that was loaded can be written. -/
theorem fits_of_load {read : Except String (Option (List UInt8))} {entries : List SentRecord}
    (h : load json read = .ok entries) : Fits entries := by
  unfold load at h
  split at h
  · cases h
  · obtain rfl : [] = entries := Except.ok.inj h
    exact fun _ hr => absurd hr List.not_mem_nil
  · split at h
    · cases h
    · exact fits_of_readRecords h

/-! ### One save -/

/-- A temporary file has another name than the journal's. -/
theorem tempName_ne (pid : ℕ) (count : UInt64) : tempName pid count ≠ deliveriesFile := by
  intro h
  have hlen := congrArg List.length h
  rw [tempName, List.length_append, List.length_append] at hlen
  have hmark : (".tmp-".toList : Text).length = 5 := rfl
  omega

/-- A name is found now, or it is found later and this one is taken. -/
theorem findsName_succ {openTemp : ℕ → Option String} {files : Text → Option (List UInt8)}
    {left attempt : ℕ} {counter : UInt64} :
    FindsName pid openTemp files (left + 1) attempt counter ↔
      openTemp attempt = none ∧ (files (tempName pid counter) = none ∨
        (files (tempName pid counter)).isSome = true ∧
          FindsName pid openTemp files left (attempt + 1) (counter + 1)) := by
  have hshift (i : ℕ) : counter + 1 + UInt64.ofNat i = counter + UInt64.ofNat (i + 1) := by
    rw [UInt64.ofNat_add, UInt64.add_assoc, UInt64.add_comm 1]
    rfl
  have hzero : counter + UInt64.ofNat 0 = counter := UInt64.add_zero counter
  constructor
  · rintro ⟨n, hn, hopen, htaken, hfree⟩
    refine ⟨hopen 0 (Nat.zero_le n), ?_⟩
    cases n with
    | zero => exact .inl (by rwa [hzero] at hfree)
    | succ n =>
      refine .inr ⟨by simpa only [hzero] using htaken 0 (Nat.succ_pos n), n, by omega, ?_, ?_, ?_⟩
      · intro i hi
        rw [Nat.add_assoc, Nat.add_comm 1]
        exact hopen (i + 1) (by omega)
      · intro i hi
        rw [hshift]
        exact htaken (i + 1) (by omega)
      · rwa [hshift]
  · rintro ⟨hopen, hfree | ⟨htaken, n, hn, hopens, htakens, hfree⟩⟩
    · refine ⟨0, Nat.succ_pos left, fun i hi => ?_, fun i hi => absurd hi (Nat.not_lt_zero i), ?_⟩
      · obtain rfl := Nat.le_zero.mp hi
        exact hopen
      · rwa [hzero]
    · refine ⟨n + 1, Nat.succ_lt_succ hn, fun i hi => ?_, fun i hi => ?_, ?_⟩
      · cases i with
        | zero => exact hopen
        | succ i =>
          rw [Nat.add_comm i, ← Nat.add_assoc]
          exact hopens i (Nat.le_of_succ_le_succ hi)
      · cases i with
        | zero => rwa [hzero]
        | succ i =>
          rw [← hshift]
          exact htakens i (Nat.lt_of_succ_lt_succ hi)
      · rwa [← hshift]

/-- **A temporary file is created exactly when a name is found for it.** -/
theorem createTempSibling_cases (pid : ℕ) (openTemp : ℕ → Option String)
    (files : Text → Option (List UInt8)) (left attempt : ℕ) (counter : UInt64) :
    (FindsName pid openTemp files left attempt counter ∧
      ∃ count, (createTempSibling pid openTemp files left attempt counter).1 =
        .ok (tempName pid count)) ∨
    (¬FindsName pid openTemp files left attempt counter ∧
      ∃ e, (createTempSibling pid openTemp files left attempt counter).1 = .error e) := by
  induction left generalizing attempt counter with
  | zero =>
    refine .inr ⟨?_, _, rfl⟩
    rintro ⟨n, hn, -⟩
    exact Nat.not_lt_zero n hn
  | succ left ih =>
    rw [findsName_succ, createTempSibling]
    cases hopen : openTemp attempt with
    | some e => exact .inr ⟨by simp, _, rfl⟩
    | none =>
      cases hfile : files (tempName pid counter) with
      | none => exact .inl ⟨by simp, counter, rfl⟩
      | some content =>
        dsimp only
        rw [Option.isSome_some, if_pos rfl]
        simpa using ih (attempt + 1) (counter + 1)

/-- Removing a temporary file that was written leaves the journal's file alone. -/
theorem removeTemp_deliveries (removeFile : Option String) (files : Text → Option (List UInt8))
    (count : UInt64) (content : Option (List UInt8)) :
    removeTemp removeFile (Function.update files (tempName pid count) content)
      (tempName pid count) deliveriesFile = files deliveriesFile := by
  have hne := (tempName_ne pid count).symm
  cases removeFile with
  | none => rw [removeTemp, Function.update_of_ne hne, Function.update_of_ne hne]
  | some e => rw [removeTemp, Function.update_of_ne hne]

/-- **A save replaces the file or leaves it alone**, and the memory in either case. -/
theorem save_cases (json : SentRecordsJson) (pid : ℕ) (s : SentJournal) (faults : SaveFaults) :
    (s.Writes json pid faults ∧ (s.save json pid faults).1 = .ok () ∧
      (s.save json pid faults).2.entries = s.entries ∧
      ∃ bytes, json.toVecPretty (s.entries.map SentRecord.toWire) = .ok bytes ∧
        (s.save json pid faults).2.files deliveriesFile = some bytes) ∨
    (¬s.Writes json pid faults ∧ (∃ e, (s.save json pid faults).1 = .error e) ∧
      (s.save json pid faults).2.entries = s.entries ∧
      (s.save json pid faults).2.files deliveriesFile = s.files deliveriesFile) := by
  unfold save
  cases hdir : faults.createDirAll with
  | some e => exact .inr ⟨fun h => by simp [h.createDirAll] at hdir, ⟨_, rfl⟩, rfl, rfl⟩
  | none =>
    cases hbytes : json.toVecPretty (s.entries.map SentRecord.toWire) with
    | error e =>
      refine .inr ⟨fun h => ?_, ⟨_, rfl⟩, rfl, rfl⟩
      obtain ⟨bytes, hok⟩ := h.encoded
      rw [hok] at hbytes
      cases hbytes
    | ok bytes =>
      have hcreate := createTempSibling_cases pid faults.openTemp s.files maxTempAttempts 0
        s.counter
      dsimp only
      generalize createTempSibling pid faults.openTemp s.files maxTempAttempts 0 s.counter =
        created at hcreate
      obtain ⟨result, counter⟩ := created
      rcases hcreate with ⟨hfinds, count, rfl⟩ | ⟨hfinds, e, rfl⟩
      · dsimp only
        cases hwrite : faults.write with
        | some failed =>
          exact .inr ⟨fun h => by simp [h.write] at hwrite, ⟨_, rfl⟩, rfl,
            removeTemp_deliveries _ _ _ _⟩
        | none =>
          cases hrename : faults.rename with
          | some e =>
            exact .inr ⟨fun h => by simp [h.rename] at hrename, ⟨_, rfl⟩, rfl,
              removeTemp_deliveries _ _ _ _⟩
          | none =>
            refine .inl ⟨⟨hdir, ⟨bytes, hbytes⟩, hfinds, hwrite, hrename⟩, rfl, rfl, bytes, rfl, ?_⟩
            dsimp only
            rw [Function.update_self]
      · exact .inr ⟨fun h => hfinds h.findsName, ⟨_, rfl⟩, rfl, rfl⟩

/-! ### Recording -/

/-- A list loses some of its entries and gets one appended, and is the same as before: then
the last was lost, and came back. -/
theorem filter_append_eq_self {α : Type*} [DecidableEq α] {p : α → Bool} {x : α} {l : List α} :
    l.filter p ++ [x] = l ↔ ∃ kept, l = kept ++ [x] ∧ p x = false ∧ ∀ y ∈ kept, p y = true := by
  constructor
  · intro h
    have hx : p x = false := by
      by_contra hx
      have hcount := congrArg (List.count x) h
      rw [List.count_append, List.count_filter (by simpa using hx), List.count_singleton_self]
        at hcount
      omega
    refine ⟨l.filter p, h.symm, hx, fun y hy => (List.mem_filter.mp hy).2⟩
  · rintro ⟨kept, rfl, hx, hkept⟩
    rw [List.filter_append, List.filter_eq_self.mpr hkept, List.filter_singleton, hx]
    simp

/-- A record call prunes, appends and writes. -/
theorem record_eq_save (json : SentRecordsJson) (pid : ℕ) (s : SentJournal) (d : NewDelivery)
    (faults : SaveFaults) : s.record json pid d faults = (s.withRecord d).save json pid faults :=
  rfl

/-- The entries that are written after a record call fit, where those before it do. -/
theorem Fits.record {d : NewDelivery} (h : Fits s.entries) : Fits (s.withRecord d).entries := by
  intro r hr ms hms
  rcases List.mem_append.mp hr with hr | hr
  · exact h r (List.mem_of_mem_filter hr) ms hms
  · obtain rfl := List.mem_singleton.mp hr
    cases hms

/-- **A record call keeps memory and file to each other exactly when its write succeeds**, or
when there was nothing to change. -/
theorem keepsRecords_record_iff (hjson : json.RoundTrips) (hfits : Fits s.entries)
    (d : NewDelivery) (faults : SaveFaults) :
    s.KeepsRecords json pid (.record d faults) ↔ s.WritesRecords json pid (.record d faults) := by
  simp only [KeepsRecords, WritesRecords, Unchanged, record_eq_save]
  rcases save_cases json pid (s.withRecord d) faults with
      ⟨hwrites, hok, hentries, bytes, hbytes, hfile⟩ | ⟨hfails, ⟨e, herror⟩, hentries, hfile⟩
  · refine iff_of_true ⟨fun _ => ?_, fun e he => ?_⟩ (.inl hwrites)
    · refine ⟨?_, ?_, ?_, ?_⟩
      · rw [hfile, hentries]
        exact load_toVecPretty hjson hfits.record hbytes
      · rw [hentries]
        exact List.mem_append_right _ List.mem_cons_self
      · rw [hentries]
        exact List.sublist_append_left _ _
      · rw [hentries]
        exact List.filter_sublist.append_right _
    · rw [hok] at he
      cases he
  · constructor
    · rintro ⟨-, hkept⟩
      have hsame := (hkept e herror).1
      rw [hentries] at hsame
      exact .inr (filter_append_eq_self.mp hsame)
    · rintro (hwrites | hrepeats)
      · exact absurd hwrites hfails
      · refine ⟨fun hok => ?_, fun _ _ => ⟨?_, hfile⟩⟩
        · rw [herror] at hok
          cases hok
        · rw [hentries]
          exact filter_append_eq_self.mpr hrepeats

/-! ### Updates of the states -/

/-- Noting a state changes nothing else of any record. -/
theorem core_noteStatus (entries : List SentRecord) (status : DeliveryStatus) :
    (noteStatus entries status).map core = entries.map core := by
  induction entries with
  | nil => rfl
  | cons r rest ih =>
    rw [noteStatus]
    split_ifs
    · rfl
    · rw [List.map_cons, List.map_cons, ih]

/-- Noting states changes nothing else of any record. -/
theorem core_foldl_noteStatus (statuses : List DeliveryStatus) (entries : List SentRecord) :
    (statuses.foldl noteStatus entries).map core = entries.map core := by
  induction statuses generalizing entries with
  | nil => rfl
  | cons status statuses ih => rw [List.foldl_cons, ih, core_noteStatus]

/-- A record after a state was noted has the collection time of the state, or its own. -/
theorem mem_noteStatus {entries : List SentRecord} {status : DeliveryStatus} {r : SentRecord}
    (h : r ∈ noteStatus entries status) :
    r ∈ entries ∨ r.collectedAt = status.collectedAt := by
  induction entries with
  | nil => cases h
  | cons x rest ih =>
    rw [noteStatus] at h
    split_ifs at h
    · rcases List.mem_cons.mp h with rfl | h
      · exact .inr rfl
      · exact .inl (List.mem_cons_of_mem _ h)
    · rcases List.mem_cons.mp h with rfl | h
      · exact .inl List.mem_cons_self
      · exact (ih h).imp_left (List.mem_cons_of_mem _)

/-- The collection times of the Brokr fit. -/
theorem statusOf_fits (outbox : List OutboxEntry) (now : UnixTime) (r : SentRecord) {ms : ℤ}
    (h : (statusOf (outbox.map OutboxEntry.toItem) now r).collectedAt = some ms) :
    ∃ n : Int64, n.toInt = ms := by
  unfold statusOf at h
  split at h
  · rename_i e he
    obtain ⟨entry, -, rfl⟩ := List.mem_map.mp (List.mem_of_find?_eq_some he)
    obtain ⟨n, -, hn⟩ := Option.map_eq_some_iff.mp h
    exact ⟨n, hn⟩
  · cases h

/-- What an update of the states leaves can be written. -/
theorem Fits.updateStates {outbox : List OutboxEntry} {clock : UnixTime} (h : Fits s.entries) :
    Fits (s.updateStates outbox clock).entries := by
  have hfold : ∀ (statuses : List DeliveryStatus) (entries : List SentRecord), Fits entries →
      (∀ status ∈ statuses, ∀ ms, status.collectedAt = some ms → ∃ n : Int64, n.toInt = ms) →
      Fits (statuses.foldl noteStatus entries) := by
    intro statuses
    induction statuses with
    | nil => exact fun _ hentries _ => hentries
    | cons status statuses ih =>
      intro entries hentries hstatuses
      refine ih _ (fun r hr ms hms => ?_)
        fun x hx => hstatuses x (List.mem_cons_of_mem _ hx)
      rcases mem_noteStatus hr with hr | hr
      · exact hentries r hr ms hms
      · exact hstatuses status List.mem_cons_self ms (hr ▸ hms)
  refine hfold _ _ h fun status hstatus ms hms => ?_
  obtain ⟨r, -, rfl⟩ := List.mem_map.mp hstatus
  exact statusOf_fits outbox clock r hms

/-! ### Runs -/

/-- **Every action leaves entries that can be written.** -/
theorem fits_step (a : JournalAction) (h : Fits s.entries) :
    Fits (s.step json pid a).2.entries := by
  cases a with
  | updateStates outbox clock => exact h.updateStates
  | record d faults =>
    rw [step, record_eq_save]
    rcases save_cases json pid (s.withRecord d) faults with
        ⟨-, -, hentries, -⟩ | ⟨-, -, hentries, -⟩
    · rw [hentries]
      exact h.record
    · rw [hentries]
      exact h.record

/-- **An action keeps memory and file to each other exactly when its write succeeds.** -/
theorem keepsRecords_iff_writesRecords (hjson : json.RoundTrips) (hfits : Fits s.entries)
    (a : JournalAction) : s.KeepsRecords json pid a ↔ s.WritesRecords json pid a := by
  cases a with
  | record d faults => exact keepsRecords_record_iff hjson hfits d faults
  | updateStates outbox clock =>
    exact iff_of_true ⟨core_foldl_noteStatus _ _, rfl⟩ trivial

/-- **A journal that was loaded never loses or invents a record exactly as long as every
record that it is given is written**: over every run of records, with any times and any steps of
a write failing, and of updates of the states. -/
theorem keeps_records_iff (hjson : json.RoundTrips) (pid : ℕ) {entries : List SentRecord}
    {files : Text → Option (List UInt8)}
    (hload : load json (.ok (files deliveriesFile)) = .ok entries) (counter : UInt64)
    (actions : List JournalAction) :
    Machine.Allows (step json pid) (KeepsRecords json pid) ⟨entries, files, counter⟩ actions ↔
      Machine.Allows (step json pid) (WritesRecords json pid) ⟨entries, files, counter⟩
        actions :=
  Machine.allows_congr (step json pid) (I := fun s => Fits s.entries) (fits_of_load hload)
    (fun _ a _ h => fits_step a h) (fun _ a h => keepsRecords_iff_writesRecords hjson h a)
    (Machine.allows_true (step json pid) _ actions)

/-! ### A record whose write fails -/

/-- A delivery of one file. -/
def oneDelivery : NewDelivery := ⟨['x'], ⟨.replicate 16 0⟩, [['f']], ⟨0⟩, ⟨0⟩⟩

/-- The file with this delivery. -/
def oneContent : List UInt8 :=
  ascii "[\n  \x7b\n    \"id\": \"x\",\n    \"recipient_device_id\": \"" ++ List.replicate 32 48 ++
    ascii "\",\n    \"names\": [\n      \"f\"\n    ],\n    \"sent_at\": 0,\n" ++
    ascii "    \"state\": \"waiting\",\n    \"collected_at\": null\n  \x7d\n]"

/-- How this file is read and written. -/
def oneJson : SentRecordsJson where
  fromSlice bytes :=
    if bytes = oneContent then .ok [oneDelivery.toRecord.toWire] else .error "expected value"
  toVecPretty wires :=
    if wires = [oneDelivery.toRecord.toWire] then .ok oneContent else .error "another journal"

/-- It is read as it was written. -/
theorem oneJson_roundTrips : oneJson.RoundTrips := by
  intro wires bytes h
  unfold oneJson at h ⊢
  dsimp only at h ⊢
  split_ifs at h with hwires
  rw [if_pos (Except.ok.inj h).symm, hwires]

/-- Nothing fails. -/
def noFaults : SaveFaults := ⟨none, fun _ => none, none, none, none⟩

/-- The directory cannot be created. -/
def noDirectory : SaveFaults := { noFaults with createDirAll := some "permission denied" }

/-- The journal of a directory that is not there. -/
def empty : SentJournal := ⟨[], fun _ => none, 0⟩

/-- One record is written, and one update follows. -/
theorem keeps_records_iff_one_record :
    Machine.Allows (step oneJson 1) (KeepsRecords oneJson 1) empty
      [.record oneDelivery noFaults, .updateStates [] ⟨0⟩] := by
  have hwires : (empty.withRecord oneDelivery).entries.map SentRecord.toWire =
      [oneDelivery.toRecord.toWire] := rfl
  have hencoded : oneJson.toVecPretty ((empty.withRecord oneDelivery).entries.map
      SentRecord.toWire) = .ok oneContent := by
    rw [hwires, oneJson]
    dsimp only
    rw [if_pos rfl]
  refine (keeps_records_iff oneJson_roundTrips 1 rfl 0 _).mpr ⟨.inl ?_, trivial, trivial⟩
  exact ⟨rfl, ⟨oneContent, hencoded⟩, ⟨0, by decide, fun _ _ => rfl,
    fun i hi => absurd hi (Nat.not_lt_zero i), rfl⟩, rfl, rfl⟩

/-- **A record whose write failed stays in the journal**: the directory cannot be created, the
caller is told, and the delivery is in memory all the same. -/
theorem failed_record_stays :
    oneJson.RoundTrips ∧ load oneJson (.ok (empty.files deliveriesFile)) = .ok empty.entries ∧
      (empty.record oneJson 1 oneDelivery noDirectory).1 = .error (.io "permission denied") ∧
      (empty.record oneJson 1 oneDelivery noDirectory).2.entries = [oneDelivery.toRecord] ∧
      ¬Machine.Allows (step oneJson 1) (KeepsRecords oneJson 1) empty
        [.record oneDelivery noDirectory] := by
  refine ⟨oneJson_roundTrips, rfl, rfl, rfl, fun h => ?_⟩
  have hunchanged := (h.1.2 _ rfl).1
  cases hunchanged

end SentJournal

end Tradr
