import Tradr.BrowseAccess

/-!
# The Link Registry and Its Stores

A link is kept in two places: its record in the registry's file and its secret in a slot of
the secret store that only the record names. `add` stores the secret first and takes it back
when the file cannot be written; `remove` discards the secret first and takes nothing back.
Every call on the secret store and every step of writing the file may fail, and one that fails
changes nothing.

## Main definitions

* `LinkRegistry.load`: the registry a file holds.
* `LinkStores.add`, `remove`, `setFullAccess`: the operations on the memory, the file and the
  secrets together.
* `LinkStores.Inv`: what holds between the three.

## Main results

* `LinkStores.add_refines`, `remove_refines`, `setFullAccess_refines`: what happens to the
  registry is what `LinkRegistry.add` and its siblings say.
* `LinkStores.inv_step`: every operation keeps the invariant, whatever fails.
* `LinkStores.registry_is_consistent`: the registry, its file and its secrets stay consistent,
  and what is removed stays out of reach.
-/

namespace Tradr

/-! ### Records -/

/-- The shape of a link on disk. -/
structure LinkRecord where
  linkId : Text
  peerIss : String
  peerSub : String
  peerLabel : Option Text
  createdAt : Int64
  fullAccess : Bool
  deriving DecidableEq

/-- The whole file. -/
structure LinkFile where
  links : List LinkRecord
  deriving DecidableEq

namespace LinkStores

/-- An error of the registry, with its texts. -/
inductive RegistryError
  | malformed (reason : String)
  | accountAlreadyLinked
  | duplicateLinkId
  | secretMismatch
  | unknownLink
  | secret (source : String)
  | secretRollbackFailed (persist : RegistryError) (discard : String)
  | io (source : String)
  deriving DecidableEq

end LinkStores

open LinkStores

/-- A link identifier from its hexadecimal digits; there is one way in which this fails. -/
def LinkId.fromStr (s : Text) : Option LinkId := (parseHex linkIdLen s).map LinkId.mk

/-- The slot of a link's secret. -/
def linkSecretSlot (id : LinkId) : Text := "link-".toList ++ hexText id.bytes.val

/-- The record of a link. -/
def Link.toRecord (link : Link) : LinkRecord :=
  ⟨hexText link.linkId.bytes.val, link.peerAccount.iss, link.peerAccount.sub, link.peerLabel,
    link.createdAt.secs, link.fullAccess⟩

/-- The link of a record. -/
def Link.fromRecord (record : LinkRecord) : Except RegistryError Link :=
  match LinkId.fromStr record.linkId with
  | none => .error (.malformed "string is not valid hex of the expected length")
  | some linkId =>
    .ok ⟨linkId, ⟨record.peerIss, record.peerSub⟩, record.peerLabel, ⟨record.createdAt⟩,
      record.fullAccess⟩

namespace LinkRegistry

/-- Read the records of a file after the links that were read before. -/
def loadLinks : List Link → List LinkRecord → Except RegistryError (List Link)
  | links, [] => .ok links
  | links, record :: records =>
    match Link.fromRecord record with
    | .error e => .error e
    | .ok link =>
      if links.any fun l => l.linkId = link.linkId then
        .error (.malformed
          s!"link id {String.ofList (hexText link.linkId.bytes.val)} appears more than once")
      else if links.any fun l => l.peerAccount = link.peerAccount then
        .error (.malformed
          s!"account ({link.peerAccount.iss}, {link.peerAccount.sub}) is linked more than once")
      else loadLinks (links ++ [link]) records

/-- Load the registry from its file; a missing file is an empty registry. -/
def load (readFault : Option String) (file : Option LinkFile) :
    Except RegistryError LinkRegistry :=
  match readFault with
  | some e => .error (.io e)
  | none =>
    match loadLinks [] (file.getD ⟨[]⟩).links with
    | .error e => .error e
    | .ok links => .ok ⟨links⟩

end LinkRegistry

/-- An identifier reads back. -/
@[simp] theorem LinkId.fromStr_hexText (id : LinkId) :
    LinkId.fromStr (hexText id.bytes.val) = some id := by
  rw [LinkId.fromStr, parseHex_hexText]
  rfl

/-- A link reads back. -/
@[simp] theorem Link.fromRecord_toRecord (link : Link) :
    Link.fromRecord link.toRecord = .ok link := by
  unfold Link.fromRecord Link.toRecord
  rw [LinkId.fromStr_hexText]

/-- Different links have different slots. -/
theorem linkSecretSlot_injective : Function.Injective linkSecretSlot := by
  intro a b h
  have htext : hexText a.bytes.val = hexText b.bytes.val := List.append_cancel_left h
  have hid := congrArg LinkId.fromStr htext
  rw [LinkId.fromStr_hexText, LinkId.fromStr_hexText] at hid
  exact Option.some.inj hid

/-- No two links have an identifier or an account in common. -/
structure LinksDistinct (links : List Link) : Prop where
  ids : (links.map Link.linkId).Nodup
  accounts : (links.map Link.peerAccount).Nodup

/-- Links that were read stay distinct. -/
theorem LinksDistinct.concat_iff {links : List Link} {link : Link} :
    LinksDistinct (links ++ [link]) ↔ LinksDistinct links ∧
      (∀ l ∈ links, l.linkId ≠ link.linkId) ∧ ∀ l ∈ links, l.peerAccount ≠ link.peerAccount := by
  have hnodup : ∀ {β : Type} (f : Link → β), ((links ++ [link]).map f).Nodup ↔
      (links.map f).Nodup ∧ ∀ l ∈ links, f l ≠ f link := by
    intro β f
    rw [List.map_append, List.map_singleton, List.nodup_append]
    simp
  constructor
  · rintro ⟨hids, haccounts⟩
    rw [hnodup] at hids haccounts
    exact ⟨⟨hids.1, haccounts.1⟩, hids.2, haccounts.2⟩
  · rintro ⟨⟨hids, haccounts⟩, hid, haccount⟩
    exact ⟨(hnodup _).mpr ⟨hids, hid⟩, (hnodup _).mpr ⟨haccounts, haccount⟩⟩

namespace LinkRegistry

/-- Distinct links read back after others. -/
theorem loadLinks_toRecord {links more : List Link} (h : LinksDistinct (links ++ more)) :
    loadLinks links (more.map Link.toRecord) = .ok (links ++ more) := by
  induction more generalizing links with
  | nil => rw [List.append_nil, List.map_nil, loadLinks]
  | cons link more ih =>
      have hall : LinksDistinct (links ++ [link] ++ more) := by
        rw [List.append_assoc]
        exact h
      have hfront : LinksDistinct (links ++ [link]) := by
        refine ⟨hall.ids.sublist ?_, hall.accounts.sublist ?_⟩
        · exact (List.sublist_append_left _ _).map _
        · exact (List.sublist_append_left _ _).map _
      obtain ⟨-, hid, haccount⟩ := LinksDistinct.concat_iff.mp hfront
      rw [List.map_cons, loadLinks, Link.fromRecord_toRecord]
      dsimp only
      rw [if_neg (by simpa using hid), if_neg (by simpa using haccount), ih hall,
        List.append_assoc]
      rfl

/-- **Distinct links read back** from the file they are written to. -/
theorem load_toRecord {links : List Link} {file : Option LinkFile} (h : LinksDistinct links)
    (hfile : (file.getD ⟨[]⟩).links = links.map Link.toRecord) : load none file = .ok ⟨links⟩ := by
  unfold load
  dsimp only
  rw [hfile, loadLinks_toRecord (by rwa [List.nil_append])]
  rfl

end LinkRegistry

/-! ### Operations -/

/-- Which steps of writing the file fail. -/
structure PersistFaults where
  createDir : Option String
  write : Option String
  rename : Option String

/-- Why the file could not be written; it is replaced whole by the last step. -/
def PersistFaults.error (f : PersistFaults) : Option RegistryError :=
  match f.createDir with
  | some e => some (.io e)
  | none =>
    match f.write with
    | some e => some (.io e)
    | none => f.rename.map .io

/-- Which calls of an `add` fail. -/
structure AddFaults where
  store : Option String
  persist : PersistFaults
  discard : Option String

/-- Which calls of a `remove` fail. -/
structure RemoveFaults where
  discard : Option String
  persist : PersistFaults

/-- The registry in memory, its file and the secret store. -/
structure LinkStores where
  registry : LinkRegistry
  file : Option LinkFile
  secrets : Text → Option (List UInt8)

namespace LinkStores

/-- No file and no link secret; the other slots may hold anything. -/
def start (others : Text → Option (List UInt8)) : LinkStores :=
  ⟨⟨[]⟩, none, fun slot => if "link-".toList.isPrefixOf slot then none else others slot⟩

/-- The registry and its file hold these links. -/
def withLinks (s : LinkStores) (links : List Link) : LinkStores :=
  { s with registry := ⟨links⟩, file := some ⟨links.map Link.toRecord⟩ }

/-- A slot of the secret store holds something else. -/
def withSecret (s : LinkStores) (id : LinkId) (secret : Option (List UInt8)) : LinkStores :=
  { s with secrets := Function.update s.secrets (linkSecretSlot id) secret }

/-- Register a link and its secret: the secret is stored first, and taken back if the file
cannot be written. -/
def add (blake3 : Blake3Kdf) (s : LinkStores) (link : Link) (secret : LinkSecret)
    (faults : AddFaults) : Except RegistryError Unit × LinkStores :=
  if s.registry.links.any fun l => l.peerAccount = link.peerAccount then
    (.error .accountAlreadyLinked, s)
  else if s.registry.links.any fun l => l.linkId = link.linkId then (.error .duplicateLinkId, s)
  else if deriveLinkId blake3 secret ≠ link.linkId then (.error .secretMismatch, s)
  else
    match faults.store with
    | some e => (.error (.secret e), s)
    | none =>
      let stored := s.withSecret link.linkId (some secret.bytes.val)
      match faults.persist.error with
      | some persistErr =>
        match faults.discard with
        | none => (.error persistErr, stored.withSecret link.linkId none)
        | some e => (.error (.secretRollbackFailed persistErr e), stored)
      | none => (.ok (), stored.withLinks (s.registry.links ++ [link]))

/-- Remove a link: its secret is discarded first. -/
def remove (s : LinkStores) (id : LinkId) (faults : RemoveFaults) :
    Except RegistryError Unit × LinkStores :=
  match s.registry.links.findIdx? fun l => l.linkId = id with
  | none => (.error .unknownLink, s)
  | some index =>
    match faults.discard with
    | some e => (.error (.secret e), s)
    | none =>
      let discarded := s.withSecret id none
      match faults.persist.error with
      | some e => (.error e, discarded)
      | none => (.ok (), discarded.withLinks (s.registry.links.eraseIdx index))

/-- Set whether a linked account has full access. -/
def setFullAccess (s : LinkStores) (id : LinkId) (allowed : Bool) (faults : PersistFaults) :
    Except RegistryError Unit × LinkStores :=
  match s.registry.links.findIdx? fun l => l.linkId = id with
  | none => (.error .unknownLink, s)
  | some index =>
    match faults.error with
    | some e => (.error e, s)
    | none =>
      (.ok (), s.withLinks
        (s.registry.links.modify index fun l => { l with fullAccess := allowed }))

/-- The secret of a link. -/
def linkSecret (s : LinkStores) (id : LinkId) (loadFault : Option String) :
    Except RegistryError (Option LinkSecret) :=
  if ¬s.registry.links.any fun l => l.linkId = id then .error .unknownLink
  else
    match loadFault with
    | some e => .error (.secret e)
    | none =>
      match s.secrets (linkSecretSlot id) with
      | none => .ok none
      | some bytes =>
        if h : bytes.length = linkSecretLen then .ok (some ⟨⟨bytes, h⟩⟩)
        else .error (.malformed s!"expected {linkSecretLen} bytes, got {bytes.length}")

/-- What is called on the registry. -/
inductive LinkAction
  | load (readFault : Option String)
  | add (link : Link) (secret : LinkSecret) (faults : AddFaults)
  | remove (id : LinkId) (faults : RemoveFaults)
  | setFullAccess (id : LinkId) (allowed : Bool) (faults : PersistFaults)

/-- What is answered. -/
inductive LinkAnswer
  | loaded (result : Except RegistryError Unit)
  | added (id : LinkId) (result : Except RegistryError Unit)
  | removed (id : LinkId) (result : Except RegistryError Unit)
  | accessSet (id : LinkId) (result : Except RegistryError Unit)

/-- The outcome of an answer. -/
def LinkAnswer.result : LinkAnswer → Except RegistryError Unit
  | .loaded result | .added _ result | .removed _ result | .accessSet _ result => result

/-- One call; a registry that is loaded replaces the one in memory. -/
def step (blake3 : Blake3Kdf) (s : LinkStores) : LinkAction → LinkAnswer × LinkStores
  | .load readFault =>
    match LinkRegistry.load readFault s.file with
    | .error e => (.loaded (.error e), s)
    | .ok registry => (.loaded (.ok ()), { s with registry })
  | .add link secret faults =>
    match s.add blake3 link secret faults with
    | (result, s) => (.added link.linkId result, s)
  | .remove id faults =>
    match s.remove id faults with
    | (result, s) => (.removed id result, s)
  | .setFullAccess id allowed faults =>
    match s.setFullAccess id allowed faults with
    | (result, s) => (.accessSet id result, s)

/-! ### What an operation can do -/

section Cases

variable {blake3 : Blake3Kdf} {s s' : LinkStores} {result : Except RegistryError Unit}

/-- **Adding a link** stores both halves, changes nothing, or leaves a secret it could not take
back. -/
theorem add_cases {link : Link} {secret : LinkSecret} {faults : AddFaults}
    (h : s.add blake3 link secret faults = (result, s')) :
    (∃ e, result = .error e ∧ s' = s) ∨
    ((∀ l ∈ s.registry.links, l.peerAccount ≠ link.peerAccount) ∧
      (∀ l ∈ s.registry.links, l.linkId ≠ link.linkId) ∧ deriveLinkId blake3 secret = link.linkId ∧
      ((result = .ok () ∧ s' = (s.withSecret link.linkId (some secret.bytes.val)).withLinks
          (s.registry.links ++ [link])) ∨
        (∃ e, result = .error e ∧ s' = (s.withSecret link.linkId (some secret.bytes.val)).withSecret
          link.linkId none) ∨
        ∃ e e', result = .error (.secretRollbackFailed e e') ∧
          s' = s.withSecret link.linkId (some secret.bytes.val))) := by
  unfold add at h
  split_ifs at h with haccount hid hderive
  · cases h
    exact .inl ⟨_, rfl, rfl⟩
  · cases h
    exact .inl ⟨_, rfl, rfl⟩
  · cases h
    exact .inl ⟨_, rfl, rfl⟩
  · have haccount' : ∀ l ∈ s.registry.links, l.peerAccount ≠ link.peerAccount := by
      simpa using haccount
    have hid' : ∀ l ∈ s.registry.links, l.linkId ≠ link.linkId := by
      simpa using hid
    rw [not_not] at hderive
    split at h
    · cases h
      exact .inl ⟨_, rfl, rfl⟩
    refine .inr ⟨haccount', hid', hderive, ?_⟩
    dsimp only at h
    split at h
    · split at h
      · cases h
        exact .inr (.inl ⟨_, rfl, rfl⟩)
      · cases h
        exact .inr (.inr ⟨_, _, rfl, rfl⟩)
    · cases h
      exact .inl ⟨rfl, rfl⟩

/-- **Removing a link** removes both halves, changes nothing, or leaves the link without its
secret. -/
theorem remove_cases {id : LinkId} {faults : RemoveFaults}
    (h : s.remove id faults = (result, s')) :
    (∃ e, result = .error e ∧ (s' = s ∨ s' = s.withSecret id none)) ∨
    ∃ before link after, s.registry.links = before ++ link :: after ∧ link.linkId = id ∧
      result = .ok () ∧ s' = (s.withSecret id none).withLinks (before ++ after) := by
  unfold remove at h
  rcases hidx : s.registry.links.findIdx? fun l => l.linkId = id with _ | index
  · rw [hidx] at h
    cases h
    exact .inl ⟨_, rfl, .inl rfl⟩
  · rw [hidx] at h
    dsimp only at h
    split at h
    · cases h
      exact .inl ⟨_, rfl, .inl rfl⟩
    split at h
    · cases h
      exact .inl ⟨_, rfl, .inr rfl⟩
    · cases h
      obtain ⟨hlt, hid, -⟩ := List.findIdx?_eq_some_iff_getElem.mp hidx
      refine .inr ⟨s.registry.links.take index, s.registry.links[index],
        s.registry.links.drop (index + 1), ?_, of_decide_eq_true hid, rfl, ?_⟩
      · rw [List.getElem_cons_drop, List.take_append_drop]
      · rw [List.eraseIdx_eq_take_drop_succ]

/-- **Setting full access** changes nothing, or one flag. -/
theorem setFullAccess_cases {id : LinkId} {allowed : Bool} {faults : PersistFaults}
    (h : s.setFullAccess id allowed faults = (result, s')) :
    (∃ e, result = .error e ∧ s' = s) ∨
    ∃ index, result = .ok () ∧ s' = s.withLinks
      (s.registry.links.modify index fun l => { l with fullAccess := allowed }) := by
  unfold setFullAccess at h
  split at h
  · cases h
    exact .inl ⟨_, rfl, rfl⟩
  split at h
  · cases h
    exact .inl ⟨_, rfl, rfl⟩
  · cases h
    exact .inr ⟨_, rfl, rfl⟩

end Cases

/-- What became of the registry, if the operation succeeded. -/
def outcome : Except RegistryError Unit × LinkStores → Option LinkRegistry
  | (.ok (), s) => some s.registry
  | (.error _, _) => none

section Refines

variable (s : LinkStores)

/-- What `add` does to the registry is what `LinkRegistry.add` says. -/
theorem add_refines (blake3 : Blake3Kdf) (link : Link) (secret : LinkSecret)
    (faults : AddFaults) :
    (s.registry.add blake3 link secret ⟨faults.store.isNone, faults.persist.error.isNone,
      faults.discard.isNone⟩).toOption = outcome (s.add blake3 link secret faults) := by
  unfold LinkRegistry.add add
  rcases faults.store with _ | e
  · rcases faults.persist.error with _ | e
    · split_ifs <;> first | rfl | contradiction
    · rcases faults.discard with _ | e' <;> split_ifs <;> first | rfl | contradiction
  · split_ifs <;> first | rfl | contradiction

/-- What `remove` does to the registry is what `LinkRegistry.remove` says. -/
theorem remove_refines (id : LinkId) (faults : RemoveFaults) (rolledBack : Bool) :
    (s.registry.remove id ⟨faults.discard.isNone, faults.persist.error.isNone,
      rolledBack⟩).toOption = outcome (s.remove id faults) := by
  unfold LinkRegistry.remove remove
  generalize List.findIdx? _ _ = found
  rcases found with _ | index
  · rfl
  dsimp only
  rcases faults.discard with _ | e
  · rcases faults.persist.error with _ | e <;> rfl
  · rfl

/-- What `setFullAccess` does to the registry is what `LinkRegistry.setFullAccess` says. -/
theorem setFullAccess_refines (id : LinkId) (allowed : Bool) (faults : PersistFaults)
    (secret rolledBack : Bool) :
    (s.registry.setFullAccess id allowed ⟨secret, faults.error.isNone, rolledBack⟩).toOption =
      outcome (s.setFullAccess id allowed faults) := by
  unfold LinkRegistry.setFullAccess setFullAccess
  generalize List.findIdx? _ _ = found
  rcases found with _ | index
  · rfl
  dsimp only
  rcases faults.error with _ | e <;> rfl

end Refines

/-! ### The invariant -/

variable {blake3 : Blake3Kdf} {s : LinkStores} {answers : List LinkAnswer}

/-- A secret that could not be taken back was reported. -/
def Reported (answers : List LinkAnswer) (id : LinkId) : Prop :=
  ∃ persist discard, .added id (.error (.secretRollbackFailed persist discard)) ∈ answers

/-- What holds between the memory, the file and the secrets: the links are distinct and are
those of the file, and a link secret derives its identifier and belongs to a link. -/
structure Inv (blake3 : Blake3Kdf) (answers : List LinkAnswer) (s : LinkStores) : Prop where
  distinct : LinksDistinct s.registry.links
  file : (s.file.getD ⟨[]⟩).links = s.registry.links.map Link.toRecord
  secrets : ∀ id bytes, s.secrets (linkSecretSlot id) = some bytes →
    (∃ secret : LinkSecret, secret.bytes.val = bytes ∧ deriveLinkId blake3 secret = id) ∧
      ((∃ l ∈ s.registry.links, l.linkId = id) ∨ Reported answers id)

/-- What was reported stays reported. -/
theorem Reported.append {id : LinkId} (h : Reported answers id) (more : List LinkAnswer) :
    Reported (answers ++ more) id := by
  obtain ⟨persist, discard, hmem⟩ := h
  exact ⟨persist, discard, List.mem_append_left _ hmem⟩

/-- The slot of a link after a change of a slot. -/
theorem withSecret_secrets (s : LinkStores) (id other : LinkId) (secret : Option (List UInt8)) :
    (s.withSecret id secret).secrets (linkSecretSlot other) =
      if other = id then secret else s.secrets (linkSecretSlot other) := by
  unfold withSecret
  dsimp only
  split_ifs with h
  · rw [h, Function.update_self]
  · exact Function.update_of_ne (fun heq => h (linkSecretSlot_injective heq)) _ _

/-- The file that was written loads as the registry in memory. -/
theorem Inv.load_eq (h : s.Inv blake3 answers) : LinkRegistry.load none s.file = .ok s.registry :=
  LinkRegistry.load_toRecord h.distinct h.file

/-- Nothing but the answers went on. -/
theorem Inv.answered (h : s.Inv blake3 answers) (more : List LinkAnswer) :
    s.Inv blake3 (answers ++ more) := by
  refine ⟨h.distinct, h.file, ?_⟩
  intro id bytes hslot
  obtain ⟨hderives, hbelongs⟩ := h.secrets id bytes hslot
  exact ⟨hderives, hbelongs.imp_right fun hr => hr.append more⟩

/-- A secret is discarded. -/
theorem Inv.withSecret_none (h : s.Inv blake3 answers) (id : LinkId) :
    (s.withSecret id none).Inv blake3 answers := by
  refine ⟨h.distinct, h.file, ?_⟩
  intro other bytes hslot
  rw [withSecret_secrets] at hslot
  split_ifs at hslot
  exact h.secrets other bytes hslot

/-- No link secret is there, and no link. -/
theorem inv_start (blake3 : Blake3Kdf) (others : Text → Option (List UInt8)) :
    (start others).Inv blake3 [] := by
  refine ⟨⟨List.nodup_nil, List.nodup_nil⟩, rfl, ?_⟩
  intro id bytes hslot
  have hprefix : "link-".toList.isPrefixOf (linkSecretSlot id) = true :=
    List.isPrefixOf_iff_prefix.mpr (List.prefix_append _ _)
  unfold start at hslot
  dsimp only at hslot
  rw [if_pos hprefix] at hslot
  cases hslot

/-- A link is added, and its secret. -/
theorem inv_add (h : s.Inv blake3 answers) (link : Link) (secret : LinkSecret)
    (faults : AddFaults) :
    (s.add blake3 link secret faults).2.Inv blake3
      (answers ++ [.added link.linkId (s.add blake3 link secret faults).1]) := by
  rcases hadd : s.add blake3 link secret faults with ⟨result, s'⟩
  -- Where the link's own slot was written, the others are as before.
  have hslots : ∀ links : List Link, (∀ l ∈ s.registry.links, l ∈ links) →
      deriveLinkId blake3 secret = link.linkId →
      ((∃ l ∈ links, l.linkId = link.linkId) ∨
        Reported (answers ++ [.added link.linkId result]) link.linkId) →
      ∀ id bytes, (s.withSecret link.linkId (some secret.bytes.val)).secrets (linkSecretSlot id) =
        some bytes →
      (∃ secret : LinkSecret, secret.bytes.val = bytes ∧ deriveLinkId blake3 secret = id) ∧
        ((∃ l ∈ links, l.linkId = id) ∨
          Reported (answers ++ [.added link.linkId result]) id) := by
    intro links hsub hderive hown id bytes hslot
    rw [withSecret_secrets] at hslot
    split_ifs at hslot with heq
    · subst heq
      exact ⟨⟨secret, Option.some.inj hslot, hderive⟩, hown⟩
    · obtain ⟨hderives, hbelongs⟩ := h.secrets id bytes hslot
      refine ⟨hderives, ?_⟩
      rcases hbelongs with ⟨l, hl, hid⟩ | hreported
      · exact .inl ⟨l, hsub l hl, hid⟩
      · exact .inr (hreported.append _)
  rcases add_cases hadd with ⟨e, rfl, rfl⟩ | ⟨haccount, hid, hderive, ⟨rfl, rfl⟩ | ⟨e, rfl, rfl⟩ |
    ⟨e, e', rfl, rfl⟩⟩
  · exact h.answered _
  · refine ⟨LinksDistinct.concat_iff.mpr ⟨h.distinct, hid, haccount⟩, rfl, ?_⟩
    exact hslots _ (fun l hl => List.mem_append_left _ hl) hderive
      (.inl ⟨link, List.mem_append_right _ (List.mem_singleton_self _), rfl⟩)
  · have htwice : (s.withSecret link.linkId (some secret.bytes.val)).withSecret link.linkId none =
        s.withSecret link.linkId none := by
      unfold withSecret
      rw [Function.update_idem]
    rw [htwice]
    exact (h.withSecret_none link.linkId).answered _
  · refine ⟨h.distinct, h.file, ?_⟩
    exact hslots _ (fun l hl => hl) hderive
      (.inr ⟨e, e', List.mem_append_right _ (List.mem_singleton_self _)⟩)

/-- A link is removed, and its secret. -/
theorem inv_remove (h : s.Inv blake3 answers) (id : LinkId) (faults : RemoveFaults) :
    (s.remove id faults).2.Inv blake3 answers := by
  rcases hremove : s.remove id faults with ⟨result, s'⟩
  rcases remove_cases hremove with ⟨e, rfl, rfl | rfl⟩ |
    ⟨before, link, after, hlinks, hid, rfl, rfl⟩
  · exact h
  · exact h.withSecret_none id
  · have hsub : (before ++ after).Sublist s.registry.links := by
      rw [hlinks]
      exact (List.Sublist.refl before).append (List.sublist_cons_self link after)
    refine ⟨⟨h.distinct.ids.sublist (hsub.map _), h.distinct.accounts.sublist (hsub.map _)⟩, rfl,
      ?_⟩
    intro other bytes hslot
    change (s.withSecret id none).secrets (linkSecretSlot other) = some bytes at hslot
    rw [withSecret_secrets] at hslot
    split_ifs at hslot with hne
    obtain ⟨hderives, hbelongs⟩ := h.secrets other bytes hslot
    refine ⟨hderives, hbelongs.imp_left ?_⟩
    rintro ⟨l, hl, hlid⟩
    refine ⟨l, ?_, hlid⟩
    rw [hlinks, List.mem_append, List.mem_cons] at hl
    rcases hl with hl | rfl | hl
    · exact List.mem_append_left _ hl
    · exact absurd (hlid.symm.trans hid) hne
    · exact List.mem_append_right _ hl

/-- Setting a flag leaves everything else of the links. -/
theorem map_modify {β : Type} (f : Link → β) (links : List Link) (index : ℕ) (allowed : Bool)
    (hf : ∀ l, f { l with fullAccess := allowed } = f l) :
    (links.modify index fun l => { l with fullAccess := allowed }).map f = links.map f := by
  induction links generalizing index with
  | nil => rw [List.modify_nil]
  | cons l links ih =>
      cases index with
      | zero => rw [List.modify_zero_cons, List.map_cons, List.map_cons, hf]
      | succ index => rw [List.modify_succ_cons, List.map_cons, List.map_cons, ih index]

/-- A flag is set. -/
theorem inv_setFullAccess (h : s.Inv blake3 answers) (id : LinkId) (allowed : Bool)
    (faults : PersistFaults) : (s.setFullAccess id allowed faults).2.Inv blake3 answers := by
  rcases hset : s.setFullAccess id allowed faults with ⟨result, s'⟩
  rcases setFullAccess_cases hset with ⟨e, rfl, rfl⟩ | ⟨index, rfl, rfl⟩
  · exact h
  · have hids := map_modify Link.linkId s.registry.links index allowed fun _ => rfl
    have haccounts := map_modify Link.peerAccount s.registry.links index allowed fun _ => rfl
    refine ⟨⟨hids.symm ▸ h.distinct.ids, haccounts.symm ▸ h.distinct.accounts⟩, rfl, ?_⟩
    intro other bytes hslot
    obtain ⟨hderives, hbelongs⟩ := h.secrets other bytes hslot
    refine ⟨hderives, hbelongs.imp_left ?_⟩
    rintro ⟨l, hl, hlid⟩
    have hmem : other ∈ s.registry.links.map Link.linkId := List.mem_map.mpr ⟨l, hl, hlid⟩
    rw [← hids] at hmem
    exact List.mem_map.mp hmem

/-- **Every operation keeps the invariant**, whatever fails. -/
theorem inv_step (h : s.Inv blake3 answers) (a : LinkAction) :
    (s.step blake3 a).2.Inv blake3 (answers ++ [(s.step blake3 a).1]) := by
  cases a with
  | load readFault =>
      unfold step
      dsimp only
      rcases readFault with _ | e
      · rw [h.load_eq]
        exact h.answered _
      · exact h.answered _
  | add link secret faults => exact inv_add h link secret faults
  | remove id faults => exact (inv_remove h id faults).answered _
  | setFullAccess id allowed faults => exact (inv_setFullAccess h id allowed faults).answered _

/-- An operation that fails leaves the links in memory and in the file. -/
theorem links_of_error {a : LinkAction} {e : RegistryError}
    (h : (s.step blake3 a).1.result = .error e) :
    (s.step blake3 a).2.registry = s.registry ∧ (s.step blake3 a).2.file = s.file := by
  cases a with
  | load readFault =>
      unfold step at h ⊢
      dsimp only at h ⊢
      generalize LinkRegistry.load readFault s.file = loaded at h ⊢
      rcases loaded with e | registry
      · exact ⟨rfl, rfl⟩
      · cases h
  | add link secret faults =>
      change (s.add blake3 link secret faults).1 = .error e at h
      change (s.add blake3 link secret faults).2.registry = _ ∧
        (s.add blake3 link secret faults).2.file = _
      rcases hadd : s.add blake3 link secret faults with ⟨result, s'⟩
      rw [hadd] at h
      rcases add_cases hadd with ⟨e, rfl, rfl⟩ | ⟨-, -, -, ⟨rfl, rfl⟩ | ⟨e, rfl, rfl⟩ |
        ⟨e, e', rfl, rfl⟩⟩
      · exact ⟨rfl, rfl⟩
      · cases h
      · exact ⟨rfl, rfl⟩
      · exact ⟨rfl, rfl⟩
  | remove id faults =>
      change (s.remove id faults).1 = .error e at h
      change (s.remove id faults).2.registry = _ ∧ (s.remove id faults).2.file = _
      rcases hremove : s.remove id faults with ⟨result, s'⟩
      rw [hremove] at h
      rcases remove_cases hremove with ⟨e, rfl, rfl | rfl⟩ | ⟨_, _, _, _, _, rfl, rfl⟩
      · exact ⟨rfl, rfl⟩
      · exact ⟨rfl, rfl⟩
      · cases h
  | setFullAccess id allowed faults =>
      change (s.setFullAccess id allowed faults).1 = .error e at h
      change (s.setFullAccess id allowed faults).2.registry = _ ∧
        (s.setFullAccess id allowed faults).2.file = _
      rcases hset : s.setFullAccess id allowed faults with ⟨result, s'⟩
      rw [hset] at h
      rcases setFullAccess_cases hset with ⟨e, rfl, rfl⟩ | ⟨index, rfl, rfl⟩
      · exact ⟨rfl, rfl⟩
      · cases h

/-! ### What was removed -/

/-- A link, its account and its secret are gone. -/
structure Gone (link : Link) (s : LinkStores) : Prop where
  id : ∀ l ∈ s.registry.links, l.linkId ≠ link.linkId
  account : ∀ l ∈ s.registry.links, l.peerAccount ≠ link.peerAccount
  secret : s.secrets (linkSecretSlot link.linkId) = none

/-- What is gone is out of reach. -/
theorem Gone.unreachable {link : Link} (h : Gone link s) :
    link.peerAccount ∉ s.registry.linkedAccounts ∧
      link.peerAccount ∉ s.registry.fullAccessAccounts ∧
      ∀ loadFault, s.linkSecret link.linkId loadFault = .error .unknownLink := by
  refine ⟨?_, ?_, ?_⟩
  · intro hmem
    obtain ⟨l, hl, haccount⟩ := List.mem_map.mp hmem
    exact h.account l hl haccount
  · intro hmem
    obtain ⟨l, hl, haccount⟩ := List.mem_map.mp hmem
    exact h.account l (List.mem_of_mem_filter hl) haccount
  · intro loadFault
    unfold linkSecret
    rw [if_pos]
    simpa using h.id

/-- A link that is removed is gone. -/
theorem gone_remove (h : s.Inv blake3 answers) {id : LinkId} {faults : RemoveFaults}
    (hok : (s.step blake3 (.remove id faults)).1 = .removed id (.ok ())) :
    ∃ link ∈ s.registry.links, link.linkId = id ∧
      Gone link (s.step blake3 (.remove id faults)).2 := by
  change LinkAnswer.removed id (s.remove id faults).1 = _ at hok
  change ∃ link ∈ s.registry.links, link.linkId = id ∧ Gone link (s.remove id faults).2
  rcases hremove : s.remove id faults with ⟨result, s'⟩
  rw [hremove] at hok
  rcases remove_cases hremove with ⟨e, rfl, -⟩ | ⟨before, link, after, hlinks, rfl, rfl, rfl⟩
  · cases hok
  · have hother : ∀ {β : Type} (f : Link → β), (s.registry.links.map f).Nodup →
        ∀ l ∈ before ++ after, f l ≠ f link := by
      intro β f hnodup l hl heq
      rw [hlinks, List.map_append, List.map_cons, List.perm_middle.nodup_iff,
        List.nodup_cons, ← List.map_append] at hnodup
      exact hnodup.1 (List.mem_map.mpr ⟨l, hl, heq⟩)
    refine ⟨link, by rw [hlinks]; simp, rfl, hother _ h.distinct.ids,
      hother _ h.distinct.accounts, ?_⟩
    change (s.withSecret link.linkId none).secrets _ = none
    rw [withSecret_secrets, if_pos rfl]

/-- An action that adds neither the account nor the identifier of a link. -/
def AddsOther (link : Link) : LinkAction → Prop
  | .add added _ _ => added.linkId ≠ link.linkId ∧ added.peerAccount ≠ link.peerAccount
  | _ => True

/-- What is gone stays gone. -/
theorem Gone.step {link : Link} (h : s.Inv blake3 answers) (hgone : Gone link s) {a : LinkAction}
    (ha : AddsOther link a) : Gone link (s.step blake3 a).2 := by
  have hnone : ∀ id, (s.withSecret id none).secrets (linkSecretSlot link.linkId) = none := by
    intro id
    rw [withSecret_secrets]
    split_ifs
    · rfl
    · exact hgone.secret
  cases a with
  | load readFault =>
      unfold LinkStores.step
      dsimp only
      rcases readFault with _ | e
      · rw [h.load_eq]
        exact hgone
      · exact hgone
  | add added secret faults =>
      change Gone link (s.add blake3 added secret faults).2
      obtain ⟨hid, haccount⟩ := ha
      have hkept : (s.withSecret added.linkId (some secret.bytes.val)).secrets
          (linkSecretSlot link.linkId) = none := by
        rw [withSecret_secrets, if_neg (Ne.symm hid)]
        exact hgone.secret
      rcases hadd : s.add blake3 added secret faults with ⟨result, s'⟩
      rcases add_cases hadd with ⟨e, rfl, rfl⟩ | ⟨-, -, -, ⟨rfl, rfl⟩ | ⟨e, rfl, rfl⟩ |
        ⟨e, e', rfl, rfl⟩⟩
      · exact hgone
      · refine ⟨?_, ?_, hkept⟩
        · intro l hl
          rcases List.mem_append.mp hl with hl | hl
          · exact hgone.id l hl
          · rw [List.mem_singleton.mp hl]
            exact hid
        · intro l hl
          rcases List.mem_append.mp hl with hl | hl
          · exact hgone.account l hl
          · rw [List.mem_singleton.mp hl]
            exact haccount
      · refine ⟨hgone.id, hgone.account, ?_⟩
        rw [withSecret_secrets, if_neg (Ne.symm hid)]
        exact hkept
      · exact ⟨hgone.id, hgone.account, hkept⟩
  | remove id faults =>
      change Gone link (s.remove id faults).2
      rcases hremove : s.remove id faults with ⟨result, s'⟩
      rcases remove_cases hremove with ⟨e, rfl, rfl | rfl⟩ |
        ⟨before, removed, after, hlinks, rfl, rfl, rfl⟩
      · exact hgone
      · exact ⟨hgone.id, hgone.account, hnone id⟩
      · have hsub : ∀ l ∈ before ++ after, l ∈ s.registry.links := by
          intro l hl
          rw [hlinks]
          rcases List.mem_append.mp hl with hl | hl
          · exact List.mem_append_left _ hl
          · exact List.mem_append_right _ (List.mem_cons_of_mem _ hl)
        exact ⟨fun l hl => hgone.id l (hsub l hl), fun l hl => hgone.account l (hsub l hl),
          hnone removed.linkId⟩
  | setFullAccess id allowed faults =>
      change Gone link (s.setFullAccess id allowed faults).2
      rcases hset : s.setFullAccess id allowed faults with ⟨result, s'⟩
      rcases setFullAccess_cases hset with ⟨e, rfl, rfl⟩ | ⟨index, rfl, rfl⟩
      · exact hgone
      · have hold : ∀ l ∈ s.registry.links.modify index fun l => { l with fullAccess := allowed },
            ∃ l' ∈ s.registry.links, l'.linkId = l.linkId ∧ l'.peerAccount = l.peerAccount := by
          intro l hl
          have hmem := List.mem_map_of_mem (f := fun l : Link => (l.linkId, l.peerAccount)) hl
          rw [map_modify _ _ _ _ fun _ => rfl] at hmem
          obtain ⟨l', hl', heq⟩ := List.mem_map.mp hmem
          exact ⟨l', hl', congrArg Prod.fst heq, congrArg Prod.snd heq⟩
        refine ⟨?_, ?_, hgone.secret⟩
        · intro l hl
          obtain ⟨l', hl', hid, -⟩ := hold l hl
          rw [← hid]
          exact hgone.id l' hl'
        · intro l hl
          obtain ⟨l', hl', -, haccount⟩ := hold l hl
          rw [← haccount]
          exact hgone.account l' hl'

/-! ### Whole runs -/

/-- What is gone stays gone for a whole run. -/
theorem Gone.run {link : Link} (h : s.Inv blake3 answers) (hgone : Gone link s)
    {later : List LinkAction} (hlater : ∀ a ∈ later, AddsOther link a) :
    Gone link (Machine.run (LinkStores.step blake3) s later).2 := by
  induction later generalizing s answers with
  | nil => exact hgone
  | cons a later ih =>
      refine ih (inv_step h a) (hgone.step h (hlater a List.mem_cons_self)) ?_
      intro b hb
      exact hlater b (List.mem_cons_of_mem _ hb)

/-- **The registry stays consistent under failure.** From no file and no link secret, whatever
calls are made and whichever calls of theirs fail: the links are distinct by identifier and by
account; the file loads as the registry in memory; an operation that fails leaves the links in
memory and on disk; a link secret in the store derives the identifier of its slot and belongs to
a link, unless it was reported that it could not be taken back; and a link that was removed is
out of reach, with its account and its secret, until the account or the identifier is added
again. -/
theorem registry_is_consistent (blake3 : Blake3Kdf) (others : Text → Option (List UInt8))
    (actions : List LinkAction) :
    let answers := (Machine.run (step blake3) (start others) actions).1
    let s := (Machine.run (step blake3) (start others) actions).2
    LinksDistinct s.registry.links ∧
    LinkRegistry.load none s.file = .ok s.registry ∧
    (∀ a e, (s.step blake3 a).1.result = .error e →
      (s.step blake3 a).2.registry = s.registry ∧ (s.step blake3 a).2.file = s.file) ∧
    (∀ id bytes, s.secrets (linkSecretSlot id) = some bytes →
      (∃ secret : LinkSecret, secret.bytes.val = bytes ∧ deriveLinkId blake3 secret = id) ∧
        ((∃ l ∈ s.registry.links, l.linkId = id) ∨ Reported answers id)) ∧
    ∀ id faults, (s.step blake3 (.remove id faults)).1 = .removed id (.ok ()) →
      ∃ link ∈ s.registry.links, link.linkId = id ∧
        ∀ later, (∀ a ∈ later, AddsOther link a) →
          let t := (Machine.run (step blake3) (s.step blake3 (.remove id faults)).2 later).2
          link.peerAccount ∉ t.registry.linkedAccounts ∧
          link.peerAccount ∉ t.registry.fullAccessAccounts ∧
          (∀ loadFault, t.linkSecret id loadFault = .error .unknownLink) ∧
          t.secrets (linkSecretSlot id) = none := by
  intro answers s
  have hinv : s.Inv blake3 answers := Machine.run_invariant (step blake3)
    (I := fun answers s => s.Inv blake3 answers) (inv_start blake3 others)
    (fun _ _ a h => inv_step h a) actions
  refine ⟨hinv.distinct, hinv.load_eq, fun _ _ => links_of_error, hinv.secrets, ?_⟩
  intro id faults hok
  obtain ⟨link, hlink, rfl, hgone⟩ := gone_remove hinv hok
  refine ⟨link, hlink, rfl, ?_⟩
  intro later hlater t
  have hrun : Gone link t := hgone.run (inv_step hinv (.remove link.linkId faults)) hlater
  obtain ⟨haccount, hfull, hsecret⟩ := hrun.unreachable
  exact ⟨haccount, hfull, hsecret, hrun.secret⟩

end LinkStores

end Tradr
