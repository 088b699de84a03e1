import Tradr.BrowseDownload
import Tradr.Checked
import Tradr.Protobuf

/-!
# The Range That a Read Sends

A `ReadFile` names its range by two 64-bit numbers. The loop that sends it counts down what remains
in 64 bits and asks the file for at most as much as a `usize` holds of that: on a 32-bit target the
low half. Where that is zero nothing is asked for, and the loop takes this for the end of the file.

## Main definitions

* `ServesFile`: a filesystem on which a file stays as it is, and reads may be short.
* `Browse.handleReadFileOn`: the handler of a `ReadFile` on a target, in checked arithmetic.
* `requestedRange`: the slice that a request names, over unbounded integers.
* `SendsRange`: the handler ends and has sent exactly that.

## Main results

* `Browse.sendContentOn_written`: what the loop sends, whatever the reads are.
* `Browse.handleReadFileOn_eq`: on a 64-bit target this is the handler.
* `sendsRange_iff`: on a 64-bit target the range is always sent, and on a 32-bit one if it is short.
-/

open Fallible

namespace Tradr

/-- The width of the `usize` that the program is built with. -/
inductive Target
  | bits32
  | bits64
  deriving DecidableEq

/-- How many values a `usize` has. -/
def Target.usizeSize : Target → ℕ
  | .bits32 => 2 ^ 32
  | .bits64 => 2 ^ 64

variable {σ H : Type}

/-- A file that stays as it is while it is served. A read gives bytes of it from where it starts, as
many as asked for or fewer, and none only if none was asked for or there are none. -/
structure ServesFile (vfs : Vfs σ H) (path : RelPath) (content : List UInt8) where
  Holds : σ → Prop
  IsOpen : σ → H → Prop
  fits : content.length < UInt64.size
  stat : ∀ s, Holds s → ∃ m, (vfs.stat s path).1 = .ok m ∧ m.kind = .file ∧
    m.sizeBytes = content.length ∧ Holds (vfs.stat s path).2
  openRead : ∀ s, Holds s → ∃ h, (vfs.openRead s path).1 = .ok h ∧
    IsOpen (vfs.openRead s path).2 h
  readAt : ∀ s h off len, IsOpen s h → ∃ n ≤ len, (0 < len → off < content.length → 0 < n) ∧
    (vfs.readAt s h off len).1 = .ok ((content.drop off).take n) ∧
    IsOpen (vfs.readAt s h off len).2 h

namespace Browse

/-- Why a handler did not go through: a failure, or an operation of the machine that panicked. -/
inductive Stop
  | failure (e : BrowseFailure)
  | panicked
  deriving DecidableEq

/-- A computation of the handler. -/
def handling {A : Type} (m : Eff (World σ) BrowseFailure A) : Eff (World σ) Stop A :=
  m.mapError .failure

/-- The value of an operation of the machine. -/
def checked {A : Type} : Option A → Eff (World σ) Stop A
  | some a => pure a
  | none => Eff.fail .panicked

variable (ctx : BrowseContext σ H)

/-- Send the bytes of an open file from `offset` on, in so many rounds. -/
def sendContentOn (target : Target) (reader : H) : ℕ → ℕ → ℕ → Eff (World σ) Stop Unit
  | 0, _, _ => Eff.fail (.failure .exhausted)
  | rounds + 1, offset, remaining =>
    if remaining > 0 then do
      let toRead := min (remaining % target.usizeSize) ioChunkSize
      let bytes ← handling (Eff.mapError (fun _ => .stream (.io .other))
        (call (ctx.vfs.readAt · reader offset toRead)))
      if bytes = [] then pure ()
      else
        handling (writeAll bytes)
        let offset ← checked (Checked.add UInt64.size offset bytes.length)
        let remaining ← checked (Checked.sub remaining bytes.length)
        sendContentOn target reader rounds offset remaining
    else pure ()

/-- Serve a `ReadFile` on a target. -/
def handleReadFileOn (target : Target) (rounds : ℕ) (req : ReadFile) :
    Eff (World σ) Stop Unit := do
  let metadata ← handling (refusing (call (ctx.vfs.stat · req.path)))
  if metadata.kind ≠ .file then Eff.fail (.failure (.refused .wrongKind))
  else
    let reader ← handling (refusing (call (ctx.vfs.openRead · req.path)))
    let remaining := bytesToRead req metadata.sizeBytes
    handling (respond ctx (.readFileBegin ⟨metadata.sizeBytes, .zeroes, 64 * 1024⟩))
    sendContentOn ctx target reader rounds req.offset.toNat remaining
    handling finish

end Browse

/-! ### The range -/

/-- Where the range of a request ends: a length of zero asks for all. -/
def rangeEnd (req : ReadFile) (size : ℕ) : ℕ :=
  if req.length = 0 then size else min (req.offset.toNat + req.length.toNat) size

/-- The slice that a request names. -/
def requestedRange (req : ReadFile) (content : List UInt8) : List UInt8 :=
  (content.take (rangeEnd req content.length)).drop req.offset.toNat

/-- The end of the range saturates, at the size of the file: it is of the largest size, and the
request goes past it. -/
def Saturates (req : ReadFile) (size : ℕ) : Prop :=
  req.length ≠ 0 ∧ size = UInt64.size - 1 ∧ UInt64.size ≤ req.offset.toNat + req.length.toNat

instance (req : ReadFile) (size : ℕ) : Decidable (Saturates req size) :=
  inferInstanceAs (Decidable (_ ∧ _ ∧ _))

/-- **A read sends exactly the requested range**: in any number of rounds that is large enough the
handler ends, no operation of the machine panics, and after its announcement it sent the slice. -/
def SendsRange (ctx : Browse.BrowseContext σ H) (target : Target) (req : ReadFile)
    (content frame : List UInt8) (w : Browse.World σ) : Prop :=
  ∃ enough, ∀ rounds ≥ enough, ∃ w',
    Browse.handleReadFileOn ctx target rounds req w = (.ok (), w') ∧
      w'.send.written = w.send.written ++ frame ++ requestedRange req content

/-- The slice is a front part of what the file holds from the offset on. -/
theorem requestedRange_eq (req : ReadFile) (content : List UInt8) :
    requestedRange req content = (content.drop req.offset.toNat).take
      (rangeEnd req content.length - req.offset.toNat) := by
  rw [requestedRange, List.drop_take]

/-- What a request asks for is a number of 64 bits. -/
theorem bytesToRead_lt (req : ReadFile) {size : ℕ} (h : size < UInt64.size) :
    Browse.bytesToRead req size < UInt64.size := by
  unfold Browse.bytesToRead
  split_ifs
  · omega
  · exact req.length.toNat_lt

/-- What a request asks for is the length of its range, except where the end saturates. -/
theorem bytesToRead_eq (req : ReadFile) {size : ℕ} (h : size < UInt64.size) :
    Browse.bytesToRead req size =
      if Saturates req size then req.length.toNat
      else rangeEnd req size - req.offset.toNat := by
  unfold Browse.bytesToRead rangeEnd
  have hoffset := req.offset.toNat_lt
  have hsize : UInt64.size = 2 ^ 64 := rfl
  by_cases hsat : Saturates req size
  · obtain ⟨hzero, hlargest, hover⟩ := hsat
    have hnot : ¬(req.length = 0 ∨
        min (req.offset.toNat + req.length.toNat) (UInt64.size - 1) > size) := by
      rintro (hnil | hgt)
      · exact hzero hnil
      · omega
    rw [if_neg hnot, if_pos ⟨hzero, hlargest, hover⟩]
  rw [if_neg hsat]
  by_cases hzero : req.length = 0
  · rw [if_pos (.inl hzero), if_pos hzero]
  rw [if_neg hzero]
  by_cases hover : min (req.offset.toNat + req.length.toNat) (UInt64.size - 1) > size
  · rw [if_pos (.inr hover)]
    omega
  · rw [if_neg (not_or.mpr ⟨hzero, hover⟩)]
    have hle : req.offset.toNat + req.length.toNat ≤ size := by
      by_contra hlt
      exact hsat ⟨hzero, by omega, by omega⟩
    omega

/-- What a request asks for is the range, and maybe bytes past the end of the file. -/
theorem take_bytesToRead (req : ReadFile) {content : List UInt8}
    (h : content.length < UInt64.size) :
    (content.drop req.offset.toNat).take (Browse.bytesToRead req content.length) =
      requestedRange req content := by
  rw [requestedRange_eq, bytesToRead_eq req h]
  split_ifs with hsat
  · obtain ⟨hzero, hsize, hover⟩ := hsat
    rw [rangeEnd, if_neg hzero, List.take_eq_take_iff, List.length_drop]
    omega
  · rfl

/-! ### The loop -/

namespace Browse

variable {ctx : BrowseContext σ H} {path : RelPath} {content : List UInt8}

/-- A computation that answers. -/
theorem handling_of_ok {A : Type} {m : Eff (World σ) BrowseFailure A} {w w' : World σ} {a : A}
    (h : m w = (.ok a, w')) : handling m w = (.ok a, w') := by
  unfold handling Eff.mapError
  rw [h]
  rfl

/-- A computation that fails. -/
theorem handling_of_error {A : Type} {m : Eff (World σ) BrowseFailure A} {w w' : World σ}
    {e : BrowseFailure} (h : m w = (.error e, w')) :
    handling m w = (.error (.failure e), w') := by
  unfold handling Eff.mapError
  rw [h]
  rfl

/-- A sequence whose first part answers. -/
theorem handling_bind_of_ok {A B : Type} {m : Eff (World σ) BrowseFailure A}
    {f : A → Eff (World σ) BrowseFailure B} {w w' : World σ} {a : A} (h : m w = (.ok a, w')) :
    handling (m >>= f) w = handling (f a) w' := by
  unfold handling Eff.mapError
  rw [Eff.bind_of_ok h]

/-- A sequence whose first part fails. -/
theorem handling_bind_of_error {A B : Type} {m : Eff (World σ) BrowseFailure A}
    {f : A → Eff (World σ) BrowseFailure B} {w w' : World σ} {e : BrowseFailure}
    (h : m w = (.error e, w')) : handling (m >>= f) w = (.error (.failure e), w') := by
  unfold handling Eff.mapError
  rw [Eff.bind_of_error h]
  rfl

/-- A call on the filesystem boundary that answers. -/
theorem refusing_of_ok {A : Type} {op : σ → Except VfsError A × σ} {w : World σ} {a : A}
    (h : (op w.store).1 = .ok a) :
    refusing (call op) w = (.ok a, { w with store := (op w.store).2 }) := by
  unfold refusing Eff.mapError call
  rw [h]
  rfl

/-- A stream that takes whatever is written to it. -/
def TakesAll (send : SendStream) : Prop := send.finished = false ∧ send.faults = []

/-- A write to a stream that takes everything. -/
theorem writeAll_of_takesAll {w : World σ} (h : TakesAll w.send) (bytes : List UInt8) :
    writeAll bytes w =
      (.ok (), { w with send := { w.send with written := w.send.written ++ bytes } }) := by
  unfold writeAll SendStream.writeAll SendStream.nextFault
  rw [h.1, h.2]
  rfl

/-- And so it can be closed. -/
theorem finish_of_takesAll {w : World σ} (h : TakesAll w.send) :
    finish w = (.ok (), { w with send := { w.send with finished := true } }) := by
  unfold finish SendStream.finish SendStream.nextFault
  rw [h.1, h.2]
  rfl

/-- What a `usize` holds of a difference. -/
theorem sub_mod_of_le {n k size : ℕ} (h : k ≤ n % size) : (n - k) % size = n % size - k := by
  have hdiv := Nat.div_add_mod n size
  rcases Nat.eq_zero_or_pos size with rfl | hpos
  · simp
  · have hlt := Nat.mod_lt n hpos
    have hsplit : n - k = n % size - k + size * (n / size) := by omega
    rw [hsplit, Nat.add_mul_mod_self_left, Nat.mod_eq_of_lt (by omega)]

/-- One read of the loop: bytes of the file from the offset on, and none only where none was asked
for or there are none. -/
theorem read_of_servesFile (F : ServesFile ctx.vfs path content) {w : World σ} {reader : H}
    (hopen : F.IsOpen w.store reader) (offset len : ℕ) :
    ∃ bytes s, handling (Eff.mapError (fun _ => BrowseFailure.stream (.io .other))
        (call (ctx.vfs.readAt · reader offset len))) w = (.ok bytes, { w with store := s }) ∧
      F.IsOpen s reader ∧ bytes = (content.drop offset).take bytes.length ∧ bytes.length ≤ len ∧
      (bytes = [] → len = 0 ∨ content.length ≤ offset) := by
  obtain ⟨n, hn, hpos, hread, hopen'⟩ := F.readAt w.store reader offset len hopen
  refine ⟨(content.drop offset).take n, _, ?_, hopen', ?_, ?_, ?_⟩
  · unfold handling Eff.mapError call
    dsimp only
    rw [hread]
    rfl
  · rw [List.take_eq_take_iff, List.length_take]
    omega
  · rw [List.length_take]
    omega
  · intro hnil
    by_contra hnot
    obtain ⟨hlen, hoff⟩ := not_or.mp hnot
    have hzero := congrArg List.length hnil
    rw [List.length_take, List.length_drop, List.length_nil] at hzero
    have hn' := hpos (Nat.pos_of_ne_zero hlen) (Nat.lt_of_not_le hoff)
    omega

/-- **What the loop sends**: of what the file holds from the offset on, as much as a `usize` holds of
what remains. It ends, and neither its sum nor its difference overflows. -/
theorem sendContentOn_written (F : ServesFile ctx.vfs path content) (target : Target) (reader : H)
    (rounds offset remaining : ℕ) (w : World σ) (hopen : F.IsOpen w.store reader)
    (hsend : TakesAll w.send) (hrounds : remaining < rounds) :
    ∃ s, F.IsOpen s reader ∧ sendContentOn ctx target reader rounds offset remaining w =
      (.ok (), { w with
        store := s
        send := { w.send with
          written := w.send.written ++
            (content.drop offset).take (remaining % target.usizeSize) } }) := by
  induction rounds generalizing offset remaining w with
  | zero => exact absurd hrounds (Nat.not_lt_zero _)
  | succ rounds ih =>
    rw [sendContentOn]
    split_ifs with hpos
    swap
    · have hzero : remaining = 0 := by omega
      refine ⟨w.store, hopen, ?_⟩
      rw [hzero, Nat.zero_mod, List.take_zero, List.append_nil]
      rfl
    obtain ⟨bytes, s, hread, hopen', hbytes, hle, hnone⟩ := read_of_servesFile F hopen offset
      (min (remaining % target.usizeSize) ioChunkSize)
    dsimp only
    rw [Eff.bind_of_ok hread]
    split_ifs with hnil
    · -- Nothing was read: the file ends here, or nothing was asked for.
      have hsent : (content.drop offset).take (remaining % target.usizeSize) = [] := by
        rcases hnone hnil with hzero | hend
        · have hchunk : 0 < ioChunkSize := by decide
          have hmod : remaining % target.usizeSize = 0 := by omega
          rw [hmod, List.take_zero]
        · rw [List.drop_of_length_le hend, List.take_nil]
      refine ⟨s, hopen', ?_⟩
      rw [hsent, List.append_nil]
      rfl
    have hsome : 0 < bytes.length := List.length_pos_iff.mpr hnil
    have hmod : bytes.length ≤ remaining % target.usizeSize := hle.trans (Nat.min_le_left _ _)
    have hremaining : bytes.length ≤ remaining := hmod.trans (Nat.mod_le _ _)
    have hinside : offset + bytes.length ≤ content.length := by
      have hlen := congrArg List.length hbytes
      rw [List.length_take, List.length_drop] at hlen
      omega
    have hfits := F.fits
    rw [Eff.bind_of_ok (handling_of_ok (writeAll_of_takesAll (w := { w with store := s }) hsend
      bytes)), Checked.add_of_lt (by omega), Checked.sub_of_le hremaining]
    obtain ⟨s', hopen'', hrest⟩ := ih (offset + bytes.length) (remaining - bytes.length)
      { w with
        store := s
        send := { w.send with written := w.send.written ++ bytes } } hopen' hsend (by omega)
    refine ⟨s', hopen'', hrest.trans ?_⟩
    have hsplit : bytes ++ (content.drop (offset + bytes.length)).take
        ((remaining - bytes.length) % target.usizeSize) =
        (content.drop offset).take (remaining % target.usizeSize) := by
      rw [sub_mod_of_le hmod, ← List.drop_drop]
      conv_lhs => lhs; rw [hbytes]
      rw [← List.take_add, Nat.add_sub_cancel' hmod]
    dsimp only
    rw [List.append_assoc, hsplit]

/-- **What the handler sends**: its announcement, and what the loop sends of the file. -/
theorem handleReadFileOn_written {req : ReadFile} (F : ServesFile ctx.vfs req.path content)
    (target : Target) {w : World σ} {frame : List UInt8} (hstore : F.Holds w.store)
    (hsend : TakesAll w.send)
    (hframe : ctx.codec.encodeFrame (.readFileBegin ⟨content.length, .zeroes, 64 * 1024⟩)
      ctx.maxFrameSize = .ok frame) {rounds : ℕ}
    (hrounds : bytesToRead req content.length < rounds) :
    ∃ w', handleReadFileOn ctx target rounds req w = (.ok (), w') ∧
      w'.send.written = w.send.written ++ frame ++ (content.drop req.offset.toNat).take
        (bytesToRead req content.length % target.usizeSize) := by
  obtain ⟨m, hstat, hkind, hsize, hstore'⟩ := F.stat w.store hstore
  obtain ⟨reader, hreader, hopen⟩ := F.openRead _ hstore'
  unfold handleReadFileOn
  rw [Eff.bind_of_ok (handling_of_ok (refusing_of_ok hstat)), if_neg (not_not.mpr hkind),
    Eff.bind_of_ok (handling_of_ok (refusing_of_ok (w := { w with store := _ }) hreader)), hsize]
  have hrespond : ∀ w' : World σ, TakesAll w'.send →
      respond ctx (.readFileBegin ⟨content.length, .zeroes, 64 * 1024⟩) w' =
        (.ok (), { w' with send := { w'.send with written := w'.send.written ++ frame } }) := by
    intro w' htakes
    rw [respond, hframe]
    exact writeAll_of_takesAll htakes frame
  have hannounced := handling_of_ok (hrespond { w with
    store := (ctx.vfs.openRead (ctx.vfs.stat w.store req.path).2 req.path).2 } hsend)
  dsimp only at hannounced ⊢
  rw [Eff.bind_of_ok hannounced]
  obtain ⟨s, -, hloop⟩ := sendContentOn_written F target reader rounds req.offset.toNat
    (bytesToRead req content.length)
    { w with
      store := (ctx.vfs.openRead (ctx.vfs.stat w.store req.path).2 req.path).2
      send := { w.send with written := w.send.written ++ frame } } hopen hsend hrounds
  rw [Eff.bind_of_ok hloop]
  exact ⟨_, handling_of_ok (finish_of_takesAll hsend), rfl⟩

/-- On a 64-bit target the loop is that of the handler. -/
theorem sendContentOn_eq (F : ServesFile ctx.vfs path content) (reader : H)
    (rounds fuel offset remaining : ℕ) (w : World σ) (hopen : F.IsOpen w.store reader)
    (hfuel : remaining ≤ fuel) (hrounds : remaining < rounds) (hfits : remaining < UInt64.size) :
    sendContentOn ctx .bits64 reader rounds offset remaining w =
      handling (sendContent ctx reader fuel offset remaining) w := by
  induction rounds generalizing fuel offset remaining w with
  | zero => exact absurd hrounds (Nat.not_lt_zero _)
  | succ rounds ih =>
    rw [sendContentOn]
    rcases fuel with _ | fuel
    · rw [if_neg (by omega)]
      rfl
    rw [sendContent]
    split_ifs with hpos
    swap
    · rfl
    have hmod : remaining % Target.bits64.usizeSize = remaining := Nat.mod_eq_of_lt hfits
    dsimp only
    rw [hmod]
    obtain ⟨bytes, s, hread, hopen', hbytes, hle, -⟩ := read_of_servesFile F hopen offset
      (min remaining ioChunkSize)
    have hread' : (Eff.mapError (fun _ => BrowseFailure.stream (.io .other))
        (call (ctx.vfs.readAt · reader offset (min remaining ioChunkSize)))) w =
        (.ok bytes, { w with store := s }) := by
      obtain ⟨hfst, hsnd⟩ := Prod.mk.inj hread
      exact Prod.ext (mapError_eq_ok.mp hfst) hsnd
    rw [Eff.bind_of_ok hread, handling_bind_of_ok hread']
    split_ifs with hnil
    · rfl
    have hsome : 0 < bytes.length := List.length_pos_iff.mpr hnil
    have hinside : offset + bytes.length ≤ content.length := by
      have hlen := congrArg List.length hbytes
      rw [List.length_take, List.length_drop] at hlen
      omega
    have hsize := F.fits
    have hremaining : bytes.length ≤ remaining := hle.trans (Nat.min_le_left _ _)
    rw [Checked.add_of_lt (by omega), Checked.sub_of_le hremaining]
    rcases hwrite : writeAll bytes ({ w with store := s } : World σ) with ⟨e | u, w'⟩
    · rw [Eff.bind_of_error (handling_of_error hwrite), handling_bind_of_error hwrite]
    · have hstore : w'.store = s := by
        obtain ⟨-, rfl⟩ := Prod.mk.inj hwrite
        rfl
      rw [Eff.bind_of_ok (handling_of_ok hwrite), handling_bind_of_ok hwrite]
      exact ih fuel (offset + bytes.length) (remaining - bytes.length) w'
        (by rw [hstore]; exact hopen') (by omega) (by omega) (by omega)

/-- **On a 64-bit target this is the handler** of a `ReadFile`. -/
theorem handleReadFileOn_eq {req : ReadFile} (F : ServesFile ctx.vfs req.path content)
    {w : World σ} (hstore : F.Holds w.store) {rounds : ℕ}
    (hrounds : bytesToRead req content.length < rounds) :
    handleReadFileOn ctx .bits64 rounds req w = handling (handleReadFile ctx req) w := by
  obtain ⟨m, hstat, hkind, hsize, hstore'⟩ := F.stat w.store hstore
  obtain ⟨reader, hreader, hopen⟩ := F.openRead _ hstore'
  unfold handleReadFileOn handleReadFile
  have hstat' : refusing (call (ctx.vfs.stat · req.path)) w =
      (.ok m, { w with store := (ctx.vfs.stat w.store req.path).2 }) := refusing_of_ok hstat
  have hreader' : refusing (call (ctx.vfs.openRead · req.path))
      { w with store := (ctx.vfs.stat w.store req.path).2 } =
        (.ok reader, { w with
          store := (ctx.vfs.openRead (ctx.vfs.stat w.store req.path).2 req.path).2 }) :=
    refusing_of_ok (w := { w with store := (ctx.vfs.stat w.store req.path).2 }) hreader
  rw [Eff.bind_of_ok (handling_of_ok hstat'), if_neg (not_not.mpr hkind),
    Eff.bind_of_ok (handling_of_ok hreader'), handling_bind_of_ok hstat',
    if_neg (not_not.mpr hkind), handling_bind_of_ok hreader', hsize]
  dsimp only
  set w₁ : World σ := { w with
    store := (ctx.vfs.openRead (ctx.vfs.stat w.store req.path).2 req.path).2 } with hw₁
  rcases hrespond : respond ctx (.readFileBegin ⟨content.length, .zeroes, 64 * 1024⟩) w₁ with
    ⟨e | u, w₂⟩
  · rw [Eff.bind_of_error (handling_of_error hrespond), handling_bind_of_error hrespond]
  · have hstore₂ : w₂.store = w₁.store := by
      rcases henc : ctx.codec.encodeFrame
        (.readFileBegin ⟨content.length, .zeroes, 64 * 1024⟩) ctx.maxFrameSize with e | enc
      · rw [respond, henc] at hrespond
        cases hrespond
      · rw [respond, henc] at hrespond
        obtain ⟨-, rfl⟩ := Prod.mk.inj hrespond
        rfl
    rw [Eff.bind_of_ok (handling_of_ok hrespond), handling_bind_of_ok hrespond]
    have hloop := sendContentOn_eq F reader rounds (bytesToRead req content.length)
      req.offset.toNat (bytesToRead req content.length) w₂
      (by rw [hstore₂]; exact hopen) le_rfl hrounds (bytesToRead_lt req F.fits)
    rcases hsent : sendContent ctx reader (bytesToRead req content.length) req.offset.toNat
      (bytesToRead req content.length) w₂ with ⟨e | u, w₃⟩
    · rw [Eff.bind_of_error (hloop.trans (handling_of_error hsent)),
        handling_bind_of_error hsent]
    · rw [Eff.bind_of_ok (hloop.trans (handling_of_ok hsent)), handling_bind_of_ok hsent]

end Browse

/-! ### The result -/

variable {ctx : Browse.BrowseContext σ H} {content : List UInt8}

/-- The requested range is sent exactly if a `usize` holds as much of what is asked for. -/
theorem sendsRange_iff_le {req : ReadFile} (F : ServesFile ctx.vfs req.path content)
    {w : Browse.World σ} (hstore : F.Holds w.store) (hsend : Browse.TakesAll w.send)
    {frame : List UInt8} (hframe : ctx.codec.encodeFrame
      (.readFileBegin ⟨content.length, .zeroes, 64 * 1024⟩) ctx.maxFrameSize = .ok frame)
    (target : Target) :
    SendsRange ctx target req content frame w ↔ (requestedRange req content).length ≤
      Browse.bytesToRead req content.length % target.usizeSize := by
  have hsame : (content.drop req.offset.toNat).take
      (Browse.bytesToRead req content.length % target.usizeSize) = requestedRange req content ↔
        (requestedRange req content).length ≤
          Browse.bytesToRead req content.length % target.usizeSize := by
    have hle := Nat.mod_le (Browse.bytesToRead req content.length) target.usizeSize
    rw [← take_bytesToRead req F.fits, List.take_eq_take_iff, List.length_take]
    omega
  rw [← hsame]
  constructor
  · rintro ⟨enough, henough⟩
    obtain ⟨w₁, hw₁, hwritten₁⟩ := henough (max enough (Browse.bytesToRead req content.length + 1))
      (le_max_left _ _)
    obtain ⟨w₂, hw₂, hwritten₂⟩ := Browse.handleReadFileOn_written F target hstore hsend hframe
      (le_max_right enough _)
    obtain rfl : w₁ = w₂ := (Prod.mk.inj (hw₁.symm.trans hw₂)).2
    exact List.append_cancel_left (hwritten₂.symm.trans hwritten₁)
  · intro heq
    refine ⟨Browse.bytesToRead req content.length + 1, fun rounds hrounds => ?_⟩
    obtain ⟨w', hw', hwritten⟩ :=
      Browse.handleReadFileOn_written F target hstore hsend hframe hrounds
    exact ⟨w', hw', by rw [hwritten, heq]⟩

/-- **A 64-bit target always sends the requested range; a 32-bit one sends it exactly if the range is
shorter than 2^32 bytes**, and where the end of the range saturates if the low half of the length
covers it. -/
theorem sendsRange_iff {req : ReadFile} (F : ServesFile ctx.vfs req.path content)
    {w : Browse.World σ} (hstore : F.Holds w.store) (hsend : Browse.TakesAll w.send)
    {frame : List UInt8} (hframe : ctx.codec.encodeFrame
      (.readFileBegin ⟨content.length, .zeroes, 64 * 1024⟩) ctx.maxFrameSize = .ok frame)
    (target : Target) :
    SendsRange ctx target req content frame w ↔ target = .bits64 ∨
      if Saturates req content.length then
        (requestedRange req content).length ≤ req.length.toNat % 2 ^ 32
      else (requestedRange req content).length < 2 ^ 32 := by
  rw [sendsRange_iff_le F hstore hsend hframe]
  have hlt := bytesToRead_lt req F.fits
  have hrange : (requestedRange req content).length ≤ Browse.bytesToRead req content.length := by
    rw [← take_bytesToRead req F.fits]
    exact List.length_take_le _ _
  cases target with
  | bits64 =>
    have hmod : Browse.bytesToRead req content.length % Target.bits64.usizeSize =
        Browse.bytesToRead req content.length := Nat.mod_eq_of_lt hlt
    rw [hmod]
    exact iff_of_true hrange (.inl rfl)
  | bits32 =>
    have hsize : Target.bits32.usizeSize = 2 ^ 32 := rfl
    rw [hsize, bytesToRead_eq req F.fits]
    split_ifs with hsat
    · exact ⟨.inr, fun h => h.resolve_left (fun h => by cases h)⟩
    · have hlength : (requestedRange req content).length =
          rangeEnd req content.length - req.offset.toNat := by
        have hend : rangeEnd req content.length ≤ content.length := by
          unfold rangeEnd
          split_ifs
          · exact le_rfl
          · exact Nat.min_le_right _ _
        rw [requestedRange, List.length_drop, List.length_take, Nat.min_eq_left hend]
      rw [← hlength]
      constructor
      · intro h
        right
        omega
      · rintro (h | h)
        · cases h
        · exact (Nat.mod_eq_of_lt h).ge

namespace ReadRangeSample

/-- The protobuf layer, which announces a size of any length. -/
def proto : BrowseProto :=
  { Download.Sample.proto with
    readFileBegin :=
      ⟨fun m => [0x08] ++ Protobuf.varint m.totalSize ++ [0x12, 32] ++ m.contentHash ++
          [0x18, 0x80, 0x80, 0x04], fun _ => none⟩ }

/-- A filesystem with one file, which is read a byte at a time. -/
def bytewise (content : List UInt8) : Vfs Unit Unit where
  list s _ := (.error .wrongKind, s)
  stat s _ := (.ok ⟨.file, content.length, 0⟩, s)
  openRead s _ := (.ok (), s)
  readAt s _ off len := (.ok ((content.drop off).take (min len 1)), s)
  createDir s _ := (.error .readOnly, s)
  openWrite s _ := (.error .readOnly, s)
  writeAt s _ _ _ := (.error .readOnly, s)
  sync s _ := (.error .readOnly, s)
  rename s _ _ := (.error .readOnly, s)
  renameNoReplace s _ _ := (.error .readOnly, s)
  remove s _ := (.error .readOnly, s)

/-- Its file stays as it is. -/
def served {content : List UInt8} (h : content.length < UInt64.size) (path : RelPath) :
    ServesFile (bytewise content) path content where
  Holds _ := True
  IsOpen _ _ := True
  fits := h
  stat _ _ := ⟨_, rfl, rfl, rfl, trivial⟩
  openRead _ _ := ⟨(), rfl, trivial⟩
  readAt _ _ _ len _ := ⟨min len 1, Nat.min_le_left _ _, fun hlen _ => by omega, rfl, trivial⟩

/-- The handler on this filesystem. -/
def context (content : List UInt8) : Browse.BrowseContext Unit Unit :=
  ⟨⟨proto, 512⟩, bytewise content, 512, 4⟩

/-- The stream of the request. -/
def world : Browse.World Unit :=
  ⟨(), [], .fresh, [], ⟨⟨[], none⟩, []⟩⟩

/-- Ask for the bytes from an offset on. -/
def request (offset length : UInt64) : ReadFile :=
  ⟨Download.Sample.shareId, Download.Sample.path, offset, length⟩

/-- The announcement of a file of three bytes. -/
def frameOfThree : List UInt8 :=
  [0, 0, 0, 41, 0x45, 0x08, 3, 0x12, 32] ++ List.replicate 32 0 ++ [0x18, 0x80, 0x80, 0x04]

/-- The announcement of 2^32 bytes. -/
def frameOfMany : List UInt8 :=
  [0, 0, 0, 45, 0x45, 0x08, 0x80, 0x80, 0x80, 0x80, 16, 0x12, 32] ++ List.replicate 32 0 ++
    [0x18, 0x80, 0x80, 0x04]

/-- A read of two of three bytes on a 32-bit target. -/
theorem sendsRange_iff_two :
    SendsRange (context [1, 2, 3]) .bits32 (request 1 2) [1, 2, 3] frameOfThree world :=
  (sendsRange_iff (served (by decide) (request 1 2).path) trivial ⟨rfl, rfl⟩ (by decide +kernel)
    .bits32).mpr (.inr (by decide +kernel))

/-- The frame that announces a file of 2^32 bytes. -/
theorem encodeFrame_many {content : List UInt8} (h : content.length = 2 ^ 32) :
    (context content).codec.encodeFrame
      (.readFileBegin ⟨content.length, .zeroes, 64 * 1024⟩) (context content).maxFrameSize =
      .ok frameOfMany := by
  rw [h]
  change (ProtoBrowseCodec.mk proto 512).encodeFrame
    (.readFileBegin ⟨2 ^ 32, .zeroes, 64 * 1024⟩) 512 = .ok frameOfMany
  decide +kernel

/-- **All of a file of 2^32 bytes is none of it** on a 32-bit target. -/
theorem read_of_many_bytes_sends_nothing :
    ¬SendsRange (context (List.replicate (2 ^ 32) 7)) .bits32 (request 0 0)
      (List.replicate (2 ^ 32) 7) frameOfMany world := by
  have hlength : (List.replicate (2 ^ 32) (7 : UInt8)).length = 2 ^ 32 := List.length_replicate
  generalize List.replicate (2 ^ 32) (7 : UInt8) = content at hlength ⊢
  have hsize : content.length < UInt64.size := by
    rw [hlength]
    decide
  rw [sendsRange_iff_le (served hsize (request 0 0).path) trivial ⟨rfl, rfl⟩
    (encodeFrame_many hlength)]
  have hsat : ¬Saturates (request 0 0) content.length := fun h => h.1 rfl
  have hzero : (request 0 0).offset.toNat = 0 := rfl
  have hend : rangeEnd (request 0 0) content.length = 2 ^ 32 := by
    rw [rangeEnd, if_pos (show (request 0 0).length = 0 from rfl), hlength]
  have hall : (requestedRange (request 0 0) content).length = 2 ^ 32 := by
    rw [requestedRange, hend, hzero, List.drop_zero, List.length_take, hlength, Nat.min_self]
  rw [hall, bytesToRead_eq _ hsize, if_neg hsat, hend, hzero]
  decide

end ReadRangeSample

end Tradr
