import Tradr.Checked
import Tradr.EnvelopeIntegrity

/-!
# What a Reader Reports

The events of a reader follow one grammar, whatever bytes it is fed: the manifest, and then for each
item in order the pieces of its content and its verification. The input may end, or turn out to be
wrong, anywhere; what was reported until then is a beginning of this.

## Main definitions

* `Delivers`: events that deliver the first items of a manifest.
* `Reported`, `ReportedAll`: a beginning of what the grammar allows, and all of it.
* `EnvelopeReader.emitted`: what a reader has reported, feed by feed.
* `EnvelopeReader.readAll`: the outcome of all feeds and the finish.
* `EnvelopeReader.feedLoop`: the collecting loop in checked arithmetic, round by round.

## Main results

* `ItemCursor.distribute_delivers`: handing out plaintext follows the grammar.
* `EnvelopeReader.feedInner_conforms`: and so does a feed.
* `EnvelopeReader.feedLoop_eq`: the loop ends, and no difference in it is negative.
* `EnvelopeReader.follows_grammar`: all this for every split of every input.
-/

open BigEndian Fallible

namespace Tradr

/-! ### The grammar -/

/-- The events for an item: its content in pieces, and its verification. -/
def itemEvents (index : ℕ) (pieces : List (List UInt8)) : List ReaderEvent :=
  pieces.map (.itemData index) ++ [.itemVerified index]

/-- Events that deliver the first items of a manifest, each with pieces that have its size and its
content hash together. -/
inductive Delivers (p : Primitives) (items : List EnvelopeItem) : ℕ → List ReaderEvent → Prop
  | none : Delivers p items 0 []
  | item {k : ℕ} {events : List ReaderEvent} {pieces : List (List UInt8)} {item : EnvelopeItem} :
      Delivers p items k events → items[k]? = some item →
      pieces.flatten.length = item.size.toNat →
      (p.blake3.hash pieces.flatten).val = item.contentHash.bytes →
      Delivers p items (k + 1) (events ++ itemEvents k pieces)

/-- A beginning of what the grammar allows: nothing, or the manifest, the first items, and pieces of
the next one that are fewer bytes than it has. -/
def Reported (p : Primitives) (events : List ReaderEvent) : Prop :=
  events = [] ∨ ∃ m k whole pieces,
    events = .manifest m :: (whole ++ pieces.map (.itemData k)) ∧ Delivers p m.items k whole ∧
      (pieces = [] ∨ ∃ item, m.items[k]? = some item ∧ pieces.flatten.length < item.size.toNat)

/-- All that the grammar allows for a manifest. -/
def ReportedAll (p : Primitives) (m : OpenedManifest) (events : List ReaderEvent) : Prop :=
  ∃ whole, events = .manifest m :: whole ∧ Delivers p m.items m.items.length whole

/-! ### Handing out -/

/-- What was handed out so far, and where the cursor is: the items before its own are delivered, and
of its own it has hashed the pieces and lacks the rest. -/
structure HandsOut (p : Primitives) (items : List EnvelopeItem) (whole : List ReaderEvent)
    (pieces : List (List UInt8)) (c : ItemCursor) : Prop where
  delivers : Delivers p items c.current whole
  hashed : c.hasher = pieces.flatten
  sized : pieces.flatten.length + c.currentLeft = sizeAt items c.current
  past : items[c.current]? = none → pieces = []

/-- The events that go with it. -/
def deliveredOf (whole : List ReaderEvent) (pieces : List (List UInt8)) (c : ItemCursor) :
    List ReaderEvent :=
  whole ++ pieces.map (.itemData c.current)

variable {p : Primitives} {receiver : EnvelopeRecipient}

/-- **Handing out plaintext follows the grammar**, and stops where an item lacks bytes or there is no
more. -/
theorem ItemCursor.distribute_delivers {items : List EnvelopeItem} {c c' : ItemCursor}
    {plaintext : List UInt8} {events whole : List ReaderEvent} {pieces : List (List UInt8)}
    (h : HandsOut p items whole pieces c)
    (hd : c.distribute p items plaintext = .ok (events, c')) :
    ∃ whole' pieces', deliveredOf whole pieces c ++ events = deliveredOf whole' pieces' c' ∧
      HandsOut p items whole' pieces' c' ∧
      (items[c'.current]? = none ∨ 0 < c'.currentLeft) := by
  fun_induction ItemCursor.distribute p items c plaintext generalizing events whole pieces with
  | case1 c hnone =>
    obtain ⟨rfl, rfl⟩ := Prod.mk.inj (Except.ok.inj hd)
    exact ⟨whole, pieces, List.append_nil _, h, .inl hnone⟩
  | case2 c plaintext hnone hne => cases hd
  | case3 c plaintext item hsome hzero hhash => cases hd
  | case4 c plaintext item hsome hzero hhash ih =>
    obtain ⟨⟨more, c₁⟩, hmore, hd⟩ := bind_eq_ok.mp hd
    obtain ⟨rfl, rfl⟩ := Prod.mk.inj (Except.ok.inj hd)
    have hsize : sizeAt items c.current = item.size.toNat := by
      rw [sizeAt, hsome]
      rfl
    have hdelivers : Delivers p items (c.current + 1) (whole ++ itemEvents c.current pieces) := by
      refine .item h.delivers hsome ?_ ?_
      · have hsized := h.sized
        omega
      · rw [← h.hashed]
        exact not_not.mp hhash
    have hnext : HandsOut p items (whole ++ itemEvents c.current pieces) []
        ⟨c.current + 1, sizeAt items (c.current + 1), []⟩ :=
      ⟨hdelivers, rfl, Nat.zero_add _, fun _ => rfl⟩
    obtain ⟨whole', pieces', heq, hout, hstop⟩ := ih hnext hmore
    refine ⟨whole', pieces', ?_, hout, hstop⟩
    rw [← heq]
    simp [deliveredOf, itemEvents]
  | case5 c item hsome hleft =>
    obtain ⟨rfl, rfl⟩ := Prod.mk.inj (Except.ok.inj hd)
    exact ⟨whole, pieces, List.append_nil _, h, .inr (Nat.pos_of_ne_zero hleft)⟩
  | case6 c plaintext item hsome hleft hne piece =>
    rename_i ih
    obtain ⟨⟨more, c₁⟩, hmore, hd⟩ := bind_eq_ok.mp hd
    obtain ⟨rfl, rfl⟩ := Prod.mk.inj (Except.ok.inj hd)
    have hpiece : piece.length ≤ c.currentLeft := by
      simp only [piece, List.length_take]
      omega
    have hnext : HandsOut p items whole (pieces ++ [piece])
        ⟨c.current, c.currentLeft - piece.length, c.hasher ++ piece⟩ := {
      delivers := h.delivers
      hashed := by rw [h.hashed, List.flatten_append, List.flatten_singleton]
      sized := by
        have hsized := h.sized
        dsimp only
        rw [List.flatten_append, List.flatten_singleton, List.length_append]
        omega
      past := fun hnone => by
        rw [hsome] at hnone
        cases hnone }
    obtain ⟨whole', pieces', heq, hout, hstop⟩ := ih hnext hmore
    refine ⟨whole', pieces', ?_, hout, hstop⟩
    rw [← heq]
    simp [deliveredOf]

/-! ### Reading -/

namespace EnvelopeReader

/-- A reader that has taken in whole units of so many bytes and reported these events: before the
header it has nothing, and after it the bytes that were taken in and those that remain are what the
header announced. -/
structure Conforms (p : Primitives) (r : EnvelopeReader) (taken : ℕ) (events : List ReaderEvent) :
    Prop where
  counted : match r.header with
    | none => r.stage = .header ∧ taken = 0
    | some header => r.stage ≠ .header ∧ taken + r.remaining = header.totalLen
  body : ∀ manifest len, r.stage = .body manifest len → len ≤ r.remaining
  before : r.manifest = none → events = [] ∧ r.current = 0 ∧ r.hasher = []
  unread : (r.stage = .header ∨ r.stage = .len true ∨ ∃ len, r.stage = .body true len) →
    r.manifest = none
  after : ∀ m, r.manifest = some m → ∃ whole pieces,
    events = .manifest m :: deliveredOf whole pieces r.toItemCursor ∧
      HandsOut p m.items whole pieces r.toItemCursor ∧
      (m.items[r.current]? = none ∨ 0 < r.currentLeft)
  ended : r.stage = .done → r.remaining = 0 ∧ ∃ m, r.manifest = some m ∧
    r.current = m.items.length

/-- A new reader. -/
theorem conforms_new : Conforms p EnvelopeReader.new 0 [] where
  counted := ⟨rfl, rfl⟩
  body := fun _ _ h => by cases h
  before := fun _ => ⟨rfl, rfl, rfl⟩
  unread := fun _ => rfl
  after := fun _ h => by cases h
  ended := fun h => by cases h

/-- What conforms does so with another buffer. -/
theorem Conforms.buf {r : EnvelopeReader} {taken : ℕ} {events : List ReaderEvent}
    (h : Conforms p r taken events) (bytes : List UInt8) :
    Conforms p { r with buf := bytes } taken events :=
  ⟨h.counted, h.body, h.before, h.unread, h.after, h.ended⟩

/-- **Taking in a unit follows the grammar**, and counts its bytes. -/
theorem Conforms.advance {r r' : EnvelopeReader} {taken : ℕ} {events more : List ReaderEvent}
    (h : Conforms p r taken events) {unit : List UInt8} (hunit : need r.stage = some unit.length)
    (hadv : r.advance p receiver unit = .ok (more, r')) :
    Conforms p r' (taken + unit.length) (events ++ more) := by
  have hcounted := h.counted
  unfold EnvelopeReader.advance at hadv
  split at hadv
  · rename_i hstage
    obtain ⟨r₁, hr₁, hadv⟩ := bind_eq_ok.mp hadv
    obtain ⟨header, -, hlen, -, ctx, -, rfl⟩ := readHeader_eq_ok.mp hr₁
    obtain ⟨rfl, rfl⟩ := Prod.mk.inj (Except.ok.inj hadv)
    rw [hstage] at hunit
    have hlength : outerHeaderLen = unit.length := Option.some.inj hunit
    have hzero : taken = 0 := by
      cases hheader : r.header with
      | none =>
        rw [hheader] at hcounted
        exact hcounted.2
      | some _ =>
        rw [hheader] at hcounted
        exact absurd hstage hcounted.1
    rw [List.append_nil]
    exact {
      counted := by
        dsimp only
        exact ⟨fun hs => (by cases hs), by omega⟩
      body := fun _ _ hs => by cases hs
      before := h.before
      unread := fun _ => h.unread (.inl hstage)
      after := h.after
      ended := fun hs => by cases hs }
  · rename_i manifest hstage
    obtain ⟨r₁, hr₁, hadv⟩ := bind_eq_ok.mp hadv
    obtain ⟨hfour, hfits, -, rfl⟩ := readLen_eq_ok.mp hr₁
    obtain ⟨rfl, rfl⟩ := Prod.mk.inj (Except.ok.inj hadv)
    rw [hstage] at hunit
    have hlength : 4 = unit.length := Option.some.inj hunit
    rw [List.append_nil]
    exact {
      counted := by
        dsimp only
        cases hheader : r.header with
        | none =>
          rw [hheader, hstage] at hcounted
          cases hcounted.1
        | some header =>
          rw [hheader] at hcounted
          exact ⟨fun hs => (by cases hs), by omega⟩
      body := fun manifest' len hs => by
        cases hs
        exact hfits
      before := h.before
      unread := by
        rintro (hs | hs | ⟨len, hs⟩)
        · cases hs
        · cases hs
        · cases hs
          exact h.unread (.inr (.inl hstage))
      after := h.after
      ended := fun hs => by cases hs }
  · rename_i manifest len hstage
    rw [hstage] at hunit
    have hlength : len = unit.length := Option.some.inj hunit
    have hbody := h.body manifest len hstage
    have hcounted' : ∀ header, r.header = some header →
        taken + unit.length + (r.remaining - len) = header.totalLen := by
      intro header hheader
      rw [hheader] at hcounted
      have htotal := hcounted.2
      omega
    have hread : r.header ≠ none := by
      intro hheader
      rw [hheader, hstage] at hcounted
      cases hcounted.1
    obtain ⟨header, hheader⟩ := Option.ne_none_iff_exists'.mp hread
    split_ifs at hadv with hmanifest
    · obtain ⟨_, _, ctx, -, json, ctx', -, m, -, hleft, rest, cursor, hd, rfl, rfl⟩ :=
        readManifest_eq_ok.mp hadv
      subst hmanifest
      obtain ⟨rfl, hcurrent, hhasher⟩ := h.before (h.unread (.inr (.inr ⟨len, hstage⟩)))
      have hstart : HandsOut p m.items [] [] ⟨r.current, sizeAt m.items 0, r.hasher⟩ := by
        rw [hcurrent, hhasher]
        exact ⟨.none, rfl, Nat.zero_add _, fun _ => rfl⟩
      obtain ⟨whole, pieces, heq, hout, hstop⟩ := ItemCursor.distribute_delivers hstart hd
      have hrest : rest = deliveredOf whole pieces cursor := heq
      exact {
        counted := by
          dsimp only
          rw [hheader]
          exact ⟨fun hs => (by cases hs), hcounted' header hheader⟩
        body := fun _ _ hs => by cases hs
        before := fun hm => by cases hm
        unread := by
          rintro (hs | hs | ⟨len, hs⟩) <;> cases hs
        after := by
          intro m' hm'
          obtain rfl := Option.some.inj hm'
          exact ⟨whole, pieces, by rw [hrest]; rfl, hout, hstop⟩
        ended := fun hs => by cases hs }
    · obtain ⟨ctx, -, pt, ctx', -, -, m, hm, cursor, hd, hcur, rfl⟩ := readData_eq_ok.mp hadv
      obtain ⟨whole, pieces, hevents, hout, -⟩ := h.after m hm
      obtain ⟨whole', pieces', heq, hout', hstop⟩ := ItemCursor.distribute_delivers hout hd
      exact {
        counted := by
          dsimp only
          rw [hheader]
          refine ⟨fun hs => ?_, hcounted' header hheader⟩
          split_ifs at hs
        body := by
          intro _ _ hs
          dsimp only at hs
          split_ifs at hs
        before := fun hnone => absurd (hm.symm.trans hnone) (Option.some_ne_none m)
        unread := by
          dsimp only
          rintro (hs | hs | ⟨len, hs⟩) <;> split_ifs at hs
          cases hs
        after := by
          intro m' hm'
          obtain rfl := Option.some.inj (hm.symm.trans hm')
          refine ⟨whole', pieces', ?_, hout', hstop⟩
          rw [hevents, List.cons_append, heq]
        ended := by
          intro hs
          dsimp only at hs
          split_ifs at hs with hzero
          exact ⟨hzero, m, hm, hcur.resolve_left (not_not.mpr hzero)⟩ }
  · cases hadv

/-- A buffer that holds less than a unit, or is empty. -/
def Fits (r : EnvelopeReader) : Prop :=
  r.buf = [] ∨ ∃ n, need r.stage = some n ∧ r.buf.length < n

/-- **A feed follows the grammar**: what it reports goes on from what was reported, and the bytes that
were taken in and those in the buffer are all that was fed. -/
theorem feedInner_conforms {r r' : EnvelopeReader} {input : List UInt8} {taken : ℕ}
    {events more : List ReaderEvent} (h : Conforms p r taken events) (hfits : r.Fits)
    (hfeed : r.feedInner p receiver input = .ok (more, r')) :
    ∃ taken', taken' + r'.buf.length = taken + r.buf.length + input.length ∧
      Conforms p r' taken' (events ++ more) ∧ r'.Fits := by
  fun_induction feedInner p receiver r input generalizing taken events more with
  | case1 r hneed =>
    obtain ⟨rfl, rfl⟩ := Prod.mk.inj (Except.ok.inj hfeed)
    exact ⟨taken, rfl, by rwa [List.append_nil], hfits⟩
  | case2 r input hneed hne => cases hfeed
  | case3 r input n hneed take =>
    rename_i unit hshort
    obtain ⟨rfl, rfl⟩ := Prod.mk.inj (Except.ok.inj hfeed)
    have hunit : unit.length = r.buf.length + min (n - r.buf.length) input.length := by
      simp [unit, take]
    refine ⟨taken, ?_, by rw [List.append_nil]; exact h.buf unit, .inr ⟨n, hneed, hshort⟩⟩
    dsimp only
    omega
  | case4 r input n hneed take unit hfull => cases hfeed
  | case5 r input n hneed take unit hfull events₁ r₁ =>
    rename_i hadv ih
    obtain ⟨⟨rest, r₂⟩, hrest, hfeed⟩ := bind_eq_ok.mp hfeed
    obtain ⟨rfl, rfl⟩ := Prod.mk.inj (Except.ok.inj hfeed)
    have hunit : unit.length = r.buf.length + min (n - r.buf.length) input.length := by
      simp [unit, take]
    have hbuf : r.buf.length ≤ n := by
      rcases hfits with hnil | ⟨n', hneed', hlt⟩
      · rw [hnil]
        exact Nat.zero_le n
      · obtain rfl := Option.some.inj (hneed.symm.trans hneed')
        exact hlt.le
    have hwhole : need r.stage = some unit.length := by
      rw [hneed]
      congr 1
      omega
    have hnext := (h.buf []).advance hwhole hadv
    have hempty : r₁.buf = [] := (advance_progress hadv).1
    obtain ⟨taken', hcount, hconforms, hfits'⟩ := ih hnext (.inl hempty) hrest
    refine ⟨taken', ?_, by rwa [List.append_assoc] at hconforms, hfits'⟩
    rw [hcount, hempty, List.length_nil, List.length_drop]
    omega

/-! ### The loop -/

variable (p receiver) in
/-- Take in a complete unit, in checked arithmetic. -/
def advanceChecked (r : EnvelopeReader) (unit : List UInt8) :
    Option (Except EnvelopeError (List ReaderEvent × EnvelopeReader)) :=
  match r.stage with
  | .body _ len => do
    let _ ← Checked.sub r.remaining len
    some (r.advance p receiver unit)
  | _ => some (r.advance p receiver unit)

variable (p receiver) in
/-- The collecting loop, for a number of rounds and in checked arithmetic: no value when a difference
is negative or the rounds are used up. -/
def feedLoop : ℕ → EnvelopeReader → List UInt8 →
    Option (Except EnvelopeError (List ReaderEvent × EnvelopeReader))
  | 0, _, _ => none
  | rounds + 1, r, input =>
    match need r.stage with
    | none => some (if input = [] then .ok ([], r) else .error .trailingBytes)
    | some n => do
      let room ← Checked.sub n r.buf.length
      let unit := r.buf ++ input.take (min room input.length)
      if unit.length < n then some (.ok ([], { r with buf := unit }))
      else
        match ← advanceChecked p receiver { r with buf := [] } unit with
        | .error e => some (.error e)
        | .ok (events, r') =>
          match ← feedLoop rounds r' (input.drop (min room input.length)) with
          | .error e => some (.error e)
          | .ok (more, r'') => some (.ok (events ++ more, r''))

/-- What is taken from the input, and what is left of it. -/
theorem take_drop_min (k : ℕ) (input : List UInt8) :
    input.take (min k input.length) = input.take k ∧
      input.drop (min k input.length) = input.drop k := by
  constructor
  · rw [List.take_eq_take_iff]
    omega
  · rcases Nat.le_total k input.length with h | h
    · rw [Nat.min_eq_left h]
    · rw [Nat.min_eq_right h, List.drop_length, List.drop_of_length_le h]

/-- The body of a record is no longer than what remains. -/
theorem Conforms.advanceChecked_eq {r : EnvelopeReader} {taken : ℕ} {events : List ReaderEvent}
    (h : Conforms p r taken events) (unit : List UInt8) :
    r.advanceChecked p receiver unit = some (r.advance p receiver unit) := by
  cases hstage : r.stage with
  | body manifest len =>
    rw [advanceChecked, hstage]
    dsimp only
    rw [Checked.sub_of_le (h.body manifest len hstage)]
    rfl
  | header => rw [advanceChecked, hstage]
  | len manifest => rw [advanceChecked, hstage]
  | done => rw [advanceChecked, hstage]

/-- What a reader that needs nothing more does. -/
theorem feedInner_of_none {r : EnvelopeReader} (hneed : need r.stage = none)
    (input : List UInt8) :
    r.feedInner p receiver input = if input = [] then .ok ([], r) else .error .trailingBytes := by
  rw [feedInner]
  split
  · rfl
  · rename_i n hn
    cases hneed.symm.trans hn

/-- **The loop ends**, and no difference in it is negative: with enough rounds it is the feed. -/
theorem feedLoop_eq {r : EnvelopeReader} {input : List UInt8} {taken rounds : ℕ}
    {events : List ReaderEvent} (h : Conforms p r taken events) (hfits : r.Fits)
    (hrounds : 2 * (r.buf.length + input.length) + rank r.stage < rounds) :
    feedLoop p receiver rounds r input = some (r.feedInner p receiver input) := by
  induction rounds generalizing r input taken events with
  | zero => exact absurd hrounds (Nat.not_lt_zero _)
  | succ rounds ih =>
    rw [feedLoop]
    cases hneed : need r.stage with
    | none =>
      dsimp only
      rw [feedInner_of_none hneed]
    | some n =>
      have hbuf : r.buf.length ≤ n := by
        rcases hfits with hnil | ⟨n', hneed', hlt⟩
        · rw [hnil]
          exact Nat.zero_le n
        · obtain rfl := Option.some.inj (hneed.symm.trans hneed')
          exact hlt.le
      dsimp only
      rw [Checked.sub_of_le hbuf, Option.bind_eq_bind, Option.bind_some, feedInner_of_need hneed,
        (take_drop_min _ input).1, (take_drop_min _ input).2]
      split_ifs with hshort
      · rfl
      · have hunit : (r.buf ++ input.take (n - r.buf.length)).length = n := by
          rw [List.length_append, List.length_take] at hshort ⊢
          omega
        rw [(h.buf []).advanceChecked_eq, Option.bind_eq_bind, Option.bind_some]
        rcases hadv : EnvelopeReader.advance p receiver { r with buf := [] }
          (r.buf ++ input.take (n - r.buf.length)) with e | ⟨more, r₁⟩
        · rfl
        · have hnext := (h.buf []).advance (by rw [hunit]; exact hneed) hadv
          obtain ⟨hempty, -, hrank⟩ := advance_progress hadv
          have hempty : r₁.buf = [] := hempty
          have hrank : rank r.stage = 1 → rank r₁.stage = 0 := hrank
          have hle : rank r₁.stage ≤ 1 := by
            cases r₁.stage <;> simp [rank]
          have hzero : n = 0 → rank r.stage = 1 := by
            rintro rfl
            cases hs : r.stage <;> simp_all [need, rank, outerHeaderLen]
          have hfewer : 2 * (r₁.buf.length + (input.drop (n - r.buf.length)).length) +
              rank r₁.stage < rounds := by
            rw [hempty, List.length_nil, List.length_drop]
            rw [List.length_append, List.length_take] at hunit
            by_cases hn : n = 0
            · have hone := hzero hn
              have hnone := hrank hone
              omega
            · omega
          dsimp only
          rw [ih hnext (.inl hempty) hfewer, Option.bind_some, ok_bind]
          dsimp only
          rcases EnvelopeReader.feedInner p receiver r₁ _ with e | ⟨rest, r₂⟩
          · rfl
          · rfl

/-! ### Whole inputs -/

/-- What a conforming reader has reported is a beginning of what the grammar allows. -/
theorem Conforms.reported {r : EnvelopeReader} {taken : ℕ} {events : List ReaderEvent}
    (h : Conforms p r taken events) : Reported p events := by
  cases hm : r.manifest with
  | none => exact .inl (h.before hm).1
  | some m =>
    obtain ⟨whole, pieces, rfl, hout, hstop⟩ := h.after m hm
    refine .inr ⟨m, r.current, whole, pieces, rfl, hout.delivers, ?_⟩
    cases hitem : m.items[r.current]? with
    | none => exact .inl (hout.past hitem)
    | some item =>
      have hleft : 0 < r.currentLeft := by
        rcases hstop with hnone | hleft
        · cases hitem.symm.trans hnone
        · exact hleft
      have hsized : pieces.flatten.length + r.currentLeft = sizeAt m.items r.current := hout.sized
      rw [sizeAt, hitem, Option.elim_some] at hsized
      exact .inr ⟨item, rfl, by omega⟩

/-- A conforming reader that is done has reported all. -/
theorem Conforms.reportedAll {r : EnvelopeReader} {taken : ℕ} {events : List ReaderEvent}
    (h : Conforms p r taken events) (hdone : r.stage = .done) {m : OpenedManifest}
    (hm : r.manifest = some m) : ReportedAll p m events := by
  obtain ⟨-, m', hm', hcurrent⟩ := h.ended hdone
  obtain rfl := Option.some.inj (hm.symm.trans hm')
  obtain ⟨whole, pieces, rfl, hout, -⟩ := h.after m hm
  have hnone : m.items[r.current]? = none := List.getElem?_eq_none hcurrent.ge
  obtain rfl : pieces = [] := hout.past hnone
  refine ⟨whole, by simp [deliveredOf], ?_⟩
  rw [← hcurrent]
  exact hout.delivers

/-- Once a header was read it stays. -/
theorem header_of_advance {r r' : EnvelopeReader} {unit : List UInt8} {events : List ReaderEvent}
    {header : OuterHeader} (hstage : r.stage ≠ .header) (hheader : r.header = some header)
    (hadv : r.advance p receiver unit = .ok (events, r')) :
    r'.stage ≠ .header ∧ r'.header = some header := by
  unfold EnvelopeReader.advance at hadv
  split at hadv
  · rename_i hs
    exact absurd hs hstage
  · obtain ⟨r₁, hr₁, hadv⟩ := bind_eq_ok.mp hadv
    obtain ⟨-, -, -, rfl⟩ := readLen_eq_ok.mp hr₁
    obtain ⟨-, rfl⟩ := Prod.mk.inj (Except.ok.inj hadv)
    exact ⟨fun hs => (by cases hs), hheader⟩
  · split_ifs at hadv
    · obtain ⟨_, _, ctx, -, json, ctx', -, m, -, -, rest, cursor, -, -, rfl⟩ :=
        readManifest_eq_ok.mp hadv
      exact ⟨fun hs => (by cases hs), hheader⟩
    · obtain ⟨ctx, -, pt, ctx', -, -, m, -, cursor, -, -, rfl⟩ := readData_eq_ok.mp hadv
      refine ⟨fun hs => ?_, hheader⟩
      dsimp only at hs
      split_ifs at hs
  · cases hadv

/-- And so it does through a feed. -/
theorem header_of_feedInner {r r' : EnvelopeReader} {input : List UInt8}
    {events : List ReaderEvent} {header : OuterHeader} (hstage : r.stage ≠ .header)
    (hheader : r.header = some header)
    (hfeed : r.feedInner p receiver input = .ok (events, r')) : r'.header = some header := by
  fun_induction feedInner p receiver r input generalizing events with
  | case1 r hneed =>
    obtain ⟨-, rfl⟩ := Prod.mk.inj (Except.ok.inj hfeed)
    exact hheader
  | case2 r input hneed hne => cases hfeed
  | case3 r input n hneed take =>
    obtain ⟨-, rfl⟩ := Prod.mk.inj (Except.ok.inj hfeed)
    exact hheader
  | case4 r input n hneed take unit hfull => cases hfeed
  | case5 r input n hneed take unit hfull events₁ r₁ =>
    rename_i hadv ih
    obtain ⟨⟨rest, r₂⟩, hrest, hfeed⟩ := bind_eq_ok.mp hfeed
    obtain ⟨-, rfl⟩ := Prod.mk.inj (Except.ok.inj hfeed)
    obtain ⟨hstage₁, hheader₁⟩ := header_of_advance (r := { r with buf := [] }) hstage hheader hadv
    exact ih hstage₁ hheader₁ hrest

/-- **A reader that is done was fed the length that its header announced**: all in all, and no byte
more. -/
theorem length_of_done {r : EnvelopeReader} {input : List UInt8} {events : List ReaderEvent}
    (hfeed : EnvelopeReader.new.feedInner p receiver input = .ok (events, r))
    (hdone : r.stage = .done) :
    ∃ header, parseOuterHeader (input.take outerHeaderLen) = .ok header ∧
      input.length = header.totalLen := by
  obtain ⟨taken, hcount, hconforms, hfits⟩ := feedInner_conforms conforms_new (.inl rfl) hfeed
  have hbuf : r.buf = [] := by
    refine hfits.resolve_right ?_
    rintro ⟨n, hn, -⟩
    rw [hdone] at hn
    cases hn
  obtain ⟨unit, rest, es, r₁, more, rfl, hunit, hadv, -, hrest⟩ :=
    feedInner_eq_ok_of_done (n := outerHeaderLen) rfl rfl hfeed hdone
  rw [EnvelopeReader.advance] at hadv
  obtain ⟨r₂, hread, hadv⟩ := bind_eq_ok.mp hadv
  obtain ⟨-, rfl⟩ := Prod.mk.inj (Except.ok.inj hadv)
  obtain ⟨header, hparse, -, -, ctx, -, rfl⟩ := readHeader_eq_ok.mp hread
  refine ⟨header, by rwa [List.take_left' hunit], ?_⟩
  have hheader := header_of_feedInner (fun hs => by cases hs) rfl hrest
  have hcounted := hconforms.counted
  rw [hheader] at hcounted
  have hzero := (hconforms.ended hdone).1
  rw [hbuf] at hcount
  have htotal := hcounted.2
  simp only [new, List.length_nil] at hcount
  omega

variable (p receiver) in
/-- What a reader has reported, feed by feed: the events of the feeds that were taken in. -/
def emitted (r : EnvelopeReader) : List (List UInt8) → List ReaderEvent
  | [] => []
  | bytes :: pieces =>
    match r.feed p receiver bytes with
    | (.ok events, r') => events ++ r'.emitted pieces
    | (.error _, r') => r'.emitted pieces

variable (p receiver) in
/-- The outcome of all feeds and the finish: what was reported and the manifest, or the first
error. -/
def readAll (r : EnvelopeReader) :
    List (List UInt8) → Except EnvelopeError (List ReaderEvent × OpenedManifest)
  | [] => do
    let m ← r.finish
    return ([], m)
  | bytes :: pieces =>
    match r.feed p receiver bytes with
    | (.ok events, r') => do
      let (more, m) ← r'.readAll pieces
      return (events ++ more, m)
    | (.error e, _) => .error e

/-- A reader that failed reports nothing. -/
theorem emitted_of_failed {r : EnvelopeReader} (h : r.failed = true)
    (pieces : List (List UInt8)) : r.emitted p receiver pieces = [] := by
  induction pieces with
  | nil => rfl
  | cons bytes pieces ih =>
    rw [emitted, feed, if_pos h]
    exact ih

/-- **Feeds follow the grammar**, and as long as none was refused the bytes that were taken in and
those in the buffer are all that was fed. -/
theorem emitted_conforms {r : EnvelopeReader} {taken : ℕ} {events : List ReaderEvent}
    (h : Conforms p r taken events) (hfits : r.Fits) (hr : r.failed = false)
    (pieces : List (List UInt8)) :
    ∃ r' taken', Conforms p r' taken' (events ++ r.emitted p receiver pieces) ∧ r'.Fits ∧
      ((r.feedAll p receiver pieces).failed = false → r.feedAll p receiver pieces = r') := by
  induction pieces generalizing r taken events with
  | nil => exact ⟨r, taken, by rwa [emitted, List.append_nil], hfits, fun _ => rfl⟩
  | cons bytes pieces ih =>
    rw [emitted, feedAll, List.foldl_cons]
    rcases hfeed : r.feedInner p receiver bytes with e | ⟨more, r₁⟩
    · rw [feed_of_error hr hfeed]
      dsimp only
      rw [emitted_of_failed rfl, List.append_nil]
      refine ⟨r, taken, h, hfits, fun hfailed => ?_⟩
      change (feedAll p receiver { r with failed := true } pieces).failed = false at hfailed
      rw [feedAll_of_failed rfl] at hfailed
      cases hfailed
    · rw [feed_of_ok hr hfeed]
      obtain ⟨taken₁, -, hconforms, hfits₁⟩ := feedInner_conforms h hfits hfeed
      have hr₁ : r₁.failed = false := (failed_of_feedInner hfeed).trans hr
      obtain ⟨r', taken', hconforms', hfits', hlast⟩ := ih hconforms hfits₁ hr₁
      exact ⟨r', taken', by rwa [List.append_assoc] at hconforms', hfits', hlast⟩

/-- All feeds and the finish succeed exactly when the finish does after all feeds, with what was
reported. -/
theorem readAll_eq_ok {r : EnvelopeReader} {pieces : List (List UInt8)}
    {events : List ReaderEvent} {m : OpenedManifest} (hr : r.failed = false) :
    r.readAll p receiver pieces = .ok (events, m) ↔
      (r.feedAll p receiver pieces).finish = .ok m ∧ events = r.emitted p receiver pieces := by
  induction pieces generalizing r events with
  | nil =>
    change (r.finish >>= fun m => pure ([], m)) = _ ↔ r.finish = .ok m ∧ events = []
    constructor
    · intro h
      obtain ⟨m', hm', h⟩ := bind_eq_ok.mp h
      obtain ⟨rfl, rfl⟩ := Prod.mk.inj (Except.ok.inj h)
      exact ⟨hm', rfl⟩
    · rintro ⟨hm, rfl⟩
      rw [hm]
      rfl
  | cons bytes pieces ih =>
    rw [readAll, emitted, feedAll, List.foldl_cons]
    rcases hfeed : r.feedInner p receiver bytes with e | ⟨more, r₁⟩
    · rw [feed_of_error hr hfeed]
      dsimp only
      refine ⟨fun h => (by cases h), fun h => ?_⟩
      have hfinish : (feedAll p receiver { r with failed := true } pieces).finish = .ok m := h.1
      rw [feedAll_of_failed rfl] at hfinish
      cases hfinish
    · rw [feed_of_ok hr hfeed]
      have hr₁ : r₁.failed = false := (failed_of_feedInner hfeed).trans hr
      dsimp only
      constructor
      · intro h
        obtain ⟨⟨rest, m'⟩, hrest, h⟩ := bind_eq_ok.mp h
        obtain ⟨rfl, rfl⟩ := Prod.mk.inj (Except.ok.inj h)
        obtain ⟨hfinish, rfl⟩ := (ih hr₁).mp hrest
        exact ⟨hfinish, rfl⟩
      · rintro ⟨hfinish, rfl⟩
        rw [(ih hr₁).mpr ⟨hfinish, rfl⟩]
        rfl

/-- A reader that an empty feed leaves as it is: it is not about to take in a unit. -/
def Settled (p : Primitives) (receiver : EnvelopeRecipient) (r : EnvelopeReader) : Prop :=
  r.feedInner p receiver [] = .ok ([], r)

/-- A feed leaves a settled reader. -/
theorem settled_of_feedInner {r r' : EnvelopeReader} {input : List UInt8}
    {events : List ReaderEvent} (hfeed : r.feedInner p receiver input = .ok (events, r')) :
    Settled p receiver r' := by
  have h : r.feedInner p receiver (input ++ []) = _ := feedInner_append r input []
  rw [List.append_nil, hfeed, ok_bind] at h
  obtain ⟨⟨more, r''⟩, hmore, h⟩ := bind_eq_ok.mp h.symm
  obtain ⟨hevents, rfl⟩ := Prod.mk.inj (Except.ok.inj h)
  rw [Settled, hmore, List.append_right_eq_self.mp hevents]

/-- **What is read does not depend on the split**: feeds and the finish are one feed of all bytes and
the finish. -/
theorem readAll_eq {r : EnvelopeReader} (hr : r.failed = false) (hsettled : Settled p receiver r)
    (pieces : List (List UInt8)) :
    r.readAll p receiver pieces = do
      let (events, r') ← r.feedInner p receiver pieces.flatten
      let m ← r'.finish
      return (events, m) := by
  induction pieces generalizing r with
  | nil =>
    rw [List.flatten_nil, hsettled, ok_bind]
    rfl
  | cons bytes pieces ih =>
    rw [readAll, List.flatten_cons, feedInner_append]
    rcases hfeed : r.feedInner p receiver bytes with e | ⟨events, r₁⟩
    · rw [feed_of_error hr hfeed]
      rfl
    · rw [feed_of_ok hr hfeed, ok_bind]
      dsimp only
      rw [ih ((failed_of_feedInner hfeed).trans hr) (settled_of_feedInner hfeed)]
      rcases r₁.feedInner p receiver pieces.flatten with e | ⟨more, r₂⟩
      · rfl
      · rw [ok_bind, ok_bind]
        dsimp only
        change _ = (do
          let m ← r₂.finish
          return (events ++ more, m))
        rcases r₂.finish with e | m <;> rfl

/-- A feed that is refused leaves a reader that refuses everything. -/
theorem refuses_of_feed_error {r : EnvelopeReader} {bytes : List UInt8} {e : EnvelopeError}
    (h : (r.feed p receiver bytes).1 = .error e) (pieces : List (List UInt8))
    (input : List UInt8) :
    let r' := (r.feed p receiver bytes).2.feedAll p receiver pieces
    (r'.feed p receiver input).1 = .error .alreadyFailed ∧ r'.finish = .error .alreadyFailed := by
  have hfailed : (r.feed p receiver bytes).2.failed = true := by
    cases hr : r.failed with
    | true => rw [feed, if_pos hr, hr]
    | false =>
      rcases hfeed : r.feedInner p receiver bytes with e' | ⟨events, r₁⟩
      · rw [feed_of_error hr hfeed]
      · rw [feed_of_ok hr hfeed] at h
        cases h
  dsimp only
  rw [feedAll_of_failed hfailed, feed, finish, if_pos hfailed, if_pos hfailed]
  exact ⟨rfl, rfl⟩

/-- **A reader follows one grammar**, for every input and every split of it. What it reports is a
beginning of the manifest and the items in order, and the outcome does not depend on the split. It
finishes only with all items verified, after as many bytes as the header announced. After an error it
refuses everything, and until then no difference is negative and every feed ends. -/
theorem follows_grammar (p : Primitives) (receiver : EnvelopeRecipient)
    (pieces : List (List UInt8)) :
    Reported p (new.emitted p receiver pieces) ∧
      (∀ others : List (List UInt8), others.flatten = pieces.flatten →
        new.readAll p receiver others = new.readAll p receiver pieces) ∧
      (∀ events m, new.readAll p receiver pieces = .ok (events, m) ↔
        (new.feedAll p receiver pieces).finish = .ok m ∧
          events = new.emitted p receiver pieces) ∧
      (∀ m, (new.feedAll p receiver pieces).finish = .ok m →
        ReportedAll p m (new.emitted p receiver pieces) ∧
          ∃ header, parseOuterHeader (pieces.flatten.take outerHeaderLen) = .ok header ∧
            pieces.flatten.length = header.totalLen) ∧
      (∀ bytes e, ((new.feedAll p receiver pieces).feed p receiver bytes).1 = .error e →
        ∀ more input,
          let r := ((new.feedAll p receiver pieces).feed p receiver bytes).2.feedAll p receiver more
          (r.feed p receiver input).1 = .error .alreadyFailed ∧
            r.finish = .error .alreadyFailed) ∧
      ((new.feedAll p receiver pieces).failed = false → ∀ bytes, ∃ enough, ∀ rounds ≥ enough,
        feedLoop p receiver rounds (new.feedAll p receiver pieces) bytes =
          some ((new.feedAll p receiver pieces).feedInner p receiver bytes)) := by
  obtain ⟨r, taken, hconforms, hfits, hlast⟩ :
      ∃ r taken, Conforms p r taken ([] ++ new.emitted p receiver pieces) ∧ r.Fits ∧
        ((new.feedAll p receiver pieces).failed = false → new.feedAll p receiver pieces = r) :=
    emitted_conforms conforms_new (.inl rfl) rfl pieces
  rw [List.nil_append] at hconforms
  have hsettled : Settled p receiver new := by
    rw [Settled, feedInner_of_need (n := outerHeaderLen) rfl]
    rfl
  refine ⟨hconforms.reported, ?_, fun events m => readAll_eq_ok rfl, ?_,
    fun bytes e h more input => refuses_of_feed_error h more input, ?_⟩
  · intro others hsame
    rw [readAll_eq rfl hsettled, readAll_eq rfl hsettled, hsame]
  · intro m hm
    have hnot : (new.feedAll p receiver pieces).failed = false := by
      cases hfailed : (new.feedAll p receiver pieces).failed with
      | false => rfl
      | true =>
        rw [finish, if_pos hfailed] at hm
        cases hm
    obtain ⟨events, r', hfeed, hdone⟩ := feedInner_of_finish rfl hm
    refine ⟨?_, length_of_done hfeed hdone⟩
    obtain rfl := hlast hnot
    have hmanifest : (new.feedAll p receiver pieces).manifest = some m := by
      unfold finish at hm
      rw [hnot, if_neg Bool.false_ne_true] at hm
      split at hm
      · rename_i hs
        exact hs.trans (congrArg some (Except.ok.inj hm))
      · cases hm
    exact hconforms.reportedAll (stage_of_finish hm) hmanifest
  · intro hnot bytes
    obtain rfl := hlast hnot
    exact ⟨_, fun rounds hrounds => feedLoop_eq hconforms hfits hrounds⟩

end EnvelopeReader

end Tradr
