import RequestWindows.EventLog.Basic
import RequestWindows.Proofs.Collection.Bindings
import RequestWindows.Proofs.Json.Numbers

/-! The line of an event that is not torn holds the event again, unless a number in it is not finite
and therefore missing from the text. -/
namespace RequestWindows

/-- Whether the text of a value can be read back: an integer may not have too many digits, and a
number has to be finite. -/
def Scalar.Readable : Scalar → Prop
  | .text _ => True
  | .int n => (Nat.toDigits 10 n.natAbs).length ≤ maxDigits
  | .float x => x.isFinite = true

namespace Scalar

/-- Whether a value is no integer with too many digits. -/
def Bounded : Scalar → Prop
  | .int n => (Nat.toDigits 10 n.natAbs).length ≤ maxDigits
  | .text _ | .float _ => True

instance (v : Scalar) : Decidable v.Bounded :=
  match v with
  | .int _ => inferInstanceAs (Decidable (_ ≤ _))
  | .text _ | .float _ => .isTrue trivial

/-- Whether a value is no number that is not finite. -/
def isFinite : Scalar → Bool
  | .float x => x.isFinite
  | .text _ | .int _ => true

/-- The value that the text of a value stands for: a number that is not finite is written as
`null`. -/
def written (v : Scalar) : Json := if v.isFinite then v.toJson else .null

theorem text_written (v : Scalar) : v.written.text = v.toJson.text := by
  unfold written
  split
  · rfl
  · next h =>
    cases v with
    | text s => exact absurd rfl h
    | int n => exact absurd rfl h
    | float x =>
      cases x with
      | finite s m e hc => exact absurd rfl h
      | infinite s => rfl
      | nan => rfl

theorem reads_written {v : Scalar} (h : v.Bounded) :
    ∃ ts, Json.Reads .line v.written 0 ts := by
  by_cases hv : v.isFinite = true
  · rw [written, if_pos hv]
    cases v with
    | text s => exact ⟨_, Json.reads_str s.lossy⟩
    | int n => exact Json.reads_int h
    | float x =>
      have hlimit : 16 ≤ Json.Limits.line.digits := by decide
      exact Json.reads_float hv hlimit
  · rw [written, if_neg hv]
    have hletters : ∀ c ∈ "null".toList, Json.Scanner.isLetter c = true :=
      List.all_eq_true.mp rfl
    exact ⟨_, Json.reads_word rfl hletters (List.cons_ne_nil _ _) rfl⟩

end Scalar

namespace Event

variable {e : Event}

/-- Whether the line of an event can be read back. -/
structure Readable (e : Event) : Prop where
  time : (Nat.toDigits 10 e.emittedAt).length ≤ maxDigits
  dimensions : ∀ d ∈ e.dimensions.entries, d.2.Readable

/-- Whether no integer of an event has more digits than can be read. -/
structure Bounded (e : Event) : Prop where
  time : (Nat.toDigits 10 e.emittedAt).length ≤ maxDigits
  dimensions : ∀ d ∈ e.dimensions.entries, d.2.Bounded

instance (e : Event) : Decidable e.Bounded :=
  decidable_of_iff
    ((Nat.toDigits 10 e.emittedAt).length ≤ maxDigits ∧ ∀ d ∈ e.dimensions.entries, d.2.Bounded)
    ⟨fun h => ⟨h.1, h.2⟩, fun h => ⟨h.time, h.dimensions⟩⟩

/-- Whether all numbers of an event are finite. -/
def isFinite (e : Event) : Bool := e.dimensions.entries.all fun d => d.2.isFinite

/-- What is read back of an event that was written. -/
def readBack (e : Event) : Option Event := if e.isFinite then some e else none

theorem Readable.bounded (h : e.Readable) : e.Bounded := by
  refine ⟨h.time, fun d hd => ?_⟩
  have hreadable := h.dimensions d hd
  cases hv : d.2 with
  | int n =>
    rw [hv] at hreadable
    exact hreadable
  | text s => trivial
  | float x => trivial

theorem Readable.finite (h : e.Readable) : e.isFinite = true := by
  refine List.all_eq_true.mpr fun d hd => ?_
  have hreadable := h.dimensions d hd
  cases hv : d.2 with
  | float x =>
    rw [hv] at hreadable
    exact hreadable
  | text s => rfl
  | int n => rfl

section Value

/-- The members of an event's object, with any value for the dimensions. -/
def members (e : Event) (dimensions : Json) : List (String × Json) :=
  [("emitted_at_millis", .int e.emittedAt), ("correlation_id", .str e.correlationId),
    ("kind", .str e.half.name), ("dimensions", dimensions)]

/-- The dimensions that the text of an event stands for. -/
def writtenDimensions (e : Event) : Json :=
  .obj (e.dimensions.entries.map fun d => (d.1.lossy, d.2.written))

/-- The text of an event shows the dimensions as they are written. -/
theorem text_eq (e : Event) : e.text = (Json.obj (e.members e.writtenDimensions)).text := by
  have hdimensions : ∀ l : List (RawText × Scalar),
      Json.memberTexts (l.map fun d => (d.1.lossy, d.2.toJson)) =
        Json.memberTexts (l.map fun d => (d.1.lossy, d.2.written)) := by
    intro l
    induction l with
    | nil => rfl
    | cons d rest ih =>
      rw [List.map_cons, List.map_cons, Json.memberTexts, Json.memberTexts, ih, d.2.text_written]
  unfold text toJson members writtenDimensions
  simp only [Json.text, Json.memberTexts, hdimensions]

theorem parse_text (h : e.Bounded) :
    Json.parse e.text = some (.obj (e.members e.writtenDimensions)) := by
  have hdimensions : ∀ m ∈ e.dimensions.entries.map fun d => (d.1.lossy, d.2.written),
      ∃ ts, Json.Reads .line m.2 0 ts := by
    intro m hm
    obtain ⟨d, hd, rfl⟩ := List.mem_map.mp hm
    exact Scalar.reads_written (h.dimensions d hd)
  obtain ⟨_, htime⟩ : ∃ ts, Json.Reads .line (.int e.emittedAt) 0 ts := Json.reads_int h.time
  obtain ⟨_, hobject⟩ := Json.reads_obj hdimensions
  have hmembers : ∀ m ∈ e.members e.writtenDimensions, ∃ ts, Json.Reads .line m.2 1 ts := by
    intro m hm
    simp only [members, List.mem_cons, List.not_mem_nil, or_false] at hm
    rcases hm with rfl | rfl | rfl | rfl
    · exact ⟨_, htime.mono (Nat.zero_le 1)⟩
    · exact ⟨_, (Json.reads_str e.correlationId).mono (Nat.zero_le 1)⟩
    · exact ⟨_, (Json.reads_str e.half.name).mono (Nat.zero_le 1)⟩
    · exact ⟨_, hobject⟩
  obtain ⟨_, hreads⟩ := Json.reads_obj hmembers
  rw [text_eq]
  exact hreads.parseWithin (by decide)

/-- Dimensions that are not torn are read back if all their numbers are finite, and not at all
otherwise. -/
theorem readBindings_written {l : List (RawText × Scalar)}
    (h : (l.all fun d => d.1.isPlain && d.2.isPlain) = true) :
    readBindings (l.map fun d => (d.1.lossy, d.2.written)) =
      if l.all fun d => d.2.isFinite then some l else none := by
  induction l with
  | nil => rfl
  | cons d rest ih =>
    obtain ⟨name, v⟩ := d
    rw [List.all_cons, Bool.and_eq_true, Bool.and_eq_true] at h
    obtain ⟨⟨hname, hplain⟩, hrest⟩ := h
    rw [List.map_cons, readBindings, ih hrest, List.all_cons, Scalar.written]
    by_cases hv : v.isFinite = true
    · have hvalue : readScalar v.toJson = some v := by
        cases v with
        | text s => exact congrArg (fun t => some (Scalar.text t)) (RawText.plain_lossy hplain)
        | int n => rfl
        | float x => rfl
      rw [if_pos hv, hvalue, hv, Bool.true_and]
      change ((if _ then some rest else none).bind fun more =>
        some ((RawText.plain name.lossy, v) :: more)) = _
      rw [RawText.plain_lossy hname]
      split <;> rfl
    · rw [if_neg hv, Bool.eq_false_iff.mpr hv]
      rfl

/-- Each field is found again among the members as it was put there, so that only the dimensions
decide. -/
theorem ofMembers_members (e : Event) (dimensions : Json) :
    (ofMembers (e.members dimensions)).toOption =
      (readDimensions dimensions).map fun d => { e with dimensions := d } := by
  have htime : (Json.lastNamed? "emitted_at_millis" (e.members dimensions)).bind readTime =
      some e.emittedAt := by
    change readTime (.int e.emittedAt) = _
    unfold readTime
    simp [Json.lenientInt?]
  have hid : (Json.lastNamed? "correlation_id" (e.members dimensions)).bind readId =
      some ⟨e.correlationId, e.correlationId_ne⟩ := by
    change readId (.str e.correlationId) = _
    exact dif_pos e.correlationId_ne
  have hhalf : (Json.lastNamed? "kind" (e.members dimensions)).bind readHalf = some e.half := by
    change readHalf (.str e.half.name) = _
    exact Half.ofName?_name e.half
  have hnamed : Json.lastNamed? "dimensions" (e.members dimensions) = some dimensions := rfl
  have hunknown : ((e.members dimensions).map Prod.fst).filter (· ∉ fieldNames) = [] := by
    change ["emitted_at_millis", "correlation_id", "kind", "dimensions"].filter
      (· ∉ fieldNames) = []
    decide
  unfold ofMembers
  simp only [htime, hid, hhalf, hnamed, hunknown]
  cases readDimensions dimensions <;> rfl

/-- The text of an event that is not torn holds the event again if all its numbers are finite, and
no event otherwise. -/
theorem ofText_text (h : e.Bounded) (hplain : e.isPlain = true) :
    (ofText e.text).toOption = e.readBack := by
  have hdimensions : readDimensions e.writtenDimensions =
      if e.isFinite then some e.dimensions else none := by
    change (readBindings _).map KeyedList.ofList = _
    rw [readBindings_written hplain]
    unfold isFinite
    split
    · rw [Option.map_some, KeyedList.ofList_entries]
    · rfl
  unfold ofText
  rw [parse_text h]
  change (ofMembers (e.members e.writtenDimensions)).toOption = _
  rw [ofMembers_members, hdimensions]
  unfold readBack
  split <;> rfl

end Value

end Event

section Lines

/-- A text without the end of a line in it. -/
def OneLine (text : List Char) : Prop := ∀ c ∈ text, Text.isLineEnd c = false

theorem OneLine.append {s t : List Char} (hs : OneLine s) (ht : OneLine t) : OneLine (s ++ t) := by
  intro c hc
  exact (List.mem_append.mp hc).elim (hs c) (ht c)

theorem OneLine.cons {c : Char} {t : List Char} (hc : Text.isLineEnd c = false) (ht : OneLine t) :
    OneLine (c :: t) := by
  intro d hd
  rcases List.mem_cons.mp hd with rfl | hd
  · exact hc
  · exact ht d hd

theorem oneLine_nil : OneLine [] := by
  intro c hc
  cases hc

theorem oneLine_of_any {text : List Char} (h : text.any Text.isLineEnd = false) : OneLine text := by
  intro c hc
  exact Bool.eq_false_iff.mpr (List.any_eq_false.mp h c hc)

namespace Json

theorem oneLine_of_letters {word : List Char} (h : ∀ c ∈ word, Scanner.isLetter c = true) :
    OneLine word := by
  intro c hc
  have hletter := h c hc
  apply Bool.eq_false_iff.mpr
  intro hend
  unfold Text.isLineEnd at hend
  rw [Bool.or_eq_true, decide_eq_true_eq, decide_eq_true_eq] at hend
  rcases hend with rfl | rfl
  · exact absurd hletter (by decide)
  · exact absurd hletter (by decide)

theorem oneLine_escapedChar (c : Char) : OneLine (escapedChar c) := by
  have hpair {d : Char} (hd : Text.isLineEnd d = false) : OneLine ['\\', d] :=
    .cons rfl (.cons hd oneLine_nil)
  -- Both line ends have letters of their own, so neither stands for itself.
  unfold escapedChar
  split
  · next hself =>
    rcases hself with rfl | rfl
    · exact hpair rfl
    · exact hpair rfl
  · split
    · exact hpair rfl
    · split
      · exact hpair rfl
      · split
        · exact hpair rfl
        · next hfeed =>
          split
          · exact hpair rfl
          · split
            · exact hpair rfl
            · next hreturn =>
              split
              · next hlow =>
                have hhex : ∀ n < 0x20, (Text.hex 4 n).any Text.isLineEnd = false := by decide
                exact .cons rfl (.cons rfl (oneLine_of_any (hhex c.toNat hlow)))
              · have hc : Text.isLineEnd c = false := by
                  unfold Text.isLineEnd
                  rw [decide_eq_false hfeed, decide_eq_false hreturn]
                  rfl
                exact .cons hc oneLine_nil

theorem oneLine_quoted (s : String) : OneLine (quoted s) := by
  have hcharacters : OneLine (s.toList.flatMap escapedChar) := by
    intro c hc
    obtain ⟨d, _, hd⟩ := List.mem_flatMap.mp hc
    exact oneLine_escapedChar d c hd
  exact .cons rfl (hcharacters.append (.cons rfl oneLine_nil))

theorem oneLine_intText (n : Int) : OneLine (intText n) := by
  rw [intText_eq]
  exact oneLine_of_letters fun c hc => isLetter_of_mem_text (wellFormed_intParts n) hc

theorem oneLine_floatText (x : Binary64) : OneLine (floatText x) := by
  have hnull : OneLine "null".toList := oneLine_of_any (by decide)
  cases x with
  | nan => exact hnull
  | infinite s => exact hnull
  | finite s m e h =>
    obtain ⟨n, htext, hn, _⟩ := exists_written s h
    change OneLine (FloatLayout.line.finite s m e)
    rw [← htext]
    exact oneLine_of_letters fun c hc => isLetter_of_mem_text hn.toWellFormed hc

theorem oneLine_membersText {members : List (String × Json)}
    (h : ∀ m ∈ members, OneLine m.2.text) : OneLine (membersText members) := by
  induction members with
  | nil => exact oneLine_nil
  | cons m rest ih =>
    have hm := h m (.head _)
    have hrest := ih fun k hk => h k (.tail _ hk)
    cases rest with
    | nil =>
      rw [membersText_singleton]
      exact (oneLine_quoted m.1).append (.cons rfl hm)
    | cons k rest =>
      rw [membersText_cons_cons]
      exact (oneLine_quoted m.1).append (.cons rfl (hm.append (.cons rfl hrest)))

theorem text_obj (members : List (String × Json)) :
    (Json.obj members).text = '\x7b' :: (membersText members ++ ['\x7d']) := by
  rw [text]
  rfl

theorem oneLine_obj {members : List (String × Json)} (h : ∀ m ∈ members, OneLine m.2.text) :
    OneLine (Json.obj members).text := by
  rw [text_obj]
  exact .cons rfl ((oneLine_membersText h).append (.cons rfl oneLine_nil))

end Json

theorem Event.oneLine_text (e : Event) : OneLine e.text := by
  have hint : OneLine (Json.int e.emittedAt).text := by
    rw [Json.text]
    exact Json.oneLine_intText _
  have hstr (s : String) : OneLine (Json.str s).text := by
    rw [Json.text]
    exact Json.oneLine_quoted s
  have hscalar (v : Scalar) : OneLine v.toJson.text := by
    cases v with
    | text s => exact hstr s.lossy
    | int n =>
      change OneLine (Json.int n).text
      rw [Json.text]
      exact Json.oneLine_intText n
    | float x =>
      change OneLine (Json.float x).text
      rw [Json.text]
      exact Json.oneLine_floatText x
  have hobject :
      OneLine (Json.obj (e.dimensions.entries.map fun d => (d.1.lossy, d.2.toJson))).text := by
    apply Json.oneLine_obj
    intro m hm
    obtain ⟨d, _, rfl⟩ := List.mem_map.mp hm
    exact hscalar d.2
  unfold Event.text Event.toJson
  apply Json.oneLine_obj
  intro m hm
  simp only [List.mem_cons, List.not_mem_nil, or_false] at hm
  rcases hm with rfl | rfl | rfl | rfl
  · exact hint
  · exact hstr _
  · exact hstr _
  · exact hobject

/-- Nothing is trimmed off a text that begins and ends with other characters. -/
theorem Text.trimBy_of_ends {p : Char → Bool} {first last : Char} (hfirst : p first = false)
    (hlast : p last = false) (middle : List Char) :
    trimBy p (first :: (middle ++ [last])) = first :: (middle ++ [last]) := by
  have hfront : (first :: (middle ++ [last])).dropWhile p = first :: (middle ++ [last]) :=
    List.dropWhile_cons_of_neg (by rw [hfirst]; exact Bool.false_ne_true)
  have hreverse : (first :: (middle ++ [last])).reverse =
      last :: (first :: middle).reverse := by simp
  unfold trimBy
  rw [hfront, hreverse, List.dropWhile_cons_of_neg (by rw [hlast]; exact Bool.false_ne_true),
    ← hreverse, List.reverse_reverse]

namespace EventLog

theorem itemOfLine_text {e : Event} (h : e.Bounded) (hplain : e.isPlain = true) :
    itemOfLine e.text = some e.readBack := by
  have htrim : Text.trim e.text = e.text := by
    unfold Event.text Event.toJson Text.trim
    rw [Json.text_obj]
    exact Text.trimBy_of_ends rfl rfl _
  have hne : e.text ≠ [] := by
    unfold Event.text Event.toJson
    rw [Json.text_obj]
    exact List.cons_ne_nil _ _
  unfold itemOfLine
  dsimp only
  rw [htrim, if_neg hne, Event.ofText_text h hplain]

/-- A log that events were written to which are not torn has an item for each of them, in their
order, and nothing else. -/
theorem transcribe_readBack {events : List Event} (h : ∀ e ∈ events, e.Bounded)
    (hplain : ∀ e ∈ events, e.isPlain = true) :
    transcribe (linesOf events) = ⟨events.map Event.readBack, true⟩ := by
  -- No text of an event has a line end in it, so the lines of the log are these texts.
  have hended : Text.endedLines (events.flatMap fun e => e.text ++ ['\n']) =
      (events.map Event.text, []) := by
    have hone : ∀ line ∈ events.map Event.text, OneLine line := by
      intro line hline
      obtain ⟨e, _, rfl⟩ := List.mem_map.mp hline
      exact e.oneLine_text
    have hlines := Text.endedLines_flatMap hone
    rw [List.flatMap_map] at hlines
    exact hlines
  have hitems : (events.map Event.text).filterMap itemOfLine = events.map Event.readBack := by
    rw [List.filterMap_map]
    have hitem : ∀ e ∈ events, (itemOfLine ∘ Event.text) e = some e.readBack := by
      intro e he
      rw [Function.comp_apply]
      exact itemOfLine_text (h e he) (hplain e he)
    rw [List.filterMap_congr hitem, List.filterMap_eq_map']
  unfold transcribe linesOf
  rw [Text.decodeUtf8_encodeUtf8]
  unfold Text.Decoded.lines Text.lines
  dsimp only
  rw [if_pos rfl, hended]
  dsimp only
  rw [List.filterMap_append, hitems]
  change Transcript.mk (events.map Event.readBack ++ []) true = _
  rw [List.append_nil]

/-- A log that readable events were written to holds these events and nothing else. -/
theorem transcribe_linesOf {events : List Event} (h : ∀ e ∈ events, e.Readable)
    (hplain : ∀ e ∈ events, e.isPlain = true) :
    transcribe (linesOf events) = ⟨events.map some, true⟩ := by
  rw [transcribe_readBack (fun e he => (h e he).bounded) hplain]
  congr 1
  refine List.map_congr_left fun e he => ?_
  rw [Event.readBack, if_pos (h e he).finite]

end EventLog

end Lines

end RequestWindows
