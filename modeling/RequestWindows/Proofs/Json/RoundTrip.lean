import RequestWindows.Json.Parser
import RequestWindows.Json.Printer
import RequestWindows.Proofs.Text.Utf8

namespace RequestWindows.Json

namespace Scanner

theorem run_cons {s next : Scanner} {c : Char} {completed : List Token}
    (h : s.step c = some (next, completed)) (rest : List Char) :
    s.run (c :: rest) = (next.run rest).map (completed ++ ·) := by
  rw [run, h]
  simp only [Option.bind_eq_bind, Option.bind_some]
  cases next.run rest <;> rfl

theorem run_cons_nil {s next : Scanner} {c : Char} (h : s.step c = some (next, []))
    (rest : List Char) : s.run (c :: rest) = next.run rest := by
  rw [run_cons h]
  exact Option.map_id'

section Strings

variable (read rest : List Char)

theorem run_escape {c d : Char} (hletter : c ≠ 'u') (h : escaped? c = some d) :
    (inText read).run ('\\' :: c :: rest) = (inText (d :: read)).run rest := by
  have hback : (inText read).step '\\' = some (escape read, []) := rfl
  have hstep : (escape read).step c = some (inText (d :: read), []) := by
    rw [step, if_neg hletter, h]
    rfl
  rw [run_cons_nil hback, run_cons_nil hstep]

/-- The characters that have no letter of their own are few, and each has its own number. -/
theorem run_numbered {n : Nat} (h : n < 0x20) :
    (inText read).run ('\\' :: 'u' :: Text.hex 4 n ++ rest) =
      (inText (Char.ofNat n :: read)).run rest := by
  have hhex : ∀ n < 0x20,
      Text.hex 4 n = ['0', '0', Nat.digitChar (n / 16), Nat.digitChar (n % 16)] ∧
        hexValue? (Nat.digitChar (n / 16)) = some (n / 16) ∧
        hexValue? (Nat.digitChar (n % 16)) = some (n % 16) := by decide
  obtain ⟨hdigits, hhigh, hlow⟩ := hhex n h
  have hback : (inText read).step '\\' = some (escape read, []) := rfl
  have hletter : (escape read).step 'u' = some (numbered read none 0 0, []) := rfl
  have hfirst : (numbered read none 0 0).step '0' = some (numbered read none 1 0, []) := rfl
  have hsecond : (numbered read none 1 0).step '0' = some (numbered read none 2 0, []) := rfl
  have hthird : (numbered read none 2 0).step (Nat.digitChar (n / 16)) =
      some (numbered read none 3 (n / 16), []) := by
    rw [step, hhigh]
    simp
  -- None of these numbers is half of a surrogate pair.
  have hunit : unit read none n = some (inText (Char.ofNat n :: read)) := by
    have hnotHigh : isHigh n = false := by
      unfold isHigh
      rw [decide_eq_false (by omega), Bool.false_and]
    have hnotLow : isLow n = false := by
      unfold isLow
      rw [decide_eq_false (by omega), Bool.false_and]
    simp only [unit, hnotHigh, hnotLow, Bool.false_eq_true, if_false]
  have hfourth : (numbered read none 3 (n / 16)).step (Nat.digitChar (n % 16)) =
      some (inText (Char.ofNat n :: read), []) := by
    have hvalue : n / 16 * 16 + n % 16 = n := by omega
    rw [step, hlow]
    simp only [Option.bind_eq_bind, Option.bind_some, if_true, hvalue, hunit, Option.map_some]
  rw [hdigits, List.cons_append, List.cons_append, run_cons_nil hback, run_cons_nil hletter]
  change (numbered read none 0 0).run ('0' :: '0' :: Nat.digitChar (n / 16) ::
    Nat.digitChar (n % 16) :: rest) = _
  rw [run_cons_nil hfirst, run_cons_nil hsecond, run_cons_nil hthird, run_cons_nil hfourth]

/-- A character of a string is found again behind its escape. -/
theorem run_escapedChar (c : Char) :
    (inText read).run (escapedChar c ++ rest) = (inText (c :: read)).run rest := by
  unfold escapedChar
  -- The cases follow the order in which the escape is chosen.
  by_cases hself : c = '"' ∨ c = '\\'
  · rw [if_pos hself]
    have hletter : c ≠ 'u' := by
      rcases hself with rfl | rfl <;> decide
    have hescaped : escaped? c = some c := by
      rcases hself with rfl | rfl <;> rfl
    exact run_escape read rest hletter hescaped
  rw [if_neg hself]
  by_cases hbackspace : c = '\x08'
  · rw [if_pos hbackspace, hbackspace]
    exact run_escape read rest (by decide) rfl
  rw [if_neg hbackspace]
  by_cases htab : c = '\t'
  · rw [if_pos htab, htab]
    exact run_escape read rest (by decide) rfl
  rw [if_neg htab]
  by_cases hfeed : c = '\n'
  · rw [if_pos hfeed, hfeed]
    exact run_escape read rest (by decide) rfl
  rw [if_neg hfeed]
  by_cases hform : c = '\x0c'
  · rw [if_pos hform, hform]
    exact run_escape read rest (by decide) rfl
  rw [if_neg hform]
  by_cases hreturn : c = '\r'
  · rw [if_pos hreturn, hreturn]
    exact run_escape read rest (by decide) rfl
  rw [if_neg hreturn]
  by_cases hlow : c.toNat < 0x20
  · rw [if_pos hlow]
    have hnumbered := run_numbered read rest hlow
    rw [Char.ofNat_toNat] at hnumbered
    exact hnumbered
  · rw [if_neg hlow]
    have hstep : (inText read).step c = some (inText (c :: read), []) := by
      rw [step, if_neg (fun h => hself (Or.inl h)), if_neg (fun h => hself (Or.inr h)),
        if_neg hlow]
    exact run_cons_nil hstep rest

theorem run_flatMap_escapedChar (s : List Char) :
    (inText read).run (s.flatMap escapedChar ++ rest) = (inText (s.reverse ++ read)).run rest := by
  induction s generalizing read with
  | nil => rfl
  | cons c s ih =>
    rw [List.flatMap_cons, List.append_assoc, run_escapedChar, ih, List.reverse_cons,
      List.append_assoc]
    rfl

theorem run_quoted (s : String) :
    between.run (quoted s ++ rest) = (between.run rest).map (Token.text s.toList :: ·) := by
  have hopen : between.step '"' = some (inText [], []) := rfl
  have hclose : (inText (s.toList.reverse ++ [])).step '"' =
      some (between, [.text s.toList]) := by
    rw [List.append_nil, step, if_pos rfl, List.reverse_reverse]
  unfold quoted
  rw [List.cons_append, List.append_assoc, run_cons_nil hopen, run_flatMap_escapedChar]
  exact run_cons hclose rest

end Strings

/-- The characters of words. -/
def isLetter (c : Char) : Bool := !isLayout c && c ≠ '"' && (punctuation? c).isNone

theorem outside_of_isLetter {c : Char} (h : isLetter c = true) (before : List Token)
    (extend : Scanner) : outside before c extend = (extend, []) := by
  unfold isLetter at h
  simp only [Bool.and_eq_true, Bool.not_eq_true', decide_eq_true_eq, Option.isNone_iff_eq_none] at h
  unfold outside
  rw [if_neg (by rw [h.1.1]; exact Bool.false_ne_true), if_neg h.1.2, h.2]

theorem outside_of_punctuation {c : Char} {t : Token} (h : punctuation? c = some t)
    (before : List Token) (extend : Scanner) :
    outside before c extend = (between, before ++ [t]) := by
  have hlayout : isLayout c = false := by
    apply Bool.eq_false_iff.mpr
    intro hl
    unfold isLayout at hl
    simp only [Bool.or_eq_true, decide_eq_true_eq] at hl
    rcases hl with ((rfl | rfl) | rfl) | rfl <;> cases h
  have hquote : c ≠ '"' := by
    rintro rfl
    cases h
  unfold outside
  rw [if_neg (by rw [hlayout]; exact Bool.false_ne_true), if_neg hquote, h]

theorem run_punctuation {c : Char} {t : Token} (h : punctuation? c = some t) (rest : List Char) :
    between.run (c :: rest) = (between.run rest).map (t :: ·) := by
  have hstep : between.step c = some (between, [t]) := by
    rw [step, outside_of_punctuation h]
    rfl
  exact run_cons hstep rest

/-- What may follow a word: nothing, or a separator or bracket. -/
def Delimited (rest : List Char) : Prop :=
  rest = [] ∨ ∃ c more t, rest = c :: more ∧ punctuation? c = some t

theorem delimited_of_punctuation {c : Char} {t : Token} (h : punctuation? c = some t)
    (rest : List Char) : Delimited (c :: rest) := Or.inr ⟨c, rest, t, rfl, h⟩

theorem run_inWord {word : List Char} (h : ∀ c ∈ word, isLetter c = true) (read rest : List Char) :
    (inWord read).run (word ++ rest) = (inWord (word.reverse ++ read)).run rest := by
  induction word generalizing read with
  | nil => rfl
  | cons c word ih =>
    have hstep : (inWord read).step c = some (inWord (c :: read), []) := by
      rw [step, outside_of_isLetter (h c (.head _))]
    rw [List.cons_append, run_cons_nil hstep, ih fun d hd => h d (.tail _ hd), List.reverse_cons,
      List.append_assoc]
    rfl

theorem run_word {word rest : List Char} (h : ∀ c ∈ word, isLetter c = true) (hne : word ≠ [])
    (hrest : Delimited rest) :
    between.run (word ++ rest) = (between.run rest).map (Token.word word :: ·) := by
  obtain ⟨c, word, rfl⟩ := List.exists_cons_of_ne_nil hne
  have hstep : between.step c = some (inWord [c], []) := by
    rw [step, outside_of_isLetter (h c (.head _))]
  have hread : word.reverse ++ [c] = (c :: word).reverse := List.reverse_cons.symm
  rw [List.cons_append, run_cons_nil hstep, run_inWord fun d hd => h d (.tail _ hd), hread]
  rcases hrest with rfl | ⟨d, more, t, rfl, ht⟩
  · change some [Token.word (c :: word).reverse.reverse] = _
    rw [List.reverse_reverse]
    rfl
  · have hend : (inWord (c :: word).reverse).step d =
        some (between, [.word (c :: word), t]) := by
      rw [step, outside_of_punctuation ht, List.reverse_reverse]
      rfl
    rw [run_cons hend, run_punctuation ht, Option.map_map]
    rfl

end Scanner

section Reading

variable {limits : Limits} {v : Json} {depth : Nat} {ts : List Token}

theorem Parser.run_cons {p next : Parser} {t : Token} (h : p.step limits t = some next)
    (more : List Token) : p.run limits (t :: more) = next.run limits more := by
  rw [Parser.run, h]
  rfl

/-- A value whose text has the tokens `ts`, of which it is made again. Arrays and objects that hold
something nest no deeper than `depth` in it. -/
structure Reads (limits : Limits) (v : Json) (depth : Nat) (ts : List Token) : Prop where
  scan : ∀ rest, Scanner.Delimited rest →
    Scanner.between.run (v.text ++ rest) = (Scanner.between.run rest).map (ts ++ ·)
  parse : ∀ stack more, stack.length + depth ≤ limits.depth →
    (Parser.value stack).run limits (ts ++ more) = (Parser.after v stack).run limits more

theorem Reads.mono {depth' : Nat} (h : Reads limits v depth ts) (hle : depth ≤ depth') :
    Reads limits v depth' ts := by
  refine ⟨h.scan, ?_⟩
  intro stack more hstack
  exact h.parse stack more (by omega)

/-- A value that is read back is what its text stands for. -/
theorem Reads.parseWithin (h : Reads limits v depth ts) (hdepth : depth ≤ limits.depth) :
    parseWithin limits v.text = some v := by
  have htokens : tokens v.text = some ts := by
    have hscan := h.scan [] (Or.inl rfl)
    rw [List.append_nil] at hscan
    refine hscan.trans ?_
    change some (ts ++ []) = _
    rw [List.append_nil]
  have hparse := h.parse [] [] (by rw [List.length_nil, Nat.zero_add]; exact hdepth)
  rw [List.append_nil] at hparse
  unfold Json.parseWithin
  rw [htokens, Option.bind_some, hparse]
  rfl

theorem reads_str (s : String) : Reads limits (.str s) 0 [.text s.toList] := by
  refine ⟨?_, ?_⟩
  · intro rest _
    change Scanner.between.run (quoted s ++ rest) = _
    exact Scanner.run_quoted rest s
  · intro stack more _
    have hstep : (Parser.value stack).step limits (.text s.toList) =
        some (.after (.str s) stack) := by
      change some (Parser.after (.str (String.ofList s.toList)) stack) = _
      rw [String.ofList_toList]
    exact Parser.run_cons hstep more

theorem reads_word {word : List Char} (htext : v.text = word)
    (hletters : ∀ c ∈ word, Scanner.isLetter c = true) (hne : word ≠ [])
    (hvalue : ofWord limits word = some v) : Reads limits v 0 [.word word] := by
  refine ⟨?_, ?_⟩
  · intro rest hrest
    rw [htext]
    exact Scanner.run_word hletters hne hrest
  · intro stack more _
    have hstep : (Parser.value stack).step limits (.word word) = some (.after v stack) := by
      change (ofWord limits word).map _ = _
      rw [hvalue]
      rfl
    exact Parser.run_cons hstep more

section Members

variable {members : List (String × Json)}

/-- The text of an object's members. -/
def membersText (members : List (String × Json)) : List Char :=
  commaSeparated ((memberTexts members).map fun m => quoted m.1 ++ ':' :: m.2)

theorem membersText_singleton (m : String × Json) :
    membersText [m] = quoted m.1 ++ ':' :: m.2.text := by
  obtain ⟨name, v⟩ := m
  unfold membersText
  rw [memberTexts, memberTexts]
  rfl

theorem membersText_cons_cons (m n : String × Json) (rest : List (String × Json)) :
    membersText (m :: n :: rest) =
      quoted m.1 ++ ':' :: (m.2.text ++ ',' :: membersText (n :: rest)) := by
  obtain ⟨name, v⟩ := m
  obtain ⟨name', v'⟩ := n
  unfold membersText
  rw [memberTexts, memberTexts]
  simp only [List.map_cons]
  rw [commaSeparated]
  · simp only [List.append_assoc, List.cons_append]
  · simp

/-- The members of an object are found one after another, up to the bracket that closes it. -/
theorem exists_memberTokens (hne : members ≠ [])
    (h : ∀ m ∈ members, ∃ ts, Reads limits m.2 depth ts) :
    ∃ ts name later, ts = .text name :: later ∧
      (∀ rest, Scanner.between.run (membersText members ++ '\x7d' :: rest) =
        (Scanner.between.run ('\x7d' :: rest)).map (ts ++ ·)) ∧
      ∀ before stack more, stack.length + 1 + depth ≤ limits.depth →
        (Parser.nextName before stack).run limits (ts ++ .closeObject :: more) =
          (Parser.after (.obj (before ++ members)) stack).run limits more := by
  -- By induction on the members, for any members read before, since the object under way holds
  -- those.
  induction members with
  | nil => exact absurd rfl hne
  | cons m rest ih =>
    obtain ⟨ts, hts⟩ := h m (.head _)
    have hname (before : List (String × Json)) (stack : List Frame) :
        (Parser.nextName before stack).step limits (.text m.1.toList) =
          some (.colon before m.1 stack) := by
      change some (Parser.colon before (String.ofList m.1.toList) stack) = _
      rw [String.ofList_toList]
    have hcolon (before : List (String × Json)) (stack : List Frame) :
        (Parser.colon before m.1 stack).step limits .colon =
          some (.value (.member before m.1 :: stack)) := rfl
    have hlength (before : List (String × Json)) (stack : List Frame)
        (hstack : stack.length + 1 + depth ≤ limits.depth) :
        (Frame.member before m.1 :: stack).length + depth ≤ limits.depth := hstack
    cases rest with
    | nil =>
      refine ⟨.text m.1.toList :: .colon :: ts, m.1.toList, .colon :: ts, rfl, ?_, ?_⟩
      · intro rest
        rw [membersText_singleton, List.append_assoc, List.cons_append, Scanner.run_quoted,
          Scanner.run_punctuation (t := .colon) rfl,
          hts.scan _ (Scanner.delimited_of_punctuation (t := .closeObject) rfl rest)]
        simp only [Option.map_map]
        rfl
      · intro before stack more hstack
        have hclose : (Parser.after m.2 (.member before m.1 :: stack)).step limits .closeObject =
            some (.after (.obj (before ++ [m])) stack) := rfl
        rw [List.cons_append, List.cons_append, Parser.run_cons (hname before stack),
          Parser.run_cons (hcolon before stack), hts.parse _ _ (hlength before stack hstack),
          Parser.run_cons hclose]
    | cons n rest =>
      obtain ⟨later, _, _, _, hscan, hparse⟩ :=
        ih (List.cons_ne_nil _ _) fun k hk => h k (.tail _ hk)
      refine ⟨.text m.1.toList :: .colon :: (ts ++ .comma :: later), m.1.toList, _, rfl, ?_, ?_⟩
      · intro more
        rw [membersText_cons_cons, List.append_assoc, List.cons_append, List.append_assoc,
          List.cons_append, Scanner.run_quoted, Scanner.run_punctuation (t := .colon) rfl,
          hts.scan _ (Scanner.delimited_of_punctuation (t := .comma) rfl _),
          Scanner.run_punctuation (t := .comma) rfl, hscan]
        simp only [Option.map_map]
        congr 1
        funext tail
        simp
      · intro before stack more hstack
        have hcomma : (Parser.after m.2 (.member before m.1 :: stack)).step limits .comma =
            some (.nextName (before ++ [m]) stack) := rfl
        rw [List.cons_append, List.cons_append, List.append_assoc,
          Parser.run_cons (hname before stack), Parser.run_cons (hcolon before stack),
          hts.parse _ _ (hlength before stack hstack), List.cons_append, Parser.run_cons hcomma,
          hparse _ _ _ hstack, List.append_assoc]
        rfl

theorem reads_obj (h : ∀ m ∈ members, ∃ ts, Reads limits m.2 depth ts) :
    ∃ ts, Reads limits (.obj members) (depth + 1) ts := by
  have htext (rest : List Char) :
      (Json.obj members).text ++ rest = '\x7b' :: (membersText members ++ '\x7d' :: rest) := by
    rw [text]
    unfold objectText membersText
    simp
  have hopen (stack : List Frame) : (Parser.value stack).step limits .openObject =
      some (.firstName stack) := rfl
  cases members with
  | nil =>
    refine ⟨[.openObject, .closeObject], ?_, ?_⟩
    · intro rest _
      rw [htext, Scanner.run_punctuation (t := .openObject) rfl]
      change Option.map _ (Scanner.between.run ('\x7d' :: rest)) = _
      rw [Scanner.run_punctuation (t := .closeObject) rfl, Option.map_map]
      rfl
    · intro stack more _
      rfl
  | cons m rest =>
    obtain ⟨ts, name, later, hts, hscan, hparse⟩ := exists_memberTokens (List.cons_ne_nil m rest) h
    refine ⟨.openObject :: (ts ++ [.closeObject]), ?_, ?_⟩
    · intro more _
      rw [htext, Scanner.run_punctuation (t := .openObject) rfl, hscan,
        Scanner.run_punctuation (t := .closeObject) rfl]
      simp only [Option.map_map]
      congr 1
      funext tail
      simp
    · intro stack more hstack
      have hdepth : stack.length < limits.depth := by omega
      -- The first name is read as any other one where nesting is not too deep.
      have hfirst : (Parser.firstName stack).run limits (ts ++ .closeObject :: more) =
          (Parser.nextName [] stack).run limits (ts ++ .closeObject :: more) := by
        have hstep : (Parser.firstName stack).step limits (.text name) =
            some (.colon [] (String.ofList name) stack) := if_pos hdepth
        have hstep' : (Parser.nextName [] stack).step limits (.text name) =
            some (.colon [] (String.ofList name) stack) := rfl
        rw [hts, List.cons_append, Parser.run_cons hstep, Parser.run_cons hstep']
      rw [List.cons_append, Parser.run_cons (hopen stack), List.append_assoc,
        List.singleton_append, hfirst, hparse [] stack more (by omega), List.nil_append]

end Members

end Reading

end RequestWindows.Json
