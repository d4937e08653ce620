import Mathlib.Data.List.TakeDrop
import Mathlib.Data.List.TakeWhile
import Mathlib.Tactic.SplitIfs
import SmallScheme.Datum.Printer
import SmallScheme.Reader.Basic
import SmallScheme.Reader.Token

namespace SmallScheme

/-!
# Written numbers are numerals

A whole number is written with the digits of its magnitude after an optional minus.  The reader
takes such a token for a number, and for the very number that was written.
-/

namespace Decimal

/-- The worth of a decimal digit is less than ten. -/
theorem digit?_of_isDigit
    {character : Char}
    (isDigit : character.isDigit) :
    digit? character = some (character.toNat - '0'.toNat) ∧ character.toNat - '0'.toNat < 10 := by
  have range : '0' ≤ character ∧ character ≤ '9' := by
    simpa [Char.isDigit, Char.le_def] using isDigit
  have atMost : character.toNat ≤ '9'.toNat := range.2
  have nine : '9'.toNat = 57 := rfl
  have zero : '0'.toNat = 48 := rfl
  exact ⟨by simp [digit?, range], by omega⟩

/-- Digits are read from the left, each one worth ten times what comes after it. -/
theorem naturalFrom?_eq_ofDigitChars
    {digits : List Char}
    (areDigits : ∀ character ∈ digits, character.isDigit)
    (sofar : Nat) :
    naturalFrom? 10 sofar digits = some (Nat.ofDigitChars 10 digits sofar) := by
  induction digits generalizing sofar with
  | nil =>
      rfl
  | cons character rest inductionHypothesis =>
      obtain ⟨value, below⟩ := digit?_of_isDigit (areDigits character List.mem_cons_self)
      have others : ∀ other ∈ rest, other.isDigit :=
        fun other member => areDigits other (List.mem_cons_of_mem _ member)
      have step :
          naturalFrom? 10 sofar (character :: rest) =
            (digit? character).bind fun digit =>
              Option.bind (guard (digit < 10)) fun _ =>
                naturalFrom? 10 (sofar * 10 + digit) rest :=
        rfl
      have allowed : guard (character.toNat - '0'.toNat < 10) = some () := if_pos below
      rw [step, value, Option.bind_some, allowed, Option.bind_some, inductionHypothesis others,
        Nat.ofDigitChars_cons, Nat.mul_comm]

/-- A number that begins with a digit has no sign. -/
theorem splitSign_of_isDigit
    {character : Char}
    (isDigit : character.isDigit)
    (rest : List Char) :
    splitSign (character :: rest) = (false, character :: rest) := by
  unfold splitSign
  split
  case h_1 same =>
    obtain ⟨rfl, _⟩ := List.cons.inj same
    cases isDigit
  case h_2 same =>
    obtain ⟨rfl, _⟩ := List.cons.inj same
    cases isDigit
  case h_3 => rfl

end Decimal

namespace Datum

/-- A natural number is written in digits. -/
theorem isDigit_of_mem_naturalChars
    {number : Nat}
    {character : Char}
    (member : character ∈ naturalChars number) :
    character.isDigit :=
  Nat.isDigit_of_mem_toDigits (by decide) (by decide) member

/-- There is at least one digit. -/
theorem exists_naturalChars_eq_cons
    (number : Nat) :
    ∃ first rest, naturalChars number = first :: rest ∧ first.isDigit := by
  obtain ⟨first, rest, shape⟩ := List.exists_cons_of_ne_nil (Nat.toDigits_ne_nil (n := number))
  exact ⟨first, rest, shape, isDigit_of_mem_naturalChars (shape ▸ List.mem_cons_self)⟩

/-- A written number starts with a digit, after a minus or not. -/
theorem integerChars_cases
    (number : Int) :
    ∃ first rest,
      first.isDigit ∧
        naturalChars number.natAbs = first :: rest ∧
          (number < 0 ∧ integerChars number = '-' :: first :: rest ∨
            0 ≤ number ∧ integerChars number = first :: rest) := by
  obtain ⟨first, rest, shape, isDigit⟩ := exists_naturalChars_eq_cons number.natAbs
  refine ⟨first, rest, isDigit, shape, ?_⟩
  by_cases negative : number < 0
  · exact .inl ⟨negative, by rw [integerChars, if_pos negative, shape]⟩
  · exact .inr ⟨Int.not_lt.mp negative, by rw [integerChars, if_neg negative, shape]⟩

end Datum

namespace Decimal

/-- A natural number is read back from its digits. -/
theorem natural?_naturalChars
    (number : Nat) :
    natural? 10 (Datum.naturalChars number) = some number := by
  have notEmpty : (Datum.naturalChars number).isEmpty = false :=
    List.isEmpty_eq_false_iff.mpr Nat.toDigits_ne_nil
  have value : Nat.ofDigitChars 10 (Datum.naturalChars number) 0 = number :=
    Nat.ofDigitChars_toDigits (by decide) (by decide)
  rw [natural?, notEmpty, naturalFrom?_eq_ofDigitChars fun _ => Datum.isDigit_of_mem_naturalChars,
    value]
  rfl

/-- A word is read back from its digits and its sign. -/
theorem integer?_integerChars
    (value : Int64) :
    integer? 10 (Datum.integerChars value.toInt) = some value := by
  obtain ⟨first, rest, isDigit, magnitude, ⟨negative, shape⟩ | ⟨nonnegative, shape⟩⟩ :=
    Datum.integerChars_cases value.toInt
  · have same : -(value.toInt.natAbs : Int) = value.toInt := by omega
    rw [shape, ← magnitude]
    simp only [integer?, splitSign, natural?_naturalChars, Option.bind_eq_bind, Option.bind_some,
      ↓reduceIte, same, word?_toInt]
  · have same : (value.toInt.natAbs : Int) = value.toInt := by omega
    rw [shape, integer?, splitSign_of_isDigit isDigit, ← magnitude]
    simp only [natural?_naturalChars, Option.bind_eq_bind, Option.bind_some, Bool.false_eq_true,
      ↓reduceIte, same, word?_toInt]

end Decimal

namespace Reader

/-- A written integer looks like a number and not like a name. -/
theorem looksNumeric_integerChars
    (number : Int) :
    looksNumeric (Datum.integerChars number) = true := by
  obtain ⟨first, rest, isDigit, _, ⟨_, shape⟩ | ⟨_, shape⟩⟩ := Datum.integerChars_cases number
  all_goals
    have noPoint : first ≠ '.' := by
      rintro rfl
      cases isDigit
  · simp [shape, looksNumeric, Decimal.splitSign, noPoint, isDigit]
  · simp [shape, looksNumeric, Decimal.splitSign_of_isDigit isDigit, noPoint, isDigit]

/-- The reals that are written as words have a letter where a number has its first digit. -/
theorem namedReal?_integerChars
    (number : Int) :
    namedReal? (Datum.integerChars number) = none := by
  obtain ⟨first, rest, isDigit, _, ⟨_, shape⟩ | ⟨_, shape⟩⟩ := Datum.integerChars_cases number
  all_goals
    rw [shape, namedReal?]
    have apart : first ≠ '+' ∧ first ≠ '-' ∧ first ≠ 'i' ∧ first ≠ 'n' := by
      refine ⟨?_, ?_, ?_, ?_⟩ <;> rintro rfl <;> cases isDigit
    simp [apart]

/-- A written word is read back as a numeral. -/
theorem readNumeral_integerChars
    (value : Int64) :
    readNumeral (Datum.integerChars value.toInt) = .number (.integer value) := by
  rw [readNumeral, namedReal?_integerChars, looksNumeric_integerChars,
    Decimal.integer?_integerChars]
  rfl

end Reader

/-!
## Written literals are read back

Names, numbers, characters, texts and the patterns of regular expressions, one at a time and in
front of any text that ends a token.
-/

namespace Reader

/-- A token that the reader takes for the name of a symbol. -/
structure IsName (token : List Char) : Prop where
  nonempty : token ≠ []
  undelimited : ∀ character ∈ token, isDelimiter character = false
  notDot : token ≠ ['.']
  notHash : token.head? ≠ some '#'
  notNumeric : readNumeral token = .notNumeric

/-! Tokens end at delimiters. -/

/-- Layout ends tokens. -/
theorem isDelimiter_of_isLayout
    {character : Char}
    (layout : Text.isLayout character = true) :
    isDelimiter character = true := by
  simp [isDelimiter, Text.isBlank_of_isLayout layout]

/-- Digits end no token. -/
theorem not_isDelimiter_of_isDigit
    {character : Char}
    (isDigit : character.isDigit) :
    isDelimiter character = false := by
  have range : '0' ≤ character ∧ character ≤ '9' := by
    simpa [Char.isDigit, Char.le_def] using isDigit
  have low : 48 ≤ character.toNat := range.1
  have high : character.toNat ≤ 57 := range.2
  have notBlank : Text.isBlank character = false := by
    simp only [Text.isBlank, Text.blankRanges, Text.CodeRanges.contains, List.any_cons,
      List.any_nil, Bool.or_false, Bool.or_eq_false_iff, Bool.and_eq_false_iff,
      decide_eq_false_iff_not]
    omega
  have apart : ∀ other : Char, other.toNat < 48 ∨ 57 < other.toNat → character ≠ other := by
    rintro _ outside rfl
    omega
  simp only [isDelimiter, notBlank, Bool.false_or, Bool.or_eq_false_iff, decide_eq_false_iff_not]
  refine ⟨⟨⟨⟨⟨⟨?_, ?_⟩, ?_⟩, ?_⟩, ?_⟩, ?_⟩, ?_⟩ <;> exact apart _ (by decide)

/-- A written integer is one token. -/
theorem not_isDelimiter_of_mem_integerChars
    {number : Int}
    {character : Char}
    (member : character ∈ Datum.integerChars number) :
    isDelimiter character = false := by
  have digits :
      character ∈ Datum.naturalChars number.natAbs → isDelimiter character = false :=
    fun inDigits => not_isDelimiter_of_isDigit (Datum.isDigit_of_mem_naturalChars inDigits)
  rw [Datum.integerChars] at member
  split at member
  · rcases List.mem_cons.mp member with rfl | inDigits
    · decide
    · exact digits inDigits
  · exact digits member

/-- The check of a token says what it is for. -/
theorem undelimited_of_all
    {token : List Char}
    (all : (token.all fun character => !isDelimiter character) = true) :
    ∀ character ∈ token, isDelimiter character = false := by
  simpa using all

/-- A token ends at the first delimiter behind it. -/
theorem spanToken_append
    (token : List Char)
    (undelimited : ∀ character ∈ token, isDelimiter character = false)
    {rest : List Char}
    (ends : endsToken rest = true) :
    spanToken (token ++ rest) = (token, rest) := by
  have holds : ∀ character ∈ token, (!isDelimiter character) = true := by
    intro character member
    rw [undelimited character member]
    rfl
  rw [spanToken, List.span_eq_takeWhile_dropWhile, List.takeWhile_append_of_pos holds,
    List.dropWhile_append_of_pos holds]
  cases rest with
  | nil =>
      simp
  | cons character others =>
      have delimits : isDelimiter character = true := ends
      simp [delimits]

/-- There are no delimiters in a token. -/
theorem spanToken_fst
    (text : List Char) :
    ∀ character ∈ (spanToken text).1, isDelimiter character = false := by
  intro character member
  rw [spanToken, List.span_eq_takeWhile_dropWhile] at member
  simpa using List.mem_takeWhile_imp member

/-! Names and numbers. -/

/-- A name is read back as the symbol. -/
theorem readAtom_name
    {token : List Char}
    (isName : IsName token)
    {rest : List Char}
    (ends : endsToken rest = true) :
    readAtom (token ++ rest) = .ok (.symbol (String.ofList token), rest) := by
  have nonempty : token.isEmpty = false := List.isEmpty_eq_false_iff.mpr isName.nonempty
  simp only [readAtom, spanToken_append token isName.undelimited ends, nonempty, isName.notDot,
    decide_false, Bool.or_self, Bool.false_eq_true, ↓reduceIte, isName.notNumeric]

/-- A word is read back as the integer. -/
theorem readAtom_integer
    (value : Int64)
    {rest : List Char}
    (ends : endsToken rest = true) :
    readAtom (Datum.integerChars value.toInt ++ rest) = .ok (.integer value, rest) := by
  have undelimited :
      ∀ character ∈ Datum.integerChars value.toInt, isDelimiter character = false :=
    fun _ => not_isDelimiter_of_mem_integerChars
  have shape :
      (Datum.integerChars value.toInt).isEmpty = false ∧
        Datum.integerChars value.toInt ≠ ['.'] := by
    obtain ⟨first, others, isDigit, _, ⟨_, shape⟩ | ⟨_, shape⟩⟩ :=
      Datum.integerChars_cases value.toInt
    · simp [shape]
    · refine ⟨by simp [shape], ?_⟩
      rw [shape]
      intro same
      obtain ⟨rfl, _⟩ := List.cons.inj same
      cases isDigit
  simp only [readAtom, spanToken_append _ undelimited ends, shape, decide_false,
    Bool.or_self, Bool.false_eq_true, ↓reduceIte, readNumeral_integerChars]

/-- A character is read back, be it written by its name or as it is. -/
theorem readCharacter_written
    (character : Char)
    {rest : List Char}
    (ends : endsToken rest = true) :
    readCharacter
        ((match Datum.characterName? character with
          | some name => name.toList
          | none => [character]) ++ rest) =
      .ok (.character character, rest) := by
  have named
      (first : Char)
      (others : List Char)
      (nonempty : others.isEmpty = false)
      (undelimited : (others.all fun other => !isDelimiter other) = true)
      (means : namedCharacter? (first :: others) = some character) :
      readCharacter (first :: others ++ rest) = .ok (.character character, rest) := by
    simp [readCharacter, spanToken_append others (undelimited_of_all undelimited) ends, nonempty,
      means]
  unfold Datum.characterName?
  split_ifs with isSpace isNewline isTab isReturn isNull isDelete isEscape isAlarm isBackspace
  · exact named 's' "pace".toList (by decide) (by decide)
      (by rw [isSpace]; decide)
  · exact named 'n' "ewline".toList (by decide) (by decide)
      (by rw [isNewline]; decide)
  · exact named 't' "ab".toList (by decide) (by decide)
      (by rw [isTab]; decide)
  · exact named 'r' "eturn".toList (by decide) (by decide)
      (by rw [isReturn]; decide)
  · exact named 'n' "ull".toList (by decide) (by decide)
      (by rw [isNull]; decide)
  · exact named 'd' "elete".toList (by decide) (by decide)
      (by rw [isDelete]; decide)
  · exact named 'e' "scape".toList (by decide) (by decide)
      (by rw [isEscape]; decide)
  · exact named 'a' "larm".toList (by decide) (by decide)
      (by rw [isAlarm]; decide)
  · exact named 'b' "ackspace".toList (by decide) (by decide)
      (by rw [isBackspace]; decide)
  · have alone : spanToken rest = ([], rest) := spanToken_append [] (by simp) ends
    simp [readCharacter, alone]

/-- A truth value is read back from its letter. -/
theorem readConstant_boolean
    (value : Bool)
    {rest : List Char}
    (ends : endsToken rest = true) :
    readConstant ('#' :: (if value then 't' else 'f') :: rest) = .ok (.boolean value, rest) := by
  cases value with
  | true =>
      have token : spanToken ('t' :: rest) = (['t'], rest) :=
        spanToken_append ['t'] (List.forall_mem_singleton.mpr rfl) ends
      simp [readConstant, token]
  | false =>
      have token : spanToken ('f' :: rest) = (['f'], rest) :=
        spanToken_append ['f'] (List.forall_mem_singleton.mpr rfl) ends
      simp [readConstant, token]

/-! Texts. -/

/-- A quotation mark ends the text. -/
theorem readText_quote
    (rest : List Char) :
    readText false ('\x22' :: rest) = .ok ([], rest) := by
  cases rest <;> simp [readText]

/-- What stands for one character in a text literal is read as this character. -/
theorem readText_textCharacter
    (character : Char)
    {rest characters last : List Char}
    (reads : readText false rest = .ok (characters, last)) :
    readText false (Datum.textCharacter character ++ rest) =
      .ok (character :: characters, last) := by
  have escaped
      {letter : Char}
      (notNewline : letter ≠ '\n')
      (means : textEscape? letter = some character) :
      readText false ('\\' :: letter :: rest) = .ok (character :: characters, last) := by
    simp [readText, notNewline, means, reads, bind, Except.bind, pure, Except.pure]
  unfold Datum.textCharacter
  split_ifs with isQuote isBackslash isNewline isTab isReturn
  · exact escaped (by decide) (by rw [isQuote]; rfl)
  · exact escaped (by decide) (by rw [isBackslash]; rfl)
  · exact escaped (by decide) (by rw [isNewline]; rfl)
  · exact escaped (by decide) (by rw [isTab]; rfl)
  · exact escaped (by decide) (by rw [isReturn]; rfl)
  · cases rest <;>
      simp [readText, isQuote, isBackslash, bind, Except.bind, pure, Except.pure] at reads ⊢
    exact reads ▸ rfl

/-- Escapes are undone one by one. -/
theorem readText_written
    (characters rest : List Char) :
    readText false (characters.flatMap Datum.textCharacter ++ '\x22' :: rest) =
      .ok (characters, rest) := by
  induction characters with
  | nil =>
      exact readText_quote rest
  | cons character others inductionHypothesis =>
      rw [List.flatMap_cons, List.append_assoc]
      exact readText_textCharacter character inductionHypothesis

/-! Patterns of regular expressions. -/

/-- What a pattern between slashes may look like once it is read: no backslash is left alone. -/
inductive IsPattern : List Char → Prop
  | nil : IsPattern []
  | escaped
      {character : Char}
      {rest : List Char}
      (notSlash : character ≠ '/')
      (others : IsPattern rest) :
      IsPattern ('\\' :: character :: rest)
  | plain
      {character : Char}
      {rest : List Char}
      (notBackslash : character ≠ '\\')
      (others : IsPattern rest) :
      IsPattern (character :: rest)

/-- Whatever the reader finds between two slashes is a pattern. -/
theorem isPattern_of_readPattern
    {text characters rest : List Char}
    (accepted : readPattern text = .ok (characters, rest)) :
    IsPattern characters := by
  fun_induction readPattern text generalizing characters rest with
  | case1 =>
      cases accepted
  | case2 rest =>
      cases accepted
      exact .nil
  | case3 =>
      cases accepted
  | case4 character after inductionHypothesis =>
      cases outcome : readPattern after with
      | error failure =>
          rw [outcome] at accepted
          cases accepted
      | ok found =>
          obtain ⟨others, last⟩ := found
          have isPattern := inductionHypothesis outcome
          rw [outcome] at accepted
          simp only [bind, Except.bind] at accepted
          split at accepted
          case isTrue =>
            cases accepted
            exact .plain (by decide) isPattern
          case isFalse notSlash =>
            cases accepted
            exact .escaped notSlash isPattern
  | case5 character after _ notLone notEscaped inductionHypothesis =>
      cases outcome : readPattern after with
      | error failure =>
          rw [outcome] at accepted
          cases accepted
      | ok found =>
          obtain ⟨others, last⟩ := found
          rw [outcome] at accepted
          cases accepted
          refine .plain ?_ (inductionHypothesis outcome)
          rintro rfl
          cases after with
          | nil =>
              exact notLone rfl rfl
          | cons next further =>
              exact notEscaped _ _ rfl rfl

/-- Between slashes a pattern is read up to its own first slash. -/
theorem readPattern_written
    {characters : List Char}
    (isPattern : IsPattern characters)
    (rest : List Char) :
    ∃ last,
      readPattern (characters ++ '/' :: rest) = .ok (characters.takeWhile (· ≠ '/'), last) ∧
        ('/' ∉ characters → last = rest) := by
  induction isPattern with
  | nil =>
      exact ⟨rest, by simp [readPattern], fun _ => rfl⟩
  | @escaped character others notSlash _ inductionHypothesis =>
      obtain ⟨last, reads, same⟩ := inductionHypothesis
      refine ⟨last, ?_, fun absent => same fun member => absent (by simp [member])⟩
      simp [readPattern, reads, notSlash, bind, Except.bind, pure, Except.pure]
  | @plain character others notBackslash _ inductionHypothesis =>
      obtain ⟨last, reads, same⟩ := inductionHypothesis
      by_cases isSlash : character = '/'
      · subst isSlash
        exact ⟨others ++ '/' :: rest, by simp [readPattern], fun absent => (absent (by simp)).elim⟩
      · refine ⟨last, ?_, fun absent => same fun member => absent (by simp [member])⟩
        simp [readPattern, reads, isSlash, notBackslash, bind, Except.bind, pure, Except.pure]

end Reader

end SmallScheme
