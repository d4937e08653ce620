import SmallScheme.Proofs.Reader.Recovery
import SmallScheme.Regex.Search

namespace SmallScheme

/-!
# Atoms are read back

The data without parts that are data themselves.  All of them but regular expressions are always
read back; of a regular expression the reader gets the pattern up to its first slash.
-/

variable {engine : Regex.Engine}

namespace Datum

open Reader

/-- Every word is read back. -/
theorem ReadsBack.integer
    (value : Int64) :
    (Datum.integer value).ReadsBack := by
  refine .of_whole nofun fun {fuel depth rest} ends enough shallow => ?_
  obtain ⟨fuel, rfl⟩ : ∃ further, fuel = further + 1 := ⟨fuel - 1, by omega⟩
  have within : depth < maxNesting := Nat.lt_of_le_of_lt (Nat.le_add_right _ _) shallow
  have reads := readAtom_integer value ends
  change readDatum (fuel + 1) depth (integerChars value.toInt ++ rest) = _
  obtain ⟨first, others, isDigit, _, ⟨_, shape⟩ | ⟨_, shape⟩⟩ := integerChars_cases value.toInt
  · rw [shape] at reads ⊢
    exact (readDatum_token within (by decide) (by decide)).trans reads
  · have notHash : first ≠ '#' := by
      rintro rfl
      cases isDigit
    rw [shape] at reads ⊢
    exact (readDatum_token within (not_isDelimiter_of_isDigit isDigit) notHash).trans reads

/-- Both truth values are read back. -/
theorem ReadsBack.boolean
    (value : Bool) :
    (Datum.boolean value).ReadsBack := by
  refine .of_whole nofun fun {fuel depth rest} ends enough shallow => ?_
  obtain ⟨fuel, rfl⟩ : ∃ further, fuel = further + 1 := ⟨fuel - 1, by omega⟩
  exact (readDatum_boolean shallow value rest).trans (readConstant_boolean value ends)

/-- Every character is read back, by name where it has one. -/
theorem ReadsBack.character
    (value : Char) :
    (Datum.character value).ReadsBack := by
  refine .of_whole nofun fun {fuel depth rest} ends enough shallow => ?_
  obtain ⟨fuel, rfl⟩ : ∃ further, fuel = further + 1 := ⟨fuel - 1, by omega⟩
  exact (readDatum_character shallow _).trans (readCharacter_written value ends)

/-- Every text is read back, with its escapes. -/
theorem ReadsBack.text
    (value : String) :
    (Datum.text value).ReadsBack := by
  refine .of_whole nofun fun {fuel depth rest} _ enough shallow => ?_
  obtain ⟨fuel, rfl⟩ : ∃ further, fuel = further + 1 := ⟨fuel - 1, by omega⟩
  have shape : render .whole (.text value) ++ rest =
      '\x22' :: (value.toList.flatMap textCharacter ++ '\x22' :: rest) := by
    simp [render, Place.wrap, textChars]
  have within : depth < maxNesting := shallow
  rw [shape, readDatum_quote within (readText_written _ _), String.ofList_toList]

/-- A symbol is read back if it is spelled like a name. -/
theorem ReadsBack.symbol
    {name : String}
    (isName : IsName name.toList) :
    (Datum.symbol name).ReadsBack := by
  refine .of_whole nofun fun {fuel depth rest} ends enough shallow => ?_
  obtain ⟨fuel, rfl⟩ : ∃ further, fuel = further + 1 := ⟨fuel - 1, by omega⟩
  have reads := readAtom_name isName ends
  obtain ⟨first, others, shape⟩ := List.exists_cons_of_ne_nil isName.nonempty
  have undelimited := isName.undelimited first (shape ▸ List.mem_cons_self)
  have notHash : first ≠ '#' := by
    rintro rfl
    exact isName.notHash (by rw [shape]; rfl)
  change readDatum (fuel + 1) depth (name.toList ++ rest) = _
  rw [String.ofList_toList, shape] at reads
  rw [shape]
  exact (readDatum_token shallow undelimited notHash).trans reads

/-- The bytes of a bytevector are read as whole numbers. -/
theorem mapM_byte?
    (bytes : List UInt8) :
    (bytes.map fun byte => Datum.integer (Int64.ofNat byte.toNat)).mapM byte? = some bytes := by
  have denotes (byte : UInt8) : byte? (.integer (Int64.ofNat byte.toNat)) = some byte := by
    have small : byte.toNat < 256 := byte.toNat_lt
    have value : (Int64.ofNat byte.toNat).toInt = byte.toNat :=
      Int64.toInt_ofNat_of_lt (by omega)
    simp only [byte?, value, Int.toNat_natCast, UInt8.ofNat_toNat]
    rw [if_pos]
    simp only [Bool.and_eq_true, decide_eq_true_eq]
    omega
  induction bytes with
  | nil =>
      rfl
  | cons byte rest inductionHypothesis =>
      rw [List.map_cons, List.mapM_cons, denotes, inductionHypothesis]
      rfl

/-- Every bytevector is read back. -/
theorem ReadsBack.bytevector
    (bytes : List UInt8) :
    (Datum.bytevector bytes).ReadsBack := by
  refine .of_whole nofun fun {fuel depth rest} _ enough shallow => ?_
  let numbers : List Datum := bytes.map fun byte => .integer (Int64.ofNat byte.toNat)
  have written : renderAll numbers = bytes.map fun byte => naturalChars byte.toNat := by
    rw [renderAll_eq_map, List.map_map]
    refine List.map_congr_left fun byte _ => ?_
    have small : byte.toNat < 256 := byte.toNat_lt
    have value : (Int64.ofNat byte.toNat).toInt = byte.toNat :=
      Int64.toInt_ofNat_of_lt (by omega)
    change integerChars (Int64.ofNat byte.toNat).toInt = _
    rw [value, integerChars, if_neg (by omega), Int.natAbs_natCast]
  have levels : nestingIn numbers = (Datum.bytevector bytes).nesting .whole := by
    cases bytes with
    | nil =>
        rfl
    | cons byte others =>
        have flat : ∀ bytes : List UInt8,
            nestingIn (bytes.map fun byte => .integer (Int64.ofNat byte.toNat)) ≤ 1 := by
          intro bytes
          induction bytes with
          | nil => exact Nat.zero_le 1
          | cons byte rest inductionHypothesis =>
              exact Nat.max_le.mpr ⟨Nat.le_refl 1, inductionHypothesis⟩
        exact Nat.max_eq_left (flat others)
  have shape : render .whole (.bytevector bytes) ++ rest =
      '#' :: 'u' :: '8' :: '(' :: (spaced (renderAll numbers) ++ ')' :: rest) := by
    simp [render, Place.wrap, written]
  have areIntegers {item : Datum} (member : item ∈ numbers) : ∃ value, item = .integer value := by
    obtain ⟨byte, _, rfl⟩ := List.mem_map.mp member
    exact ⟨_, rfl⟩
  rw [shape] at enough ⊢
  simp only [List.length_cons] at enough
  rw [← levels] at shallow
  obtain ⟨fuel, rfl⟩ : ∃ further, fuel = further + 1 := ⟨fuel - 1, by omega⟩
  refine readDatum_bytevector (by omega) (readItems_written ?_ ?_ (by omega) shallow)
    (mapM_byte? bytes)
  · intro item member rest
    obtain ⟨value, rfl⟩ := areIntegers member
    have readable : (Datum.integer value).IsReadable := trivial
    have notReal : ¬(Datum.integer value).IsReal := id
    exact starts_render readable notReal rest
  · intro item member
    obtain ⟨value, rfl⟩ := areIntegers member
    exact .integer value

/-- A regular expression is read up to the first slash in its pattern. -/
theorem readDatum_pattern
    {pattern : String}
    (isPattern : IsPattern pattern.toList)
    (compiles : Regex.Engine.compiles pattern)
    {fuel depth : Nat}
    (shallow : depth < maxNesting)
    (rest : List Char) :
    ('/' ∉ pattern.toList →
        readDatum (fuel + 1) depth (render .whole (.regex pattern) ++ rest) =
          .ok (.regex pattern, rest)) ∧
      ('/' ∈ pattern.toList →
        ∀ last,
          readDatum (fuel + 1) depth (render .whole (.regex pattern) ++ rest) ≠
            .ok (.regex pattern, last)) := by
  have shape : render .whole (.regex pattern) ++ rest =
      '#' :: '/' :: (pattern.toList ++ '/' :: rest) := by
    simp [render, Place.wrap]
  obtain ⟨last, reads, same⟩ := readPattern_written isPattern rest
  rw [shape, readDatum_regex shallow, readRegex, reads]
  constructor
  · intro absent
    have whole : pattern.toList.takeWhile (· ≠ '/') = pattern.toList := by
      rw [List.takeWhile_eq_self_iff]
      intro character member
      rw [decide_eq_true_eq]
      rintro rfl
      exact absent member
    rw [same absent, whole]
    simp only [bind, Except.bind, String.ofList_toList, compiles]
    rfl
  · intro present other accepted
    simp only [bind, Except.bind] at accepted
    split at accepted
    · have same := congrArg String.toList (Datum.regex.inj (Prod.mk.inj (Except.ok.inj accepted)).1)
      rw [String.toList_ofList] at same
      rw [← same] at present
      simpa using List.mem_takeWhile_imp present
    · cases accepted

end Datum

/-!
## Written data are read back

Main results.  Reading undoes writing for all plain data, one by one and as the forms of a program,
exactly as far as the reader's limit on nesting allows.  A datum that was itself read from a text,
without reals in it, is read back from its written form exactly if that form is unambiguous.
-/

namespace Datum

open Reader

/-- The datum reads back if its written form is unambiguous, and it is lost otherwise. -/
def IsSettled [Regex.Engine] (datum : Datum) : Prop :=
  datum.Everywhere IsUnambiguous ∧ datum.ReadsBack ∨
    ¬datum.Everywhere IsUnambiguous ∧ datum.Lost

/-- What is read back is settled if nothing in it is ambiguous. -/
theorem IsSettled.of_readsBack
    {datum : Datum}
    (unambiguous : datum.Everywhere IsUnambiguous)
    (readsBack : datum.ReadsBack) :
    datum.IsSettled :=
  .inl ⟨unambiguous, readsBack⟩

/-- A pair is settled if its parts are. -/
theorem IsSettled.pair
    {head tail : Datum}
    (starts : ∀ rest, Starts (render .whole head ++ rest))
    (settledHead : head.IsSettled)
    (settledTail : tail.IsSettled) :
    (Datum.pair head tail).IsSettled := by
  rcases settledHead with ⟨clearHead, readsHead⟩ | ⟨unclearHead, lostHead⟩
  · rcases settledTail with ⟨clearTail, readsTail⟩ | ⟨unclearTail, lostTail⟩
    · exact .inl ⟨⟨trivial, clearHead, clearTail⟩, .pair starts readsHead readsTail⟩
    · exact .inr ⟨fun clear => unclearTail clear.2.2, .pair starts (.inr ⟨readsHead, lostTail⟩)⟩
  · exact .inr ⟨fun clear => unclearHead clear.2.1, .pair starts (.inl lostHead)⟩

/-- A vector is settled if its items are. -/
theorem IsSettled.vector
    {items : List Datum}
    (starts : ∀ item ∈ items, ∀ rest, Starts (render .whole item ++ rest))
    (settled : ∀ item ∈ items, item.IsSettled) :
    (Datum.vector items).IsSettled := by
  by_cases clear : ∀ item ∈ items, item.Everywhere IsUnambiguous
  · refine .inl ⟨⟨trivial, everywhereIn_iff.mpr clear⟩, .vector starts fun item member => ?_⟩
    rcases settled item member with ⟨_, readsBack⟩ | ⟨unclear, _⟩
    · exact readsBack
    · exact (unclear (clear item member)).elim
  · push Not at clear
    obtain ⟨item, member, unclear⟩ := clear
    refine .inr ⟨fun all => unclear (everywhereIn_iff.mp all.2 item member), ?_⟩
    refine .vector starts (fun other inItems => ?_) ⟨item, member, ?_⟩
    · exact (settled other inItems).imp And.right And.right
    · rcases settled item member with ⟨isClear, _⟩ | ⟨_, lost⟩
      · exact (unclear isClear).elim
      · exact lost

/-- A marked datum is settled if what it marks is. -/
theorem IsSettled.marked
    {mark : Mark}
    {inner : Datum}
    (readable : inner.IsReadable)
    (notReal : ¬inner.IsReal)
    (settled : inner.IsSettled) :
    (Datum.marked mark inner).IsSettled := by
  by_cases clear : (Datum.marked mark inner).IsUnambiguous
  · have apart : mark = .unquote → ∀ rest, (render .whole inner ++ rest).head? ≠ some '@' := by
      rintro rfl rest
      refine head?_render_ne_at readable notReal ?_ rest
      rintro name rfl
      exact clear
    rcases settled with ⟨clearInner, readsBack⟩ | ⟨unclearInner, lost⟩
    · exact .inl ⟨⟨clear, clearInner⟩, .marked apart readsBack⟩
    · exact .inr ⟨fun all => unclearInner all.2, .marked apart lost⟩
  · refine .inr ⟨fun all => clear all.1, ?_⟩
    unfold IsUnambiguous at clear
    split at clear
    case h_1 same =>
      cases same
    case h_2 name same =>
      cases same
      exact .unquote (not_not.mp clear)
    case h_3 => exact (clear trivial).elim

/-- A regular expression is settled, and lost if a slash stands in its pattern. -/
theorem IsSettled.regex
    {pattern : String}
    (isPattern : IsPattern pattern.toList)
    (compiles : Regex.Engine.compiles pattern) :
    (Datum.regex pattern).IsSettled := by
  by_cases slash : '/' ∈ pattern.toList
  · refine .inr ⟨fun clear => clear slash, .of_whole nofun ?_⟩
    intro fuel depth rest last _ enough within
    obtain ⟨fuel, rfl⟩ : ∃ further, fuel = further + 1 := ⟨fuel - 1, by omega⟩
    exact (readDatum_pattern isPattern compiles within rest).2 slash last
  · refine .inl ⟨slash, .of_whole nofun fun {fuel depth rest} _ enough within => ?_⟩
    obtain ⟨fuel, rfl⟩ : ∃ further, fuel = further + 1 := ⟨fuel - 1, by omega⟩
    exact (readDatum_pattern isPattern compiles within rest).1 slash

mutual

/-- Every readable datum without reals is settled, by recursion on the datum. -/
theorem isSettled
    (datum : Datum)
    (readable : datum.Everywhere IsReadable)
    (noReal : datum.Everywhere fun part => ¬part.IsReal) :
    datum.IsSettled := by
  match datum with
  | .nil => exact .of_readsBack trivial .nil
  | .integer value => exact .of_readsBack trivial (.integer value)
  | .boolean value => exact .of_readsBack trivial (.boolean value)
  | .character value => exact .of_readsBack trivial (.character value)
  | .text value => exact .of_readsBack trivial (.text value)
  | .symbol name => exact .of_readsBack trivial (.symbol readable)
  | .bytevector bytes => exact .of_readsBack trivial (.bytevector bytes)
  | .regex pattern => exact .regex readable.1 readable.2
  | .pair head tail =>
      obtain ⟨_, readableHead, readableTail⟩ := readable
      obtain ⟨_, noRealHead, noRealTail⟩ := noReal
      exact .pair (starts_render readableHead.here noRealHead.here)
        (isSettled head readableHead noRealHead) (isSettled tail readableTail noRealTail)
  | .vector items =>
      refine .vector (fun item member => ?_) (isSettledIn items readable.2 noReal.2)
      exact starts_render (everywhereIn_iff.mp readable.2 item member).here
        (everywhereIn_iff.mp noReal.2 item member).here
  | .marked mark inner =>
      exact .marked readable.2.here noReal.2.here (isSettled inner readable.2 noReal.2)
  | .real value => exact (noReal trivial).elim
  | .unspecified => exact readable.elim
  | .program forms => exact readable.1.elim
  | .circular items => exact readable.1.elim
  | .handle kind shown => exact readable.elim

theorem isSettledIn
    (data : List Datum)
    (readable : EverywhereIn IsReadable data)
    (noReal : EverywhereIn (fun part => ¬part.IsReal) data) :
    ∀ datum ∈ data, datum.IsSettled := by
  match data with
  | [] => exact fun _ member => nomatch member
  | first :: others =>
      exact List.forall_mem_cons.mpr
        ⟨isSettled first readable.1 noReal.1, isSettledIn others readable.2 noReal.2⟩

end

/-- Plain data are read back. -/
theorem readsBack_of_plain
    {datum : Datum}
    (plain : datum.Everywhere IsPlain) :
    datum.ReadsBack := by
  have settled : datum.IsSettled :=
    datum.isSettled (plain.mono fun _ part => part.facts.1)
      (plain.mono fun _ part => (@IsPlain.facts engine _ part).2.1)
  rcases settled with ⟨_, readsBack⟩ | ⟨unclear, _⟩
  · exact readsBack
  · exact (unclear (plain.mono fun _ part => (@IsPlain.facts engine _ part).2.2)).elim

end Datum

namespace Reader

open Datum

variable
  {source : String}
  {datum : Datum}

/-- Exactly one datum is read where the datum is read and nothing but blanks is left. -/
theorem readOne_eq_ok_iff :
    readOne source = .ok datum ↔
      ∃ rest,
        readDatum (readingFuel source.toList) 0 source.toList = .ok (datum, rest) ∧
          afterGap rest = [] := by
  unfold readOne
  dsimp only
  split
  case h_1 failure fails =>
    simp [fails]
  case h_2 found rest reads =>
    rw [reads]
    split
    case h_1 closed =>
      constructor
      · intro same
        cases same
        exact ⟨rest, rfl, closed⟩
      · rintro ⟨last, same, _⟩
        cases same
        rfl
    case h_2 unclosed =>
      constructor
      · nofun
      · rintro ⟨last, same, closed⟩
        cases same
        exact (unclosed closed).elim

/-- An accepted datum can be written wherever one may stand. -/
theorem fits_of_readOne
    (accepted : readOne source = .ok datum) :
    datum.FitsAt .whole 0 := by
  obtain ⟨_, reads, _⟩ := readOne_eq_ok_iff.mp accepted
  exact (accepts _).whole reads

/-- The fuel is enough for the whole text. -/
theorem lt_readingFuel
    (text : List Char) :
    3 * text.length < readingFuel text := by
  rw [readingFuel]
  omega

/-- A datum that is not nested too deeply is read back from its text. -/
theorem readOne_written
    (readsBack : datum.ReadsBack)
    (shallow : datum.nesting .whole < maxNesting) :
    readOne datum.written = .ok datum := by
  have within : 0 + datum.nesting .whole < maxNesting := by rwa [Nat.zero_add]
  have ends : endsToken [] = true := rfl
  have reads := readsBack.whole ends (lt_readingFuel _) within
  rw [List.append_nil] at reads
  rw [readOne_eq_ok_iff, written, String.toList_ofList]
  exact ⟨[], reads, rfl⟩

/-- Whatever the reader makes of its written form, it is not the lost datum. -/
theorem readOne_lost
    (lost : datum.Lost)
    (shallow : datum.nesting .whole < maxNesting) :
    readOne datum.written ≠ .ok datum := by
  have within : 0 + datum.nesting .whole < maxNesting := by rwa [Nat.zero_add]
  rw [ne_eq, readOne_eq_ok_iff, written, String.toList_ofList]
  rintro ⟨rest, reads, _⟩
  have ends : endsToken [] = true := rfl
  rw [← List.append_nil (render .whole datum)] at reads
  exact lost.whole ends (lt_readingFuel _) within reads

/-! Programs. -/

/-- A program is accepted if its forms are. -/
theorem readAll_eq_ok_iff
    {forms : List Datum} :
    readAll source = .ok forms ↔
      readForms (source.toList.length + 1) source.toList = .ok forms := by
  unfold readAll
  dsimp only
  split
  case h_1 failure fails =>
    simp [fails]
  case h_2 found accepted =>
    simp [accepted]

/-- All forms of an accepted program can be written. -/
theorem fits_of_readForms
    {fuel : Nat}
    {text : List Char}
    {forms : List Datum}
    (accepted : readForms fuel text = .ok forms) :
    ∀ form ∈ forms, form.FitsAt .whole 0 := by
  induction fuel generalizing text forms with
  | zero =>
      cases accepted
  | succ fuel inductionHypothesis =>
      rw [readForms] at accepted
      split at accepted
      · cases accepted
        exact fun _ member => nomatch member
      · obtain ⟨⟨form, rest⟩, readsForm, accepted⟩ := bind_eq_ok_iff.mp accepted
        obtain ⟨others, readsOthers, accepted⟩ := bind_eq_ok_iff.mp accepted
        cases accepted
        exact List.forall_mem_cons.mpr
          ⟨(accepts _).whole readsForm, inductionHypothesis readsOthers⟩

/-- The line between two forms is passed over. -/
theorem afterGap_newline
    (text : List Char) :
    afterGap ('\n' :: text) = afterGap text := by
  unfold afterGap
  rw [skipGap.eq_def]
  rfl

/-- One line for each form gives the forms back. -/
theorem readForms_written
    {forms : List Datum}
    (starts : ∀ form ∈ forms, ∀ rest, Starts (render .whole form ++ rest))
    (readsBack : ∀ form ∈ forms, form.ReadsBack)
    (shallow : ∀ form ∈ forms, form.nesting .whole < maxNesting)
    {fuel : Nat}
    (enough : (lined (renderAll forms)).length < fuel) :
    readForms fuel (lined (renderAll forms)) = .ok forms := by
  induction forms generalizing fuel with
  | nil =>
      obtain ⟨fuel, rfl⟩ : ∃ further, fuel = further + 1 := ⟨fuel - 1, by omega⟩
      rfl
  | cons form others inductionHypothesis =>
      obtain ⟨fuel, rfl⟩ : ∃ further, fuel = further + 1 := ⟨fuel - 1, by omega⟩
      have startsForm := starts form List.mem_cons_self
      have nonempty := List.length_pos_iff.mpr (startsForm []).nonempty
      have reads
          {rest : List Char}
          (ends : endsToken rest = true) :
          readDatum (readingFuel (render .whole form ++ rest)) 0 (render .whole form ++ rest) =
            .ok (form, rest) := by
        refine (readsBack form List.mem_cons_self).whole ends ?_ ?_
        · exact lt_readingFuel _
        · rw [Nat.zero_add]
          exact shallow form List.mem_cons_self
      have step
          {rest : List Char}
          (ends : endsToken rest = true)
          (goesOn : readForms fuel rest = .ok others) :
          readForms (fuel + 1) (render .whole form ++ rest) = .ok (form :: others) := by
        rw [readForms, (startsForm rest).settled]
        split
        case h_1 isEmpty =>
          exact ((startsForm rest).nonempty isEmpty).elim
        case h_2 =>
          rw [bind_eq_ok_iff]
          exact ⟨(form, rest), reads ends, bind_eq_ok_iff.mpr ⟨others, goesOn, rfl⟩⟩
      cases others with
      | nil =>
          have last : readForms fuel [] = .ok [] := by
            rw [renderAll, renderAll, lined] at enough
            rw [List.append_nil] at nonempty
            obtain ⟨fuel, rfl⟩ : ∃ further, fuel = further + 1 := ⟨fuel - 1, by omega⟩
            rfl
          have whole := step rfl last
          rwa [List.append_nil] at whole
      | cons next further =>
          change (render .whole form ++ '\n' :: lined (renderAll (next :: further))).length < _
            at enough
          simp only [List.length_append, List.length_cons, List.length_nil] at enough nonempty
          obtain ⟨fuel, rfl⟩ : ∃ further, fuel = further + 1 := ⟨fuel - 1, by omega⟩
          refine step rfl ?_
          have goesOn :
              readForms (fuel + 1) (lined (renderAll (next :: further))) = .ok (next :: further) :=
            inductionHypothesis (fun other member => starts other (.tail _ member))
              (fun other member => readsBack other (.tail _ member))
              (fun other member => shallow other (.tail _ member)) (by omega)
          simpa only [readForms, afterGap_newline] using goesOn

end Reader

open Datum Reader

/--
Reading undoes writing.  A plain datum is read back from its written form exactly if it is nested
no deeper than the reader goes, and so is a program from its forms on lines of their own.
-/
theorem reading_undoes_writing :
    (∀ datum : Datum,
        datum.Everywhere IsPlain →
          (readOne datum.written = .ok datum ↔ datum.nesting .whole < maxNesting)) ∧
      ∀ forms : List Datum,
        (∀ form ∈ forms, form.Everywhere IsPlain) →
          (readAll (Datum.program forms).written = .ok forms ↔
            ∀ form ∈ forms, form.nesting .whole < maxNesting) := by
  constructor
  · intro datum plain
    constructor
    · intro accepted
      have shallow := (fits_of_readOne accepted).shallow
      rwa [Nat.zero_add] at shallow
    · exact readOne_written (readsBack_of_plain plain)
  · intro forms plain
    have text : (Datum.program forms).written.toList = lined (renderAll forms) :=
      String.toList_ofList
    rw [readAll_eq_ok_iff, text]
    constructor
    · intro accepted form member
      have shallow := (fits_of_readForms accepted form member).shallow
      rwa [Nat.zero_add] at shallow
    · intro shallow
      refine readForms_written (fun form member => ?_)
        (fun form member => readsBack_of_plain (plain form member)) shallow (Nat.lt_succ_self _)
      obtain ⟨readable, notReal, _⟩ := @IsPlain.facts engine form (plain form member).here
      exact starts_render readable notReal

/-- A list with a dotted tail, a text, a character, bytes and every kind of mark in it. -/
def plainSample : Datum :=
  .pair (.marked .quote (.vector [.text "a\"\n", .character '(', .boolean true]))
    (.pair (.marked .quasiquote (.marked .unquoteSplicing (.symbol "...")))
      (.pair (.bytevector [0, 255]) (.marked .unquote (.symbol "x@"))))

/-- Dots and at signs may stand in names. -/
theorem isName_of_sample :
    IsName ['.', '.', '.'] ∧ IsName ['x', '@'] := by
  constructor
  · exact ⟨by decide, undelimited_of_all (by decide), by decide, by decide, rfl⟩
  · exact ⟨by decide, undelimited_of_all (by decide), by decide, by decide, rfl⟩

/-- The sample is written on one line, and both it and a program of it are read back. -/
theorem sample_is_read_back :
    plainSample.written = "('#(\"a\\\"\\n\" #\\( #t) `,@... #u8(0 255) . ,x@)" ∧
      @readOne .plain plainSample.written = .ok plainSample ∧
      @readAll .plain (Datum.program [plainSample, .nil]).written = .ok [plainSample, .nil] := by
  have plain : plainSample.Everywhere IsPlain := by
    obtain ⟨ellipsis, mail⟩ := isName_of_sample
    simp [plainSample, Everywhere, EverywhereIn, IsPlain, ellipsis, mail]
  have shallow : plainSample.nesting .whole < maxNesting := by decide
  refine ⟨by decide +kernel, (reading_undoes_writing.1 _ plain).mpr shallow, ?_⟩
  refine (reading_undoes_writing.2 _ ?_).mpr ?_
  · exact List.forall_mem_cons.mpr ⟨plain, List.forall_mem_singleton.mpr trivial⟩
  · exact List.forall_mem_cons.mpr ⟨shallow, List.forall_mem_singleton.mpr (by decide)⟩

/--
What was read from a text, without reals in it, is read back from its written form exactly if that
form is unambiguous: no regular expression in it has a slash in its pattern, and no unquote stands
before a symbol that starts with an at sign.
-/
theorem accepted_data_are_read_back_iff
    {source : String}
    {datum : Datum}
    (accepted : readOne source = .ok datum)
    (noReal : datum.Everywhere fun part => ¬part.IsReal) :
    readOne datum.written = .ok datum ↔ datum.Everywhere IsUnambiguous := by
  have fits := fits_of_readOne accepted
  have shallow : datum.nesting .whole < maxNesting := by
    have within := fits.shallow
    rwa [Nat.zero_add] at within
  rcases datum.isSettled fits.readable noReal with ⟨clear, readsBack⟩ | ⟨unclear, lost⟩
  · exact iff_of_true (readOne_written readsBack shallow) clear
  · exact iff_of_false (readOne_lost lost shallow) unclear

/-- The result is a vector of a pattern, a symbol under an unquote and a character. -/
def isVectorOf
    (pattern name : String)
    (letter : Char) : Except ReadError Datum → Bool
  | .ok (.vector [.regex read, .marked .unquote (.symbol named), .character written]) =>
      read == pattern && named == name && written == letter
  | _ => false

/-- The check of the sample says what it is for. -/
theorem eq_of_isVectorOf
    {pattern name : String}
    {letter : Char}
    {result : Except ReadError Datum}
    (isVector : isVectorOf pattern name letter result) :
    result =
      .ok (.vector [.regex pattern, .marked .unquote (.symbol name), .character letter]) := by
  unfold isVectorOf at isVector
  split at isVector
  · simp only [Bool.and_eq_true, beq_iff_eq] at isVector
    obtain ⟨⟨rfl, rfl⟩, rfl⟩ := isVector
    rfl
  · cases isVector

/-- A comment, a character by its number, a pattern with an escaped bracket and a far at sign. -/
theorem accepted_sample_is_read_back :
    @readOne .plain "#( ;note\n #/x\\[+/ , a@ #\\x41)" =
        .ok (.vector [.regex "x\\[+", .marked .unquote (.symbol "a@"), .character 'A']) ∧
      @readOne .plain (Datum.written
          (.vector [.regex "x\\[+", .marked .unquote (.symbol "a@"), .character 'A'])) =
        .ok (.vector [.regex "x\\[+", .marked .unquote (.symbol "a@"), .character 'A']) := by
  have isRead :
      isVectorOf "x\\[+" "a@" 'A' (@readOne .plain "#( ;note\n #/x\\[+/ , a@ #\\x41)") := by
    decide +kernel
  have accepted := eq_of_isVectorOf isRead
  have readsBack := accepted_data_are_read_back_iff accepted
    (by simp [Everywhere, EverywhereIn, IsReal])
  refine ⟨accepted, readsBack.mpr ?_⟩
  simp [Everywhere, EverywhereIn, IsUnambiguous]

/-- The result is this pattern. -/
def isRegex (pattern : String) : Except ReadError Datum → Bool
  | .ok (.regex read) => read == pattern
  | _ => false

/-- So does the check of a lone pattern. -/
theorem eq_of_isRegex
    {pattern : String}
    {result : Except ReadError Datum}
    (matching : isRegex pattern result) :
    result = .ok (.regex pattern) := by
  unfold isRegex at matching
  split at matching
  · rw [eq_of_beq matching]
  · cases matching

/-- An escaped slash is read into a pattern, and written there it ends the pattern. -/
theorem slash_ends_written_pattern :
    @readOne .plain "#/a\\/b/" = .ok (.regex "a/b") ∧
      (Datum.regex "a/b").written = "#/a/b/" ∧ @readOne .plain "#/a/b/" ≠ .ok (.regex "a/b") := by
  have isRead : isRegex "a/b" (@readOne .plain "#/a\\/b/") := by decide +kernel
  refine ⟨eq_of_isRegex isRead, by decide +kernel, fun accepted => ?_⟩
  have refused : (@readOne .plain "#/a/b/").isOk = false := by decide +kernel
  rw [accepted] at refused
  cases refused

end SmallScheme
