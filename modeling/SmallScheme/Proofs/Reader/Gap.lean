import Mathlib.Tactic.SplitIfs
import SmallScheme.Proofs.Reader.Dispatch
import SmallScheme.Reader.Scan

namespace SmallScheme.Reader

/-!
# Blanks and comments at the end of a text

What the reader passes over is settled by the characters before a line end, unless a block comment
is open there: then the reader stops before the comment, and on a longer text it may pass over it.
-/

variable {text rest after : List Char}

/-- The scan of what is being passed over. -/
def Gap.scan : Gap → Scan
  | .layout => .layout
  | .line => .line
  | .block _ => .block

/-- The same kind of gap, where a block comment was opened elsewhere. -/
def Gap.reopen (opening : List Char) : Gap → Gap
  | .layout => .layout
  | .line => .line
  | .block _ => .block opening

/--
What is left of a text when blanks and comments are passed over, and what is left if the text goes
on behind a line end.
-/
inductive Passes (after : List Char) (scan : Scan) (text : List Char) : List Char → List Char → Prop
  /-- The text breaks off in a block comment. -/
  | inBlock {inner extended : List Char} :
      scan.leavesBlock text = true →
      Passes after scan text ('#' :: '|' :: inner) extended
  | nothing :
      scan.leavesBlock text = false →
      Passes after scan text [] (afterGap after)
  | something {rest : List Char} :
      rest ≠ [] →
      (∀ inner, rest ≠ '#' :: '|' :: inner) →
      scan.leavesBlock text = Scan.layout.leavesBlock rest →
      Passes after scan text rest (rest ++ '\n' :: after)

/-- Only what the scan makes of the text matters, not where it begins. -/
theorem Passes.of_scan
    {scan other : Scan}
    {shorter extended : List Char}
    (same : scan.leavesBlock text = other.leavesBlock shorter)
    (passes : Passes after other shorter rest extended) :
    Passes after scan text rest extended := by
  cases passes with
  | inBlock leaves => exact .inBlock (same.trans leaves)
  | nothing leaves => exact .nothing (same.trans leaves)
  | something nonempty notBlock leaves => exact .something nonempty notBlock (same.trans leaves)

/-! What is left is a suffix of the text. -/

/-- A comment that is never closed is left from its opening on. -/
theorem skipGap_suffix
    (gap : Gap)
    (text : List Char)
    (within : ∀ opening, gap = .block opening → text <:+ opening) :
    skipGap gap text <:+
      match gap with
      | .block opening => opening
      | _ => text := by
  fun_induction skipGap gap text with
  | case1 => exact List.suffix_rfl
  | case2 character rest _ inductionHypothesis =>
      exact (inductionHypothesis nofun).trans (List.suffix_cons _ _)
  | case3 rest _ inductionHypothesis =>
      exact (inductionHypothesis nofun).trans (List.suffix_cons _ _)
  | case4 inner _ _ inductionHypothesis =>
      refine inductionHypothesis fun opening same => ?_
      obtain rfl := Gap.block.inj same
      exact (List.suffix_cons _ _).trans (List.suffix_cons _ _)
  | case5 => exact List.suffix_rfl
  | case6 => exact List.suffix_rfl
  | case7 => exact List.suffix_rfl
  | case8 rest inductionHypothesis =>
      exact (inductionHypothesis nofun).trans (List.suffix_cons _ _)
  | case9 character rest _ inductionHypothesis =>
      exact (inductionHypothesis nofun).trans (List.suffix_cons _ _)
  | case10 => exact List.suffix_rfl
  | case11 opening rest inductionHypothesis =>
      have inside := (List.suffix_cons _ _).trans ((List.suffix_cons _ _).trans (within _ rfl))
      exact (inductionHypothesis nofun).trans inside
  | case12 opening character rest _ inductionHypothesis =>
      refine inductionHypothesis fun _ same => ?_
      exact (List.suffix_cons _ _).trans (within _ same)

/-- Behind a gap the text is as it was. -/
theorem afterGap_suffix
    (text : List Char) :
    afterGap text <:+ text :=
  skipGap_suffix .layout text nofun

theorem length_afterGap_le
    (text : List Char) :
    (afterGap text).length ≤ text.length :=
  (afterGap_suffix text).length_le

/-! One character of a gap. -/

/-- Layout is passed over. -/
theorem skipGap_layout
    {character : Char}
    (isLayout : Text.isLayout character = true)
    (text : List Char) :
    skipGap .layout (character :: text) = skipGap .layout text := by
  rw [skipGap.eq_def]
  exact if_pos isLayout

/-- A semicolon begins a comment. -/
theorem skipGap_semicolon
    (text : List Char) :
    skipGap .layout (';' :: text) = skipGap .line text := by
  rw [skipGap.eq_def]
  rfl

/-- A hash with a bar opens a block comment. -/
theorem skipGap_open
    (text : List Char) :
    skipGap .layout ('#' :: '|' :: text) = skipGap (.block ('#' :: '|' :: text)) text := by
  rw [skipGap.eq_def]
  rfl

/-- A comment ends with its line. -/
theorem skipGap_newline
    (text : List Char) :
    skipGap .line ('\n' :: text) = skipGap .layout text := by
  rw [skipGap.eq_def]
  rfl

/-- All else in the line is passed over. -/
theorem skipGap_line
    {character : Char}
    (notNewline : character ≠ '\n')
    (text : List Char) :
    skipGap .line (character :: text) = skipGap .line text := by
  rw [skipGap.eq_def]
  exact if_neg notNewline

/-- A bar with a hash closes a block comment. -/
theorem skipGap_close
    (opening text : List Char) :
    skipGap (.block opening) ('|' :: '#' :: text) = skipGap .layout text := by
  rw [skipGap.eq_def]
  rfl

/-- All else in a block is passed over. -/
theorem skipGap_block
    (opening : List Char)
    {character : Char}
    (notClose : ∀ others, character = '|' → text ≠ '#' :: others) :
    skipGap (.block opening) (character :: text) = skipGap (.block opening) text := by
  rw [skipGap.eq_def]
  split <;> simp_all

/-- Layout leaves the scan where it is. -/
theorem start_of_isLayout
    {character : Char}
    (isLayout : Text.isLayout character = true) :
    Scan.start character = .layout := by
  simp only [Text.isLayout, Bool.or_eq_true, decide_eq_true_eq] at isLayout
  rcases isLayout with ((rfl | rfl) | rfl) | rfl <;> decide

/-- A bar matters only before a hash sign. -/
theorem leavesBlock_bar
    (notHash : ∀ others, text ≠ '#' :: others) :
    Scan.bar.leavesBlock text = Scan.block.leavesBlock text := by
  cases text with
  | nil => rfl
  | cons first others =>
      have notHash : first ≠ '#' := fun isHash => notHash others (by rw [isHash])
      simp only [Scan.leavesBlock_cons, Scan.step, if_neg notHash]

/-- A gap is passed over alike when lines follow, or it goes on in them. -/
theorem skipGap_passes
    (gap : Gap)
    (text : List Char)
    (opened : ∀ opening, gap = .block opening → ∃ inner, opening = '#' :: '|' :: inner)
    (opening : List Char) :
    Passes after gap.scan text (skipGap gap text)
      (skipGap (gap.reopen opening) (text ++ '\n' :: after)) := by
  have notOpened :
      ∀ opening, Gap.layout = .block opening → ∃ inner, opening = '#' :: '|' :: inner :=
    fun _ isBlock => nomatch isBlock
  fun_induction skipGap gap text generalizing opening with
  | case1 =>
      rw [Gap.reopen, List.nil_append, skipGap_layout (by decide)]
      exact .nothing rfl
  | case2 character rest isLayout inductionHypothesis =>
      have passes := inductionHypothesis notOpened opening
      rw [Gap.reopen, List.cons_append, skipGap_layout isLayout]
      refine passes.of_scan ?_
      rw [Gap.scan, Scan.leavesBlock_cons, Scan.step, start_of_isLayout isLayout]
  | case3 rest _ inductionHypothesis =>
      have passes := inductionHypothesis (fun _ isBlock => nomatch isBlock) opening
      rw [Gap.reopen, List.cons_append, skipGap_semicolon]
      refine passes.of_scan ?_
      rfl
  | case4 inner _ _ inductionHypothesis =>
      have passes := inductionHypothesis (fun _ isBlock => ⟨inner, (Gap.block.inj isBlock).symm⟩)
        ('#' :: '|' :: (inner ++ '\n' :: after))
      rw [Gap.reopen, List.cons_append, List.cons_append, skipGap_open]
      refine passes.of_scan ?_
      rfl
  | case5 rest notBar =>
      have stays :
          skipGap .layout ('#' :: (rest ++ '\n' :: after)) = '#' :: (rest ++ '\n' :: after) := by
        refine afterGap_eq_self (by decide) (by decide) fun _ isBar => ?_
        cases rest with
        | nil => cases isBar
        | cons first others =>
            obtain rfl : first = '|' := Option.some.inj isBar
            exact notBar others rfl
      rw [Gap.reopen, List.cons_append, stays]
      exact .something (List.cons_ne_nil _ _)
        (fun inner same => notBar inner (List.cons.inj same).2) rfl
  | case6 character rest notLayout notComment notHash =>
      have stays :
          skipGap .layout (character :: (rest ++ '\n' :: after)) =
            character :: (rest ++ '\n' :: after) :=
        afterGap_sign ⟨Bool.eq_false_iff.mpr notLayout, notComment, notHash⟩ _
      rw [Gap.reopen, List.cons_append, stays]
      exact .something (List.cons_ne_nil _ _)
        (fun inner same => notHash (List.cons.inj same).1) rfl
  | case7 =>
      rw [Gap.reopen, List.nil_append, skipGap_newline]
      exact .nothing rfl
  | case8 rest inductionHypothesis =>
      have passes := inductionHypothesis notOpened opening
      rw [Gap.reopen, List.cons_append, skipGap_newline]
      refine passes.of_scan ?_
      rfl
  | case9 character rest notNewline inductionHypothesis =>
      have passes := inductionHypothesis (fun _ isBlock => nomatch isBlock) opening
      rw [Gap.reopen, List.cons_append, skipGap_line notNewline]
      refine passes.of_scan ?_
      rw [Gap.scan, Scan.leavesBlock_cons, Scan.step, if_neg notNewline]
  | case10 unclosed =>
      obtain ⟨inner, rfl⟩ := opened unclosed rfl
      exact .inBlock rfl
  | case11 unclosed rest inductionHypothesis =>
      have passes := inductionHypothesis notOpened opening
      rw [Gap.reopen, List.cons_append, List.cons_append, skipGap_close]
      refine passes.of_scan ?_
      rfl
  | case12 unclosed first rest notClose inductionHypothesis =>
      have passes := inductionHypothesis opened opening
      have stillNotClose : ∀ others, first = '|' → rest ++ '\n' :: after ≠ '#' :: others := by
        intro others isBar same
        cases rest with
        | nil => cases same
        | cons second further =>
            exact notClose further isBar (by rw [(List.cons.inj same).1])
      rw [Gap.reopen, List.cons_append, skipGap_block _ stillNotClose]
      refine passes.of_scan ?_
      rw [Gap.scan, Scan.leavesBlock_cons, Scan.step]
      split_ifs with isBar
      · exact leavesBlock_bar fun others same => notClose others isBar same
      · rfl

/-- So it is from its beginning. -/
theorem afterGap_passes
    (after text : List Char) :
    Passes after .layout text (afterGap text) (afterGap (text ++ '\n' :: after)) :=
  skipGap_passes .layout text (fun _ isBlock => nomatch isBlock) []

/-- What is left is settled, unless it is the opening of a comment that was being passed over. -/
theorem settled_skipGap
    (gap : Gap)
    (text : List Char) :
    afterGap (skipGap gap text) = skipGap gap text ∨ gap = .block (skipGap gap text) := by
  fun_induction skipGap gap text with
  | case1 => exact .inl rfl
  | case2 _ _ _ inductionHypothesis =>
      exact inductionHypothesis.imp_right nofun
  | case3 _ _ inductionHypothesis =>
      exact inductionHypothesis.imp_right nofun
  | case4 inner _ _ inductionHypothesis =>
      refine .inl (inductionHypothesis.elim id fun unclosed => ?_)
      -- The comment is never closed, so what is left is where it was opened.
      have opens := Gap.block.inj unclosed
      rw [← opens, afterGap, skipGap_open, ← opens]
  | case5 rest notBar =>
      refine .inl (afterGap_eq_self (by decide) (by decide) fun _ isBar => ?_)
      cases rest with
      | nil => cases isBar
      | cons first others =>
          obtain rfl : first = '|' := Option.some.inj isBar
          exact notBar others rfl
  | case6 _ _ notLayout notComment notHash =>
      exact .inl (afterGap_sign ⟨Bool.eq_false_iff.mpr notLayout, notComment, notHash⟩ _)
  | case7 => exact .inl rfl
  | case8 _ inductionHypothesis =>
      exact .inl (inductionHypothesis.elim id nofun)
  | case9 _ _ _ inductionHypothesis =>
      exact inductionHypothesis.imp_right nofun
  | case10 => exact .inr rfl
  | case11 _ _ inductionHypothesis =>
      exact .inl (inductionHypothesis.elim id nofun)
  | case12 _ _ _ _ inductionHypothesis =>
      exact inductionHypothesis

/-- Behind a gap there is no other gap. -/
theorem afterGap_afterGap
    (text : List Char) :
    afterGap (afterGap text) = afterGap text :=
  (settled_skipGap .layout text).elim id nofun

end SmallScheme.Reader
