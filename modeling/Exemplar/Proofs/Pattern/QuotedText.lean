import Exemplar.Proofs.Grammar.Units
import Exemplar.Proofs.Pattern.Strings

/-!
# Patterns of quoted text

A text between the two marks of a quotation stands for itself, whatever characters it has, as long
as it does not contain the mark that ends the quotation. An empty quotation is skipped, any other
one is read as one literal. A repetition mark behind the quotation then takes the last character
off the literal and repeats it alone. So the pattern of a quotation has the text as its only
string, and with a repetition mark behind it its tree is that of all characters but the last,
followed by the repetition (`Pattern.compile_quoted`).
-/

namespace Exemplar

open Quantifier (WritesCount WritesCopies)

namespace Escape

/-- The text does not contain the mark that ends a quotation. -/
def IsQuotable (text : List Char) : Prop :=
  ¬ ['\\', 'E'] <:+: text

instance (text : List Char) : Decidable (IsQuotable text) :=
  inferInstanceAs (Decidable (¬ _))

/-- The quotation of a text. -/
def quote (text : List Char) : List Char :=
  '\\' :: 'Q' :: (text ++ ['\\', 'E'])

/-- The characters behind the first one of a quotable text are quotable. -/
theorem IsQuotable.of_cons {c : Char} {text : List Char} (h : IsQuotable (c :: text)) :
    IsQuotable text :=
  fun hpart ↦ h (hpart.trans (List.suffix_cons c text).isInfix)

/-- The mark that ends a quotation does not begin inside the text, even where the text ends with a
backslash. -/
theorem IsQuotable.append_ne {text : List Char} (h : IsQuotable text) (hsome : text ≠ [])
    (rest more : List Char) : text ++ '\\' :: 'E' :: rest ≠ '\\' :: 'E' :: more := by
  intro heq
  match text with
  | [c] => simp at heq
  | c :: next :: text =>
    obtain ⟨rfl, hnext⟩ := List.cons.inj heq
    obtain ⟨rfl, -⟩ := List.cons.inj hnext
    exact h ⟨[], text, rfl⟩

/-- A quotation ends where its text ends. -/
theorem quotation_append {text : List Char} (h : IsQuotable text) (rest : List Char) :
    quotation (text ++ '\\' :: 'E' :: rest) = (text, text.length + 2) := by
  induction text with
  | nil => rfl
  | cons c text ih =>
    have hopen := h.append_ne (by simp) rest
    rw [List.cons_append] at hopen ⊢
    rw [quotation]
    · rw [ih h.of_cons]
      rfl
    · intro more hc hnext
      subst hc
      exact hopen more (congrArg _ hnext)

end Escape

open Escape

/-- A quoted text is read up to the end of the quotation. -/
theorem Reader.reads_quotation {text : List Char} (h : IsQuotable text) (start : Nat)
    (rest : List Char) :
    (readEscape start 'Q').Reads (text ++ '\\' :: 'E' :: rest) (.quoted text) rest := by
  have hdrop : (modify (·.drop (text.length + 2)) : Reader Unit).Reads
      (text ++ '\\' :: 'E' :: rest) () rest := by
    have hreads := reads_drop (text ++ '\\' :: 'E' :: rest) (text.length + 2)
    have hrest : (text ++ '\\' :: 'E' :: rest).drop (text.length + 2) = rest := by
      rw [← List.drop_drop, List.drop_left]
      rfl
    rwa [hrest] at hreads
  have htext : quotedText.Reads (text ++ '\\' :: 'E' :: rest) text rest := by
    refine .get fun position ↦ ?_
    rw [quotation_append h]
    exact hdrop.bind .pure
  show (do return Escape.quoted (← quotedText) : Reader Escape).Reads _ _ _
  exact htext.bind .pure

/-- An empty quotation is skipped. -/
theorem Cursor.skip_quote_nil (comments : Bool) (position : Nat) :
    Cursor.skip comments ⟨quote [], position⟩ = ⟨[], position + 4⟩ := by
  cases comments <;> rfl

namespace Reading

variable {text rest : List Char}

/-- A quotation that is not empty is read as one unit. -/
theorem run_eq_quoted (reading : Reading) (h : IsQuotable text) (hsome : text ≠ [])
    (hrest : reading.cursor.rest = quote text ++ rest) :
    ∃ position, reading.run =
      reading.addUnit (.literal text reading.flags.ignoreCase) ⟨rest, position⟩ >>= run := by
  have hassoc : quote text ++ rest = '\\' :: 'Q' :: (text ++ '\\' :: 'E' :: rest) := by
    simp [quote]
  rw [hassoc] at hrest
  have hskip : Cursor.Unskipped reading.flags.comments
      ('\\' :: 'Q' :: (text ++ '\\' :: 'E' :: rest)) := by
    refine Cursor.unskipped_cons rfl (by simp) (fun more heq ↦ ?_) _
    exact h.append_ne hsome rest more (List.cons.inj (List.cons.inj heq).2).2
  obtain ⟨stop, hstop⟩ := Reader.reads_quotation h reading.cursor.position rest
    (reading.cursor.position + 1 + 1)
  have htext : reading.text text = .literal text reading.flags.ignoreCase := by
    rw [Reading.text, Regex.ofText, if_neg (by simpa using hsome)]
  refine ⟨stop, ?_⟩
  rw [run_eq_of_unskipped hskip hrest]
  congr 1
  show reading.readEscape reading.cursor.position
    ⟨'Q' :: (text ++ '\\' :: 'E' :: rest), reading.cursor.position + 1⟩ = _
  rw [readEscape_eq_of_isShared (by decide), hstop, ← htext]
  rfl

end Reading

namespace Regex

variable (quantifier : Quantifier) (others : List Char) (last : Char) (ignoreCase : Bool)

/-- All characters of a text but the last, and the last one repeated alone. -/
def repeatLast : Regex :=
  inSequence [.ofText others ignoreCase,
    .repeated (.literal [last] ignoreCase) quantifier.least quantifier.most quantifier.mode]

/-- Of a literal the last character is repeated, and the others stand in front of it if there are
any. -/
theorem apply_literal :
    quantifier.apply (.literal (others ++ [last]) ignoreCase) =
      if others = [] then
        .repeated (.literal [last] ignoreCase) quantifier.least quantifier.most quantifier.mode
      else repeatLast quantifier others last ignoreCase := by
  rw [Quantifier.apply]
  by_cases hothers : others = []
  · subst hothers
    rfl
  · have hlength : (others ++ [last]).length > 1 := by
      have hpos := List.length_pos_iff.2 hothers
      rw [List.length_append, List.length_singleton]
      omega
    have hlast : (others ++ [last]).drop ((others ++ [last]).length - 1) = [last] := by
      simp
    rw [if_pos hlength, if_neg hothers, List.dropLast_concat, hlast]
    rfl

/-- A repeated literal has the normal form of the others in front of the repetition. -/
theorem simplify_apply_literal :
    (quantifier.apply (.literal (others ++ [last]) ignoreCase)).simplify =
      (repeatLast quantifier others last ignoreCase).simplify := by
  rw [apply_literal]
  split
  · subst others
    -- The empty text in front of the repetition leaves no part.
    rw [repeatLast, simplify_inSequence]
    exact (joinParts_prepend (isNormal_simplify _)).symm
  · rfl

/-- A repeated literal needs no groups. -/
theorem needed_apply_literal :
    (quantifier.apply (.literal (others ++ [last]) ignoreCase)).certainty.needed = [] := by
  rw [apply_literal]
  split
  · rfl
  · cases others <;> rfl

/-- A repeated literal is possible. -/
theorem possible_apply_literal :
    (quantifier.apply (.literal (others ++ [last]) ignoreCase)).Possible := by
  have hrepeated : (repeated (.literal [last] ignoreCase) quantifier.least quantifier.most
      quantifier.mode).Possible := ⟨Bound.allows_raise .., trivial⟩
  rw [apply_literal]
  split
  · exact hrepeated
  · refine possible_inSequence (List.forall_mem_cons.2 ⟨?_, by simpa using hrepeated⟩)
    cases others <;> trivial

end Regex

namespace Reading

variable {text rest : List Char} {flags : Flags}

/-- A unit at the end of a pattern, with its repetition mark, is the whole tree. -/
theorem run_addUnit_start {source : List Char} {quantifier? : Option Quantifier}
    (h : (Reader.quantifier? flags.comments).Reads source quantifier? []) (unit : Regex)
    (position : Nat) :
    (start text flags).addUnit unit ⟨source, position⟩ >>= run =
      .ok (.inSequence [quantifier?.elim unit (·.apply unit)], {}) := by
  obtain ⟨stop, hstop⟩ := h position
  have hadd : (start text flags).addUnit unit ⟨source, position⟩ = .ok { start text flags with
      cursor := ⟨[], stop⟩
      level := Level.add {} (quantifier?.elim unit (·.apply unit)) } := by
    have hflags : (start text flags).flags.comments = flags.comments := rfl
    rw [addUnit, hflags, hstop]
    cases quantifier? <;> rfl
  rw [hadd]
  exact run_eq_done rfl rfl

end Reading

namespace Pattern

variable {text : List Char} {flags : Flags}

/-- A pattern that is read as one unit has the normal form of the unit. -/
theorem compile_of_unit {unit : Regex} (hliteral : flags.literal = false)
    (hrun : (Reading.start text flags).run = .ok (.inSequence [unit], {}))
    (hneeded : unit.certainty.needed = []) (hpossible : unit.Possible) :
    compile (.ofList text) flags = .ok ⟨.ofList text, flags, unit.simplify⟩ := by
  have hnone : (Regex.inSequence [unit]).certainty.needed = [] := by
    rw [Regex.certainty, Regex.summarize_inSequence, List.map_singleton,
      Certainty.lawful_summary.all_singleton]
    exact hneeded
  have hunit : (Regex.inSequence [unit]).Possible :=
    Regex.possible_inSequence (by simpa using hpossible)
  have hsimplify : (Regex.inSequence [unit]).simplify = unit.simplify := by
    rw [Regex.simplify_inSequence]
    exact Regex.joinParts_prepend (Regex.isNormal_simplify unit)
  rw [compile_of_run hliteral hrun hnone hunit, hsimplify]

/-- The quotation of a text stands for the text. -/
theorem compile_quote (h : IsQuotable text) (hliteral : flags.literal = false) :
    compile (.ofList (quote text)) flags =
      .ok ⟨.ofList (quote text), flags, .ofText text flags.ignoreCase⟩ := by
  by_cases hsome : text = []
  · subst hsome
    have hskip : ((Reading.start (quote []) flags).cursor.skip flags.comments).rest = [] := by
      rw [Reading.start, Cursor.start, Cursor.skip_quote_nil]
    have hrun : (Reading.start (quote []) flags).run = .ok (.empty, {}) :=
      Reading.run_eq_done_of_skip hskip rfl
    exact compile_of_run hliteral hrun rfl trivial
  · have hrest : (Reading.start (quote text) flags).cursor.rest = quote text ++ [] :=
      (List.append_nil _).symm
    obtain ⟨position, hrun⟩ := Reading.run_eq_quoted _ h hsome hrest
    have hreads : (Reader.quantifier? flags.comments).Reads [] none [] :=
      Reader.reads_quantifier?_none (Cursor.unskipped_nil _) (by simp)
    rw [Reading.run_addUnit_start hreads] at hrun
    rw [compile_of_unit hliteral hrun rfl trivial, Regex.ofText, if_neg (by simpa using hsome)]
    rfl

/-- The last character of a quoted text is repeated alone. -/
theorem compile_quote_append {copies : List Char} {least : Nat} {most : Bound}
    (hcopies : WritesCopies copies least most) (mode : RepetitionMode) {others : List Char}
    {last : Char} (h : IsQuotable (others ++ [last])) (hliteral : flags.literal = false) :
    compile (.ofList (quote (others ++ [last]) ++ (copies ++ mode.mark))) flags =
      .ok ⟨.ofList (quote (others ++ [last]) ++ (copies ++ mode.mark)), flags,
        (Regex.repeatLast ⟨least, most, mode⟩ others last flags.ignoreCase).simplify⟩ := by
  obtain ⟨position, hrun⟩ := Reading.run_eq_quoted (.start _ flags) h (by simp) rfl
  have hreads : (Reader.quantifier? flags.comments).Reads (copies ++ (mode.mark ++ []))
      (some ⟨least, most, mode⟩) [] :=
    Reader.reads_quantifier? hcopies mode (Cursor.unskipped_nil _) (by simp)
  rw [List.append_nil] at hreads
  rw [Reading.run_addUnit_start hreads] at hrun
  rw [compile_of_unit hliteral hrun (Regex.needed_apply_literal ..)
    (Regex.possible_apply_literal ..)]
  simp only [Option.elim_some, Regex.simplify_apply_literal]
  rfl

/-- The quotation of a string, as a string. -/
theorem ofList_quote (text : String) :
    String.ofList (quote text.toList) = "\\Q" ++ text ++ "\\E" := by
  rw [← String.ofList_toList (s := "\\Q" ++ text ++ "\\E"), String.toList_append,
    String.toList_append]
  rfl

/-- A quoted text stands for itself, and nothing is drawn for it. With a repetition mark behind the
quotation its last character is repeated alone. -/
theorem compile_quoted {text : String} (h : IsQuotable text.toList) {flags : Flags}
    (hliteral : flags.literal = false) :
    (∃ pattern, compile ("\\Q" ++ text ++ "\\E") flags = .ok pattern ∧
        pattern.root = .ofText text.toList flags.ignoreCase ∧
        ∀ {σ : Type} [RandomSource σ] (source : σ) (target : Option Nat),
          pattern.generateFrom source target = .ok (text, source)) ∧
      ∀ {copies : List Char} {least : Nat} {most : Bound}, WritesCopies copies least most →
        ∀ (mode : RepetitionMode) {others : List Char} {last : Char},
          text.toList = others ++ [last] → ∃ pattern,
            compile ("\\Q" ++ text ++ "\\E" ++ .ofList (copies ++ mode.mark)) flags =
              .ok pattern ∧
            pattern.root =
              (Regex.repeatLast ⟨least, most, mode⟩ others last flags.ignoreCase).simplify := by
  constructor
  · refine ⟨_, ofList_quote text ▸ compile_quote h hliteral, rfl, fun source target ↦ ?_⟩
    show (Regex.ofText text.toList flags.ignoreCase).generate source target = _
    rw [Regex.generate_ofText, String.ofList_toList]
  · intro copies least most hcopies mode others last htext
    rw [← ofList_quote text, ← String.ofList_append]
    rw [htext] at h ⊢
    exact ⟨_, compile_quote_append hcopies mode h hliteral, rfl⟩

/-- A text with a blank, a number sign and a backslash at its end, where blanks and comments are
skipped. -/
theorem compile_quoted_backslash :
    IsQuotable "A #*\\".toList ∧
      (∃ pattern,
        compile ("\\Q" ++ "A #*\\" ++ "\\E") { ignoreCase := true, comments := true } =
          .ok pattern ∧
        pattern.root = .literal "A #*\\".toList true ∧
        pattern.generateFrom (Lcg.ofSeed 7) (some 2) = .ok ("A #*\\", Lcg.ofSeed 7)) ∧
      WritesCopies "\x7b02,3\x7d".toList 2 (.ofExact 3) ∧
      ∃ pattern,
        compile ("\\Q" ++ "A #*\\" ++ "\\E" ++ "\x7b02,3\x7d?")
          { ignoreCase := true, comments := true } = .ok pattern ∧
        pattern.root = .sequence [.literal "A #*".toList true,
          .repetition (.literal ['\\'] true) 2 (.ofExact 3) .reluctant] := by
  have htext : IsQuotable "A #*\\".toList := by decide
  have hleast : WritesCount ['0', '2'] 2 := ⟨by decide, List.all_eq_true.1 rfl, rfl, by decide⟩
  have hmost : WritesCount ['3'] 3 := ⟨by decide, List.all_eq_true.1 rfl, rfl, by decide⟩
  have hcopies : WritesCopies "\x7b02,3\x7d".toList 2 (.ofExact 3) :=
    .between hleast hmost (by decide)
  obtain ⟨⟨pattern, hcompile, hroot, hgenerate⟩, hrepeat⟩ :=
    @compile_quoted "A #*\\" htext { ignoreCase := true, comments := true } rfl
  refine ⟨htext, ⟨pattern, hcompile, hroot, hgenerate _ _⟩, hcopies, ?_⟩
  have hlast : "A #*\\".toList = "A #*".toList ++ ['\\'] := rfl
  obtain ⟨pattern, hcompile, hroot⟩ := hrepeat hcopies .reluctant hlast
  exact ⟨pattern, hcompile, hroot.trans (by decide +kernel)⟩

end Pattern

end Exemplar
