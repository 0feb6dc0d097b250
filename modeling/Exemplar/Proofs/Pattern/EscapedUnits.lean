import Exemplar.Proofs.Grammar.Units
import Exemplar.Proofs.Pattern.Strings

/-!
# Patterns of escaped units

A unit of UTF-16 may be written as a backslash, the letter u and four hexadecimal digits. The
pattern of a sequence of such escapes is accepted just when the sequence is that of some
characters, and then it stands for their text. Otherwise it is refused at the first unpaired
surrogate (`Pattern.compile_escapedText`). Two escapes that make up a surrogate pair spell one
character (`Escape.spells_escapedText`), and reading stops at an unpaired surrogate whatever escape
stands behind it (`Reader.refuses_unicodeEscape`).
-/

namespace Exemplar

open Utf16 (encode encodeChar Encodes IsUnpaired IsFirstUnpaired)

namespace Escape

/-- Four hexadecimal digits write a unit. Their letters may be small or capital. -/
structure WritesUnit (digits : List Char) (unit : UInt16) : Prop where
  length_eq : digits.length = 4
  isDigit : ∀ c ∈ digits, isDigit 16 c = true
  value : numberOf 16 digits = unit.toNat

/-- The text of the escape with the given digits. -/
def unitText (digits : List Char) : List Char :=
  '\\' :: 'u' :: digits

/-- The text of several escapes. -/
def escapedText (texts : List (List Char)) : List Char :=
  texts.flatMap unitText

/-- Every unit can be written. -/
theorem writesUnit_hexDigits (unit : UInt16) : WritesUnit (hexDigits 4 unit.toNat) unit where
  length_eq := length_hexDigits (by decide) unit.toNat_lt
  isDigit := (numberOf_hexDigits 4 unit.toNat).2
  value := (numberOf_hexDigits 4 unit.toNat).1

/-- Every escape has six characters. -/
theorem length_escapedText {texts : List (List Char)} {units : List UInt16}
    (h : List.Forall₂ WritesUnit texts units) :
    (escapedText texts).length = 6 * units.length := by
  induction h with
  | nil => rfl
  | @cons digits unit texts units hunit h ih =>
    have hlength : (unitText digits).length = 6 := by
      rw [unitText, List.length_cons, List.length_cons, hunit.length_eq]
    rw [escapedText, List.flatMap_cons, List.length_append, ← escapedText, ih, hlength,
      List.length_cons]
    omega

end Escape

open Escape

/-! ## Reading one escape -/

namespace Reader

variable {digits digits' rest : List Char} {unit high low : UInt16} {c : Char}

/-- The digits of a unit are read as the unit. -/
theorem reads_unit (h : WritesUnit digits unit) (start : Nat) :
    (hexadecimal start 4 0).Reads (digits ++ rest) unit.toNat rest := by
  have hreads := reads_hexadecimal h.isDigit rest start 0
  rwa [h.length_eq, ← numberOf, h.value] at hreads

/-- The digits of a unit that is a character are read as the character. -/
theorem reads_unicodeEscape_unit (h : WritesUnit digits unit) (hc : unit.toNat = c.toNat)
    (start : Nat) :
    (unicodeEscape start).Reads (digits ++ rest) c rest := by
  have hhigh : isHighSurrogate unit.toNat = false := hc ▸ (not_isSurrogate_toNat c).1
  refine (reads_unit h start).bind (.get fun position ↦ ?_)
  rw [hhigh, hc]
  exact reads_character start

/-- The escapes of a surrogate pair are read as its character. -/
theorem reads_unicodeEscape_pair (h : WritesUnit digits high) (h' : WritesUnit digits' low)
    (hhigh : isHighSurrogate high.toNat = true) (hlow : isLowSurrogate low.toNat = true)
    (hc : joinSurrogates high.toNat low.toNat = c.toNat) (start : Nat) :
    (unicodeEscape start).Reads (digits ++ (unitText digits' ++ rest)) c rest := by
  refine (reads_unit h start).bind (.get fun position ↦ ?_)
  rw [hhigh]
  refine (reads_drop _ 2).bind ((reads_unit h' start).bind ?_)
  rw [if_pos hlow, hc]
  exact reads_character start

/-- The code point of half a surrogate pair is refused. -/
theorem refuses_character {code : Nat}
    (h : isHighSurrogate code = true ∨ isLowSurrogate code = true) (start : Nat) :
    (character code start).Refuses rest ⟨.loneSurrogate, start⟩ := by
  have hinvalid : ¬ code.isValidChar := by
    rw [isHighSurrogate_iff, isLowSurrogate_iff] at h
    unfold Nat.isValidChar
    omega
  unfold character
  rw [charOf?, if_neg hinvalid]
  exact refuses_fail .loneSurrogate start

/-- The escape of an unpaired surrogate is refused. -/
theorem refuses_unicodeEscape {texts : List (List Char)} {units : List UInt16}
    (h : WritesUnit digits unit) (hunits : List.Forall₂ WritesUnit texts units)
    (hunpaired : IsUnpaired (unit :: units) 0) (start : Nat) :
    (unicodeEscape start).Refuses (digits ++ escapedText texts) ⟨.loneSurrogate, start⟩ := by
  refine (reads_unit h start).refuses (.get fun position ↦ ?_)
  rcases hunpaired with ⟨hhigh, hnext⟩ | ⟨hlow, -⟩
  · have hhigh : isHighSurrogate unit.toNat = true := hhigh
    rw [hhigh]
    cases hunits with
    | nil => exact refuses_character (.inl hhigh) start
    | @cons digits' next texts units hnextUnit hunits =>
      -- The escape behind it is read too, but it is not the other half.
      have hnext : isLowSurrogate next.toNat = false := hnext
      refine (reads_drop _ 2).refuses ((reads_unit hnextUnit start).refuses ?_)
      rw [hnext]
      exact refuses_fail .loneSurrogate start
  · have hlow : isLowSurrogate unit.toNat = true := hlow
    have hhigh : isHighSurrogate unit.toNat = false := by
      rw [Bool.eq_false_iff]
      intro hhigh
      rw [isLowSurrogate_of_isHighSurrogate hhigh] at hlow
      cases hlow
    rw [hhigh]
    exact refuses_character (.inr hlow) start

end Reader

/-! ## Reading several escapes -/

namespace Escape

/-- The escapes of the units of a character spell it. -/
theorem spells_escapedText {texts : List (List Char)} {c : Char}
    (h : List.Forall₂ WritesUnit texts (encodeChar c)) (reserved : List Char) :
    Spells reserved c (escapedText texts) := by
  have hencodes := Utf16.encodes_encodeChar c
  generalize encodeChar c = units at h hencodes
  cases hencodes with
  | unit hc =>
    obtain ⟨digits, _, hunit, hnone, rfl⟩ := List.forall₂_cons_right_iff.1 h
    obtain rfl := List.forall₂_nil_right_iff.1 hnone
    rw [escapedText, List.flatMap_singleton]
    exact .escape (by decide) fun start rest ↦
      Reader.reads_readEscape_unicode (Reader.reads_unicodeEscape_unit hunit hc start)
  | pair hhigh hlow hc =>
    obtain ⟨digits, _, hfirst, hnext, rfl⟩ := List.forall₂_cons_right_iff.1 h
    obtain ⟨digits', _, hsecond, hnone, rfl⟩ := List.forall₂_cons_right_iff.1 hnext
    obtain rfl := List.forall₂_nil_right_iff.1 hnone
    rw [escapedText, List.flatMap_cons, List.flatMap_singleton, unitText, List.cons_append,
      List.cons_append]
    refine .escape (by decide) fun start rest ↦ Reader.reads_readEscape_unicode ?_
    rw [List.append_assoc]
    exact Reader.reads_unicodeEscape_pair hfirst hsecond hhigh hlow hc start

/-- The escapes of the units of characters spell the characters one after the other. -/
theorem exists_spells_escapedText {texts : List (List Char)} {chars : List Char}
    (h : List.Forall₂ WritesUnit texts (encode chars)) :
    ∃ spelled, List.Forall₂ (Spells Regex.operators) chars spelled ∧
      spelled.flatten = escapedText texts := by
  induction chars generalizing texts with
  | nil =>
    obtain rfl := List.forall₂_nil_right_iff.1 h
    exact ⟨[], .nil, rfl⟩
  | cons c chars ih =>
    rw [encode, List.flatMap_cons, ← encode] at h
    have hfirst := List.forall₂_take_append _ _ _ h
    obtain ⟨spelled, hspells, hflatten⟩ := ih (List.forall₂_drop_append _ _ _ h)
    refine ⟨_ :: spelled, .cons (spells_escapedText hfirst _) hspells, ?_⟩
    rw [List.flatten_cons, hflatten, escapedText, escapedText, escapedText, ← List.flatMap_append,
      List.take_append_drop]

end Escape

namespace Reading

variable {reading : Reading} {texts : List (List Char)} {units : List UInt16}

/-- Reading is refused at an unpaired surrogate. -/
theorem run_eq_loneSurrogate (hcomments : reading.flags.comments = false)
    (h : List.Forall₂ WritesUnit texts units) (hunpaired : IsUnpaired units 0)
    (hrest : reading.cursor.rest = escapedText texts) :
    reading.run = .error ⟨.loneSurrogate, reading.cursor.position⟩ := by
  cases h with
  | nil => exact absurd hunpaired (Utf16.not_isUnpaired_nil 0)
  | @cons digits unit texts units hunit hunits =>
    have hescape : (Reader.readEscape reading.cursor.position 'u').run
        ⟨digits ++ escapedText texts, reading.cursor.position + 1 + 1⟩ =
        .error ⟨.loneSurrogate, reading.cursor.position⟩ := by
      show (do return char (← Reader.unicodeEscape _) : Reader Escape).run _ = _
      exact (Reader.refuses_unicodeEscape hunit hunits hunpaired _).bind _
    rw [run_eq_advance hcomments hrest (by simp)]
    show reading.readEscape reading.cursor.position
      ⟨'u' :: (digits ++ escapedText texts), reading.cursor.position + 1⟩ >>= run = _
    rw [readEscape_eq_of_isShared (by decide), hescape]
    rfl

/-- The escapes of the units of characters are read as the characters, up to what stands behind
them. -/
theorem run_eq_addRow_escapedText (reading : Reading) (hcomments : reading.flags.comments = false)
    {chars : List Char} (h : List.Forall₂ WritesUnit texts (encode chars ++ units))
    (hrest : reading.cursor.rest = escapedText texts) :
    ∃ later, List.Forall₂ WritesUnit later units ∧
      reading.run = { reading with
        cursor := ⟨escapedText later, reading.cursor.position + 6 * (encode chars).length⟩
        level := reading.level.addRow (Regex.unitsOfText chars reading.flags.ignoreCase) }.run := by
  have hchars := List.forall₂_take_append _ _ _ h
  have hlater := List.forall₂_drop_append _ _ _ h
  generalize hfirst : texts.take (encode chars).length = first at hchars
  generalize hsecond : texts.drop (encode chars).length = later at hlater
  obtain ⟨spelled, hspells, hflatten⟩ := exists_spells_escapedText hchars
  have htexts : escapedText texts = spelled.flatten ++ escapedText later := by
    rw [hflatten, ← hfirst, ← hsecond, escapedText, escapedText, escapedText,
      ← List.flatMap_append, List.take_append_drop]
  have hunit : AtUnit (escapedText later) := by
    cases hlater with
    | nil => exact ⟨nofun, nofun⟩
    | cons => exact ⟨by simp [escapedText, unitText], by simp [escapedText, unitText]⟩
  refine ⟨later, hlater, ?_⟩
  rw [run_eq_addRow hcomments hspells (hrest.trans htexts) hunit, hflatten,
    length_escapedText hchars]

end Reading

namespace Pattern

variable {texts : List (List Char)} {units : List UInt16}

/-- The escapes of the units of characters stand for the characters. -/
theorem compile_escapedText_encode {chars : List Char}
    (h : List.Forall₂ WritesUnit texts (encode chars)) :
    compile (.ofList (escapedText texts)) .none =
      .ok ⟨.ofList (escapedText texts), .none, .ofText chars false⟩ := by
  rw [← List.append_nil (encode chars)] at h
  obtain ⟨later, hnone, hrun⟩ :=
    Reading.run_eq_addRow_escapedText (.start (escapedText texts) .none) rfl h rfl
  obtain rfl := List.forall₂_nil_right_iff.1 hnone
  have hrow : ({} : Level).addRow (Regex.unitsOfText chars false) =
      Level.addRows {} [Regex.unitsOfText chars false] := rfl
  have htree : (Level.addRow {} (Regex.unitsOfText chars false)).tree =
      .inSequence (Regex.unitsOfText chars false) := by
    rw [hrow, Level.tree_addRows (by simp)]
    rfl
  have hdone : (Reading.start (escapedText texts) .none).run =
      .ok (.inSequence (Regex.unitsOfText chars false), {}) := by
    rw [hrun, Reading.run_eq_done rfl rfl, ← htree]
    rfl
  have hneeded : (Regex.inSequence (Regex.unitsOfText chars false)).certainty.needed = [] := by
    rw [Regex.certainty, Regex.summarize_inSequence,
      Regex.all_map_unitsOfText Certainty.lawful_summary]
    rfl
  have hpossible : (Regex.inSequence (Regex.unitsOfText chars false)).Possible :=
    Regex.possible_inSequence (by simp [Regex.unitsOfText, Regex.Possible])
  rw [compile_of_run rfl hdone hneeded hpossible, Regex.simplify_unitsOfText]

/-- Escapes with an unpaired surrogate behind those of characters are refused there. -/
theorem compile_escapedText_append {chars : List Char}
    (h : List.Forall₂ WritesUnit texts (encode chars ++ units)) (hunpaired : IsUnpaired units 0) :
    compile (.ofList (escapedText texts)) .none =
      .error ⟨.ofList (escapedText texts),
      ⟨.loneSurrogate, 6 * (encode chars).length⟩⟩ := by
  obtain ⟨later, hlater, hrun⟩ :=
    Reading.run_eq_addRow_escapedText (.start (escapedText texts) .none) rfl h rfl
  have herror : (Reading.start (escapedText texts) .none).run =
      .error ⟨.loneSurrogate, 6 * (encode chars).length⟩ := by
    rw [hrun, Reading.run_eq_loneSurrogate rfl hlater hunpaired rfl]
    show Except.error (Located.mk _ (0 + 6 * (encode chars).length)) = _
    rw [Nat.zero_add]
  rw [compile, String.toList_ofList, Regex.parse, herror]
  rfl

/-- Escaped units are accepted just when they are those of characters, and then they stand for the
text of the characters. Otherwise they are refused at the first unpaired surrogate. -/
theorem compile_escapedText (h : List.Forall₂ WritesUnit texts units) :
    ((∃ pattern, compile (.ofList (escapedText texts)) .none = .ok pattern) ↔
        ∃ chars, units = encode chars) ∧
      (∀ chars, units = encode chars → compile (.ofList (escapedText texts)) .none =
        .ok ⟨.ofList (escapedText texts), .none, .ofText chars false⟩) ∧
      ((¬ ∃ chars, units = encode chars) → ∃ index error, IsFirstUnpaired units index ∧
        compile (.ofList (escapedText texts)) .none = .error error ∧
        error.diagnostic.kind = .unsupported ∧ error.diagnostic.position = 6 * index) := by
  obtain ⟨chars, rest, rfl, hrest⟩ := Utf16.exists_encode_append units
  rcases hrest with rfl | hunpaired
  · have hencode : encode chars ++ [] = encode chars := List.append_nil _
    rw [hencode] at h ⊢
    refine ⟨⟨fun _ ↦ ⟨chars, rfl⟩, fun _ ↦ ⟨_, compile_escapedText_encode h⟩⟩, ?_,
      ?_⟩
    · intro others heq
      rw [heq] at h
      exact compile_escapedText_encode h
    · exact fun hnone ↦ absurd ⟨chars, rfl⟩ hnone
  · have herror := compile_escapedText_append h hunpaired
    have hfirst := Utf16.isFirstUnpaired_encode_append chars hunpaired
    have hnone : ¬ ∃ others, encode chars ++ rest = encode others :=
      fun hsome ↦ (Utf16.exists_eq_encode_iff _).1 hsome _ hfirst.unpaired
    refine ⟨⟨fun ⟨pattern, hok⟩ ↦ ?_, fun hsome ↦ absurd hsome hnone⟩, ?_, ?_⟩
    · rw [herror] at hok
      cases hok
    · exact fun others heq ↦ absurd ⟨others, heq⟩ hnone
    · exact fun _ ↦ ⟨_, _, hfirst, herror, rfl, rfl⟩

/-- A surrogate pair behind a letter is accepted, and another first half in front of the pair is
refused. -/
theorem compile_escapedText_pairs :
    List.Forall₂ WritesUnit ["0041".toList, "D83D".toList, "de00".toList]
      [0x0041, 0xD83D, 0xDE00] ∧
      compile (.ofList (escapedText ["0041".toList, "D83D".toList, "de00".toList])) .none =
        .ok ⟨"\\u0041\\uD83D\\ude00", .none, .literal ['A', '😀'] false⟩ ∧
      List.Forall₂ WritesUnit ["D83D".toList, "D83D".toList, "DE00".toList]
        [0xD83D, 0xD83D, 0xDE00] ∧
      ∃ index error, IsFirstUnpaired [0xD83D, 0xD83D, 0xDE00] index ∧
        compile (.ofList (escapedText ["D83D".toList, "D83D".toList, "DE00".toList])) .none =
          .error error ∧
        error.diagnostic.kind = .unsupported ∧ error.diagnostic.position = 6 * index := by
  have hpair : List.Forall₂ WritesUnit ["0041".toList, "D83D".toList, "de00".toList]
      [0x0041, 0xD83D, 0xDE00] :=
    .cons ⟨rfl, List.all_eq_true.1 rfl, rfl⟩ (.cons ⟨rfl, List.all_eq_true.1 rfl, rfl⟩
      (.cons ⟨rfl, List.all_eq_true.1 rfl, rfl⟩ .nil))
  have hextra : List.Forall₂ WritesUnit ["D83D".toList, "D83D".toList, "DE00".toList]
      [0xD83D, 0xD83D, 0xDE00] :=
    .cons ⟨rfl, List.all_eq_true.1 rfl, rfl⟩ (.cons ⟨rfl, List.all_eq_true.1 rfl, rfl⟩
      (.cons ⟨rfl, List.all_eq_true.1 rfl, rfl⟩ .nil))
  have hunpaired : ¬ ∃ chars, [0xD83D, 0xD83D, 0xDE00] = encode chars := by
    intro hsome
    exact (Utf16.exists_eq_encode_iff _).1 hsome 0 (by decide)
  exact ⟨hpair, (compile_escapedText hpair).2.1 ['A', '😀'] (by decide), hextra,
    (compile_escapedText hextra).2.2 hunpaired⟩

end Pattern

end Exemplar
