import Exemplar.CharSet.Render
import Exemplar.Grammar.Escape
import Mathlib.Algebra.Group.Nat.Defs

/-!
# What readers read

`reader.Reads source value rest` says that a reader takes a value from the front of a text, wherever
the text stands in a pattern, and leaves a given rest. It holds of a compound reader when each part
reads what the parts before it left. Digits are read back as the number that they were written for
(`numberOf_toDigits`).
-/

namespace Exemplar

namespace Cursor

/-- Nothing is skipped in front of the text: it begins with a character that counts, or it is
empty. -/
def Unskipped (comments : Bool) (text : List Char) : Prop :=
  ∀ position, Cursor.skip comments ⟨text, position⟩ = ⟨text, position⟩

/-- Nothing is skipped where no quotation begins. -/
theorem unskipped_of_unquoted {text : List Char} (h : ∀ more, text ≠ '\\' :: 'Q' :: more) :
    Unskipped false text := by
  intro position
  show skipFrom false false text position = _
  unfold skipFrom
  split
  · contradiction
  · contradiction
  · exact absurd rfl (h _)
  · simp
  · rfl

/-- A character that is no blank and begins no comment counts, unless it begins an empty
quotation. -/
theorem unskipped_cons {c : Char} {rest : List Char} (hblank : isBlank c = false)
    (hcomment : c ≠ '#') (hquoted : ∀ more, c :: rest ≠ '\\' :: 'Q' :: '\\' :: 'E' :: more)
    (comments : Bool) :
    Unskipped comments (c :: rest) := by
  intro position
  show skipFrom comments false (c :: rest) position = _
  unfold skipFrom
  split
  · contradiction
  · contradiction
  · rename_i heq
    exact absurd heq (hquoted _)
  · rename_i heq
    cases heq
    simp [hblank, hcomment]
  · contradiction

/-- Nothing is skipped at the end of a pattern. -/
theorem unskipped_nil (comments : Bool) : Unskipped comments [] :=
  fun _ ↦ rfl

end Cursor

namespace Reader

variable {α β : Type}

/-- The reader takes the value from the source and leaves the rest. -/
def Reads (reader : Reader α) (source : List Char) (value : α) (rest : List Char) : Prop :=
  ∀ position, ∃ stop, reader.run ⟨source, position⟩ = .ok (value, ⟨rest, stop⟩)

namespace Reads

variable {reader : Reader α} {source middle rest : List Char} {value : α} {result : β}

/-- A result takes nothing. -/
theorem pure : Reads (Pure.pure value : Reader α) source value source :=
  fun position ↦ ⟨position, rfl⟩

/-- A compound reader reads on where its first part stopped. -/
theorem bind {continuation : α → Reader β} (hreader : reader.Reads source value middle)
    (h : (continuation value).Reads middle result rest) :
    (reader >>= continuation).Reads source result rest := by
  intro position
  obtain ⟨between, hfirst⟩ := hreader position
  obtain ⟨stop, hsecond⟩ := h between
  refine ⟨stop, ?_⟩
  rw [StateT.run_bind, hfirst]
  exact hsecond

/-- Looking at the cursor takes nothing. -/
theorem get {continuation : Cursor → Reader β}
    (h : ∀ position, (continuation ⟨source, position⟩).Reads source result rest) :
    ((MonadState.get : Reader Cursor) >>= continuation).Reads source result rest :=
  fun position ↦ h position position

/-- Looking at the position takes nothing. -/
theorem position {continuation : Nat → Reader β}
    (h : ∀ position, (continuation position).Reads source result rest) :
    (Reader.position >>= continuation).Reads source result rest :=
  fun position ↦ h position position

end Reads

variable {source rest : List Char} {c : Char}

/-- Moving on takes characters. -/
theorem reads_drop (source : List Char) (count : Nat) :
    (modify (·.drop count) : Reader Unit).Reads source () (source.drop count) :=
  fun position ↦ ⟨position + count, rfl⟩

/-- The next character is looked at. -/
theorem reads_peek? : peek?.Reads source source.head? source :=
  fun position ↦ ⟨position, rfl⟩

/-- The next character is taken. -/
theorem reads_next? : next?.Reads (c :: rest) (some c) rest :=
  fun position ↦ ⟨position + 1, rfl⟩

/-- An expected character is taken. -/
theorem reads_eat : (eat c).Reads (c :: rest) true rest := by
  refine reads_peek?.bind ?_
  rw [List.head?_cons, if_pos rfl]
  exact (reads_drop _ 1).bind .pure

/-- Another character is left where it is. -/
theorem reads_eat_of_ne (h : source.head? ≠ some c) : (eat c).Reads source false source := by
  refine reads_peek?.bind ?_
  rw [if_neg h]
  exact .pure

/-- A run of characters is taken up to the first one without the property. -/
theorem reads_takeWhile {accepts : Char → Bool} {taken : List Char}
    (htaken : ∀ c ∈ taken, accepts c = true) (hrest : ∀ c ∈ rest.head?, accepts c = false) :
    (takeWhile accepts).Reads (taken ++ rest) taken rest := by
  have hstop : rest.takeWhile accepts = [] := by
    cases rest with
    | nil => rfl
    | cons c rest => rw [List.takeWhile_cons_of_neg (by simp [hrest c rfl])]
  have hrun : (taken ++ rest).takeWhile accepts = taken := by
    rw [List.takeWhile_append_of_pos htaken, hstop, List.append_nil]
  refine .get fun position ↦ ?_
  rw [hrun]
  have hdrop : (modify (·.drop taken.length) : Reader Unit).Reads (taken ++ rest) () rest := by
    have hreads := reads_drop (taken ++ rest) taken.length
    rwa [List.drop_left] at hreads
  exact hdrop.bind .pure

/-- Where nothing is skipped, nothing is taken. -/
theorem reads_skip {comments : Bool} (h : Cursor.Unskipped comments source) :
    (skip comments).Reads source () source := by
  intro position
  refine ⟨position, ?_⟩
  show Except.ok ((), Cursor.skip comments ⟨source, position⟩) = _
  rw [h position]

/-- The reader refuses the source, wherever the source stands in a pattern. -/
def Refuses (reader : Reader α) (source : List Char) (located : Located) : Prop :=
  ∀ position, reader.run ⟨source, position⟩ = .error located

/-- A refusal. -/
theorem refuses_fail (fault : Fault) (position : Nat) :
    (fail fault position : Reader α).Refuses source ⟨fault, position⟩ :=
  fun _ ↦ rfl

/-- A compound reader refuses what its first part refuses. -/
theorem Refuses.bind {reader : Reader α} {continuation : α → Reader β} {located : Located}
    (h : reader.Refuses source located) : (reader >>= continuation).Refuses source located := by
  intro position
  rw [StateT.run_bind, h position]
  rfl

/-- A compound reader refuses what is refused where its first part stopped. -/
theorem Reads.refuses {reader : Reader α} {continuation : α → Reader β} {value : α}
    {located : Located} (hreader : reader.Reads source value rest)
    (h : (continuation value).Refuses rest located) :
    (reader >>= continuation).Refuses source located := by
  intro position
  obtain ⟨stop, hstop⟩ := hreader position
  rw [StateT.run_bind, hstop]
  exact h stop

/-- Looking at the cursor takes nothing. -/
theorem Refuses.get {continuation : Cursor → Reader β} {located : Located}
    (h : ∀ position, (continuation ⟨source, position⟩).Refuses source located) :
    ((MonadState.get : Reader Cursor) >>= continuation).Refuses source located :=
  fun position ↦ h position position

end Reader

/-! ## Digits -/

namespace Escape

/-- The character of a digit has the value of the digit. -/
theorem digitValue?_digitChar {base digit : Nat} (hbase : base ≤ 16) (h : digit < base) :
    digitValue? base digit.digitChar = some digit := by
  have hall : ∀ digit < 16, digitValue? 16 (Nat.digitChar digit) = some digit := by decide
  have hdigit := hall digit (by omega)
  unfold digitValue? at hdigit ⊢
  rw [Option.filter_eq_some_iff] at hdigit ⊢
  exact ⟨hdigit.1, by simpa using h⟩

/-- The digits of a number are digits, and they stand for the number. -/
theorem numberOf_toDigits {base : Nat} (hone : 1 < base) (hbase : base ≤ 16) (number : Nat) :
    numberOf base (Nat.toDigits base number) = number ∧
      ∀ c ∈ Nat.toDigits base number, isDigit base c = true := by
  induction number using Nat.strongRecOn with
  | ind number ih =>
    have hdigit {digit : Nat} (h : digit < base) := digitValue?_digitChar hbase h
    by_cases hlt : number < base
    · rw [Nat.toDigits_of_lt_base hlt]
      simp [numberOf, isDigit, hdigit hlt]
    · have hlast : number % base < base := Nat.mod_lt _ (by omega)
      obtain ⟨hvalue, hall⟩ := ih (number / base) (Nat.div_lt_self (by omega) hone)
      rw [Nat.toDigits_of_base_le hone (Nat.le_of_not_lt hlt)]
      constructor
      · rw [numberOf, List.foldl_append, ← numberOf, hvalue, List.foldl_cons, List.foldl_nil,
          hdigit hlast, Option.getD_some, Nat.div_add_mod']
      · intro c hc
        rcases List.mem_append.1 hc with hc | hc
        · exact hall c hc
        · rw [List.mem_singleton.1 hc, isDigit, hdigit hlast]
          rfl

/-- Leading zeros do not change what digits stand for. -/
theorem numberOf_hexDigits (width code : Nat) :
    numberOf 16 (hexDigits width code) = code ∧
      ∀ c ∈ hexDigits width code, isDigit 16 c = true := by
  obtain ⟨hvalue, hall⟩ := numberOf_toDigits (show 1 < 16 by decide) (Nat.le_refl 16) code
  have hzeros (count : Nat) : (List.replicate count '0').foldl
      (fun value c ↦ value * 16 + (digitValue? 16 c).getD 0) 0 = 0 := by
    induction count with
    | zero => rfl
    | succ count ih => exact ih
  constructor
  · rw [hexDigits, List.leftpad, numberOf, List.foldl_append, hzeros]
    exact hvalue
  · intro c hc
    rcases List.mem_append.1 hc with hc | hc
    · rw [List.eq_of_mem_replicate hc]
      decide
    · exact hall c hc

/-- A number below a power of sixteen has as many digits as it is given. -/
theorem length_hexDigits {width code : Nat} (hwidth : 0 < width) (h : code < 16 ^ width) :
    (hexDigits width code).length = width := by
  rw [hexDigits, List.length_leftpad]
  have hle := (Nat.length_toDigits_le_iff (by decide) hwidth).2 h
  omega

/-- The code point of a character is that of the character. -/
theorem charOf?_toNat (c : Char) : charOf? c.toNat = some c := by
  have hvalid : c.toNat.isValidChar := c.valid
  rw [charOf?, if_pos hvalid, Char.ofNat_toNat]

end Escape

end Exemplar
