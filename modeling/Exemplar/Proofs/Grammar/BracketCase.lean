import Exemplar.Grammar.Bracket
import Exemplar.Proofs.CharSet.Folding
import Exemplar.Proofs.Grammar.Positions
import Exemplar.Proofs.Grammar.Yields

/-!
# Bracket expressions in which case does not count

When case does not count, a listed character or range brings its other case with it, while it is
listed. Intersections, complements and nested expressions keep the two cases of a letter together,
so a bracket expression that names no set by an escape has both cases of a letter or none, however
its parts are combined (`mem_readBracket_otherCase`). `Bracket.IsUnited` is what an open expression
owes to this. One item keeps it in all open expressions (`Bracket.isUnited_readItem`), and so does
a whole run (`Bracket.isUnited_readItems`).
-/

namespace Exemplar

/-- The other case of a letter of ASCII. -/
def otherCase (c : Char) : Char :=
  if c.isUpper then c.toLower else c.toUpper

/-! ## Sets that keep the cases of a letter together -/

namespace CaseFolding

variable {folding : CaseFolding} {first second set : CharSet} {c : Char}

/-- A letter of ASCII is connected with its other case. -/
theorem connects_otherCase (h : c.isAlpha = true) : CaseFolding.ascii.Connects c (otherCase c) := by
  have hall : ∀ code < 128, (Char.ofNat code).isAlpha = true →
      ((Char.ofNat code).toNat, (otherCase (Char.ofNat code)).toNat) ∈ asciiPairs := by
    decide
  have hlt : c.toNat < 128 := by
    have hletter : (c.isUpper || c.isLower) = true := h
    obtain hupper | hlower := Bool.or_eq_true_iff.1 hletter
    · have hle : c ≤ 'Z' := (of_decide_eq_true hupper).2
      exact Nat.lt_of_le_of_lt hle (by decide)
    · have hle : c ≤ 'z' := of_decide_eq_true (Bool.and_eq_true_iff.1 hlower).2
      exact Nat.lt_of_le_of_lt hle (by decide)
  have hc := hall c.toNat hlt
  rw [Char.ofNat_toNat] at hc
  exact hc h

/-- The empty set keeps all characters together. -/
theorem isUnited_empty (folding : CaseFolding) : folding.IsUnited .empty :=
  fun _ _ _ ↦ Iff.rfl

/-- A union keeps the characters together that both sets keep together. -/
theorem IsUnited.union (h : folding.IsUnited first) (h' : folding.IsUnited second) :
    folding.IsUnited (first ∪ second) := by
  intro c other hconnects
  rw [CharSet.mem_union, CharSet.mem_union, h c other hconnects, h' c other hconnects]

/-- An intersection keeps the characters together that both sets keep together. -/
theorem IsUnited.inter (h : folding.IsUnited first) (h' : folding.IsUnited second) :
    folding.IsUnited (first ∩ second) := by
  intro c other hconnects
  rw [CharSet.mem_inter, CharSet.mem_inter, h c other hconnects, h' c other hconnects]

end CaseFolding

namespace CharSet.Builder

/-- What a builder lists keeps connected characters together, and its case maps are the given
ones. -/
structure IsUnited (folding : CaseFolding) (builder : Builder) : Prop where
  folding_eq : builder.folding = folding
  members : folding.IsUnited builder.members

namespace IsUnited

variable {folding : CaseFolding} {builder : Builder} {set : CharSet}

/-- A builder without members. -/
theorem start (folding : CaseFolding) : (Builder.start folding).IsUnited folding :=
  ⟨rfl, folding.isUnited_empty⟩

/-- A range is listed with its other cases. -/
theorem addRange (h : builder.IsUnited folding) (hsimple : folding ≠ .unicode)
    (first last : Char) :
    (builder.addRange first last).IsUnited folding := by
  refine ⟨h.folding_eq, ?_⟩
  show folding.IsUnited (builder.members ∪ (range first last).foldCase builder.folding)
  rw [h.folding_eq]
  exact h.members.union (isUnited_foldCase hsimple _)

/-- The members of a set that keeps connected characters together are listed as they are. -/
theorem addSet (h : builder.IsUnited folding) (hset : folding.IsUnited set) :
    (builder.addSet set).IsUnited folding :=
  ⟨h.folding_eq, h.members.union hset⟩

/-- The set that is built keeps connected characters together. -/
theorem build (h : builder.IsUnited folding) : folding.IsUnited builder.build := by
  unfold Builder.build
  split
  · exact h.members.negate
  · exact h.members

end IsUnited

end CharSet.Builder

/-! ## Listing characters -/

/-- Whether the escape with the given mark stands for a set. -/
def Escape.namesSet (mark : Char) : Bool :=
  (sets.lookup mark).isSome || mark == 'p' || mark == 'P'

namespace Reader

open CharSet.Builder (IsUnited)

variable {folding : CaseFolding} {builder : CharSet.Builder}

/-- An escape that names no set stands for a character or a quoted text. -/
theorem yields_readEscape {mark : Char} (h : Escape.namesSet mark = false) (start : Nat) :
    (readEscape start mark).Yields fun escape ↦ ∀ members, escape ≠ .set members := by
  unfold readEscape
  split
  · exact .pure (by simp)
  · split
    · rename_i members hset
      simp [Escape.namesSet, hset] at h
    · split
      · exact .after fun _ ↦ .pure (by simp)
      · exact .after fun _ ↦ .pure (by simp)
      · exact .after fun _ ↦ .pure (by simp)
      · exact .after fun _ ↦ .pure (by simp)
      · simp [Escape.namesSet] at h
      · simp [Escape.namesSet] at h
      · exact .after fun _ ↦ .pure (by simp)
      · exact .fail ..
      · exact .fail ..
      · exact .fail ..
      · split
        · exact .fail ..
        · exact .pure (by simp)

/-- A character or range is listed with its other cases. -/
theorem yields_listRange (h : builder.IsUnited folding) (hsimple : folding ≠ .unicode)
    (comments : Bool) (c : Char) (start : Nat) :
    (listRange comments builder c start).Yields (·.IsUnited folding) := by
  refine .after fun first ↦ .after fun _ ↦ .after fun hyphen ↦ ?_
  split
  · refine .after fun stop ↦ .after fun last? ↦ ?_
    split
    · exact .pure ((h.addRange hsimple first first).addRange hsimple '-' '-')
    · split
      · exact .fail ..
      · exact .pure (h.addRange hsimple ..)
  · exact .pure (h.addRange hsimple first first)

/-- The characters of a quotation are listed with their other cases, and so is a range that begins
with the last one. -/
theorem yields_listQuotation (h : builder.IsUnited folding) (hsimple : folding ≠ .unicode)
    (comments : Bool) (start : Nat) (text : List Char) :
    (listQuotation comments start text builder).Yields (·.IsUnited folding) := by
  fun_induction listQuotation comments start text builder with
  | case1 builder => exact .pure h
  | case2 last builder => exact yields_listRange h hsimple ..
  | case3 builder c rest _ ih => exact .after fun c ↦ ih c (h.addRange hsimple c c)

/-- Behind a character that is taken, reading goes on with it. -/
theorem run_next?_bind {α : Type} {continuation : Option Char → Reader α} {c : Char}
    {rest : List Char} {position : Nat} :
    (next? >>= continuation).run ⟨c :: rest, position⟩ =
      (continuation (some c)).run ⟨rest, position + 1⟩ :=
  rfl

/-- What an escape stands for is listed with its other cases, unless the escape names a set. -/
theorem isUnited_listEscape (h : builder.IsUnited folding) (hsimple : folding ≠ .unicode)
    {comments : Bool} {start : Nat} {cursor next : Cursor} {listed : CharSet.Builder}
    (hset : ∀ mark ∈ cursor.rest.head?, Escape.namesSet mark = false)
    (hrun : (listEscape comments builder start).run cursor = .ok (listed, next)) :
    listed.IsUnited folding := by
  obtain ⟨rest, position⟩ := cursor
  cases rest with
  | nil => cases hrun
  | cons mark rest =>
    have hnone : Escape.namesSet mark = false := hset mark rfl
    rw [listEscape, run_next?_bind] at hrun
    refine Yields.bind (yields_readEscape hnone start) (fun escape hescape ↦ ?_) hrun
    split
    · exact yields_listRange h hsimple ..
    · exact absurd rfl (hescape _)
    · exact yields_listQuotation h hsimple ..

end Reader

/-! ## Open expressions -/

namespace Bracket

variable {folding : CaseFolding} {bracket : Bracket} {enclosing : List Bracket}

/-- What an open expression lists keeps connected characters together, in the current operand and
in the operands before it. -/
structure IsUnited (folding : CaseFolding) (bracket : Bracket) : Prop where
  current : bracket.current.IsUnited folding
  operands : ∀ set ∈ bracket.operands, folding.IsUnited set

namespace IsUnited

/-- An expression behind its opening bracket. -/
theorem opened (folding : CaseFolding) (negated : Bool) :
    (Bracket.opened folding negated).IsUnited folding :=
  ⟨.start folding, by simp [Bracket.opened]⟩

/-- An expression behind its opening bracket and a caret. -/
theorem openAt (folding : CaseFolding) (cursor : Cursor) :
    (Bracket.openAt folding cursor).1.IsUnited folding := by
  unfold Bracket.openAt
  split <;> exact opened ..

/-- The operands are intersected. -/
theorem intersection (h : bracket.IsUnited folding) :
    ∀ set ∈ bracket.intersection, folding.IsUnited set := by
  unfold Bracket.intersection
  split
  · have hcurrent := h.current.build
    split
    · rename_i operands heq
      have hoperands := h.operands operands heq
      simpa using hoperands.inter hcurrent
    · simpa using hcurrent
  · exact h.operands

/-- The set of an expression keeps connected characters together. -/
theorem result (h : bracket.IsUnited folding) : folding.IsUnited bracket.result := by
  have hmembers : folding.IsUnited (bracket.intersection.getD .empty) := by
    cases hsome : bracket.intersection with
    | none => exact folding.isUnited_empty
    | some members => exact h.intersection members hsome
  unfold Bracket.result
  simp only
  split
  · exact hmembers.negate
  · exact hmembers

/-- The next operand lists nothing yet. -/
theorem nextOperand (h : bracket.IsUnited folding) : bracket.nextOperand.IsUnited folding := by
  refine ⟨?_, h.intersection⟩
  show (CharSet.Builder.start bracket.current.folding).IsUnited folding
  rw [h.current.folding_eq]
  exact .start folding

/-- The current operand lists more. -/
theorem listing (h : bracket.IsUnited folding) {current : CharSet.Builder}
    (hcurrent : current.IsUnited folding) : (bracket.listing current).IsUnited folding :=
  ⟨hcurrent, h.operands⟩

end IsUnited

end Bracket

/-- What a step leads to keeps connected characters together, in all expressions that are open. -/
def BracketStep.IsUnited (folding : CaseFolding) : BracketStep → Prop
  | more bracket enclosing _ =>
      bracket.IsUnited folding ∧ ∀ outer ∈ enclosing, outer.IsUnited folding
  | closed members _ => folding.IsUnited members

/-- Whether the item at the cursor is an escape that names a set. -/
def Cursor.namesSet (cursor : Cursor) : Bool :=
  match cursor.rest with
  | '\\' :: mark :: _ => Escape.namesSet mark
  | _ => false

namespace Bracket

variable {folding : CaseFolding} {bracket : Bracket} {enclosing : List Bracket} {comments : Bool}
  {cursor : Cursor}

/-- Closing the innermost expression lists its set in the one around it. -/
theorem isUnited_close (h : bracket.IsUnited folding)
    (henclosing : ∀ outer ∈ enclosing, outer.IsUnited folding) (cursor : Cursor) :
    (bracket.close enclosing cursor).IsUnited folding := by
  cases enclosing with
  | nil => exact h.result
  | cons outer enclosing =>
    obtain ⟨houter, hothers⟩ := List.forall_mem_cons.1 henclosing
    exact ⟨houter.listing (houter.current.addSet h.result), hothers⟩

/-- One item that names no set keeps connected characters together. -/
theorem isUnited_readItem (h : bracket.IsUnited folding)
    (henclosing : ∀ outer ∈ enclosing, outer.IsUnited folding) (hsimple : folding ≠ .unicode)
    (hset : (cursor.skip comments).namesSet = false) {step : BracketStep}
    (hstep : bracket.readItem comments enclosing cursor = .ok step) : step.IsUnited folding := by
  have hgoOn {outcome : Except Located (CharSet.Builder × Cursor)}
      (hlisted : ∀ listed next, outcome = .ok (listed, next) → listed.IsUnited folding)
      (hstep : outcome.map (bracket.goOn enclosing) = .ok step) : step.IsUnited folding := by
    cases outcome with
    | error located => cases hstep
    | ok outcome =>
      cases hstep
      exact ⟨h.listing (hlisted outcome.1 outcome.2 rfl), henclosing⟩
  unfold readItem at hstep
  split at hstep
  · cases hstep
  · rename_i c rest hrest
    simp only at hstep
    split at hstep
    · cases hstep
      exact isUnited_close h henclosing _
    · split at hstep
      · cases hstep
        rw [h.current.folding_eq]
        exact ⟨.openAt .., List.forall_mem_cons.2 ⟨h, henclosing⟩⟩
      · split at hstep
        · cases hstep
          exact ⟨h.nextOperand, henclosing⟩
        · split at hstep
          · subst c
            have hmark : ∀ mark ∈ rest.head?, Escape.namesSet mark = false := by
              intro mark hmark
              obtain ⟨more, rfl⟩ := List.head?_eq_some_iff.1 hmark
              rwa [Cursor.namesSet, hrest] at hset
            exact hgoOn (fun _ _ hrun ↦
              Reader.isUnited_listEscape h.current hsimple hmark hrun) hstep
          · exact hgoOn (fun _ _ hrun ↦
              Reader.yields_listRange h.current hsimple _ _ _ hrun) hstep

/-- Whether an item that is read names a set by an escape. -/
def namesSet (comments : Bool) (bracket : Bracket) (enclosing : List Bracket)
    (cursor : Cursor) : Bool :=
  (cursor.skip comments).namesSet ||
    match _h : bracket.readItem comments enclosing cursor with
    | .ok (.more inner enclosing next) => inner.namesSet comments enclosing next
    | _ => false
termination_by cursor.rest.length
decreasing_by exact readItem_shortens _h

/-- The items behind one that is read name sets as they do by themselves. -/
theorem namesSet_of_more {inner : Bracket} {outer : List Bracket} {next : Cursor}
    (h : bracket.readItem comments enclosing cursor = .ok (.more inner outer next)) :
    bracket.namesSet comments enclosing cursor =
      ((cursor.skip comments).namesSet || inner.namesSet comments outer next) := by
  rw [namesSet]
  split
  · rename_i heq
    cases h.symm.trans heq
    rfl
  · rename_i hnot
    exact absurd h (hnot _ _ _)

/-- Items that name no sets keep connected characters together. -/
theorem isUnited_readItems (h : bracket.IsUnited folding)
    (henclosing : ∀ outer ∈ enclosing, outer.IsUnited folding) (hsimple : folding ≠ .unicode)
    (hset : bracket.namesSet comments enclosing cursor = false) {members : CharSet} {next : Cursor}
    (hrun : bracket.readItems comments enclosing cursor = .ok (members, next)) :
    folding.IsUnited members := by
  fun_induction bracket.readItems comments enclosing cursor with
  | case1 => cases hrun
  | case2 bracket enclosing cursor members' next' hitem =>
    rw [namesSet, Bool.or_eq_false_iff] at hset
    cases hrun
    exact isUnited_readItem h henclosing hsimple hset.1 hitem
  | case3 bracket enclosing cursor inner enclosing' next' hitem ih =>
    rw [namesSet_of_more hitem, Bool.or_eq_false_iff] at hset
    obtain ⟨hinner, houter⟩ := isUnited_readItem h henclosing hsimple hset.1 hitem
    exact ih hinner houter hset.2 hrun

/-- No item names a set in a text in which no backslash stands in front of the mark of a set. -/
theorem namesSet_eq_false {text : List Char} (hon : cursor.On text)
    (h : ∀ mark, Escape.namesSet mark = true → ¬ ['\\', mark] <:+: text) :
    bracket.namesSet comments enclosing cursor = false := by
  have hitem {cursor : Cursor} (hon : cursor.On text) :
      (cursor.skip comments).namesSet = false := by
    have hskip := hon.skip comments
    unfold Cursor.namesSet
    split
    · rename_i mark rest hrest
      have hsuffix : '\\' :: mark :: rest <:+ text := by
        rw [← hrest, hskip.rest_eq]
        exact List.drop_suffix ..
      have hpart : ['\\', mark] <:+: text :=
        (List.prefix_append ['\\', mark] rest).isInfix.trans hsuffix.isInfix
      exact Bool.eq_false_iff.2 fun hmark ↦ h mark hmark hpart
    · rfl
  fun_induction bracket.namesSet comments enclosing cursor with
  | case1 bracket enclosing cursor ih =>
    rw [hitem hon, Bool.false_or]
    split
    · rename_i inner outer next hmore
      have hnext := on_readItem hon comments bracket enclosing
      rw [hmore] at hnext
      exact ih inner outer next hmore hnext
    · rfl

end Bracket

/-- Whether a bracket expression, behind its opening bracket, names a set by an escape. -/
def bracketNamesSet (flags : Flags) (cursor : Cursor) : Bool :=
  let (bracket, cursor) := Bracket.openAt flags.folding cursor
  bracket.namesSet flags.comments [] cursor

/-- No bracket expression names a set in a text in which no backslash stands in front of the mark
of a set. -/
theorem bracketNamesSet_eq_false {text : List Char} {cursor : Cursor} (hon : cursor.On text)
    (h : ∀ mark, Escape.namesSet mark = true → ¬ ['\\', mark] <:+: text) (flags : Flags) :
    bracketNamesSet flags cursor = false :=
  Bracket.namesSet_eq_false (Bracket.on_openAt hon flags.folding) h

/-- When the case of the letters of ASCII does not count, a bracket expression that names no set by
an escape has both cases of a letter or none. -/
theorem mem_readBracket_otherCase {flags : Flags} (hignore : flags.ignoreCase = true)
    (hascii : flags.unicodeCase = false) {cursor next : Cursor}
    (hset : bracketNamesSet flags cursor = false) {members : CharSet}
    (h : readBracket flags cursor = .ok (members, next)) {c : Char} (hletter : c.isAlpha = true) :
    c ∈ members ↔ otherCase c ∈ members := by
  have hfolding : flags.folding = .ascii := by
    rw [Flags.folding, hignore, hascii]
    rfl
  have hopened := Bracket.IsUnited.openAt flags.folding cursor
  have hunited : flags.folding.IsUnited members :=
    Bracket.isUnited_readItems hopened (by simp) (by simp [hfolding]) hset h
  rw [hfolding] at hunited
  exact hunited c (otherCase c) (CaseFolding.connects_otherCase hletter)

/-- A complement of an intersection, with a range that a quotation begins and with escapes, blanks
and a comment. -/
theorem mem_readBracket_otherCase_complement :
    bracketNamesSet { ignoreCase := true, comments := true }
        ⟨"^ \\Qx\\b\\E-d # [\\d\n K[e&&\\x45]&&[^Q\\0101]]+".toList, 1⟩ = false ∧
      ∃ members next, readBracket { ignoreCase := true, comments := true }
          ⟨"^ \\Qx\\b\\E-d # [\\d\n K[e&&\\x45]&&[^Q\\0101]]+".toList, 1⟩ =
            .ok (members, next) ∧
        ('q' ∈ members ∧ 'Q' ∈ members) ∧ 'D' ∉ members ∧ 'd' ∉ members := by
  have hset : bracketNamesSet { ignoreCase := true, comments := true }
      ⟨"^ \\Qx\\b\\E-d # [\\d\n K[e&&\\x45]&&[^Q\\0101]]+".toList, 1⟩ = false := by
    decide +kernel
  have hmembers : ((readBracket { ignoreCase := true, comments := true }
      ⟨"^ \\Qx\\b\\E-d # [\\d\n K[e&&\\x45]&&[^Q\\0101]]+".toList, 1⟩).toOption.map fun read ↦
        (read.1.contains 'q', read.1.contains 'D')) = some (true, false) := by
    decide +kernel
  refine ⟨hset, ?_⟩
  generalize hread : readBracket _ _ = outcome at hmembers
  cases outcome with
  | error located => cases hmembers
  | ok outcome =>
    obtain ⟨members, next⟩ := outcome
    obtain ⟨hq, hd⟩ := Prod.mk.inj (Option.some.inj hmembers)
    have hletter := mem_readBracket_otherCase rfl rfl hset hread (c := 'q') rfl
    have hother := mem_readBracket_otherCase rfl rfl hset hread (c := 'D') rfl
    refine ⟨members, next, rfl, ⟨hq, hletter.1 hq⟩, ?_, ?_⟩
    · exact Bool.eq_false_iff.1 hd
    · exact fun hmem ↦ Bool.eq_false_iff.1 hd (hother.2 hmem)

end Exemplar
