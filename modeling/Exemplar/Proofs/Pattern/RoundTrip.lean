import Exemplar.Proofs.Grammar.LeadingBack
import Exemplar.Proofs.Grammar.Rereading
import Exemplar.Proofs.Pattern.Strings

/-!
# Patterns are written and read again

The tree of a pattern is written as a pattern that compiles to the same tree up to the extents of
references (`exists_compile_toString`), as long as no group was removed from it: otherwise the
groups behind the removed one would get other numbers. Without references it is the same tree
(`compile_toString_root`). References keep their meaning (`referenceIds_compile_toString`) unless a
digit stands behind a number that it continues (`not_referenceIds_digitBehindReference`). A set
with members is written as a pattern for just this set (`compile_toString_set`).
-/

namespace Exemplar

/-- Every reference is counted. -/
theorem Regex.length_referenceIds (tree : Regex) :
    tree.referenceIds.length = tree.referenceCount := by
  have hlist (trees : List Regex) (ih : ∀ tree ∈ trees,
      tree.referenceIds.length = tree.referenceCount) :
      (trees.flatMap referenceIds).length = referenceCounts trees := by
    induction trees with
    | nil => rfl
    | cons tree trees ihtrees =>
      rw [List.flatMap_cons, List.length_append, ih tree (by simp), referenceCounts,
        ihtrees fun other hother ↦ ih other (List.mem_cons_of_mem _ hother)]
  induction tree with
  | empty => rfl
  | literal text ignoreCase => rfl
  | set members => rfl
  | sequence parts ih => rw [referenceIds_sequence, hlist parts ih, referenceCount]
  | choice options ih => rw [referenceIds_choice, hlist options ih, referenceCount]
  | repetition body least most mode ih => exact ih
  | group kind body ih => rw [referenceIds_group, ih, referenceCount]
  | backref id extent => rfl

namespace Pattern

variable {text : String} {flags : Flags} {pattern : Pattern}

/-- The tree of a pattern that compiles is possible. -/
theorem possible_of_compile (h : compile text flags = .ok pattern) : pattern.root.Possible := by
  obtain ⟨tree, hparse, rfl⟩ := compile_eq_ok h
  refine Regex.Possible.simplify ?_
  rcases Regex.parse_eq_ok hparse with rfl | ⟨read, groups, -, -, hprune⟩
  · cases hlist : text.toList <;> exact trivial
  · exact Regex.possible_of_prune hprune

/-- The tree of a pattern is written as a pattern that compiles to the same tree up to the extents
of references, if its groups are numbered in the order in which they begin, if no digit behind a
reference continues its number, and if the groups that are referred to are still there. -/
theorem exists_compile_toString (h : compile text flags = .ok pattern)
    (hnumbers : pattern.root.groupNumbers = List.range' 1 pattern.root.groupNumbers.length)
    (hseparates : pattern.root.separates 0 [] = true)
    (hleft : ∀ id ∈ pattern.root.assertedIds, id ∈ pattern.root.definedIds) :
    ∃ root, compile (toString pattern.root) .none =
      .ok ⟨toString pattern.root, .none, root⟩ ∧ root.bare = pattern.root.bare := by
  have hpossible := possible_of_compile h
  obtain ⟨tree, hparse, rfl⟩ := compile_eq_ok h
  obtain ⟨groups, hfits⟩ := Regex.exists_fits_of_parse hparse
  have hroot := (groups.stable_fits.simplify hfits).1
  have hreadable : tree.simplify.Everywhere Regex.IsReadable :=
    hroot.mono fun _ ↦ Groups.Fits.isReadable
  have hback := Regex.leadBack_simplify_of_parse hparse hleft
  have hneeded := Regex.needed_simplify_of_parse hparse
  obtain ⟨read, hread, hbare⟩ :=
    Regex.exists_parse_render hroot hpossible hnumbers hback hseparates hneeded
  have htext : (toString tree.simplify).toList = tree.simplify.render := String.toList_ofList
  refine ⟨read.simplify, ?_, ?_⟩
  · rw [compile, htext, hread]
  · calc read.simplify.bare
        = tree.simplify.reread.bare.simplify := by rw [← Regex.simplify_bare, hbare]
      _ = tree.simplify.simplify.bare := by rw [Regex.simplify_bare, hreadable.simplify_reread]
      _ = tree.simplify.bare := by rw [Regex.simplify_simplify]

/-- The tree of a pattern is written as a pattern that compiles to the same tree, if it has no
backreferences and its groups are numbered in the order in which they begin. -/
theorem compile_toString_root (h : compile text flags = .ok pattern)
    (hreferences : pattern.root.referenceCount = 0)
    (hnumbers : pattern.root.groupNumbers = List.range' 1 pattern.root.groupNumbers.length) :
    compile (toString pattern.root) .none =
      .ok ⟨toString pattern.root, .none, pattern.root⟩ := by
  have hnone : pattern.root.referenceIds = [] := by
    rw [← List.length_eq_zero_iff, Regex.length_referenceIds, hreferences]
  have hasserted := pattern.root.assertedIds_subset_referenceIds
  rw [hnone] at hasserted
  obtain ⟨root, hcompile, hbare⟩ := exists_compile_toString h hnumbers
    (Regex.separates_of_referenceIds_eq_nil hnone 0 []) fun id hid ↦
      absurd (hasserted hid) List.not_mem_nil
  rw [hcompile, Regex.eq_of_bare hbare hnone]

/-- A pattern with a switch of case, a group that may be empty and an assertion. -/
def dashedWords : Pattern where
  source := "(?<word>[x-z]\x7b2,\x7d?|(?i)Q\\.)*+((?:-|))(?!\\tz)"
  flags := .none
  root := .sequence
    [.repetition
      (.group (.capturing 1 (some "word"))
        (.choice [.repetition (.set (.range 'x' 'z')) 2 .unbounded .reluctant,
          .literal ['Q', '.'] true]))
      0 .unbounded .possessive,
     .group (.capturing 2 none) (.choice [.literal ['-'] false, .empty]),
     .group (.lookahead true) (.literal ['\t', 'z'] false)]

/-- The switch of case moves into a group of its own, and the plain group disappears. -/
theorem compile_toString_dashedWords : compile dashedWords.source .none = .ok dashedWords ∧
    dashedWords.root.referenceCount = 0 ∧
    dashedWords.root.groupNumbers = List.range' 1 dashedWords.root.groupNumbers.length ∧
    compile (toString dashedWords.root) .none =
      .ok ⟨toString dashedWords.root, .none, dashedWords.root⟩ := by
  have hcompile : compile dashedWords.source .none = .ok dashedWords := by decide +kernel
  have hreferences : dashedWords.root.referenceCount = 0 := by decide
  have hnumbers :
      dashedWords.root.groupNumbers = List.range' 1 dashedWords.root.groupNumbers.length := by
    decide
  exact ⟨hcompile, hreferences, hnumbers, compile_toString_root hcompile hreferences hnumbers⟩

/-- The references in the tree of a pattern keep their meaning in the pattern that is written for
the tree, if no digit behind a reference continues its number and if the references inside
assertions still have their groups. Apart from the extents of references, the tree that is read is
the same. -/
theorem referenceIds_compile_toString (h : compile text flags = .ok pattern)
    (hnumbers : pattern.root.groupNumbers = List.range' 1 pattern.root.groupNumbers.length)
    (hseparates : pattern.root.separates 0 [] = true)
    (hleft : ∀ id ∈ pattern.root.assertedIds, id ∈ pattern.root.definedIds) :
    ∃ again, compile (toString pattern.root) .none = .ok again ∧
      again.root.referenceIds = pattern.root.referenceIds ∧
      again.root.bare = pattern.root.bare := by
  obtain ⟨root, hcompile, hbare⟩ := exists_compile_toString h hnumbers hseparates hleft
  have hmarks : root.marks = pattern.root.marks := Regex.summarize_eq_of_bare Mark.summary hbare
  refine ⟨_, hcompile, ?_, hbare⟩
  rw [Regex.referenceIds, hmarks, Regex.referenceIds]

/-- A reference by number in front of a digit that does not continue it, one by name, and one in an
assertion. The second group loses an option, but the references to it keep the extent that it
had. -/
def digitBehindGroups : Pattern where
  source := "(a|bc)(?<word>x|yz[a&&b])\\1(?:0)(?=\\k<word>)\\k<word>1"
  flags := .none
  root := .sequence
    [.group (.capturing 1 none) (.choice [.literal ['a'] false, .literal ['b', 'c'] false]),
     .group (.capturing 2 (some "word")) (.literal ['x'] false),
     .backref (.index 1) (.between 1 (.ofExact 2)),
     .literal ['0'] false,
     .group (.lookahead false) (.backref (.name "word") (.between 1 (.ofExact 3))),
     .backref (.name "word") (.between 1 (.ofExact 3)),
     .literal ['1'] false]

/-- There are no ten groups, so the number is read without the digit behind it. -/
theorem referenceIds_compile_digitBehindGroups :
    compile digitBehindGroups.source .none = .ok digitBehindGroups ∧
    digitBehindGroups.root.groupNumbers =
      List.range' 1 digitBehindGroups.root.groupNumbers.length ∧
    digitBehindGroups.root.separates 0 [] = true ∧
    (∀ id ∈ digitBehindGroups.root.assertedIds, id ∈ digitBehindGroups.root.definedIds) ∧
    toString digitBehindGroups.root = "(a|bc)(?<word>x)\\10(?=\\k<word>)\\k<word>1" ∧
    ∃ again, compile (toString digitBehindGroups.root) .none = .ok again ∧
      again.root.referenceIds = digitBehindGroups.root.referenceIds ∧
      again.root.bare = digitBehindGroups.root.bare := by
  have hcompile : compile digitBehindGroups.source .none = .ok digitBehindGroups := by
    decide +kernel
  have hnumbers : digitBehindGroups.root.groupNumbers =
      List.range' 1 digitBehindGroups.root.groupNumbers.length := by decide
  have hseparates : digitBehindGroups.root.separates 0 [] = true := by decide
  have hleft : ∀ id ∈ digitBehindGroups.root.assertedIds,
      id ∈ digitBehindGroups.root.definedIds := by
    decide
  exact ⟨hcompile, hnumbers, hseparates, hleft, by decide +kernel,
    referenceIds_compile_toString hcompile hnumbers hseparates hleft⟩

/-- Ten groups, and a reference to the first of them in front of a digit. -/
def digitBehindReference : Pattern where
  source := "(a)(b)(c)(d)(e)(f)(g)(h)(i)(j)\\1(?:0)"
  flags := .none
  root := .sequence <|
    ['a', 'b', 'c', 'd', 'e', 'f', 'g', 'h', 'i', 'j'].mapIdx (fun index c ↦
      .group (.capturing (index + 1) none) (.literal [c] false)) ++
    [.backref (.index 1) (.ofLength 1), .literal ['0'] false]

/-- The reference is written in front of the digit, and together they are read as a reference to
the tenth group. -/
theorem not_referenceIds_digitBehindReference :
    compile digitBehindReference.source .none = .ok digitBehindReference ∧
    digitBehindReference.root.groupNumbers = List.range' 1 10 ∧
    digitBehindReference.root.referenceIds = [.index 1] ∧
    toString digitBehindReference.root = "(a)(b)(c)(d)(e)(f)(g)(h)(i)(j)\\10" ∧
    ((compile (toString digitBehindReference.root) .none).map (·.root.referenceIds)).toOption =
      some [.index 10] := by
  decide +kernel

/-- A set with members is written as a pattern that compiles to the set, whether the text lists its
runs, those of its complement, or all characters. -/
theorem compile_toString_set {set : CharSet} (h : set.isEmpty = false) :
    compile (toString set) .none = .ok ⟨toString set, .none, .set set⟩ := by
  have htext : (toString set).toList = (Regex.set set).render := String.toList_ofList
  have hfits : (Regex.set set).Everywhere (Groups.Fits {}) := trivial
  have hback : LeadBack (Regex.set set).marks := by
    intro before id after heq
    cases before <;> cases heq
  obtain ⟨read, hread, hbare⟩ := Regex.exists_parse_render hfits h rfl hback rfl rfl
  obtain rfl : read = (Regex.set set).reread := Regex.eq_of_bare hbare rfl
  rw [compile, htext, hread]
  rfl

/-- Members that are escaped, runs of two, and runs up to the surrogates and to the last
character. -/
def awkwardSet : CharSet :=
  .ofChars ['-', ']', '^', '\\', 'a', 'b', '\n', 'é', '\ud7fe', '\ud7ff', '\ufffe', '\uffff'] ∪
    .range '0' '9'

/-- The text of the set lists its runs, and that of its complement lists the same runs behind a
caret. -/
theorem compile_toString_awkwardSet :
    awkwardSet.isEmpty = false ∧ awkwardSet.negate.isEmpty = false ∧
    toString awkwardSet = "[\\n\\-0-9\\\\-\\^ab\\xe9\\ud7fe\\ud7ff\\ufffe\\uffff]" ∧
    toString awkwardSet.negate = "[^\\n\\-0-9\\\\-\\^ab\\xe9\\ud7fe\\ud7ff\\ufffe\\uffff]" ∧
    compile (toString awkwardSet) .none = .ok ⟨toString awkwardSet, .none, .set awkwardSet⟩ ∧
    compile (toString awkwardSet.negate) .none =
      .ok ⟨toString awkwardSet.negate, .none, .set awkwardSet.negate⟩ := by
  have hset : awkwardSet.isEmpty = false := by decide +kernel
  have hnegate : awkwardSet.negate.isEmpty = false := by decide +kernel
  exact ⟨hset, hnegate, by decide +kernel, by decide +kernel, compile_toString_set hset,
    compile_toString_set hnegate⟩

end Pattern

end Exemplar
