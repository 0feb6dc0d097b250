import Exemplar.Proofs.Generation.Budget
import Exemplar.Proofs.Length.Fitting
import Exemplar.Proofs.Length.Settling
import Exemplar.Proofs.Pattern.Strings

/-!
# Patterns that are sized for a target

A pattern that is sized for a target that it can reach has no string longer than the target, if no
group to which a backreference leads has backreferences inside (`isWithin_sized`). Without this
condition the pattern may have longer strings (`not_isWithin_sized_nestedEchoes`).

Whatever the target is, the least length of a pattern stays, and a pattern without strings longer
than the target stays as it is (`sized_preserves`). A pattern without backreferences that is sized
for a target a second time stays as it is too (`sized_sized`).

A sized pattern repeats a text only up to a limit, so a budget makes no difference when its strings
are generated (`generateFrom_sized`).
-/

namespace Exemplar.Pattern

variable {text : String} {flags : Flags} {pattern : Pattern}
variable {σ : Type} [RandomSource σ] [RandomSource.Lawful σ]

/-- A pattern that is sized for a target that it can reach has no string longer than the target, if
its backreferences have the extents of their groups and no backreference is inside of a group to
which another one leads. -/
theorem isWithin_sized (h : compile text flags = .ok pattern)
    (hmatch : pattern.root.HasMatchingReferences) (hflat : pattern.root.HasFlatReferences)
    {target : Nat} (hfloor : pattern.minLength ≤ target) (htarget : target < Size.largest) :
    (pattern.sized target).maxLength.IsWithin target ∧
      ∀ (source next : σ) (value : String),
        pattern.generateFrom source (some target) = .ok (value, next) →
        value.length ≤ target := by
  have hwell := wellFormed_of_compile h
  obtain ⟨tree, hparse, rfl⟩ := compile_eq_ok h
  obtain ⟨groups, hfits⟩ := Regex.exists_fits_of_parse hparse
  have hread := groups.stable_fits.wellFormed hfits
  have hsafe := (Regex.safe_of_parse hparse).simplify hread
  have hmeasured := (groups.stable_fits.simplify hfits).1.mono fun _ ↦ Groups.Fits.isMeasured
  have hrepeat := Regex.canRepeat_of_safe tree.isNormal_simplify hwell hmeasured .nil hsafe
  obtain ⟨caps, hkeeps⟩ := Regex.keepsTo_sized hwell hsafe hrepeat hmatch hflat hfloor htarget
  have hlargest : Size.largest = Size.modulus - 1 := rfl
  refine ⟨(Bound.isWithin_iff (by omega)).2 hkeeps.extent.ceiling_le, ?_⟩
  intro source next value hgenerate
  obtain ⟨after, hemits⟩ := Regex.emits_of_generate (hwell.towards (some target)) hgenerate
  have hlength := (hkeeps.emits hemits .nil).1.2
  exact Bound.allows_ofExact.1 hlength (by omega)

/-- A pattern with backreferences that are repeated is sized for nine characters. -/
theorem isWithin_sized_echoes : compile echoes.source .none = .ok echoes ∧
    echoes.root.HasMatchingReferences ∧ echoes.root.HasFlatReferences ∧
    echoes.minLength ≤ 9 ∧
    (echoes.sized 9).maxLength.IsWithin 9 ∧
      ∀ (source next : Lcg) (value : String),
        echoes.generateFrom source (some 9) = .ok (value, next) → value.length ≤ 9 := by
  have hmatch : echoes.root.HasMatchingReferences := by decide +kernel
  have hflat : echoes.root.HasFlatReferences := by decide +kernel
  have hfloor : echoes.minLength ≤ 9 := by decide +kernel
  exact ⟨compile_echoes, hmatch, hflat, hfloor,
    isWithin_sized compile_echoes hmatch hflat hfloor (by decide)⟩

/-- A pattern in which a group with a backreference inside is referred to twice. -/
def nestedEchoes : Pattern where
  source := "(a*)(\\1)\\2\\2"
  flags := .none
  root := .sequence
    [.group (.capturing 1 none) (.repetition (.literal ['a'] false) 0 .unbounded .greedy),
     .group (.capturing 2 none) (.backref (.index 1) (.between 0 .unbounded)),
     .backref (.index 2) (.between 0 .unbounded),
     .backref (.index 2) (.between 0 .unbounded)]

/-- A pattern whose backreferences have the extents of their groups has a string that is longer than
the target for which it was sized. -/
theorem not_isWithin_sized_nestedEchoes : compile nestedEchoes.source .none = .ok nestedEchoes ∧
    nestedEchoes.root.HasMatchingReferences ∧ nestedEchoes.minLength ≤ 2 ∧
    ¬ (nestedEchoes.sized 2).maxLength.IsWithin 2 ∧
    nestedEchoes.generate 0 (some 2) = .ok "aaaa" := by
  decide +kernel

/-- The tree of a pattern that compiles is in normal form. -/
theorem isNormal_of_compile (h : compile text flags = .ok pattern) :
    pattern.root.Everywhere Regex.IsNormal := by
  obtain ⟨tree, -, rfl⟩ := compile_eq_ok h
  exact tree.isNormal_simplify

/-- Some length lies in every extent in the tree of a pattern that compiles. -/
theorem valid_of_compile (h : compile text flags = .ok pattern) :
    ∀ node ∈ pattern.root.visible, node.extent.Valid := by
  obtain ⟨sizeOf, hmeasured⟩ := exists_isMeasured_of_compile h
  exact fun node hnode ↦ Regex.valid_of_safe (isNormal_of_compile h)
    (wellFormed_of_compile h) hmeasured .nil (safe_of_compile h) hnode

/-- The counts of every repetition in the tree of a pattern that compiles allow a copy. -/
theorem canRepeat_of_compile (h : compile text flags = .ok pattern) :
    ∀ node ∈ pattern.root.visible, node.CanRepeat := by
  obtain ⟨sizeOf, hmeasured⟩ := exists_isMeasured_of_compile h
  exact Regex.canRepeat_of_safe (isNormal_of_compile h) (wellFormed_of_compile h) hmeasured .nil
    (safe_of_compile h)

/-- A pattern whose backreferences have the extents of their groups keeps its least length when it
is sized for any target, and it stays as it is when its bound does not exceed the target. -/
theorem sized_preserves (h : compile text flags = .ok pattern)
    (hmatch : pattern.root.HasMatchingReferences) (target : Nat) :
    (pattern.sized target).minLength = pattern.minLength ∧
      (pattern.maxLength.IsWithin target → (pattern.sized target).root = pattern.root) := by
  refine ⟨Regex.minLength_sized hmatch target, fun hmax ↦ ?_⟩
  have hwell := wellFormed_of_compile h
  have hnormal := isNormal_of_compile h
  have hsafe := safe_of_compile h
  obtain ⟨sizeOf, hmeasured⟩ := exists_isMeasured_of_compile h
  have hrepeat := Regex.canRepeat_of_safe hnormal hwell hmeasured .nil hsafe
  have hvalid (node : Regex) (hnode : node ∈ pattern.root.visible) : node.extent.Valid :=
    Regex.valid_of_safe hnormal hwell hmeasured .nil hsafe hnode
  have hsizes (node : Regex) (hnode : node ∈ pattern.root.visible) : node.IsMeasured sizeOf :=
    (hmeasured.of_mem_visible hnode).here
  exact Regex.sized_of_isWithin hrepeat hvalid hsizes hmatch hmax

/-- A pattern with backreferences of at most eleven characters. -/
def boundedEchoes : Pattern where
  source := "(?<word>[ab]\x7b1,3\x7d|c)(d|[a&&b])\\k<word>\x7b2\x7d\\2"
  flags := .none
  root := .sequence
    [.group (.capturing 1 (some "word"))
      (.choice [.repetition (.set (.range 'a' 'b')) 1 (.ofExact 3) .greedy, .literal ['c'] false]),
     .group (.capturing 2 none) (.literal ['d'] false),
     .repetition (.backref (.name "word") (.between 1 (.ofExact 3))) 2 (.ofExact 2) .greedy,
     .backref (.index 2) (.ofLength 1)]

/-- A pattern with backreferences keeps its least length for a target below it, and stays as it is
for a target that is its bound. -/
theorem sized_preserves_boundedEchoes : compile boundedEchoes.source .none = .ok boundedEchoes ∧
    boundedEchoes.root.HasMatchingReferences ∧ boundedEchoes.maxLength.IsWithin 11 ∧
    (boundedEchoes.sized 2).minLength = boundedEchoes.minLength ∧
    (boundedEchoes.sized 11).root = boundedEchoes.root := by
  have hcompile : compile boundedEchoes.source .none = .ok boundedEchoes := by decide +kernel
  have hmatch : boundedEchoes.root.HasMatchingReferences := by decide +kernel
  have hmax : boundedEchoes.maxLength.IsWithin 11 := by decide +kernel
  exact ⟨hcompile, hmatch, hmax, (sized_preserves hcompile hmatch 2).1,
    (sized_preserves hcompile hmatch 11).2 hmax⟩

/-- A pattern without backreferences is not changed when it is sized for the same target a second
time, for targets below its least length as well, and also where least lengths were cut off. -/
theorem sized_sized (h : compile text flags = .ok pattern)
    (hplain : ∀ node ∈ pattern.root.visible, node.isBackref = false) {target : Nat}
    (htarget : target < Size.modulus) :
    (pattern.sized target).sized target = pattern.sized target := by
  have hrepeat := canRepeat_of_compile h
  have hvalid := valid_of_compile h
  exact congrArg (fun root ↦ { pattern with root := root })
    (Regex.sized_again hrepeat hvalid hplain htarget)

/-- A pattern of repetitions inside of each other. -/
def nestedCounts : Pattern where
  source := "(?:a\x7b3,9\x7d|b)\x7b2,\x7dc*(d\x7b4\x7d)?"
  flags := .none
  root := .sequence
    [.repetition (.choice
        [.repetition (.literal ['a'] false) 3 (.ofExact 9) .greedy, .literal ['b'] false])
      2 .unbounded .greedy,
     .repetition (.literal ['c'] false) 0 .unbounded .greedy,
     .repetition
       (.group (.capturing 1 none) (.repetition (.literal ['d'] false) 4 (.ofExact 4) .greedy))
      0 1 .greedy]

/-- A pattern is sized twice for a target below its least length, for one that it can reach, and
for the largest size. -/
theorem sized_sized_nestedCounts : compile nestedCounts.source .none = .ok nestedCounts ∧
    (nestedCounts.sized 1).sized 1 = nestedCounts.sized 1 ∧
    (nestedCounts.sized 20).sized 20 = nestedCounts.sized 20 ∧
    (nestedCounts.sized Size.largest).sized Size.largest = nestedCounts.sized Size.largest := by
  have hcompile : compile nestedCounts.source .none = .ok nestedCounts := by decide +kernel
  have hplain : ∀ node ∈ nestedCounts.root.visible, node.isBackref = false := by decide +kernel
  exact ⟨hcompile, sized_sized hcompile hplain (by decide),
    sized_sized hcompile hplain (by decide), sized_sized hcompile hplain (by decide)⟩

/-- Whatever the target is, a repetition in a sized pattern has a limit unless the bound of its
body is zero. If the pattern has no unlimited repetition of a body whose bound is zero, generating
its strings for the target is the same as generating strings of the sized pattern without a
target. -/
theorem generateFrom_sized (h : compile text flags = .ok pattern) (target : Nat) :
    (∀ (body : Regex) (least : Nat) (mode : RepetitionMode),
      .repetition body least .unbounded mode ∈ (pattern.sized target).root.visible →
        body.maxLength = 0) ∧
    ((∀ (body : Regex) (least : Nat) (mode : RepetitionMode),
      .repetition body least .unbounded mode ∈ pattern.root.visible → body.maxLength ≠ 0) →
        ∀ {σ : Type} [RandomSource σ] (source : σ),
          pattern.generateFrom source (some target) =
            (pattern.sized target).generateFrom source none) := by
  obtain ⟨sizeOf, hmeasured⟩ := exists_isMeasured_of_compile h
  have hlimits := Regex.sized_limits (wellFormed_of_compile h)
    (fun node hnode ↦ (hmeasured.of_mem_visible hnode).here) target
  refine ⟨fun body least mode hnode ↦ ?_, fun hsome σ _ source ↦ ?_⟩
  · rcases hlimits _ hnode with hlimited | ⟨⟨-, hmax⟩, -⟩
    · exact absurd rfl hlimited
    · exact hmax
  · have hlimited : ∀ node ∈ (pattern.root.sized target).visible, node.IsLimited := by
      intro node hnode
      refine (hlimits node hnode).resolve_right ?_
      rintro ⟨-, other, hother, hnothing⟩
      cases other with
      | repetition body least most mode =>
        obtain ⟨rfl, hmax⟩ := hnothing
        exact hsome body least mode hother hmax
      | _ => exact hnothing
    show pattern.root.generate source (some target) =
      (pattern.root.sized target).generate source none
    rw [Regex.generate_eq, Regex.generate_eq, Regex.towards, Regex.towards,
      Regex.emit_eq_of_isLimited hlimited (some target)]

/-- A pattern with repetitions that are unlimited, but not of the empty string, is generated for
nine characters. -/
theorem generateFrom_sized_echoes : compile echoes.source .none = .ok echoes ∧
    (∀ (body : Regex) (least : Nat) (mode : RepetitionMode),
      .repetition body least .unbounded mode ∈ echoes.root.visible → body.maxLength ≠ 0) ∧
    ∀ source : Lcg, echoes.generateFrom source (some 9) =
      (echoes.sized 9).generateFrom source none := by
  have hnothing : ∀ node ∈ echoes.root.visible, ¬ node.RepeatsNothing := by decide +kernel
  have hsome (body : Regex) (least : Nat) (mode : RepetitionMode)
      (h : .repetition body least .unbounded mode ∈ echoes.root.visible) :
        body.maxLength ≠ 0 := by
    intro hmax
    apply hnothing _ h
    exact ⟨rfl, hmax⟩
  exact ⟨compile_echoes, hsome, (generateFrom_sized compile_echoes 9).2 hsome⟩

end Exemplar.Pattern
