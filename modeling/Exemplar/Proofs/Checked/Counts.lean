import Exemplar.Proofs.Checked.Emission
import Exemplar.Proofs.Grammar.Yields

/-!
# Counts of copies in sized trees

The copies of each repetition in a sized tree fit, so that no count is no size and neither is the
least length of all copies (`copiesFit_sized`). This holds below the largest size as the target,
for backreferences that have the extents of their groups, and where no least length was cut off.
-/

namespace Exemplar

open List (Forall₂)
open Quantifier (AreCounts largestCount)

namespace Extent

variable {body : Extent} {least target limit : Nat} {most : Bound} {isSize : limit < Size.modulus}

/-- A number that is raised to one below it stays. -/
theorem eq_of_raise_ofExact {count : Nat} (hle : least ≤ count)
    (h : (Bound.ofExact count).raise least = .finite limit isSize) : count = limit := by
  rw [Bound.raise_of_allows ((Bound.allows_ofExact_self count).mono hle)] at h
  rcases Nat.lt_or_ge count Size.modulus with hlt | hge
  · rw [Bound.ofExact_of_lt hlt] at h
    cases h
    rfl
  · rw [Bound.ofExact_of_ge hge] at h
    cases h

/-- A largest count that can be written is no larger than all of them. -/
theorem le_largestCount (hcounts : AreCounts least (.finite limit isSize)) :
    limit ≤ largestCount := by
  rcases hcounts.most_le with h | ⟨count, hcount, h⟩
  · cases h
  · rw [Bound.ofExact_of_lt (Nat.lt_of_le_of_lt hcount (by decide))] at h
    cases h
    exact hcount

/-- The number of copies that is chosen can be written or does not exceed the target. -/
theorem limit_fitRepetition_le (hcounts : AreCounts least most)
    (h : (fitRepetition body least most target).1.raise least = .finite limit isSize) :
    limit ≤ Max.max target largestCount := by
  have hleast := hcounts.least_le
  by_cases hfits : (body.max * most).IsWithin target
  · rw [fitRepetition_of_isWithin least hfits, Bound.raise_of_allows hcounts.allows] at h
    subst h
    exact Nat.le_trans (le_largestCount hcounts) (Nat.le_max_right ..)
  by_cases hshort : target < Size.mulCapped least body.min
  · rw [fitRepetition_of_short hfits hshort] at h
    have hcount := eq_of_raise_ofExact (Nat.le_refl least) h
    omega
  cases hfull : fitRepetition.fullCopies body least target with
  | some each =>
    rw [fitRepetition_of_full hfits hshort hfull] at h
    have hcount := eq_of_raise_ofExact (Nat.le_max_right ..) h
    have hdiv := Nat.div_le_self target each
    omega
  | none =>
    rw [fitRepetition_of_even hfits hshort hfull] at h
    have hcount : evenCount body least most target = limit :=
      eq_of_raise_ofExact (Nat.le_max_right ..) h
    have hdiv := Nat.div_le_self target (Max.max body.min 1)
    rw [evenCount] at hcount
    omega

/-- The fewest copies are chosen for a target that is too short for them. -/
theorem fitRepetition_of_lt (hmost : most.Allows least) (hvalid : body.Valid)
    (hexact : body.min * least < Size.largest) (h : target < body.min * least) :
    fitRepetition body least most target = (.ofExact least, body.min) := by
  have hlargest : Size.largest = Size.modulus - 1 := rfl
  refine fitRepetition_of_short (fun hfits ↦ ?_) ?_
  · rw [Bound.isWithin_iff (by omega)] at hfits
    have := Bound.allows_ofExact.1 ((hvalid.mul hmost).of_le hfits) (by omega)
    omega
  · rw [Size.mulCapped, Nat.mul_comm]
    omega

/-- The least length of all copies that are chosen is a size when the least length of the fewest
copies was not cut off. -/
theorem limit_mul_min_lt (hmost : most.Allows (Max.max least 1)) (hleast : least < Size.modulus)
    (hvalid : body.Valid) (htarget : target < Size.largest)
    (hexact : body.min * least < Size.largest)
    (h : (fitRepetition body least most target).1.raise least = .finite limit isSize) :
    limit * body.min < Size.modulus := by
  have hlargest : Size.largest = Size.modulus - 1 := rfl
  rw [Nat.mul_comm]
  rcases Nat.lt_or_ge target (body.min * least) with hshort | hfloor
  · rw [fitRepetition_of_lt (hmost.mono (Nat.le_max_left ..)) hvalid hexact hshort] at h
    rw [← eq_of_raise_ofExact (Nat.le_refl least) h]
    omega
  · have hcopies :=
      mul_fitRepetition_le hmost hleast (Nat.le_trans (Nat.min_le_left ..) hfloor) htarget
    have heach := min_le_fitRepetition least most target hvalid
    rw [h] at hcopies
    have hlimit : (Bound.finite limit isSize).Allows limit := Nat.le_refl limit
    have hall := (((Bound.allows_ofExact_self _).mono heach).mul hlimit).of_le hcopies
    have := Bound.allows_ofExact.1 hall (by omega)
    omega

/-- The least length of all copies is a size where there is a bound on the length of all of them. -/
theorem limit_mul_min_lt_of_isWithin (hvalid : body.Valid)
    (hwithin : (body.max * .finite limit isSize).IsWithin target) :
    limit * body.min < Size.modulus := by
  have hlimit : (Bound.finite limit isSize).Allows limit := Nat.le_refl limit
  have hall := hvalid.mul hlimit
  rw [Nat.mul_comm]
  cases hbound : body.max * .finite limit isSize with
  | unbounded =>
    rw [hbound] at hwithin
    cases hwithin
  | finite length isSize' =>
    rw [hbound] at hall
    exact Nat.lt_of_le_of_lt hall isSize'

/-- A copy gets a length below the largest size, or one that the bound of the body does not
exceed. -/
theorem fitRepetition_lt_or_isWithin (hmost : most.Allows (Max.max least 1))
    (hleast : least < Size.modulus) (hvalid : body.Valid) (htarget : target < Size.largest)
    (hexact : body.min * least < Size.largest) (hmin : body.min < Size.largest) :
    (fitRepetition body least most target).2 < Size.largest ∨
      body.max.IsWithin (fitRepetition body least most target).2 := by
  have hlargest : Size.largest = Size.modulus - 1 := rfl
  rcases Nat.lt_or_ge target (body.min * least) with hshort | hfloor
  · rw [fitRepetition_of_lt (hmost.mono (Nat.le_max_left ..)) hvalid hexact hshort]
    exact .inl hmin
  rcases Bound.eq_zero_or_allows_one ((fitRepetition body least most target).1.raise least) with
    hzero | hone
  · refine (fitRepetition_eq_zero hmost hzero).imp_left fun heach ↦ ?_
    rwa [heach]
  · -- Where a copy is allowed, it is no longer than the target.
    have hcopies :=
      mul_fitRepetition_le hmost hleast (Nat.le_trans (Nat.min_le_left ..) hfloor) htarget
    have hall :=
      ((Bound.allows_ofExact_self (fitRepetition body least most target).2).mul hone).of_le hcopies
    have := Bound.allows_ofExact.1 hall (by omega)
    omega

end Extent

namespace Regex

variable {expected : GroupId → Extent → Prop} {caps : GroupId → Option Nat}
  {tree body : Regex} {parts options : List Regex} {target : Nat} {plan : SizingPlan}

/-- The counts of a repetition can be written in a pattern. -/
def HasCounts : Regex → Prop
  | repetition _ least most _ => AreCounts least most
  | _ => True

/-- Without a budget, counts that can be written fit. -/
theorem HasCounts.copiesFit (h : tree.HasCounts) : tree.CopiesFit none := by
  cases tree with
  | repetition body least most mode =>
    have hcounts : AreCounts least most := h
    have hwritten : largestCount + 1 < Size.modulus := by decide
    refine ⟨?_, fun hsome ↦ nomatch hsome⟩
    cases most with
    | finite limit isSize =>
      have hlimit := Extent.le_largestCount hcounts
      show limit + 1 < Size.modulus
      omega
    | unbounded =>
      have hleast := hcounts.least_le
      show least + 1 < Size.modulus
      omega
  | _ => exact trivial

/-- The largest budget that has a number behind it. -/
def largestBudget : Nat := Size.largest - 1

/-- The tree may be sized for the target: it is not the largest size, unless the bound of the tree
does not exceed it. -/
def Takes (tree : Regex) (target : Nat) : Prop :=
  target < Size.largest ∨ target = Size.largest ∧ tree.maxLength.IsWithin target

/-- No least length in the tree was cut off. -/
def IsExact (tree : Regex) : Prop :=
  ∀ node ∈ tree.visible, node.minLength < Size.largest

instance : DecidablePred IsExact := fun tree ↦
  inferInstanceAs (Decidable (∀ node ∈ tree.visible, node.minLength < Size.largest))

/-- The copies of a repetition fit as they are chosen when the least length of the fewest copies
was not cut off. -/
theorem copiesFit_repeated {least each : Nat} {most count : Bound} {mode : RepetitionMode}
    {result : Regex} (hcounts : AreCounts least most)
    (hrepeat : (repetition body least most mode).CanRepeat)
    (htarget : (repetition body least most mode).Takes target)
    (hmin : result.minLength = body.minLength) (hexact : body.minLength * least < Size.largest)
    (hfit : Extent.fitRepetition body.extent least most target = (count, each)) :
    (repeated result least count mode).CopiesFit (some largestBudget) := by
  obtain ⟨hmost, hleast, hvalid⟩ := hrepeat
  have hlargest : Size.largest = Size.modulus - 1 := rfl
  have hwritten : largestCount + 1 < Size.modulus := by decide
  have hbudget : largestBudget = Size.largest - 1 := rfl
  have hfew := hcounts.least_le
  have hchosen : (Extent.fitRepetition body.extent least most target).1 = count := by rw [hfit]
  rw [repeated]
  cases hraise : count.raise least with
  | unbounded =>
    -- Only copies of nothing have no limit.
    have hnothing := (Extent.fitRepetition_eq_unbounded hleast (hchosen ▸ hraise)).2
    have hzero : result.minLength = 0 := by
      rw [Extent.Valid, hnothing] at hvalid
      exact hmin ▸ Nat.le_zero.1 hvalid
    have hlimit : result.extent.mostCopies least .unbounded (some largestBudget) ≤
        max largestBudget least :=
      max_le_max_right least (Nat.div_le_self ..)
    refine ⟨by omega, fun _ ↦ ?_⟩
    rw [hzero]
    exact Size.zero_lt_modulus
  | finite limit isSize =>
    rw [← hchosen] at hraise
    show limit + 1 < Size.modulus ∧ (true = true → limit * result.minLength < Size.modulus)
    rw [hmin]
    rcases htarget with htarget | ⟨-, hwithin⟩
    · have hlimit := Extent.limit_fitRepetition_le hcounts hraise
      refine ⟨by omega, fun _ ↦ ?_⟩
      exact Extent.limit_mul_min_lt hmost hleast hvalid htarget hexact hraise
    · -- The repetition keeps its bound.
      have hwithin : (body.extent.max * most).IsWithin target := hwithin
      rw [Extent.fitRepetition_of_isWithin least hwithin,
        Bound.raise_of_allows hcounts.allows] at hraise
      subst hraise
      have hlimit := Extent.le_largestCount hcounts
      exact ⟨by omega, fun _ ↦ Extent.limit_mul_min_lt_of_isWithin hvalid hwithin⟩

/-- A tree takes a target that its bound does not exceed. -/
theorem takes_of_isWithin (hsize : target < Size.modulus) (h : tree.maxLength.IsWithin target) :
    tree.Takes target := by
  have hlargest : Size.largest = Size.modulus - 1 := rfl
  rcases Nat.lt_or_ge target Size.largest with hlt | hge
  · exact .inl hlt
  · exact .inr ⟨by omega, h⟩

/-- A target that is taken is a size. -/
theorem Takes.lt_modulus (h : tree.Takes target) : target < Size.modulus := by
  have hlargest : Size.largest < Size.modulus := by decide
  rcases h with hlt | ⟨rfl, -⟩
  · exact Nat.lt_trans hlt hlargest
  · exact hlargest

/-- The body of a repetition takes the length of a copy that is chosen. -/
theorem takes_fitRepetition {least each : Nat} {most count : Bound} {mode : RepetitionMode}
    (hrepeat : (repetition body least most mode).CanRepeat)
    (htarget : (repetition body least most mode).Takes target)
    (hmin : body.minLength < Size.largest) (hexact : body.minLength * least < Size.largest)
    (hfit : Extent.fitRepetition body.extent least most target = (count, each)) :
    body.Takes each := by
  obtain ⟨hmost, hleast, hvalid⟩ := hrepeat
  have hsize := Extent.fitRepetition_lt_modulus body.extent least most htarget.lt_modulus
  rw [hfit] at hsize
  rcases htarget with htarget | ⟨-, hwithin⟩
  · have heach := Extent.fitRepetition_lt_or_isWithin hmost hleast hvalid htarget hexact hmin
    rw [hfit] at heach
    exact heach.elim .inl (takes_of_isWithin hsize)
  · have hwithin : (body.extent.max * most).IsWithin target := hwithin
    rw [Extent.fitRepetition_of_isWithin least hwithin] at hfit
    cases hfit
    exact takes_of_isWithin hsize (Extent.isWithin_copy (hmost.mono (Nat.le_max_right ..)) hwithin)

/-- The parts of a sequence take the budgets into which a target is split. -/
theorem takes_splitTarget (hvalid : ∀ part ∈ parts, part.extent.Valid)
    (hmin : ∀ part ∈ parts, part.minLength < Size.largest)
    (htarget : (sequence parts).Takes target) :
    Forall₂ Takes parts (Extent.splitTarget (extents parts) target) := by
  have hsize (budget : Nat) (h : budget ∈ Extent.splitTarget (extents parts) target) :
      budget ≤ target ∨ budget < Size.largest := by
    refine (Extent.le_or_eq_of_mem_splitTarget htarget.lt_modulus h).imp_right ?_
    rintro ⟨extent, hextent, rfl⟩
    rw [extents_eq_map] at hextent
    obtain ⟨part, hpart, rfl⟩ := List.mem_map.1 hextent
    exact hmin part hpart
  rw [List.forall₂_iff_get]
  refine ⟨(length_splitTarget_extents parts target).symm, fun index hpart hbudget ↦ ?_⟩
  have hmem :=
    hsize _ (List.get_mem (Extent.splitTarget (extents parts) target) ⟨index, hbudget⟩)
  rcases htarget with htarget | ⟨rfl, hwithin⟩
  · exact .inl (by omega)
  · have hparts :=
      (List.forall₂_iff_get.1 (isWithin_splitTarget hvalid hwithin)).2 index hpart hbudget
    have hlargest : Size.largest < Size.modulus := by decide
    exact takes_of_isWithin (by omega) hparts

/-- The body of a group takes the target that a cap on the group leaves. -/
theorem takes_groupCap {number : Nat} {name : Option String}
    (h : (group (.capturing number name) body).Takes target) :
    body.Takes (groupCap caps number name target) := by
  have hcap : groupCap caps number name target ≤ target := (le_groupCap_iff.1 (Nat.le_refl _)).1
  rcases h with hlt | ⟨rfl, hwithin⟩
  · exact .inl (Nat.lt_of_le_of_lt hcap hlt)
  · rcases Nat.lt_or_eq_of_le hcap with hlt | heq
    · exact .inl hlt
    · rw [heq]
      exact .inr ⟨rfl, hwithin⟩

/-! ## The sized tree -/

/-- Sizing cuts no least length off when the groups have the extents that are expected. -/
theorem sizesTo_isExact (hmeets : ∀ node ∈ tree.visible, node.MeetsExpected expected) :
    SizesTo caps (fun tree result ↦ tree.IsExact → result.IsExact) (·.Meets SameMin expected)
      tree := by
  induction tree with
  | empty => exact fun target plan hplan ↦ ⟨id, hplan⟩
  | literal text ignoreCase => exact fun target plan hplan ↦ ⟨id, hplan⟩
  | set members => exact fun target plan hplan ↦ ⟨id, hplan⟩
  | sequence parts ih =>
    intro target plan hplan
    obtain ⟨hmin, hafter⟩ := (keepsMinLength hmeets) hplan
    rw [forall_visible_sequence] at hmeets
    have hparts := (resizeParts_related (fun part hpart ↦ ih part hpart (hmeets.2 part hpart))
      (length_splitTarget_extents parts target) hplan).1
    refine ⟨fun hexact ↦ ?_, hafter⟩
    obtain ⟨hwhole, hinside⟩ := forall_visible_sequence.1 hexact
    refine forall_visible_sequence.2 ⟨hmin.trans_lt hwhole, fun result hresult ↦ ?_⟩
    obtain ⟨part, hpart, hkeeps⟩ := exists_of_forall₂ hparts hresult
    exact hkeeps (hinside part hpart)
  | choice options ih =>
    intro target plan hplan
    obtain ⟨hmin, hafter⟩ := (keepsMinLength hmeets) hplan
    rw [forall_visible_choice] at hmeets
    have hoptions := (resizeOptions_related
      (fun option hoption ↦ ih option hoption (hmeets.2 option hoption))
      (max target (choice options).minLength) target hplan).1
    refine ⟨fun hexact ↦ ?_, hafter⟩
    obtain ⟨hwhole, hinside⟩ := forall_visible_choice.1 hexact
    refine forall_visible_choice.2 ⟨hmin.trans_lt hwhole, fun result hresult ↦ ?_⟩
    obtain ⟨option, hoption, hkeeps⟩ := exists_of_forall₂ hoptions hresult
    exact hkeeps (hinside option (List.mem_filter.1 hoption).1)
  | repetition body least most mode ih =>
    intro target plan hplan
    obtain ⟨hmin, hafter⟩ := (keepsMinLength hmeets) hplan
    rw [forall_visible_repetition] at hmeets
    refine ⟨fun hexact ↦ ?_, hafter⟩
    obtain ⟨hwhole, hinside⟩ := forall_visible_repetition.1 hexact
    exact forall_visible_repetition.2 ⟨hmin.trans_lt hwhole, (ih hmeets.2 hplan).1 hinside⟩
  | group kind body ih =>
    intro target plan hplan
    obtain ⟨hmin, hafter⟩ := (keepsMinLength hmeets) hplan
    rw [forall_visible_group] at hmeets
    have hbody (hkind : kind.isLookaround = false) (target : Nat) (hexact : body.IsExact) :
        ((body.resize caps target).run plan).1.IsExact :=
      (ih (hmeets.2 hkind) hplan).1 hexact
    refine ⟨fun hexact ↦ ?_, hafter⟩
    obtain ⟨hwhole, hinside⟩ := forall_visible_group.1 hexact
    have hwhole := hmin.trans_lt hwhole
    cases kind with
    | capturing number name =>
      rw [resize_capturing] at hwhole ⊢
      exact forall_visible_group.2 ⟨hwhole, fun hkind ↦ hbody rfl _ (hinside rfl)⟩
    | plain => exact forall_visible_group.2 ⟨hwhole, fun hkind ↦ hbody rfl _ (hinside rfl)⟩
    | atomic => exact forall_visible_group.2 ⟨hwhole, fun hkind ↦ hbody rfl _ (hinside rfl)⟩
    | lookahead negated => exact hexact
    | lookbehind negated => exact hexact
  | backref id extent =>
    intro target plan hplan
    obtain ⟨hmin, hafter⟩ := (keepsMinLength hmeets) hplan
    refine ⟨fun hexact ↦ List.forall_mem_singleton.2 ?_, hafter⟩
    rw [hmin]
    exact hexact _ (mem_visible_self _)

/-- No least length in a sized tree is cut off when none in the tree is and the backreferences have
the extents of their groups. -/
theorem IsExact.sized (h : tree.IsExact) (hmatch : tree.HasMatchingReferences) (target : Nat) :
    (tree.sized target).IsExact :=
  (sizesTo_isExact hmatch.meetsExpected (SizingPlan.meets_empty ..)).1 h

/-- Sizing the tree makes a tree whose copies fit when no least length was cut off. -/
def SizesFitting (expected : GroupId → Extent → Prop) (caps : GroupId → Option Nat)
    (tree : Regex) : Prop :=
  ∀ ⦃target : Nat⦄ ⦃plan : SizingPlan⦄, tree.Takes target →
    plan.Meets SameMin expected → ((tree.resize caps target).run plan).1.IsExact →
      ∀ node ∈ ((tree.resize caps target).run plan).1.visible,
        node.CopiesFit (some largestBudget)

/-- Parts in a row are sized so that their copies fit when each part is. -/
theorem resizeParts_copiesFit (hkeeps : ∀ part ∈ parts, part.KeepsMinLength expected caps)
    (h : ∀ part ∈ parts, part.SizesFitting expected caps) {targets : List Nat}
    (htargets : Forall₂ Takes parts targets) (hplan : plan.Meets SameMin expected)
    (hexact : ∀ result ∈ ((resizeParts caps parts targets).run plan).1, result.IsExact) :
    ∀ result ∈ ((resizeParts caps parts targets).run plan).1, ∀ node ∈ result.visible,
      node.CopiesFit (some largestBudget) := by
  induction htargets generalizing plan with
  | nil => exact fun result hresult ↦ (List.not_mem_nil hresult).elim
  | cons htarget htargets ih =>
    rw [List.forall_mem_cons] at hkeeps h
    have hexact := List.forall_mem_cons.1 hexact
    exact List.forall_mem_cons.2 ⟨h.1 htarget hplan hexact.1,
      ih hkeeps.2 h.2 (hkeeps.1 hplan).2 hexact.2⟩

/-- Options are sized so that their copies fit when each option is. -/
theorem resizeOptions_copiesFit
    (hkeeps : ∀ option ∈ options, option.KeepsMinLength expected caps)
    (h : ∀ option ∈ options, option.SizesFitting expected caps) {reach : Nat}
    (htarget : ∀ option ∈ options, option.Takes target) (hplan : plan.Meets SameMin expected)
    (hexact : ∀ result ∈ ((resizeOptions caps reach options target).run plan).1,
      result.IsExact) :
    ∀ result ∈ ((resizeOptions caps reach options target).run plan).1,
      ∀ node ∈ result.visible, node.CopiesFit (some largestBudget) := by
  induction options generalizing plan with
  | nil => exact fun result hresult ↦ (List.not_mem_nil hresult).elim
  | cons option options ih =>
    rw [List.forall_mem_cons] at hkeeps h htarget
    rw [resizeOptions] at hexact ⊢
    split at hexact
    · rename_i hreach
      rw [if_pos hreach]
      have hexact := List.forall_mem_cons.1 hexact
      exact List.forall_mem_cons.2 ⟨h.1 htarget.1 hplan hexact.1,
        ih hkeeps.2 h.2 htarget.2 (hkeeps.1 hplan).2 hexact.2⟩
    · rename_i hreach
      rw [if_neg hreach]
      exact ih hkeeps.2 h.2 htarget.2 hplan hexact

/-- A sequence is sized so that its copies fit when each part is. -/
theorem sizesFitting_sequence (hvalid : ∀ part ∈ parts, part.extent.Valid)
    (hkeeps : ∀ part ∈ parts, part.KeepsMinLength expected caps)
    (h : ∀ part ∈ parts, part.SizesFitting expected caps) :
    (sequence parts).SizesFitting expected caps := by
  intro target plan htarget hplan hexact
  have hexact := (forall_visible_sequence.1 hexact).2
  have hmins := (resizeParts_related (fun part hpart ↦ (hkeeps part hpart).sizesTo)
    (length_splitTarget_extents parts target) hplan).1
  have hmin (part : Regex) (hpart : part ∈ parts) : part.minLength < Size.largest := by
    obtain ⟨result, hresult, hsame⟩ := exists_of_forall₂ hmins.flip hpart
    exact hsame ▸ hexact result hresult result (mem_visible_self result)
  exact forall_visible_sequence.2 ⟨trivial, resizeParts_copiesFit hkeeps h
    (takes_splitTarget hvalid hmin htarget) hplan hexact⟩

/-- A repetition is sized so that its copies fit when its body is. -/
theorem sizesFitting_repetition {least : Nat} {most : Bound} {mode : RepetitionMode}
    (hcounts : (repetition body least most mode).HasCounts)
    (hrepeat : (repetition body least most mode).CanRepeat)
    (hkeeps : body.KeepsMinLength expected caps) (h : body.SizesFitting expected caps) :
    (repetition body least most mode).SizesFitting expected caps := by
  intro target plan htarget hplan hexact
  rcases hfit : Extent.fitRepetition body.extent least most target with ⟨count, each⟩
  rw [resize_repetition hfit] at hexact ⊢
  have hmin : ((body.resize caps each).run plan).1.minLength = body.minLength := (hkeeps hplan).1
  obtain ⟨hwhole, hinside⟩ := forall_visible_repetition.1 hexact
  have hbody : body.minLength < Size.largest := hmin ▸ hinside _ (mem_visible_self _)
  have hfew : body.minLength * least < Size.largest := by
    have hwhole : min (((body.resize caps each).run plan).1.minLength * least) Size.largest <
      Size.largest := hwhole
    rw [hmin] at hwhole
    omega
  exact forall_visible_repetition.2
    ⟨copiesFit_repeated hcounts hrepeat htarget hmin hfew hfit,
      h (takes_fitRepetition hrepeat htarget hbody hfew hfit) hplan hinside⟩

/-- Sizing makes a tree whose copies fit when no least length was cut off and the groups have the
extents that are expected. -/
theorem sizesFitting (hcounts : ∀ node ∈ tree.visible, node.HasCounts)
    (hrepeat : ∀ node ∈ tree.visible, node.CanRepeat)
    (hvalid : ∀ node ∈ tree.visible, node.extent.Valid)
    (hmeets : ∀ node ∈ tree.visible, node.MeetsExpected expected) :
    tree.SizesFitting expected caps := by
  induction tree with
  | empty => exact fun target plan _ _ _ ↦ List.forall_mem_singleton.2 trivial
  | literal text ignoreCase => exact fun target plan _ _ _ ↦ List.forall_mem_singleton.2 trivial
  | set members => exact fun target plan _ _ _ ↦ List.forall_mem_singleton.2 trivial
  | sequence parts ih =>
    rw [forall_visible_sequence] at hcounts hrepeat hvalid hmeets
    exact sizesFitting_sequence (fun part hpart ↦
      hvalid.2 part hpart part (mem_visible_self part))
      (fun part hpart ↦ keepsMinLength (hmeets.2 part hpart))
      fun part hpart ↦ ih part hpart (hcounts.2 part hpart) (hrepeat.2 part hpart)
        (hvalid.2 part hpart) (hmeets.2 part hpart)
  | choice options ih =>
    rw [forall_visible_choice] at hcounts hrepeat hvalid hmeets
    intro target plan htarget hplan hexact
    have htakes (option : Regex) (hoption : option ∈ options) : option.Takes target :=
      htarget.imp_right fun h ↦ ⟨h.1, isWithin_of_choice h.2 hoption⟩
    exact forall_visible_choice.2 ⟨trivial, resizeOptions_copiesFit
      (fun option hoption ↦ keepsMinLength (hmeets.2 option hoption))
      (fun option hoption ↦ ih option hoption (hcounts.2 option hoption)
        (hrepeat.2 option hoption) (hvalid.2 option hoption) (hmeets.2 option hoption))
      htakes hplan (forall_visible_choice.1 hexact).2⟩
  | repetition body least most mode ih =>
    rw [forall_visible_repetition] at hcounts hrepeat hvalid hmeets
    exact sizesFitting_repetition hcounts.1 hrepeat.1 (keepsMinLength hmeets.2)
      (ih hcounts.2 hrepeat.2 hvalid.2 hmeets.2)
  | group kind body ih =>
    rw [forall_visible_group] at hcounts hrepeat hvalid hmeets
    have hbody (hkind : kind.isLookaround = false) : body.SizesFitting expected caps :=
      ih (hcounts.2 hkind) (hrepeat.2 hkind) (hvalid.2 hkind) (hmeets.2 hkind)
    cases kind with
    | capturing number name =>
      intro target plan htarget hplan hexact
      exact forall_visible_group.2 ⟨trivial, fun hkind ↦
        hbody rfl (takes_groupCap htarget) hplan ((forall_visible_group.1 hexact).2 hkind)⟩
    | plain =>
      intro target plan htarget hplan hexact
      exact forall_visible_group.2 ⟨trivial, fun hkind ↦
        hbody rfl htarget hplan ((forall_visible_group.1 hexact).2 hkind)⟩
    | atomic =>
      intro target plan htarget hplan hexact
      exact forall_visible_group.2 ⟨trivial, fun hkind ↦
        hbody rfl htarget hplan ((forall_visible_group.1 hexact).2 hkind)⟩
    | lookahead negated =>
      exact fun target plan _ _ _ ↦
        forall_visible_group.2 ⟨trivial, fun hkind ↦ nomatch hkind⟩
    | lookbehind negated =>
      exact fun target plan _ _ _ ↦
        forall_visible_group.2 ⟨trivial, fun hkind ↦ nomatch hkind⟩
  | backref id extent => exact fun target plan _ _ _ ↦ List.forall_mem_singleton.2 trivial

/-- The copies in a tree that is sized for a target below the largest size fit when the
backreferences have the extents of their groups and no least length was cut off. -/
theorem copiesFit_sized (hcounts : ∀ node ∈ tree.visible, node.HasCounts)
    (hrepeat : ∀ node ∈ tree.visible, node.CanRepeat)
    (hvalid : ∀ node ∈ tree.visible, node.extent.Valid) (hmatch : tree.HasMatchingReferences)
    (htarget : target < Size.largest) (hexact : (tree.sized target).IsExact) :
    ∀ node ∈ (tree.sized target).visible, node.CopiesFit (some largestBudget) :=
  sizesFitting hcounts hrepeat hvalid hmatch.meetsExpected (.inl htarget)
    (SizingPlan.meets_empty ..) hexact

end Regex

end Exemplar
