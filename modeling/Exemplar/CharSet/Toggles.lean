/-!
# Toggle lists

A set of numbers is written down as the increasing list of the numbers at which membership changes.
`holds toggles code` reads such a list, and `combine` decides membership in a new set from
membership in two others, in one walk over both lists. The main statements say that `combine` gives
an increasing list (`combine_sorted`) and decides as it is told (`holds_combine`).
-/

namespace Exemplar.Toggles

/-- Whether the number is a member of the set whose membership changes at the listed numbers. -/
def holds : List Nat → Nat → Bool
  | [], _ => false
  | toggle :: rest, code => if code < toggle then false else !holds rest code

/-- Put a toggle in front when membership changes there. -/
def toggleIf (before after : Bool) (toggle : Nat) (rest : List Nat) : List Nat :=
  if before = after then rest else toggle :: rest

/-- The toggles of the set whose members `rule` decides from membership in two sets. The first two
arguments say whether the numbers reached so far are in the one and in the other. -/
def combine (rule : Bool → Bool → Bool) (inFirst inSecond : Bool) :
    List Nat → List Nat → List Nat
  | [], [] => []
  | first :: firsts, [] =>
      toggleIf (rule inFirst inSecond) (rule (!inFirst) inSecond) first
        (combine rule (!inFirst) inSecond firsts [])
  | [], second :: seconds =>
      toggleIf (rule inFirst inSecond) (rule inFirst (!inSecond)) second
        (combine rule inFirst (!inSecond) [] seconds)
  | first :: firsts, second :: seconds =>
      if first < second then
        toggleIf (rule inFirst inSecond) (rule (!inFirst) inSecond) first
          (combine rule (!inFirst) inSecond firsts (second :: seconds))
      else if second < first then
        toggleIf (rule inFirst inSecond) (rule inFirst (!inSecond)) second
          (combine rule inFirst (!inSecond) (first :: firsts) seconds)
      else
        -- Membership changes in both sets at once.
        toggleIf (rule inFirst inSecond) (rule (!inFirst) (!inSecond)) first
          (combine rule (!inFirst) (!inSecond) firsts seconds)
termination_by first second => first.length + second.length

/-- The runs of members between the toggles, each from its first number to the one after its
last. -/
def runs : List Nat → List (Nat × Nat)
  | first :: stop :: rest => (first, stop) :: runs rest
  | _ => []

/-- A number below every toggle is no member. -/
theorem holds_of_lt {toggles : List Nat} {code : Nat} (h : ∀ toggle ∈ toggles, code < toggle) :
    holds toggles code = false := by
  cases toggles with
  | nil => rfl
  | cons toggle rest => simp [holds, h toggle (by simp)]

/-- In an increasing list, the toggles after the first do not reach the numbers below it. -/
theorem holds_cons {toggle : Nat} {rest : List Nat} (h : (toggle :: rest).Pairwise (· < ·))
    (code : Nat) :
    holds (toggle :: rest) code = (decide (toggle ≤ code) ^^ holds rest code) := by
  rw [holds]
  split
  · rename_i hlt
    rw [holds_of_lt fun next hnext ↦ Nat.lt_trans hlt ((List.pairwise_cons.1 h).1 next hnext)]
    simp [Nat.not_le.2 hlt]
  · rename_i hge
    simp [Nat.not_lt.1 hge]

/-- A toggle of the combination is the one that may be put in front, or a later one. -/
theorem mem_toggleIf {before after : Bool} {toggle code : Nat} {rest : List Nat}
    (h : code ∈ toggleIf before after toggle rest) : code = toggle ∨ code ∈ rest := by
  unfold toggleIf at h
  split at h
  · exact .inr h
  · simpa using h

/-- Every toggle of a combination is a toggle of one of the two sets. -/
theorem mem_combine {rule : Bool → Bool → Bool} {inFirst inSecond : Bool}
    {firsts seconds : List Nat} {code : Nat}
    (h : code ∈ combine rule inFirst inSecond firsts seconds) :
    code ∈ firsts ∨ code ∈ seconds := by
  fun_induction combine rule inFirst inSecond firsts seconds with
  | case1 => simp at h
  | case2 => have := mem_toggleIf h; grind
  | case3 => have := mem_toggleIf h; grind
  | case4 => have := mem_toggleIf h; grind
  | case5 => have := mem_toggleIf h; grind
  | case6 => have := mem_toggleIf h; grind

/-- A combination of toggles behind some number has no toggle up to it. -/
theorem lt_of_mem_combine {rule : Bool → Bool → Bool} {inFirst inSecond : Bool}
    {firsts seconds : List Nat} {toggle : Nat} (hfirst : ∀ code ∈ firsts, toggle < code)
    (hsecond : ∀ code ∈ seconds, toggle < code) :
    ∀ code ∈ combine rule inFirst inSecond firsts seconds, toggle < code :=
  fun code hcode ↦ (mem_combine hcode).elim (hfirst code) (hsecond code)

/-- All toggles are behind a number below the first one. -/
theorem lt_of_mem_of_lt {toggle first : Nat} {firsts : List Nat} (hlt : toggle < first)
    (h : (first :: firsts).Pairwise (· < ·)) : ∀ code ∈ first :: firsts, toggle < code :=
  List.forall_mem_cons.2 ⟨hlt, fun code hcode ↦
    Nat.lt_trans hlt ((List.pairwise_cons.1 h).1 code hcode)⟩

/-- A toggle below all later ones keeps the list increasing. -/
theorem toggleIf_sorted {before after : Bool} {toggle : Nat} {rest : List Nat}
    (hrest : rest.Pairwise (· < ·)) (hbelow : ∀ code ∈ rest, toggle < code) :
    (toggleIf before after toggle rest).Pairwise (· < ·) := by
  unfold toggleIf
  split
  · exact hrest
  · exact List.pairwise_cons.2 ⟨hbelow, hrest⟩

/-- A combination of increasing lists is increasing. -/
theorem combine_sorted (rule : Bool → Bool → Bool) (inFirst inSecond : Bool)
    {firsts seconds : List Nat} (hfirst : firsts.Pairwise (· < ·))
    (hsecond : seconds.Pairwise (· < ·)) :
    (combine rule inFirst inSecond firsts seconds).Pairwise (· < ·) := by
  fun_induction combine rule inFirst inSecond firsts seconds with
  | case1 => exact .nil
  | case2 inFirst inSecond first firsts ih =>
    obtain ⟨hbelow, hrest⟩ := List.pairwise_cons.1 hfirst
    exact toggleIf_sorted (ih hrest .nil) (lt_of_mem_combine hbelow (by simp))
  | case3 inFirst inSecond second seconds ih =>
    obtain ⟨hbelow, hrest⟩ := List.pairwise_cons.1 hsecond
    exact toggleIf_sorted (ih .nil hrest) (lt_of_mem_combine (by simp) hbelow)
  | case4 inFirst inSecond first firsts second seconds hlt ih =>
    obtain ⟨hbelow, hrest⟩ := List.pairwise_cons.1 hfirst
    exact toggleIf_sorted (ih hrest hsecond)
      (lt_of_mem_combine hbelow (lt_of_mem_of_lt hlt hsecond))
  | case5 inFirst inSecond first firsts second seconds hge hlt ih =>
    obtain ⟨hbelow, hrest⟩ := List.pairwise_cons.1 hsecond
    exact toggleIf_sorted (ih hfirst hrest) (lt_of_mem_combine (lt_of_mem_of_lt hlt hfirst) hbelow)
  | case6 inFirst inSecond first firsts second seconds hge hle ih =>
    obtain rfl : second = first := by omega
    obtain ⟨hbelow, hrest⟩ := List.pairwise_cons.1 hfirst
    obtain ⟨hbelow', hrest'⟩ := List.pairwise_cons.1 hsecond
    exact toggleIf_sorted (ih hrest hrest') (lt_of_mem_combine hbelow hbelow')

/-- Reading past a toggle changes membership from there on. -/
theorem xor_holds_cons {toggle : Nat} {rest : List Nat} (h : (toggle :: rest).Pairwise (· < ·))
    (inside : Bool) (code : Nat) :
    (inside ^^ holds (toggle :: rest) code) =
      if toggle ≤ code then (!inside ^^ holds rest code) else inside := by
  rw [holds_cons h]
  split
  · rename_i hle
    simp [hle]
  · rename_i hlt
    rw [holds_of_lt fun next hnext ↦
      Nat.lt_trans (Nat.not_le.1 hlt) ((List.pairwise_cons.1 h).1 next hnext)]
    simp [hlt]

/-- Nothing changes up to a number that all toggles are behind. -/
theorem xor_holds_of_lt {toggle : Nat} {rest : List Nat} (h : ∀ code ∈ rest, toggle < code)
    (inside : Bool) (code : Nat) :
    (inside ^^ holds rest code) =
      if toggle ≤ code then (inside ^^ holds rest code) else inside := by
  split
  · rfl
  · rename_i hlt
    rw [holds_of_lt fun next hnext ↦ Nat.lt_trans (Nat.not_le.1 hlt) (h next hnext),
      Bool.xor_false]

/-- Reading past a toggle that was put in front only when membership changes there. -/
theorem xor_holds_toggleIf {before after : Bool} {toggle : Nat} {rest : List Nat}
    (hrest : rest.Pairwise (· < ·)) (hbelow : ∀ code ∈ rest, toggle < code) (code : Nat) :
    (before ^^ holds (toggleIf before after toggle rest) code) =
      if toggle ≤ code then (after ^^ holds rest code) else before := by
  unfold toggleIf
  split
  · rename_i heq
    rw [← heq]
    exact xor_holds_of_lt hbelow before code
  · rename_i hne
    rw [xor_holds_cons (List.pairwise_cons.2 ⟨hbelow, hrest⟩), Bool.not_eq.2 hne]

/-- A toggle at which membership in the two sets changes keeps membership as the rule decides it. -/
theorem xor_holds_toggleIf_rule (rule : Bool → Bool → Bool)
    {inFirst inSecond inFirst' inSecond' : Bool} {toggle code : Nat}
    {firsts firsts' seconds seconds' rest : List Nat} (hrest : rest.Pairwise (· < ·))
    (hbelow : ∀ code ∈ rest, toggle < code) (hfirst : (inFirst ^^ holds firsts code) =
      if toggle ≤ code then (inFirst' ^^ holds firsts' code) else inFirst)
    (hsecond : (inSecond ^^ holds seconds code) =
      if toggle ≤ code then (inSecond' ^^ holds seconds' code) else inSecond)
    (h : (rule inFirst' inSecond' ^^ holds rest code) =
      rule (inFirst' ^^ holds firsts' code) (inSecond' ^^ holds seconds' code)) :
    (rule inFirst inSecond ^^
        holds (toggleIf (rule inFirst inSecond) (rule inFirst' inSecond') toggle rest) code) =
      rule (inFirst ^^ holds firsts code) (inSecond ^^ holds seconds code) := by
  rw [xor_holds_toggleIf hrest hbelow, hfirst, hsecond, h]
  split
  · rfl
  · rfl

/-- Membership in a combination is decided by the rule. -/
theorem holds_combine (rule : Bool → Bool → Bool) (inFirst inSecond : Bool)
    {firsts seconds : List Nat} (hfirst : firsts.Pairwise (· < ·))
    (hsecond : seconds.Pairwise (· < ·)) (code : Nat) :
    (rule inFirst inSecond ^^ holds (combine rule inFirst inSecond firsts seconds) code) =
      rule (inFirst ^^ holds firsts code) (inSecond ^^ holds seconds code) := by
  fun_induction combine rule inFirst inSecond firsts seconds with
  | case1 => simp [holds]
  | case2 inFirst inSecond first firsts ih =>
    obtain ⟨hbelow, hrest⟩ := List.pairwise_cons.1 hfirst
    exact xor_holds_toggleIf_rule rule (combine_sorted rule _ _ hrest .nil)
      (lt_of_mem_combine hbelow (by simp)) (xor_holds_cons hfirst _ code)
      (xor_holds_of_lt (by simp) _ code) (ih hrest .nil)
  | case3 inFirst inSecond second seconds ih =>
    obtain ⟨hbelow, hrest⟩ := List.pairwise_cons.1 hsecond
    exact xor_holds_toggleIf_rule rule (combine_sorted rule _ _ .nil hrest)
      (lt_of_mem_combine (by simp) hbelow) (xor_holds_of_lt (by simp) _ code)
      (xor_holds_cons hsecond _ code) (ih .nil hrest)
  | case4 inFirst inSecond first firsts second seconds hlt ih =>
    obtain ⟨hbelow, hrest⟩ := List.pairwise_cons.1 hfirst
    have hbelow' := lt_of_mem_of_lt hlt hsecond
    exact xor_holds_toggleIf_rule rule (combine_sorted rule _ _ hrest hsecond)
      (lt_of_mem_combine hbelow hbelow') (xor_holds_cons hfirst _ code)
      (xor_holds_of_lt hbelow' _ code) (ih hrest hsecond)
  | case5 inFirst inSecond first firsts second seconds hge hlt ih =>
    have hbelow := lt_of_mem_of_lt hlt hfirst
    obtain ⟨hbelow', hrest'⟩ := List.pairwise_cons.1 hsecond
    exact xor_holds_toggleIf_rule rule (combine_sorted rule _ _ hfirst hrest')
      (lt_of_mem_combine hbelow hbelow') (xor_holds_of_lt hbelow _ code)
      (xor_holds_cons hsecond _ code) (ih hfirst hrest')
  | case6 inFirst inSecond first firsts second seconds hge hle ih =>
    obtain rfl : second = first := by omega
    obtain ⟨hbelow, hrest⟩ := List.pairwise_cons.1 hfirst
    obtain ⟨hbelow', hrest'⟩ := List.pairwise_cons.1 hsecond
    exact xor_holds_toggleIf_rule rule (combine_sorted rule _ _ hrest hrest')
      (lt_of_mem_combine hbelow hbelow') (xor_holds_cons hfirst _ code)
      (xor_holds_cons hsecond _ code) (ih hrest hrest')

end Exemplar.Toggles
