import Exemplar.Proofs.CharSet.Enumeration

/-!
# Maximal runs of members

Ranges of characters cover a set of code points when just the code points between their ends belong
to it (`Covers`), and they are its maximal runs when there is a code point outside the set between
any two of them as well (`AreMaximalRuns`). A range that lies in the set lies in one maximal run,
so no fewer ranges cover the set, and as many ranges only when they are the maximal runs in some
order (`AreMaximalRuns.perm`).

The ranges of a character set are its maximal runs, and they are found in one walk over the
members: the last range goes on with a member behind it, and every other member begins a range
(`hasMaximalRuns`). Surrogates are code points outside every set, so no range spans them.
-/

namespace Exemplar.CharSet

variable {ranges others : List (Char × Char)} {range next : Char × Char}
  {Holds Holds' : Nat → Prop} {first last code : Nat}

/-- The code point lies between the ends of the range. -/
def Spans (range : Char × Char) (code : Nat) : Prop :=
  range.1.toNat ≤ code ∧ code ≤ range.2.toNat

/-- Some code point that does not belong to the set lies behind the first range and in front of the
second. -/
def IsApart (Holds : Nat → Prop) (range next : Char × Char) : Prop :=
  ∃ code, range.2.toNat < code ∧ code < next.1.toNat ∧ ¬ Holds code

/-- Ranges with the ends in order that together have just the code points of the set. -/
structure Covers (ranges : List (Char × Char)) (Holds : Nat → Prop) : Prop where
  ordered : ∀ range ∈ ranges, range.1.toNat ≤ range.2.toNat
  holds_iff (code : Nat) : Holds code ↔ ∃ range ∈ ranges, Spans range code

/-- Ranges in increasing order that cover the set, with code points outside it between them. -/
structure AreMaximalRuns (ranges : List (Char × Char)) (Holds : Nat → Prop) : Prop
    extends Covers ranges Holds where
  apart : ranges.Pairwise (IsApart Holds)

/-! ## The fewest ranges -/

namespace Covers

/-- The code points of a range belong to the set. -/
theorem holds (h : Covers ranges Holds) (hrange : range ∈ ranges) (hcode : Spans range code) :
    Holds code :=
  (h.holds_iff code).2 ⟨range, hrange, hcode⟩

/-- A range begins in itself. -/
theorem spans_first (h : Covers ranges Holds) (hrange : range ∈ ranges) :
    Spans range range.1.toNat :=
  ⟨Nat.le_refl _, h.ordered range hrange⟩

/-- A range ends in itself. -/
theorem spans_last (h : Covers ranges Holds) (hrange : range ∈ ranges) :
    Spans range range.2.toNat :=
  ⟨h.ordered range hrange, Nat.le_refl _⟩

/-- Ranges cover just one set. -/
theorem congr (h : Covers ranges Holds) (hiff : ∀ code, Holds code ↔ Holds' code) :
    Covers ranges Holds' :=
  ⟨h.ordered, fun code ↦ (hiff code).symm.trans (h.holds_iff code)⟩

end Covers

namespace AreMaximalRuns

/-- The maximal runs of a set are those of no other set. -/
theorem congr (h : AreMaximalRuns ranges Holds) (hiff : ∀ code, Holds code ↔ Holds' code) :
    AreMaximalRuns ranges Holds' where
  toCovers := h.toCovers.congr hiff
  apart :=
    h.apart.imp fun ⟨code, hbehind, hbefore, hnot⟩ ↦
      ⟨code, hbehind, hbefore, mt (hiff code).2 hnot⟩

/-- A stretch of code points of the set lies in one maximal run. -/
theorem eq_of_stretch (h : AreMaximalRuns ranges Holds) (hrange : range ∈ ranges)
    (hnext : next ∈ ranges) (hheld : ∀ code, first ≤ code → code ≤ last → Holds code)
    (hfirst : Spans range first) (hlast : Spans next last)
    (hle : first ≤ last) : range = next := by
  by_contra hne
  have : Std.Symm fun range next ↦ IsApart Holds range next ∨ IsApart Holds next range :=
    ⟨fun _ _ happart ↦ happart.symm⟩
  have hapart : ranges.Pairwise fun range next ↦ IsApart Holds range next ∨
      IsApart Holds next range :=
    h.apart.imp .inl
  rcases hapart.forall hrange hnext hne with
    ⟨code, hbehind, hbefore, hnot⟩ | ⟨code, hbehind, hbefore, hnot⟩
  · have := hfirst.2
    have := hlast.1
    exact hnot (hheld code (by omega) (by omega))
  · have := hfirst.1
    have := hlast.2
    omega

/-- A code point lies in one maximal run. -/
theorem eq_of_spans (h : AreMaximalRuns ranges Holds) (hrange : range ∈ ranges)
    (hnext : next ∈ ranges) (hcode : Spans range code)
    (hcode' : Spans next code) : range = next := by
  refine h.eq_of_stretch hrange hnext (fun between hfirst hlast ↦ ?_) hcode hcode'
    (Nat.le_refl code)
  cases Nat.le_antisymm hfirst hlast
  exact h.holds hrange hcode

/-- A range of a cover lies in the maximal run of its first character. -/
theorem le_of_spans (h : AreMaximalRuns ranges Holds) (hcovers : Covers others Holds)
    {other : Char × Char} (hother : other ∈ others) (hrange : range ∈ ranges)
    (hcode : Spans range code) (hcode' : Spans other code) :
    range.1.toNat ≤ other.1.toNat ∧ other.2.toNat ≤ range.2.toNat := by
  have hheld (between : Nat) (hbetween : Spans other between) : Holds between :=
    hcovers.holds hother hbetween
  obtain ⟨run, hrun, hfirst⟩ := (h.holds_iff _).1 (hheld _ (hcovers.spans_first hother))
  obtain ⟨run', hrun', hlast⟩ := (h.holds_iff _).1 (hheld _ (hcovers.spans_last hother))
  obtain rfl : run = range := h.eq_of_stretch hrun hrange
    (fun between hle hge ↦ hheld between ⟨hle, Nat.le_trans hge hcode'.2⟩) hfirst
      hcode hcode'.1
  obtain rfl : run = run' := h.eq_of_stretch hrange hrun'
    (fun between hle hge ↦ hheld between ⟨Nat.le_trans hcode'.1 hle, hge⟩) hcode
      hlast hcode'.2
  exact ⟨hfirst.1, hlast.2⟩

/-- No maximal run is there twice. -/
theorem nodup (h : AreMaximalRuns ranges Holds) : ranges.Nodup := by
  refine h.apart.imp_of_mem fun {range next} hrange hnext ⟨code, hbehind, hbefore, hnot⟩ heq ↦
    ?_
  subst heq
  have := h.ordered range hrange
  omega

/-- There are ranges of a cover in which the maximal runs begin, one for each of them. -/
theorem exists_pick (h : AreMaximalRuns ranges Holds) (hcovers : Covers others Holds) :
    ∃ pick : Char × Char → Char × Char,
      (∀ range ∈ ranges, Spans (pick range) range.1.toNat) ∧
      (ranges.map pick).Subperm others := by
  have hbegin (range : Char × Char) :
      ∃ other, range ∈ ranges → other ∈ others ∧ Spans other range.1.toNat := by
    by_cases hrange : range ∈ ranges
    · obtain ⟨other, hother, hspans⟩ :=
  (hcovers.holds_iff _).1 (h.holds hrange (h.spans_first hrange))
      exact ⟨other, fun _ ↦ ⟨hother, hspans⟩⟩
    · exact ⟨range, fun hmem ↦ absurd hmem hrange⟩
  choose pick hpick using hbegin
  refine ⟨pick, fun range hrange ↦ (hpick range hrange).2, List.Nodup.subperm ?_ ?_⟩
  · refine h.nodup.map_on fun range hrange next hnext heq ↦ ?_
    obtain ⟨hmem, hspans⟩ := hpick range hrange
    have hin := h.le_of_spans hcovers hmem hrange (h.spans_first hrange) hspans
    have hnextSpans : Spans (pick range) next.1.toNat := heq ▸ (hpick next hnext).2
    refine h.eq_of_spans hrange hnext ?_ (h.spans_first hnext)
    exact ⟨Nat.le_trans hin.1 hnextSpans.1, Nat.le_trans hnextSpans.2 hin.2⟩
  · intro other hother
    obtain ⟨range, hrange, rfl⟩ := List.mem_map.1 hother
    exact (hpick range hrange).1

/-- No fewer ranges than the maximal runs cover the set. -/
theorem length_le (h : AreMaximalRuns ranges Holds) (hcovers : Covers others Holds) :
    ranges.length ≤ others.length := by
  obtain ⟨pick, -, hsubperm⟩ := h.exists_pick hcovers
  simpa using hsubperm.length_le

/-- As many ranges as there are maximal runs cover the set only when they are these runs. -/
theorem perm (h : AreMaximalRuns ranges Holds) (hcovers : Covers others Holds)
    (hlength : others.length ≤ ranges.length) : others.Perm ranges := by
  obtain ⟨pick, hpick, hsubperm⟩ := h.exists_pick hcovers
  have hperm := hsubperm.perm_of_length_le (by simpa using hlength)
  have hmem {range : Char × Char} (hrange : range ∈ ranges) : pick range ∈ others :=
    hperm.subset (List.mem_map_of_mem hrange)
  have hin {range : Char × Char} (hrange : range ∈ ranges) :=
    h.le_of_spans hcovers (hmem hrange) hrange (h.spans_first hrange) (hpick range hrange)
  have hself (range : Char × Char) (hrange : range ∈ ranges) : pick range = range := by
    -- The range in which a maximal run ends is the one in which it begins, for there is no other
    -- one.
    obtain ⟨other, hother, hlast⟩ :=
      (hcovers.holds_iff _).1 (h.holds hrange (h.spans_last hrange))
    obtain ⟨run, hrun, rfl⟩ := List.mem_map.1 (hperm.symm.subset hother)
    obtain rfl : run = range := h.eq_of_spans hrun hrange
      ⟨Nat.le_trans (hin hrun).1 hlast.1, Nat.le_trans hlast.2 (hin hrun).2⟩
        (h.spans_last hrange)
    exact Prod.ext (Char.toNat_inj.1 (Nat.le_antisymm (hpick run hrange).1 (hin hrange).1))
      (Char.toNat_inj.1 (Nat.le_antisymm (hin hrange).2 hlast.2))
  have hmap : ranges.map pick = ranges := (List.map_congr_left hself).trans (List.map_id _)
  exact hmap ▸ hperm.symm

/-- The first characters of the maximal runs are in increasing order. -/
theorem sorted (h : AreMaximalRuns ranges Holds) :
    ranges.Pairwise fun range next ↦ range.1.toNat ≤ next.1.toNat := by
  refine h.apart.imp_of_mem fun {range next} hrange hnext ⟨code, hbehind, hbefore, hnot⟩ ↦ ?_
  have := h.ordered range hrange
  omega

/-- As many ranges in increasing order as there are maximal runs are the maximal runs if they cover
the set. -/
theorem eq_of_length_le (h : AreMaximalRuns ranges Holds) (hcovers : Covers others Holds)
    (hsorted : others.Pairwise fun range next ↦ range.1.toNat ≤ next.1.toNat)
    (hlength : others.length ≤ ranges.length) : others = ranges := by
  have hperm := h.perm hcovers hlength
  refine hperm.eq_of_pairwise (fun range next hrange hnext hle hge ↦ ?_) hsorted h.sorted
  have hrange := hperm.subset hrange
  have heq : range.1.toNat = next.1.toNat := Nat.le_antisymm hle hge
  exact h.eq_of_spans hrange hnext (h.spans_first hrange) (heq ▸ h.spans_first hnext)

/-- A set has just one list of maximal runs. -/
theorem unique (h : AreMaximalRuns ranges Holds) (hothers : AreMaximalRuns others Holds) :
    others = ranges :=
  h.eq_of_length_le hothers.toCovers hothers.sorted (hothers.length_le h.toCovers)

end AreMaximalRuns

/-! ## The walk over the members -/

/-- Put a character behind ranges: the last range goes on with it if it is the next one, and else
it begins a range. -/
def extendRanges (ranges : List (Char × Char)) (c : Char) : List (Char × Char) :=
  match ranges.getLast? with
  | some (first, last) =>
      if last.toNat + 1 = c.toNat then ranges.dropLast ++ [(first, c)] else ranges ++ [(c, c)]
  | none => [(c, c)]

/-- The first character begins a range. -/
@[simp] theorem extendRanges_nil (c : Char) : extendRanges [] c = [(c, c)] :=
  rfl

/-- The last range decides where a character goes. -/
@[simp] theorem extendRanges_concat (ranges : List (Char × Char)) (first last c : Char) :
    extendRanges (ranges ++ [(first, last)]) c =
      if last.toNat + 1 = c.toNat then ranges ++ [(first, c)]
        else ranges ++ [(first, last), (c, c)] := by
  simp [extendRanges]

/-- Ranges in front of a character stay apart when it joins the set. -/
theorem IsApart.or_eq (h : IsApart Holds range next) (hle : next.1.toNat ≤ first) :
    IsApart (fun code ↦ Holds code ∨ code = first) range next := by
  obtain ⟨code, hbehind, hbefore, hnot⟩ := h
  exact ⟨code, hbehind, hbefore, not_or.2 ⟨hnot, by omega⟩⟩

/-- What a last range adds to a cover. -/
theorem Covers.concat (hordered : ∀ range ∈ ranges, range.1.toNat ≤ range.2.toNat)
    (hrange : range.1.toNat ≤ range.2.toNat)
    (hiff : ∀ code, Holds code ↔
      (∃ range ∈ ranges, Spans range code) ∨ Spans range code) :
    Covers (ranges ++ [range]) Holds where
  ordered := List.forall_mem_append.2 ⟨hordered, List.forall_mem_singleton.2 hrange⟩
  holds_iff code := by simp [hiff, or_and_right, exists_or]

namespace AreMaximalRuns

/-- The last maximal run ends with the last code point of the set. -/
theorem le_last (h : AreMaximalRuns (ranges ++ [range]) Holds) (hcode : Holds code) :
    code ≤ range.2.toNat := by
  have hlast : range ∈ ranges ++ [range] := List.mem_append_right _ List.mem_cons_self
  obtain ⟨other, hother, hspans⟩ := (h.holds_iff code).1 hcode
  rcases List.mem_append.1 hother with hother | hother
  · obtain ⟨gap, hbehind, hbefore, -⟩ :=
      (List.pairwise_append.1 h.apart).2.2 other hother range List.mem_cons_self
    have hordered := h.ordered range hlast
    have hle := hspans.2
    omega
  · cases List.mem_singleton.1 hother
    exact hspans.2

/-- A character behind the next code point makes a maximal run of its own. -/
theorem concat (h : AreMaximalRuns ranges Holds) {c : Char}
    (hbelow : ∀ code, Holds code → code + 1 < c.toNat) :
    AreMaximalRuns (ranges ++ [(c, c)]) fun code ↦ Holds code ∨ code = c.toNat where
  toCovers := by
    refine .concat h.ordered (Nat.le_refl _) fun code ↦ or_congr (h.holds_iff code) ?_
    exact ⟨fun heq ↦ ⟨heq.ge, heq.le⟩, fun hcode ↦ Nat.le_antisymm hcode.2 hcode.1⟩
  apart := by
    refine List.pairwise_append.2 ⟨h.apart.imp_of_mem fun hrange hnext happart ↦ ?_,
      List.pairwise_singleton .., fun range hrange next hnext ↦ ?_⟩
    · have := hbelow _ (h.holds hnext (h.spans_first hnext))
      exact happart.or_eq (by omega)
    · -- The code point in front of the character is outside the set.
      obtain rfl : next = (c, c) := List.mem_singleton.1 hnext
      have hlast := hbelow _ (h.holds hrange (h.spans_last hrange))
      have hnot : ¬ Holds (c.toNat - 1) := fun hcode ↦ by
        have := hbelow _ hcode
        omega
      have hgap : IsApart Holds range (c, c) :=
        ⟨c.toNat - 1, by omega, Nat.sub_lt (by omega) Nat.one_pos, hnot⟩
      exact hgap.or_eq (Nat.le_refl _)

/-- A character at the next code point goes on with the last maximal run. -/
theorem goOn {first last c : Char} (h : AreMaximalRuns (ranges ++ [(first, last)]) Holds)
    (hnext : last.toNat + 1 = c.toNat) :
    AreMaximalRuns (ranges ++ [(first, c)]) fun code ↦ Holds code ∨ code = c.toNat := by
  obtain ⟨hordered, hlast⟩ := List.forall_mem_append.1 h.ordered
  have hle : first.toNat ≤ last.toNat := hlast (first, last) List.mem_cons_self
  obtain ⟨happart, -, hbefore⟩ := List.pairwise_append.1 h.apart
  refine ⟨.concat hordered (show first.toNat ≤ c.toNat by omega) fun code ↦ ?_,
    List.pairwise_append.2 ⟨?_, List.pairwise_singleton .., ?_⟩⟩
  · have hspans : Spans (first, c) code ↔ Spans (first, last) code ∨ code = c.toNat := by
      simp only [Spans]
      omega
    rw [hspans, ← or_assoc]
    exact or_congr_left (by simp [h.holds_iff, or_and_right, exists_or])
  · refine happart.imp_of_mem fun {range next} hrange hmem happart ↦ happart.or_eq ?_
    have :=
      h.le_last
      (h.holds (List.mem_append_left _ hmem) (h.spans_first (List.mem_append_left _ hmem)))
    have : next.1.toNat ≤ last.toNat := this
    omega
  · intro range hrange next hmem
    obtain rfl : next = (first, c) := List.mem_singleton.1 hmem
    exact (hbefore range hrange (first, last) List.mem_cons_self).or_eq
      (show first.toNat ≤ c.toNat by omega)

/-- A character behind all code points of a set makes the maximal runs those of the set with it. -/
theorem extend (h : AreMaximalRuns ranges Holds) {c : Char}
    (hbelow : ∀ code, Holds code → code < c.toNat) :
    AreMaximalRuns (extendRanges ranges c) fun code ↦ Holds code ∨ code = c.toNat := by
  rcases List.eq_nil_or_concat ranges with rfl | ⟨before, ⟨first, last⟩, rfl⟩
  · refine h.concat fun code hcode ↦ ?_
    obtain ⟨range, hrange, -⟩ := (h.holds_iff code).1 hcode
    cases hrange
  · rw [List.concat_eq_append] at h ⊢
    rw [extendRanges_concat]
    split
    · rename_i hnext
      exact h.goOn hnext
    · rename_i hnext
      have hlast : (first, last) ∈ before ++ [(first, last)] :=
        List.mem_append_right _ List.mem_cons_self
      have hbehind : last.toNat < c.toNat := hbelow _ (h.holds hlast (h.spans_last hlast))
      have hconcat := h.concat (c := c) fun code hcode ↦ by
        have : code ≤ last.toNat := h.le_last hcode
        omega
      simpa using hconcat

/-- A walk over characters in increasing order that lie behind the set finds the maximal runs of
the set with them. -/
theorem foldl (h : AreMaximalRuns ranges Holds) {members : List Char}
    (hsorted : members.Pairwise fun c next ↦ c.toNat < next.toNat)
    (hbelow : ∀ code, Holds code → ∀ c ∈ members, code < c.toNat) :
    AreMaximalRuns (members.foldl extendRanges ranges) fun code ↦
      Holds code ∨ ∃ c ∈ members, code = c.toNat := by
  induction members generalizing ranges Holds with
  | nil => simpa using h
  | cons c members ih =>
    obtain ⟨hfirst, hrest⟩ := List.pairwise_cons.1 hsorted
    have hstep := h.extend fun code hcode ↦ hbelow code hcode c List.mem_cons_self
    refine (ih hstep hrest ?_).congr fun code ↦ ?_
    · rintro code (hcode | rfl) next hnext
      · exact hbelow code hcode next (List.mem_cons_of_mem c hnext)
      · exact hfirst next hnext
    · simp [or_assoc]

end AreMaximalRuns

/-! ## The ranges of a set -/

/-- The code points of a set are those of its members. -/
theorem containsCode_iff_toList {set : CharSet} {code : Nat} :
    set.containsCode code = true ↔ ∃ c ∈ set.toList, code = c.toNat := by
  constructor
  · intro hcode
    exact ⟨Char.ofNat code, mem_toList.2 (ofNat_mem hcode),
      (toNat_ofNat_of_containsCode hcode).symm⟩
  · rintro ⟨c, hc, rfl⟩
    exact mem_toList.1 hc

/-- The walk over the members of a set finds its maximal runs. -/
theorem areMaximalRuns_walk (set : CharSet) :
    AreMaximalRuns (set.toList.foldl extendRanges []) fun code ↦
      set.containsCode code = true := by
  have hnone : AreMaximalRuns [] fun _ ↦ False := ⟨⟨by simp, by simp⟩, .nil⟩
  refine (hnone.foldl set.toList_sorted fun _ h ↦ h.elim).congr fun code ↦ ?_
  rw [false_or, containsCode_iff_toList]

/-- The code point behind a run is outside the set. -/
theorem not_containsCode_stop {set : CharSet} {run : Nat × Nat} (h : run ∈ set.runs) :
    ¬ set.containsCode run.2 = true := by
  intro hcode
  obtain ⟨other, hother, hfirst, hstop⟩ := containsCode_iff_runs.1 hcode
  have hlt := (ends_of_mem_runs h).1
  have : Std.Symm fun run next : Nat × Nat ↦ run.2 < next.1 ∨ next.2 < run.1 :=
    ⟨fun _ _ hor ↦ hor.symm⟩
  have hsorted : set.runs.Pairwise fun run next ↦ run.2 < next.1 ∨ next.2 < run.1 :=
    (Toggles.runs_sorted set.sorted).imp .inl
  rcases eq_or_ne run other with rfl | hne
  · omega
  · have := hsorted.forall h hother hne
    omega

/-- The ranges of a set are its maximal runs. -/
theorem areMaximalRuns_ranges (set : CharSet) :
    AreMaximalRuns set.ranges fun code ↦ set.containsCode code = true where
  ordered _ hrange := (of_mem_ranges hrange).1
  holds_iff code := by
    have hspans {run : Nat × Nat} (hrun : run ∈ set.runs) :
        Spans (Char.ofNat run.1, Char.ofNat (run.2 - 1)) code ↔
          run.1 ≤ code ∧ code < run.2 := by
      obtain ⟨hlt, hfirst, hlast⟩ := ends_of_mem_runs hrun
      simp only [Spans, toNat_ofNat_of_containsCode hfirst, toNat_ofNat_of_containsCode hlast]
      omega
    simp only [containsCode_iff_runs, ranges, List.mem_map, exists_exists_and_eq_and]
    exact exists_congr fun run ↦ and_congr_right fun hrun ↦ (hspans hrun).symm
  apart := by
    refine List.pairwise_map.2
      ((Toggles.runs_sorted set.sorted).imp_of_mem fun {run next} hrun hnext hlt ↦ ?_)
    obtain ⟨hpos, -, hlast⟩ := ends_of_mem_runs hrun
    obtain ⟨-, hfirst, -⟩ := ends_of_mem_runs hnext
    refine ⟨run.2, ?_, ?_, not_containsCode_stop hrun⟩
    · rw [toNat_ofNat_of_containsCode hlast]
      omega
    · rwa [toNat_ofNat_of_containsCode hfirst]

/-- What the ranges of a set are. They are the maximal runs of the code points in the set, and the
walk over the members finds them. A character is a member when it lies in one of them, and none of
them has a surrogate between its ends. There is no other list of maximal runs, and no shorter list
covers the set. A list of the same length that covers it has the same ranges, and it is the same
when it is in increasing order. -/
structure HasMaximalRuns (set : CharSet) : Prop where
  areMaximalRuns : AreMaximalRuns set.ranges fun code ↦ set.containsCode code = true
  eq_foldl : set.ranges = set.toList.foldl extendRanges []
  mem_iff (c : Char) : c ∈ set ↔ ∃ range ∈ set.ranges, Spans range c.toNat
  not_spans_surrogate (range : Char × Char) (hrange : range ∈ set.ranges) (code : Nat)
    (hlow : 0xD800 ≤ code) (hhigh : code ≤ 0xDFFF) : ¬ Spans range code
  unique (others : List (Char × Char))
    (hothers : AreMaximalRuns others fun code ↦ set.containsCode code = true) :
      others = set.ranges
  length_le (others : List (Char × Char))
    (hothers : Covers others fun code ↦ set.containsCode code = true) :
      set.ranges.length ≤ others.length
  perm (others : List (Char × Char))
    (hothers : Covers others fun code ↦ set.containsCode code = true)
    (hlength : others.length = set.ranges.length) : others.Perm set.ranges
  eq_of_length (others : List (Char × Char))
    (hothers : Covers others fun code ↦ set.containsCode code = true)
    (hsorted : others.Pairwise fun range next ↦ range.1.toNat ≤ next.1.toNat)
    (hlength : others.length = set.ranges.length) : others = set.ranges

/-- The ranges of every set are its maximal runs, the only ones, and the shortest list of ranges
that covers the set. -/
theorem hasMaximalRuns (set : CharSet) : HasMaximalRuns set where
  areMaximalRuns := set.areMaximalRuns_ranges
  eq_foldl := set.areMaximalRuns_walk.unique set.areMaximalRuns_ranges
  mem_iff c := set.areMaximalRuns_ranges.holds_iff c.toNat
  not_spans_surrogate range hrange code hlow hhigh hspans := by
    have := lt_of_containsCode (set.areMaximalRuns_ranges.holds hrange hspans)
    omega
  unique _ hothers := set.areMaximalRuns_ranges.unique hothers
  length_le _ hothers := set.areMaximalRuns_ranges.length_le hothers
  perm _ hothers hlength := set.areMaximalRuns_ranges.perm hothers hlength.le
  eq_of_length _ hothers hsorted hlength :=
    set.areMaximalRuns_ranges.eq_of_length_le hothers hsorted hlength.le

/-- The characters that a set can hold make two runs, with the surrogates between them. -/
example : any.ranges = [('\u0000', '\uD7FF'), ('\uE000', '\uFFFF')] := by decide

end Exemplar.CharSet
