import Exemplar.Batch
import Exemplar.Proofs.Pattern.Strings

/-!
# Batches and single seeds

A batch has the strings that its seeds have one by one, in the order of the seeds, and otherwise
the error of the earliest seed that has one (`generateMany_results`). Whether and how the batch is
cut into pieces makes no difference: the pieces in a row are the seeds, and each piece is generated
in their order.
-/

namespace Exemplar

section Traversal

variable {α β ε : Type} {action : α → Except ε β} {items : List α}

/-- A traversal ends well with the results of the items in their order. -/
theorem mapM_eq_ok_iff {results : List β} :
    items.mapM action = .ok results ↔
      List.Forall₂ (fun item result ↦ action item = .ok result) items results := by
  induction items generalizing results with
  | nil =>
    rw [List.mapM_nil, List.forall₂_nil_left_iff]
    exact ⟨fun h ↦ (Except.ok.inj h).symm, fun h ↦ h ▸ rfl⟩
  | cons item items ih =>
    rw [List.mapM_cons, List.forall₂_cons_left_iff]
    cases hitem : action item with
    | error error => simp [bind, Except.bind]
    | ok result =>
      cases hrest : items.mapM action with
      | error error =>
        have hnone (rest : List β) :
            ¬ List.Forall₂ (fun item result ↦ action item = .ok result) items rest :=
          fun h ↦ nomatch hrest.symm.trans (ih.mpr h)
        simp [bind, Except.bind, hnone]
      | ok rest =>
        simp only [bind, Except.bind, pure, Except.pure, Except.ok.injEq]
        constructor
        · rintro rfl
          exact ⟨result, rest, rfl, ih.mp hrest, rfl⟩
        · rintro ⟨result', rest', rfl, hrest', rfl⟩
          rw [Except.ok.inj (hrest.symm.trans (ih.mpr hrest'))]

/-- A traversal ends with the error of the earliest item that has one. -/
theorem mapM_eq_error_iff {error : ε} :
    items.mapM action = .error error ↔
      ∃ before item after, items = before ++ item :: after ∧
        (∀ earlier ∈ before, ∃ result, action earlier = .ok result) ∧
        action item = .error error := by
  induction items with
  | nil => simp [pure, Except.pure]
  | cons item items ih =>
    rw [List.mapM_cons]
    constructor
    · intro h
      cases hitem : action item with
      | error found =>
        obtain rfl : found = error := by simpa [hitem, bind, Except.bind] using h
        exact ⟨[], item, items, rfl, by simp, hitem⟩
      | ok result =>
        have hrest : items.mapM action = .error error := by
          cases hrest : items.mapM action <;> simp_all [bind, Except.bind, pure, Except.pure]
        obtain ⟨before, found, after, hitems, hbefore, herror⟩ := ih.mp hrest
        exact ⟨item :: before, found, after, hitems ▸ rfl,
          List.forall_mem_cons.mpr ⟨⟨result, hitem⟩, hbefore⟩, herror⟩
    · rintro ⟨before, found, after, hitems, hbefore, herror⟩
      cases before with
      | nil =>
        obtain ⟨rfl, -⟩ := List.cons.inj hitems
        rw [herror]
        rfl
      | cons first before =>
        obtain ⟨rfl, hrest⟩ := List.cons.inj hitems
        obtain ⟨⟨result, hfirst⟩, hbefore⟩ := List.forall_mem_cons.mp hbefore
        rw [hfirst, ih.mpr ⟨before, found, after, hrest, hbefore, herror⟩]
        rfl

/-- Traversing lists one after the other is traversing the list of all their items. -/
theorem mapM_flatten (pieces : List (List α)) :
    (pieces.mapM fun piece : List α ↦ piece.mapM action).map List.flatten =
      pieces.flatten.mapM action := by
  induction pieces with
  | nil => rfl
  | cons piece pieces ih =>
    rw [List.flatten_cons, List.mapM_append, List.mapM_cons, ← ih]
    cases piece.mapM action with
    | error error => rfl
    | ok first => cases pieces.mapM fun piece : List α ↦ piece.mapM action <;> rfl

end Traversal

namespace BatchConfig

variable {α : Type} {size : Nat} {items : List α}

/-- A configuration is accepted if it has workers and no empty batch is cut into pieces. -/
theorem validate_eq_ok {config : BatchConfig} :
    config.validate = .ok () ↔ config.threads ≠ 0 ∧ config.batchSize ≠ 0 := by
  unfold validate
  split
  · simp [*]
  · split <;> simp [*]

/-- Nothing has no pieces. -/
@[simp]
theorem pieces_nil (size : Nat) : pieces size ([] : List α) = [] := by
  rw [pieces, dif_pos (.inl rfl), if_pos rfl]

/-- The first piece of a list has the given length, and the others are cut from what is left. -/
theorem pieces_of_ne_nil (hsize : 0 < size) (hitems : items ≠ []) :
    pieces size items = items.take size :: pieces size (items.drop size) := by
  rw [pieces, dif_neg (by simp [hitems, Nat.pos_iff_ne_zero.mp hsize])]

/-- The pieces in a row are the list. -/
theorem flatten_pieces (hsize : 0 < size) (items : List α) :
    (pieces size items).flatten = items := by
  by_cases hitems : items = []
  · rw [hitems, pieces_nil, List.flatten_nil]
  · rw [pieces_of_ne_nil hsize hitems, List.flatten_cons, flatten_pieces hsize (items.drop size),
      List.take_append_drop]
termination_by items.length
decreasing_by
  have := List.length_pos_iff.mpr hitems
  simp only [List.length_drop]
  omega

/-- No more pieces are cut than there are workers, if together they can take the whole list. -/
theorem length_pieces_le {workers : Nat} (hsize : 0 < size) (h : items.length ≤ workers * size) :
    (pieces size items).length ≤ workers := by
  induction workers generalizing items with
  | zero =>
    obtain rfl : items = [] := List.length_eq_zero_iff.mp (by omega)
    rw [pieces_nil]
    exact Nat.le_refl 0
  | succ workers ih =>
    by_cases hitems : items = []
    · simp [hitems]
    · have hrest : (items.drop size).length ≤ workers * size := by
        rw [List.length_drop]
        rw [Nat.succ_mul] at h
        omega
      rw [pieces_of_ne_nil hsize hitems, List.length_cons]
      exact Nat.succ_le_succ (ih hrest)

/-- With the length of a piece rounded up, no worker has more than one piece. -/
theorem length_pieces_le_workers {workers : Nat} (hworkers : 0 < workers) (items : List α) :
    (pieces ((items.length + workers - 1) / workers) items).length ≤ workers := by
  by_cases hitems : items = []
  · simp [hitems]
  · have hlength : 0 < items.length := List.length_pos_iff.mpr hitems
    have hshare := Nat.div_add_mod (items.length + workers - 1) workers
    have hrest := Nat.mod_lt (items.length + workers - 1) hworkers
    exact length_pieces_le (Nat.div_pos (by omega) hworkers) (by omega)

end BatchConfig

namespace Pattern

variable {config : BatchConfig}

/-- The results of the pieces, joined in their order, are the results of the seeds. -/
theorem joined_eq_generateAll (pattern : Pattern) (target : Option Nat) {size : Nat}
    (hsize : 0 < size) (seeds : List Int) :
    (((BatchConfig.pieces size seeds).map fun piece ↦
        Task.spawn fun _ ↦ pattern.generateAll target piece).mapM Task.get).map (·.flatten) =
      pattern.generateAll target seeds := by
  -- A task that is joined has the result of its own piece.
  have hjoin : (Task.get ∘ fun piece ↦ Task.spawn fun _ ↦ pattern.generateAll target piece) =
      fun piece ↦ piece.mapM (pattern.generate · target) := rfl
  rw [List.mapM_map, hjoin, mapM_flatten, BatchConfig.flatten_pieces hsize, generateAll]

/-- The schedule of a batch makes no difference. -/
theorem generateMany_eq_generateAll (pattern : Pattern) (target : Option Nat)
    (h : config.validate = .ok ()) (seeds : List Int) :
    pattern.generateMany target config seeds = pattern.generateAll target seeds := by
  obtain ⟨hthreads, hbatch⟩ := BatchConfig.validate_eq_ok.mp h
  unfold generateMany
  split
  · rfl
  · have hworkers : 0 < min config.threads seeds.length := by omega
    exact joined_eq_generateAll pattern target (Nat.div_pos (by omega) hworkers) seeds

/-- A batch has the strings of its seeds in their order, or else the error of its earliest seed
that has one, under every configuration that is accepted. -/
theorem generateMany_results (pattern : Pattern) (target : Option Nat) (seeds : List Int)
    (h : config.validate = .ok ()) :
    (∀ values, pattern.generateMany target config seeds = .ok values ↔
      List.Forall₂ (fun seed value ↦
        ∃ next, pattern.generateFrom (Lcg.ofSeed seed) target = .ok (value, next))
          seeds values) ∧
    (∀ error, pattern.generateMany target config seeds = .error error ↔
      ∃ before seed after, seeds = before ++ seed :: after ∧
        (∀ earlier ∈ before, ∃ value next,
          pattern.generateFrom (Lcg.ofSeed earlier) target = .ok (value, next)) ∧
        pattern.generateFrom (Lcg.ofSeed seed) target = .error error) := by
  simp only [generateMany_eq_generateAll pattern target h, generateAll, mapM_eq_ok_iff,
    mapM_eq_error_iff, generate_eq_ok, generate_eq_error, implies_true, and_self]

/-- Three letters, the text of a group that is not there, and a character of an empty set. -/
def letterOrError : Pattern :=
  .ofTree (.choice [.literal ['a'] false, .literal ['b'] false, .literal ['c'] false,
    .backref (.index 1) (.ofLength 1), .set .empty])

/-- Three workers share five seeds, two of which meet an error, and the error of the earlier worker
is reported. Without errors the letters come in the order of the seeds. -/
theorem generateMany_results_letterOrError :
    BatchConfig.validate ⟨3, 5, true⟩ = .ok () ∧
    letterOrError.generateFrom (Lcg.ofSeed 2) none = .error (.unresolved (.index 1)) ∧
    letterOrError.generateMany none ⟨3, 5, true⟩ [0, 6, 4, 3, 2] = .error .emptyCharSet ∧
    letterOrError.generateMany none ⟨3, 5, true⟩ [0, 6, 4, 1, 5] =
      .ok ["a", "b", "c", "a", "c"] := by
  have hvalid : BatchConfig.validate ⟨3, 5, true⟩ = .ok () := by decide
  have h0 : letterOrError.generate 0 none = .ok "a" := by decide +kernel
  have h6 : letterOrError.generate 6 none = .ok "b" := by decide +kernel
  have h4 : letterOrError.generate 4 none = .ok "c" := by decide +kernel
  have h1 : letterOrError.generate 1 none = .ok "a" := by decide +kernel
  have h5 : letterOrError.generate 5 none = .ok "c" := by decide +kernel
  refine ⟨hvalid, by decide +kernel, ?_, ?_⟩
  · refine ((generateMany_results _ _ _ hvalid).2 _).mpr
      ⟨[0, 6, 4], 3, [2], rfl, ?_, by decide +kernel⟩
    simp only [List.forall_mem_cons, ← generate_eq_ok]
    exact ⟨⟨_, h0⟩, ⟨_, h6⟩, ⟨_, h4⟩, by simp⟩
  · refine ((generateMany_results _ _ _ hvalid).1 _).mpr ?_
    simp only [List.forall₂_cons, ← generate_eq_ok]
    exact ⟨h0, h6, h4, h1, h5, .nil⟩

end Pattern

end Exemplar
