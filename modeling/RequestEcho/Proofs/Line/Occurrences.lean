import RequestEcho.Proofs.Line.Cuts

/-!
# Where a pattern stands

`occurrences` lists the places at which a pattern stands in a list.

* Two different delimiters cannot overlap with a pair of their own, so around a pair the places are those before it, its
  own, and those behind it (`occurrences_pair_append`), whatever stands on either side.
* A pattern of two parts stands where the first part stands with the second part behind it (`occurrences_append`).
-/

namespace RequestEcho

namespace Line

variable {α : Type} [DecidableEq α] {x y : α}

/-- The places in a list at which `pattern` stands. -/
def occurrences (pattern l : List α) : List Nat :=
  (List.range l.length).filter fun i => pattern <+: l.drop i

theorem occurrences_cons (pattern : List α) (a : α) (l : List α) :
    occurrences pattern (a :: l) =
      (if pattern <+: a :: l then [0] else []) ++ (occurrences pattern l).map (· + 1) := by
  rw [occurrences, List.length_cons, List.range_succ_eq_map, List.filter_cons, List.filter_map]
  simp only [List.drop_zero, decide_eq_true_eq]
  split <;> rfl

theorem mem_occurrences {pattern l : List α} (h : pattern ≠ []) {i : Nat} :
    i ∈ occurrences pattern l ↔ pattern <+: l.drop i := by
  rw [occurrences, List.mem_filter, List.mem_range, decide_eq_true_eq, and_iff_right_iff_imp]
  intro hbegins
  have hle := hbegins.length_le
  have hpos := List.length_pos_iff.2 h
  rw [List.length_drop] at hle
  omega

theorem occurrences_eq_nil {pattern l : List α} (h : ¬ pattern <:+: l) : occurrences pattern l = [] := by
  rw [occurrences, List.filter_eq_nil_iff]
  intro i _ hbegins
  exact h ((of_decide_eq_true hbegins).isInfix.trans (List.drop_suffix i l).isInfix)

theorem occurrences_pair_append (h : x ≠ y) (before behind : List α) :
    occurrences [x, y] (before ++ x :: y :: behind) =
      occurrences [x, y] before ++ before.length :: (occurrences [x, y] behind).map (before.length + 2 + ·) := by
  induction before with
  | nil =>
    have hnext : ¬ [x, y] <+: y :: behind := fun hbegins => h (List.cons_prefix_cons.1 hbegins).1
    have hshift : (· + 1) ∘ (· + 1) = (([] : List α).length + 2 + ·) := by
      funext i
      simp
      omega
    rw [List.nil_append, occurrences_cons, if_pos (by simp), occurrences_cons, if_neg hnext, List.nil_append,
      List.map_map, hshift]
    rfl
  | cons a before ih =>
    -- a pair that begins with the last element before would need `x` for its second
    have hhere : [x, y] <+: a :: before ++ x :: y :: behind ↔ [x, y] <+: a :: before := by
      cases before with
      | nil => simp [h.symm]
      | cons b before => simp
    have hcons := occurrences_cons [x, y] a (before ++ x :: y :: behind)
    rw [List.cons_append] at hhere ⊢
    rw [hcons, occurrences_cons, ih]
    simp only [hhere, List.map_append, List.map_cons, List.map_map, List.append_assoc, List.length_cons]
    simp [Function.comp_def]
    omega

omit [DecidableEq α] in
theorem append_prefix_iff {p q l : List α} : p ++ q <+: l ↔ p <+: l ∧ q <+: l.drop p.length := by
  constructor
  · rintro ⟨t, rfl⟩
    exact ⟨⟨q ++ t, by simp⟩, ⟨t, by simp⟩⟩
  · rintro ⟨⟨t, rfl⟩, h⟩
    rw [List.drop_left] at h
    exact (List.prefix_append_right_inj p).2 h

theorem occurrences_append {p q : List α} (hq : q ≠ []) (l : List α) :
    occurrences (p ++ q) l = (occurrences p l).filter fun i => i + p.length ∈ occurrences q l := by
  simp only [mem_occurrences hq]
  rw [occurrences, occurrences, List.filter_filter]
  refine List.filter_congr fun i _ => ?_
  simp only [append_prefix_iff, List.drop_drop, ← Bool.decide_and, decide_eq_decide]
  exact and_comm

end Line

end RequestEcho
