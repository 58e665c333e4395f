import Mathlib.Data.List.TakeWhile
import RequestEcho.Http

/-!
# What the cuts leave

* `upTo x y` leaves the longest beginning in which no `x` is directly followed by `y`: no such pair stands in it
  (`not_pair_infix_upTo`), and it ends where the list ends or where such a pair stands (`exists_upTo_append`).
* A beginning without such a pair is passed over whole, unless what stands behind it begins with `y` (`upTo_append`).
* What stands behind a pair does not matter (`upTo_append_of_infix`).
* `secondPiece? sep` finds exactly the pieces that stand between two delimiters, or between the first delimiter and the
  end (`secondPiece?_eq_some_iff`): the second piece of `List.splitOn` (`secondPiece?_eq_splitOn`).
-/

namespace RequestEcho

namespace Line

variable {α : Type} [DecidableEq α] {x y sep : α}

/-! ### Pairs of delimiters -/

omit [DecidableEq α] in
theorem pair_infix_cons_iff {a b : α} {l : List α} :
    [x, y] <:+: a :: b :: l ↔ (a = x ∧ b = y) ∨ [x, y] <:+: b :: l := by
  simp only [List.infix_cons_iff, List.cons_prefix_cons, List.nil_prefix, and_true, @eq_comm _ x, @eq_comm _ y]

omit [DecidableEq α] in
theorem not_pair_infix_of_length {l : List α} (h : l.length < 2) : ¬ [x, y] <:+: l :=
  fun hinside => Nat.not_le_of_lt h hinside.length_le

omit [DecidableEq α] in
theorem not_pair_infix_of_not_mem {l : List α} (h : x ∉ l) : ¬ [x, y] <:+: l :=
  fun hinside => h (hinside.subset List.mem_cons_self)

omit [DecidableEq α] in
theorem not_pair_infix_append_of_not_mem {before behind : List α} (hbefore : x ∉ before)
    (hbehind : ¬ [x, y] <:+: behind) : ¬ [x, y] <:+: before ++ behind := by
  induction before with
  | nil => exact hbehind
  | cons a before ih =>
    rw [List.cons_append, List.infix_cons_iff]
    rintro (hbegins | hinside)
    · exact hbefore ((List.cons_prefix_cons.1 hbegins).1 ▸ List.mem_cons_self)
    · exact ih (fun hx => hbefore (List.mem_cons_of_mem a hx)) hinside

theorem upTo_cons_of_ne {a : α} (h : a ≠ x) (l : List α) : upTo x y (a :: l) = a :: upTo x y l := by
  cases l with
  | nil => rfl
  | cons b l => rw [upTo, if_neg fun hpair => h hpair.1]

theorem exists_upTo_append (x y : α) (l : List α) : ∃ rest, l = upTo x y l ++ rest ∧ (rest = [] ∨ [x, y] <+: rest) := by
  induction l using upTo.induct x y with
  | case1 => exact ⟨[], rfl, .inl rfl⟩
  | case2 a => exact ⟨[], rfl, .inl rfl⟩
  | case3 a b l h =>
    rw [upTo, if_pos h]
    exact ⟨a :: b :: l, rfl, .inr (by simp [h])⟩
  | case4 a b l h ih =>
    obtain ⟨rest, hl, hrest⟩ := ih
    rw [upTo, if_neg h]
    exact ⟨rest, congrArg (a :: ·) hl, hrest⟩

theorem upTo_prefix (x y : α) (l : List α) : upTo x y l <+: l := by
  obtain ⟨rest, hl, -⟩ := exists_upTo_append x y l
  exact ⟨rest, hl.symm⟩

theorem not_pair_infix_upTo (l : List α) : ¬ [x, y] <:+: upTo x y l := by
  induction l using upTo.induct x y with
  | case1 => exact not_pair_infix_of_length (by simp [upTo])
  | case2 a => exact not_pair_infix_of_length (by simp [upTo])
  | case3 a b l h => exact not_pair_infix_of_length (by simp [upTo, h])
  | case4 a b l h ih =>
    rw [upTo, if_neg h]
    cases hl : upTo x y (b :: l) with
    | nil => exact not_pair_infix_of_length (by simp)
    | cons c l' =>
      -- what is left of `b :: l` still begins with `b`, and `a`, `b` is no pair
      have hc : c = b := by
        have hbegins := upTo_prefix x y (b :: l)
        rw [hl] at hbegins
        exact (List.cons_prefix_cons.1 hbegins).1
      rw [pair_infix_cons_iff, ← hl, hc]
      rintro (hpair | hinside)
      · exact h hpair
      · exact ih hinside

theorem upTo_append {before behind : List α} (hbefore : ¬ [x, y] <:+: before) (hbehind : behind.head? ≠ some y) :
    upTo x y (before ++ behind) = before ++ upTo x y behind := by
  induction before with
  | nil => rfl
  | cons a before ih =>
    have ih := ih fun h => hbefore (List.infix_cons h)
    cases before with
    | nil =>
      cases behind with
      | nil => rfl
      | cons b behind =>
        have hb : b ≠ y := fun h => hbehind (congrArg some h)
        simp only [List.cons_append, List.nil_append, upTo, if_neg fun h => hb (And.right h)]
    | cons b before =>
      have hab : ¬ (a = x ∧ b = y) := fun h => hbefore (pair_infix_cons_iff.2 (.inl h))
      simp only [List.cons_append] at ih ⊢
      rw [upTo, if_neg hab, ih]

theorem upTo_of_not_infix {l : List α} (h : ¬ [x, y] <:+: l) : upTo x y l = l := by
  have hall := upTo_append h (show ([] : List α).head? ≠ some y by simp)
  simpa [upTo] using hall

/-- Two lists without pairs have none when put together, unless the second begins with `y`. -/
theorem not_pair_infix_append {before behind : List α} (hbefore : ¬ [x, y] <:+: before)
    (hbehind : ¬ [x, y] <:+: behind) (hhead : behind.head? ≠ some y) : ¬ [x, y] <:+: before ++ behind := by
  have hline := not_pair_infix_upTo (x := x) (y := y) (before ++ behind)
  rwa [upTo_append hbefore hhead, upTo_of_not_infix hbehind] at hline

theorem upTo_append_of_infix {before : List α} (h : [x, y] <:+: before) (behind : List α) :
    upTo x y (before ++ behind) = upTo x y before := by
  induction before using upTo.induct x y with
  | case1 => exact absurd h (not_pair_infix_of_length (by simp))
  | case2 a => exact absurd h (not_pair_infix_of_length (by simp))
  | case3 a b l hpair => simp only [List.cons_append, upTo, if_pos hpair]
  | case4 a b l hpair ih =>
    rcases pair_infix_cons_iff.1 h with heq | hinside
    · exact absurd heq hpair
    · simp only [List.cons_append] at ih
      simp only [List.cons_append, upTo, if_neg hpair, ih hinside]

/-- A beginning without pairs that ends with the list, at a `sep` or at a pair is whole, and what is left behind it ends
there or begins with the `sep`. -/
theorem exists_upTo_eq_append {before rest : List α} (hxy : x ≠ y) (hsx : sep ≠ x) (hsy : sep ≠ y)
    (hbefore : ¬ [x, y] <:+: before) (hrest : rest = [] ∨ [sep] <+: rest ∨ [x, y] <+: rest) :
    ∃ tail, upTo x y (before ++ rest) = before ++ tail ∧ (tail = [] ∨ [sep] <+: tail) := by
  -- the pair cannot begin with the last element of `before`, because `rest` does not begin with `y`
  have hhead : rest.head? ≠ some y := by
    rcases hrest with rfl | ⟨rest, rfl⟩ | ⟨rest, rfl⟩
    · simp
    · simpa using hsy
    · simpa using hxy
  refine ⟨upTo x y rest, upTo_append hbefore hhead, ?_⟩
  rcases hrest with rfl | ⟨rest, rfl⟩ | ⟨rest, rfl⟩
  · exact .inl rfl
  · rw [List.singleton_append, upTo_cons_of_ne hsx]
    exact .inr ⟨_, rfl⟩
  · exact .inl (by simp [upTo])

/-! ### Single delimiters -/

private theorem forall_ne_of_not_mem {l : List α} (h : sep ∉ l) : ∀ a ∈ l, decide (a ≠ sep) = true := by
  intro a ha
  exact decide_eq_true fun heq => h (heq ▸ ha)

theorem not_mem_takeWhile_ne (sep : α) (l : List α) : sep ∉ l.takeWhile (· ≠ sep) := by
  intro h
  have hne := List.mem_takeWhile_imp h
  simp at hne

theorem takeWhile_ne_append {before behind : List α} (h : sep ∉ before) (hbehind : behind = [] ∨ [sep] <+: behind) :
    (before ++ behind).takeWhile (· ≠ sep) = before := by
  rw [List.takeWhile_append_of_pos (forall_ne_of_not_mem h)]
  rcases hbehind with rfl | ⟨l, rfl⟩
  · simp
  · simp

theorem takeWhile_ne_of_not_mem {l : List α} (h : sep ∉ l) : l.takeWhile (· ≠ sep) = l := by
  have hall := takeWhile_ne_append h (.inl rfl)
  rwa [List.append_nil] at hall

theorem dropWhile_ne_append {before : List α} (h : sep ∉ before) (l : List α) :
    (before ++ sep :: l).dropWhile (· ≠ sep) = sep :: l := by
  rw [List.dropWhile_append_of_pos (forall_ne_of_not_mem h)]
  simp

/-- What stands behind the longest beginning without `sep` begins with `sep`. -/
theorem dropWhile_ne_eq_nil_or (sep : α) (l : List α) :
    l.dropWhile (· ≠ sep) = [] ∨ [sep] <+: l.dropWhile (· ≠ sep) := by
  cases hl : l.dropWhile (· ≠ sep) with
  | nil => exact .inl rfl
  | cons a rest =>
    have ha : a = sep := by
      have hhead := List.head?_dropWhile_not (· ≠ sep) l
      rw [hl] at hhead
      simpa using hhead
    exact .inr ⟨rest, by rw [ha]; rfl⟩

theorem secondPiece?_append_cons {first : List α} (h : sep ∉ first) (behind : List α) :
    secondPiece? sep (first ++ sep :: behind) = some (behind.takeWhile (· ≠ sep)) := by
  rw [secondPiece?, dropWhile_ne_append h]

theorem secondPiece?_eq_some_iff {l piece : List α} :
    secondPiece? sep l = some piece ↔
      ∃ first rest, l = first ++ sep :: (piece ++ rest) ∧ sep ∉ first ∧ sep ∉ piece ∧ (rest = [] ∨ [sep] <+: rest) := by
  constructor
  · intro h
    rw [secondPiece?] at h
    rcases dropWhile_ne_eq_nil_or sep l with hnil | ⟨behind, hbehind⟩
    · rw [hnil] at h
      cases h
    · rw [← hbehind, List.singleton_append] at h
      obtain rfl := Option.some.inj h
      refine ⟨l.takeWhile (· ≠ sep), behind.dropWhile (· ≠ sep), ?_, not_mem_takeWhile_ne sep l,
        not_mem_takeWhile_ne sep behind, dropWhile_ne_eq_nil_or sep behind⟩
      rw [List.takeWhile_append_dropWhile, ← List.singleton_append, hbehind, List.takeWhile_append_dropWhile]
  · rintro ⟨first, rest, rfl, hfirst, hpiece, hrest⟩
    rw [secondPiece?_append_cons hfirst, takeWhile_ne_append hpiece hrest]

omit [DecidableEq α] in
theorem exists_cut_of_two_le_count [BEq α] [LawfulBEq α] {l : List α} (h : 2 ≤ l.count sep) :
    ∃ first piece rest, l = first ++ sep :: (piece ++ sep :: rest) ∧ sep ∉ first ∧ sep ∉ piece := by
  have hmem : sep ∈ l := List.count_pos_iff.1 (by omega)
  obtain ⟨first, behind, rfl, hfirst⟩ := List.eq_append_cons_of_mem hmem
  rw [List.count_append, List.count_eq_zero.2 hfirst, List.count_cons_self] at h
  have hbehind : sep ∈ behind := List.count_pos_iff.1 (by omega)
  obtain ⟨piece, rest, rfl, hpiece⟩ := List.eq_append_cons_of_mem hbehind
  exact ⟨first, piece, rest, rfl, hfirst, hpiece⟩

theorem secondPiece?_of_not_mem {l : List α} (h : sep ∉ l) : secondPiece? sep l = none := by
  have hnil : l.dropWhile (· ≠ sep) = [] := List.dropWhile_eq_nil_iff.2 (forall_ne_of_not_mem h)
  rw [secondPiece?, hnil]

theorem splitOn_append_cons {first : List α} (h : sep ∉ first) (behind : List α) :
    (first ++ sep :: behind).splitOn sep = first :: behind.splitOn sep := by
  have hfirst : ∀ a ∈ first, (a == sep) = false := by
    intro a ha
    exact beq_false_of_ne fun heq => h (heq ▸ ha)
  exact List.splitOnP_append_cons_of_forall_mem hfirst sep (beq_self_eq_true sep) behind

theorem head?_splitOn (sep : α) (l : List α) : (l.splitOn sep).head? = some (l.takeWhile (· ≠ sep)) := by
  by_cases h : sep ∈ l
  · obtain ⟨first, behind, rfl, hfirst⟩ := List.eq_append_cons_of_mem h
    have hword := takeWhile_ne_append hfirst (.inr ⟨behind, rfl⟩)
    rw [List.singleton_append] at hword
    rw [splitOn_append_cons hfirst, hword]
    rfl
  · rw [List.splitOn_eq_singleton h, takeWhile_ne_of_not_mem h]
    rfl

/-- The second piece is the one that splitting at every delimiter gives. -/
theorem secondPiece?_eq_splitOn (sep : α) (l : List α) : secondPiece? sep l = (l.splitOn sep)[1]? := by
  by_cases h : sep ∈ l
  · obtain ⟨first, behind, rfl, hfirst⟩ := List.eq_append_cons_of_mem h
    rw [secondPiece?_append_cons hfirst, splitOn_append_cons hfirst, List.getElem?_cons_succ, ← List.head?_eq_getElem?]
    exact (head?_splitOn sep behind).symm
  · rw [secondPiece?_of_not_mem h, List.splitOn_eq_singleton h]
    rfl

end Line

end RequestEcho
