import RequestEcho.Proofs.Line.Cuts
import RequestEcho.Http

/-!
# The texts that name a path

A text names a path if it is a word, one space, the path and whatever else, where neither the word nor the path holds a
space, the path is not empty, no line ends before the end of the path, and the path ends with the text, at a space or at
a line end (`Naming`).

* The request for a text has the path that the text names, and a text names at most one (`path?_eq_some_iff`,
  `Naming.unique`).
* So every request has a path that a text could name (`path_ofText`).
-/

namespace RequestEcho

namespace Request

/-- `text` is `method`, a space, `path` and `rest`, so that `path` is the second word of the first line. -/
structure Naming (text method path rest : Text) : Prop where
  text_eq : text = method ++ [' '] ++ path ++ rest
  method_unspaced : ' ' ∉ method
  path_unspaced : ' ' ∉ path
  path_ne_nil : path ≠ []
  unbroken : ¬ ['\r', '\n'] <:+: method ++ [' '] ++ path
  rest_cut : rest = [] ∨ [' '] <+: rest ∨ ['\r', '\n'] <+: rest

variable {text method path rest : Text}

/-- Up to its first line end, the text is the word, the space, the path and what stands behind the path on the line. -/
theorem Naming.upTo_eq (h : Naming text method path rest) :
    ∃ tail, Line.upTo '\r' '\n' text = method ++ ' ' :: (path ++ tail) ∧ (tail = [] ∨ [' '] <+: tail) := by
  obtain ⟨tail, hline, htail⟩ :=
    Line.exists_upTo_eq_append (by decide) (by decide) (by decide) h.unbroken h.rest_cut
  refine ⟨tail, ?_, htail⟩
  rw [h.text_eq, hline]
  simp

/-- A text names a path exactly if the path is the second word of its first line. -/
theorem path?_eq_some_iff : path? text = some path ↔ ∃ method rest, Naming text method path rest := by
  rw [path?, Option.filter_eq_some_iff, Line.secondPiece?_eq_some_iff]
  constructor
  · rintro ⟨⟨method, tail, hline, hmethod, hpath, htail⟩, hne⟩
    obtain ⟨behind, htext, hbehind⟩ := Line.exists_upTo_append '\r' '\n' text
    have hunbroken := Line.not_pair_infix_upTo (x := '\r') (y := '\n') text
    rw [hline] at htext hunbroken
    -- behind the path stands what is left of its line, and then the line end
    refine ⟨method, tail ++ behind, ?_, hmethod, hpath, by simpa using hne, ?_, ?_⟩
    · rw [htext]
      simp
    · exact fun h => hunbroken (h.trans ⟨[], tail, by simp⟩)
    · rcases htail with rfl | ⟨tail, rfl⟩
      · exact hbehind.imp_right .inr
      · exact .inr (.inl ⟨tail ++ behind, by simp⟩)
  · rintro ⟨method, rest, h⟩
    obtain ⟨tail, hline, htail⟩ := h.upTo_eq
    exact ⟨⟨method, tail, hline, h.method_unspaced, h.path_unspaced, htail⟩, by simpa using h.path_ne_nil⟩

/-- The space behind the word is the first one of the text, and the second cut is the parser's. -/
theorem Naming.unique {method' path' rest' : Text} (h : Naming text method path rest)
    (h' : Naming text method' path' rest') : method = method' ∧ path = path' ∧ rest = rest' := by
  have hmethod : method = method' := by
    have hword := Line.takeWhile_ne_append h.method_unspaced (.inr ⟨path ++ rest, rfl⟩)
    have hword' := Line.takeWhile_ne_append h'.method_unspaced (.inr ⟨path' ++ rest', rfl⟩)
    have htext := h.text_eq.symm.trans h'.text_eq
    simp only [List.append_assoc] at htext hword hword'
    rw [← hword, htext, hword']
  have hpath : path = path' := by
    have hsome := path?_eq_some_iff.2 ⟨method, rest, h⟩
    rw [path?_eq_some_iff.2 ⟨method', rest', h'⟩] at hsome
    exact (Option.some.inj hsome).symm
  have htext := h.text_eq.symm.trans h'.text_eq
  rw [hmethod, hpath] at htext
  exact ⟨hmethod, hpath, List.append_cancel_left htext⟩

/-- Every text names at most one path, in one way only. The request for a text has the path that it names, and the
invalid path if it names none; so no path is empty, holds a space or goes over a line end. -/
theorem path_ofText (text : Text) :
    (∀ method path rest method' path' rest', Naming text method path rest → Naming text method' path' rest' →
      method = method' ∧ path = path' ∧ rest = rest') ∧
    (∀ method path rest, Naming text method path rest → (ofText text).path = path) ∧
    ((¬ ∃ method path rest, Naming text method path rest) → (ofText text).path = invalidPath) ∧
    (ofText text).path ≠ [] ∧ ' ' ∉ (ofText text).path ∧ ¬ ['\r', '\n'] <:+: (ofText text).path := by
  have hnamed : ∀ method path rest, Naming text method path rest → (ofText text).path = path := by
    intro method path rest h
    rw [ofText, path?_eq_some_iff.2 ⟨method, rest, h⟩]
    rfl
  have hunnamed : (¬ ∃ method path rest, Naming text method path rest) → (ofText text).path = invalidPath := by
    intro h
    have hnone : path? text = none := by
      rw [Option.eq_none_iff_forall_ne_some]
      intro path hpath
      obtain ⟨method, rest, hnaming⟩ := path?_eq_some_iff.1 hpath
      exact h ⟨method, path, rest, hnaming⟩
    rw [ofText, hnone]
    rfl
  refine ⟨fun _ _ _ _ _ _ h h' => h.unique h', hnamed, hunnamed, ?_⟩
  by_cases h : ∃ method path rest, Naming text method path rest
  · obtain ⟨method, path, rest, h⟩ := h
    rw [hnamed method path rest h]
    exact ⟨h.path_ne_nil, h.path_unspaced, fun hinside => h.unbroken (hinside.trans ⟨method ++ [' '], [], by simp⟩)⟩
  · have hcr : '\r' ∉ invalidPath := by decide
    rw [hunnamed h]
    exact ⟨by decide, by decide, fun hinside => hcr (hinside.subset List.mem_cons_self)⟩

example : (ofText "GET /a\r".toList).path = "/a\r".toList := by decide

end Request

end RequestEcho
