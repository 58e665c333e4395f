import RequestEcho.Proofs.Chunk.Token

/-!
# Bytes that decide a request

Once a line has ended, or a second space has come, what else arrives in the buffer cannot change the request any more
(`token?_append`).  Before that something can: the path can be begun, or be given a letter more
(`exists_token?_append`), and the letter shows (`path_append_ne`).
-/

namespace RequestEcho

namespace Chunk

open Utf8 (decodeLossy)

/-- The bytes hold a line end or two spaces. -/
def Decided (bytes : Bytes) : Prop := [0x0D, 0x0A] <:+: bytes ∨ 2 ≤ bytes.count 0x20

instance : DecidablePred Decided := fun bytes =>
  inferInstanceAs (Decidable ([0x0D, 0x0A] <:+: bytes ∨ 2 ≤ bytes.count 0x20))

theorem Decided.ne_nil {bytes : Bytes} (h : Decided bytes) : bytes ≠ [] := by
  rintro rfl
  exact absurd h (by decide)

/-- What a buffer that is not empty asks for. -/
theorem map_request_take {bytes : Bytes} (h : bytes ≠ []) :
    (take bytes).1.map request = some ⟨((token? bytes).map decodeLossy).getD Request.invalidPath⟩ := by
  rw [take_of_ne_nil h, ← request_path ⟨bytes, h⟩]
  rfl

theorem token?_append {bytes : Bytes} (h : Decided bytes) (more : Bytes) : token? (bytes ++ more) = token? bytes := by
  by_cases hpair : [0x0D, 0x0A] <:+: bytes
  · unfold token?
    rw [Line.upTo_append_of_infix hpair]
  · -- the path stands between the first two spaces, with or without what follows
    obtain ⟨first, piece, rest, rfl, hfirst, hpiece⟩ := Line.exists_cut_of_two_le_count (h.resolve_left hpair)
    have hunbroken : ¬ [0x0D, 0x0A] <:+: first ++ 0x20 :: piece :=
      fun hinside => hpair (hinside.trans ⟨[], 0x20 :: rest, by simp⟩)
    have hcut : ∀ rest, Line.secondPiece? 0x20 (Line.upTo 0x0D 0x0A (first ++ 0x20 :: (piece ++ 0x20 :: rest))) =
        some piece := fun rest => secondPiece?_upTo_eq hfirst hpiece hunbroken (.inr (.inl ⟨rest, rfl⟩))
    have hmore : first ++ 0x20 :: (piece ++ 0x20 :: rest) ++ more =
        first ++ 0x20 :: (piece ++ 0x20 :: (rest ++ more)) := by simp
    unfold token?
    rw [hmore, hcut, hcut]

/-! ### Undecided bytes -/

/-- While nothing is decided, the second word can be begun, or be given a letter more. -/
theorem exists_token?_append {bytes : Bytes} (h : ¬ Decided bytes) :
    ∃ more word, token? bytes = Option.filter (· ≠ []) word ∧
      token? (bytes ++ more) = some (word.getD [] ++ [0x78]) := by
  rw [Decided, not_or] at h
  obtain ⟨hpair, hcount⟩ := h
  have hline : token? bytes = (Line.secondPiece? 0x20 bytes).filter (· ≠ []) := by
    rw [token?, Line.upTo_of_not_infix hpair]
  by_cases hspace : 0x20 ∈ bytes
  · obtain ⟨first, piece, rfl, hfirst⟩ := List.eq_append_cons_of_mem hspace
    have hpiece : 0x20 ∉ piece := by
      intro hmem
      have hpos := List.count_pos_iff.2 hmem
      rw [List.count_append, List.count_cons_self] at hcount
      omega
    have hunbroken : ¬ [0x0D, 0x0A] <:+: first ++ 0x20 :: (piece ++ [0x78]) := by
      simpa using Line.not_pair_infix_append hpair (show ¬ [0x0D, 0x0A] <:+: [0x78] by decide) (by decide)
    have hsecond : Line.secondPiece? 0x20 (Line.upTo 0x0D 0x0A (first ++ 0x20 :: (piece ++ [0x78] ++ []))) =
        some (piece ++ [0x78]) := secondPiece?_upTo_eq hfirst (by simpa using hpiece) hunbroken (.inl rfl)
    refine ⟨[0x78], some piece, ?_, token?_eq_some (by simp) (by simpa using hsecond)⟩
    rw [hline, Line.secondPiece?_append_cons hfirst, Line.takeWhile_ne_of_not_mem hpiece]
  · have hunbroken : ¬ [0x0D, 0x0A] <:+: bytes ++ [0x20, 0x78] :=
      Line.not_pair_infix_append hpair (by decide) (by decide)
    refine ⟨[0x20, 0x78], none, ?_, ?_⟩
    · rw [hline, Line.secondPiece?_of_not_mem hspace]
    · exact token?_eq_some (by decide) (secondPiece?_upTo_eq hspace (by decide) hunbroken (.inl rfl))

/-- The letter shows in the path. -/
theorem path_append_ne (word : Option Bytes) :
    decodeLossy (word.getD [] ++ [0x78]) ≠ ((word.filter (· ≠ [])).map decodeLossy).getD Request.invalidPath := by
  cases word with
  | none => decide
  | some piece =>
    by_cases hne : piece = []
    · subst hne
      decide
    · have hletter : decodeLossy (piece ++ [0x78]) = decodeLossy piece ++ ['x'] :=
        Utf8.decodeLossy_append_ascii piece [] (show 'x'.toNat < 0x80 by decide)
      have hword : (some piece).filter (· ≠ []) = some piece := Option.filter_eq_some_iff.2 ⟨rfl, decide_eq_true hne⟩
      rw [Option.getD_some, hletter, hword]
      simp

/-- What a buffer asks for is decided by what it holds, and by nothing else before that. -/
theorem request_append_eq_iff (bytes : Bytes) :
    (∀ more, (take (bytes ++ more)).1.map request = (take bytes).1.map request) ↔ Decided bytes := by
  constructor
  · intro hsame
    by_contra h
    obtain ⟨more, word, hbefore, hafter⟩ := exists_token?_append h
    have hnonempty : bytes ++ more ≠ [] := by
      intro hnil
      rw [hnil] at hafter
      cases hafter
    have heq := hsame more
    rw [map_request_take hnonempty, hafter] at heq
    by_cases hne : bytes = []
    · subst hne
      cases heq
    · rw [map_request_take hne, hbefore] at heq
      exact path_append_ne word (congrArg Request.path (Option.some.inj heq))
  · intro h more
    have hne := h.ne_nil
    rw [map_request_take (List.append_ne_nil_of_left_ne_nil hne more), map_request_take hne, token?_append h more]

end Chunk

end RequestEcho
