import RequestEcho.Buffer
import RequestEcho.Proofs.Line.Cuts
import RequestEcho.Proofs.Utf8.Delimiters
import RequestEcho.Proofs.Utf8.Substitution

/-!
# The text and the path of a chunk

A chunk is read as the text that stands for its bytes, with a replacement character for each maximal subpart that is no
character (`request_substitutes`).

The path is cut out of the text.  It comes to the same to cut the bytes and read only the piece that is left.

* Both cuts of a line commute with reading (`upTo_decodeLossy`, `secondPiece?_decodeLossy`), because delimiters are
  ASCII.
* So the path is the text of the bytes that stand where the path stands, whatever the other bytes are
  (`request_path`, `path_of_take`).
-/

namespace RequestEcho

namespace Chunk

open Utf8 (decodeLossy)

/-! ### Texts -/

theorem map_text_take (bytes : Bytes) :
    (take bytes).1.map text = if bytes = [] then none else some (decodeLossy bytes) := by
  by_cases h : bytes = []
  · rw [h]
    rfl
  · rw [take_of_ne_nil h, if_neg h]
    rfl

theorem map_ofText_take (bytes : Bytes) :
    (take bytes).1.map request = if bytes = [] then none else some (Request.ofText (decodeLossy bytes)) :=
  calc (take bytes).1.map request
    _ = ((take bytes).1.map text).map Request.ofText := (Option.map_map ..).symm
    _ = _ := by rw [map_text_take, apply_ite (Option.map Request.ofText)]; rfl

/-- For all bytes there is exactly one substituted text.  A buffer that holds them is read as this text, and the text is
the request.  Bytes that are the encoding of a text are read as that text, so the bytes of the substituted text ask for
the same. -/
theorem request_substitutes (bytes : Bytes) :
    ∃ text, (∀ text', Utf8.Substitutes bytes text' ↔ text' = text) ∧
      (take bytes).1.map Chunk.text = (if bytes = [] then none else some text) ∧
      (take bytes).1.map request = (if bytes = [] then none else some (Request.ofText text)) ∧
      (∀ valid, bytes = Utf8.encode valid → text = valid) ∧
      (take (Utf8.encode text)).1.map request = (take bytes).1.map request := by
  refine ⟨decodeLossy bytes, fun _ => Utf8.substitutes_iff, map_text_take bytes, map_ofText_take bytes, ?_, ?_⟩
  · rintro valid rfl
    exact Utf8.decodeLossy_encode valid
  · rw [map_ofText_take, map_ofText_take, Utf8.decodeLossy_encode]
    simp only [Utf8.encode_eq_nil_iff, Utf8.decodeLossy_eq_nil_iff]

/-! ### Cuts before and after reading -/

section

variable {x y sep : Char}

theorem pair_infix_of_decodeLossy (hx : x.toNat < 0x80) (hy : y.toNat < 0x80) {bytes : Bytes}
    (h : [x, y] <:+: decodeLossy bytes) : [UInt8.ofNat x.toNat, UInt8.ofNat y.toNat] <:+: bytes := by
  obtain ⟨s, t, h⟩ := h
  have hcut : decodeLossy bytes = s ++ x :: y :: t := by simp [← h]
  obtain ⟨before, behind, rfl, -, hbehind⟩ := Utf8.exists_of_decodeLossy_eq hx hcut
  -- there is no text between the two characters, so there are no bytes between theirs
  obtain ⟨between, rest, rfl, hbetween, -⟩ := Utf8.exists_of_decodeLossy_eq (s := []) hy hbehind
  rw [Utf8.decodeLossy_eq_nil_iff.1 hbetween]
  exact ⟨before, rest, by simp⟩

theorem upTo_decodeLossy (hx : x.toNat < 0x80) (hy : y.toNat < 0x80) (hxy : x ≠ y) (bytes : Bytes) :
    Line.upTo x y (decodeLossy bytes) =
      decodeLossy (Line.upTo (UInt8.ofNat x.toNat) (UInt8.ofNat y.toNat) bytes) := by
  obtain ⟨rest, hbytes, hrest⟩ := Line.exists_upTo_append (UInt8.ofNat x.toNat) (UInt8.ofNat y.toNat) bytes
  have hline := Line.not_pair_infix_upTo (x := UInt8.ofNat x.toNat) (y := UInt8.ofNat y.toNat) bytes
  generalize Line.upTo (UInt8.ofNat x.toNat) (UInt8.ofNat y.toNat) bytes = line at hbytes hline ⊢
  have hunbroken : ¬ [x, y] <:+: decodeLossy line := fun h => hline (pair_infix_of_decodeLossy hx hy h)
  rcases hrest with rfl | ⟨behind, rfl⟩
  · rw [hbytes, List.append_nil, Line.upTo_of_not_infix hunbroken]
  · have htext : decodeLossy bytes = decodeLossy line ++ x :: y :: decodeLossy behind := by
      have hpair := Utf8.decodeLossy_append_ascii [] behind hy
      rw [hbytes, List.cons_append, Utf8.decodeLossy_append_ascii line _ hx]
      exact congrArg (decodeLossy line ++ x :: ·) hpair
    rw [htext, Line.upTo_append hunbroken (by simpa using hxy)]
    simp [Line.upTo]

theorem not_mem_decodeLossy (hsep : sep.toNat < 0x80) {bytes : Bytes} (h : UInt8.ofNat sep.toNat ∉ bytes) :
    sep ∉ decodeLossy bytes :=
  fun hmem => h ((Utf8.mem_decodeLossy hsep).1 hmem)

theorem takeWhile_decodeLossy (hsep : sep.toNat < 0x80) (bytes : Bytes) :
    (decodeLossy bytes).takeWhile (· ≠ sep) = decodeLossy (bytes.takeWhile (· ≠ UInt8.ofNat sep.toNat)) := by
  have hrest := Line.dropWhile_ne_eq_nil_or (UInt8.ofNat sep.toNat) bytes
  have hpiece := not_mem_decodeLossy hsep (Line.not_mem_takeWhile_ne (UInt8.ofNat sep.toNat) bytes)
  conv => lhs; rw [← List.takeWhile_append_dropWhile (p := (· ≠ UInt8.ofNat sep.toNat)) (l := bytes)]
  rcases hrest with hrest | ⟨behind, hrest⟩
  · rw [hrest, List.append_nil, Line.takeWhile_ne_of_not_mem hpiece]
  · rw [← hrest, List.singleton_append, Utf8.decodeLossy_append_ascii _ behind hsep]
    exact Line.takeWhile_ne_append hpiece (.inr ⟨_, rfl⟩)

theorem secondPiece?_decodeLossy (hsep : sep.toNat < 0x80) (bytes : Bytes) :
    Line.secondPiece? sep (decodeLossy bytes) =
      (Line.secondPiece? (UInt8.ofNat sep.toNat) bytes).map decodeLossy := by
  by_cases h : UInt8.ofNat sep.toNat ∈ bytes
  · obtain ⟨first, behind, rfl, hfirst⟩ := List.eq_append_cons_of_mem h
    rw [Utf8.decodeLossy_append_ascii first behind hsep,
      Line.secondPiece?_append_cons (not_mem_decodeLossy hsep hfirst), Line.secondPiece?_append_cons hfirst,
      takeWhile_decodeLossy hsep, Option.map_some]
  · rw [Line.secondPiece?_of_not_mem h, Line.secondPiece?_of_not_mem (not_mem_decodeLossy hsep h), Option.map_none]

end

/-! ### Paths -/

/-- The bytes of the path: the second word of the first line, unless it is empty. -/
def token? (bytes : Bytes) : Option Bytes :=
  (Line.secondPiece? 0x20 (Line.upTo 0x0D 0x0A bytes)).filter (· ≠ [])

theorem path?_decodeLossy (bytes : Bytes) : Request.path? (decodeLossy bytes) = (token? bytes).map decodeLossy := by
  have hline : Line.upTo '\r' '\n' (decodeLossy bytes) = decodeLossy (Line.upTo 0x0D 0x0A bytes) :=
    upTo_decodeLossy (by decide) (by decide) (by decide) bytes
  have hpiece : Line.secondPiece? ' ' (decodeLossy (Line.upTo 0x0D 0x0A bytes)) =
      (Line.secondPiece? 0x20 (Line.upTo 0x0D 0x0A bytes)).map decodeLossy :=
    secondPiece?_decodeLossy (by decide) (Line.upTo 0x0D 0x0A bytes)
  unfold Request.path? token?
  rw [hline, hpiece, Option.filter_map]
  congr 2
  funext piece
  simp [Utf8.decodeLossy_eq_nil_iff]

/-- The path of a chunk is the text of its token. -/
theorem request_path (c : Chunk) : c.request.path = ((token? c.bytes).map decodeLossy).getD Request.invalidPath := by
  rw [← path?_decodeLossy]
  rfl

/-- The second word of the first line is found whatever stands before and behind it. -/
theorem secondPiece?_upTo_eq {first piece behind : Bytes} (hfirst : 0x20 ∉ first) (hpiece : 0x20 ∉ piece)
    (hunbroken : ¬ [0x0D, 0x0A] <:+: first ++ 0x20 :: piece)
    (hbehind : behind = [] ∨ [0x20] <+: behind ∨ [0x0D, 0x0A] <+: behind) :
    Line.secondPiece? 0x20 (Line.upTo 0x0D 0x0A (first ++ 0x20 :: (piece ++ behind))) = some piece := by
  obtain ⟨tail, hline, htail⟩ :=
    Line.exists_upTo_eq_append (by decide) (by decide) (by decide) hunbroken hbehind
  have hcut : first ++ 0x20 :: (piece ++ behind) = first ++ 0x20 :: piece ++ behind := by simp
  rw [hcut, hline]
  exact Line.secondPiece?_eq_some_iff.2 ⟨first, tail, by simp, hfirst, hpiece, htail⟩

theorem token?_eq_some {bytes piece : Bytes} (hne : piece ≠ [])
    (h : Line.secondPiece? 0x20 (Line.upTo 0x0D 0x0A bytes) = some piece) : token? bytes = some piece :=
  Option.filter_eq_some_iff.2 ⟨h, decide_eq_true hne⟩

/-- Bytes that are not empty make one chunk and leave nothing behind.  Its path is the text of the second of the pieces
between the spaces before the first line end, unless there is no such piece or it is empty.  So the path is the text of
the bytes at its place, whatever bytes stand before and behind them. -/
theorem path_of_take {bytes : Bytes} (h : bytes ≠ []) :
    ∃ c line rest, take bytes = (some c, []) ∧
      bytes = line ++ rest ∧ ¬ [0x0D, 0x0A] <:+: line ∧ (rest = [] ∨ [0x0D, 0x0A] <+: rest) ∧
      c.request.path = (((line.splitOn 0x20)[1]?.filter (· ≠ [])).map decodeLossy).getD Request.invalidPath ∧
      ∀ first piece behind, bytes = first ++ 0x20 :: (piece ++ behind) → 0x20 ∉ first → 0x20 ∉ piece → piece ≠ [] →
        ¬ [0x0D, 0x0A] <:+: first ++ 0x20 :: piece →
        (behind = [] ∨ [0x20] <+: behind ∨ [0x0D, 0x0A] <+: behind) → c.request.path = decodeLossy piece := by
  obtain ⟨rest, hbytes, hrest⟩ := Line.exists_upTo_append 0x0D 0x0A bytes
  have hpath := request_path ⟨bytes, h⟩
  refine ⟨⟨bytes, h⟩, Line.upTo 0x0D 0x0A bytes, rest, take_of_ne_nil h, hbytes,
    Line.not_pair_infix_upTo bytes, hrest, ?_, ?_⟩
  · rw [hpath, token?, Line.secondPiece?_eq_splitOn]
  · intro first piece behind hcut hfirst hpiece hne hunbroken hbehind
    have hsecond := secondPiece?_upTo_eq hfirst hpiece hunbroken hbehind
    rw [← hcut] at hsecond
    rw [hpath, token?_eq_some hne hsecond]
    rfl

theorem path_of_take_illFormed :
    ([0x47, 0xC3, 0x20, 0x2F, 0xE2, 0x82, 0x20, 0xFF, 0x0D, 0x0A, 0x20] : Bytes) ≠ [] ∧
      ∃ c, take [0x47, 0xC3, 0x20, 0x2F, 0xE2, 0x82, 0x20, 0xFF, 0x0D, 0x0A, 0x20] = (some c, []) ∧
        c.request.path = "/\uFFFD".toList := by
  obtain ⟨c, -, -, htake, -, -, -, -, hpath⟩ :=
    path_of_take (show ([0x47, 0xC3, 0x20, 0x2F, 0xE2, 0x82, 0x20, 0xFF, 0x0D, 0x0A, 0x20] : Bytes) ≠ [] by decide)
  refine ⟨by decide, c, htake, ?_⟩
  rw [hpath [0x47, 0xC3] [0x2F, 0xE2, 0x82] [0x20, 0xFF, 0x0D, 0x0A, 0x20] rfl (by decide) (by decide) (by decide)
    (by decide) (.inr (.inl (by decide)))]
  decide

end Chunk

end RequestEcho
