import RequestEcho.Buffer
import RequestEcho.Proofs.Line.Occurrences
import RequestEcho.Proofs.Request.Grammar
import RequestEcho.Proofs.Response.Delimited
import RequestEcho.Proofs.Utf8.Delimiters

/-!
# Line ends in responses

Whatever a client sends, the line ends of the response are those of its head.

* No path goes over a line end (`Request.not_lineEnd_infix_path`), and the words of the body around it do not complete
  one (`not_lineEnd_infix_body`).
* In the head one line end stands behind each line (`length_occurrences_block`), and only the last one is followed by
  another (`blank_occurrences_block`).
* Where the head meets the body, two line ends stand in a row and none overlaps with either (`occurrences_append_body`).
-/

namespace RequestEcho

/-- The path of a request does not go over a line end. -/
theorem Request.not_lineEnd_infix_path (text : Text) : ¬ ['\r', '\n'] <:+: (ofText text).path := by
  rw [ofText]
  cases hpath : path? text with
  | none => exact Line.not_pair_infix_of_not_mem (show '\r' ∉ invalidPath by decide)
  | some path =>
    obtain ⟨method, rest, hnaming⟩ := path?_eq_some_iff.1 hpath
    exact fun hinside => hnaming.unbroken (hinside.trans ⟨method ++ [' '], [], by simp⟩)

namespace Delimited

open Line (occurrences)

/-! ### Bodies -/

theorem lineEnd_eq_pair : lineEnd = [UInt8.ofNat '\r'.toNat, UInt8.ofNat '\n'.toNat] := by decide

theorem not_lineEnd_infix_body {path : Text} (h : ¬ ['\r', '\n'] <:+: path) : ¬ lineEnd <:+: body path := by
  have hopening : '\r' ∉ opening := by decide
  have hclosing : '\r' ∉ closing := by decide
  have hfeed : closing.head? ≠ some '\n' := by decide
  -- a path may begin with a line feed or end with a carriage return, but the words around it do not answer to that
  have hpath : ¬ ['\r', '\n'] <:+: path ++ closing :=
    Line.not_pair_infix_append h (Line.not_pair_infix_of_not_mem hclosing) hfeed
  have htext : ¬ ['\r', '\n'] <:+: (Response.ofPath path).body := by
    rw [show (Response.ofPath path).body = opening ++ (path ++ closing) from List.append_assoc ..]
    exact Line.not_pair_infix_append_of_not_mem hopening hpath
  rw [lineEnd_eq_pair]
  exact fun hinside => htext (Utf8.pair_infix_of_encode (by decide) (by decide) hinside)

/-! ### Heads -/

theorem occurrences_lineEnd_append (before behind : Bytes) :
    occurrences lineEnd (before ++ (lineEnd ++ behind)) =
      occurrences lineEnd before ++ before.length :: (occurrences lineEnd behind).map (before.length + 2 + ·) := by
  rw [lineEnd_eq_pair]
  exact Line.occurrences_pair_append (by decide) before behind

theorem occurrences_line {line : Bytes} (h : IsLine line) : occurrences lineEnd line = [] :=
  Line.occurrences_eq_nil fun hinside => h.2 (hinside.subset (by decide))

theorem block_cons (first line : Bytes) (others : List Bytes) :
    block first (line :: others) = first ++ (lineEnd ++ block line others) := by
  simp [block]

theorem length_block_cons (first line : Bytes) (others : List Bytes) :
    (block first (line :: others)).length = first.length + 2 + (block line others).length := by
  simp [block_cons, lineEnd_eq_pair]
  omega

/-- A block begins with its first line, not with a line end. -/
theorem zero_notMem_occurrences_block {first : Bytes} (h : IsLine first) (others : List Bytes) :
    0 ∉ occurrences lineEnd (block first others) := by
  obtain ⟨hne, hcr⟩ := h
  obtain ⟨b, first, rfl⟩ := List.exists_cons_of_ne_nil hne
  rw [Line.mem_occurrences (by decide), lineEnd_eq_pair]
  intro hbegins
  exact hcr ((List.cons_prefix_cons.1 hbegins).1 ▸ List.mem_cons_self)

/-- There is a line end before each further line of a block. -/
theorem length_occurrences_block {first : Bytes} {others : List Bytes} (hfirst : IsLine first)
    (hothers : ∀ l ∈ others, IsLine l) : (occurrences lineEnd (block first others)).length = others.length := by
  induction others generalizing first with
  | nil => simp [block, occurrences_line hfirst]
  | cons line others ih =>
    have hrest := ih (hothers line List.mem_cons_self) fun l hl => hothers l (List.mem_cons_of_mem _ hl)
    rw [block_cons, occurrences_lineEnd_append, occurrences_line hfirst]
    simp [hrest]

/-- Behind a line end in a block stands neither another one nor the end of the block. -/
theorem blank_occurrences_block {first : Bytes} {others : List Bytes} (hfirst : IsLine first)
    (hothers : ∀ l ∈ others, IsLine l) : ∀ i ∈ occurrences lineEnd (block first others),
      i + 2 < (block first others).length ∧ i + 2 ∉ occurrences lineEnd (block first others) := by
  induction others generalizing first with
  | nil => simp [block, occurrences_line hfirst]
  | cons line others ih =>
    have hline := hothers line List.mem_cons_self
    have hrest := ih hline fun l hl => hothers l (List.mem_cons_of_mem _ hl)
    have hzero := zero_notMem_occurrences_block hline others
    have hpos : 0 < (block line others).length :=
      List.length_pos_iff.2 (List.append_ne_nil_of_left_ne_nil hline.1 _)
    have hplaces : occurrences lineEnd (block first (line :: others)) =
        first.length :: (occurrences lineEnd (block line others)).map (first.length + 2 + ·) := by
      rw [block_cons, occurrences_lineEnd_append, occurrences_line hfirst, List.nil_append]
    -- a place behind the first line is a place in the block of the other lines
    have hmem : ∀ i, i ∈ occurrences lineEnd (block first (line :: others)) ↔
        i = first.length ∨ ∃ j ∈ occurrences lineEnd (block line others), i = first.length + 2 + j := by
      intro i
      rw [hplaces, List.mem_cons, List.mem_map]
      simp only [eq_comm]
    intro i hi
    rw [length_block_cons, hmem]
    rcases (hmem i).1 hi with rfl | ⟨j, hj, rfl⟩
    · refine ⟨by omega, ?_⟩
      rintro (h | ⟨k, hk, h⟩)
      · omega
      · obtain rfl : k = 0 := by omega
        exact hzero hk
    · obtain ⟨hlt, hnot⟩ := hrest j hj
      refine ⟨by omega, ?_⟩
      rintro (h | ⟨k, hk, h⟩)
      · omega
      · obtain rfl : k = j + 2 := by omega
        exact hnot hk

/-! ### Responses -/

/-- The line ends of a response are those of the block, and the two that end the head. -/
theorem occurrences_append_body (block : Bytes) {body : Bytes} (h : ¬ lineEnd <:+: body) :
    occurrences lineEnd (block ++ (lineEnd ++ lineEnd) ++ body) =
      occurrences lineEnd block ++ [block.length, block.length + 2] := by
  have hbody := occurrences_lineEnd_append [] body
  rw [List.nil_append, Line.occurrences_eq_nil h] at hbody
  rw [List.append_assoc, List.append_assoc, occurrences_lineEnd_append, hbody]
  simp [occurrences]

/-- Of these only the first of the two has another one behind it. -/
theorem blank_occurrences_append_body {block body : Bytes} (h : ¬ lineEnd <:+: body)
    (hblock : ∀ i ∈ occurrences lineEnd block, i + 2 < block.length ∧ i + 2 ∉ occurrences lineEnd block) :
    occurrences (lineEnd ++ lineEnd) (block ++ (lineEnd ++ lineEnd) ++ body) = [block.length] := by
  have hlength : lineEnd.length = 2 := by decide
  have hinside : ∀ i ∈ occurrences lineEnd block,
      i + 2 ∉ occurrences lineEnd block ++ [block.length, block.length + 2] := by
    intro i hi
    obtain ⟨hlt, hnot⟩ := hblock i hi
    simp only [List.mem_append, List.mem_cons, List.not_mem_nil, or_false, not_or]
    exact ⟨hnot, by omega, by omega⟩
  have hend : block.length + 2 + 2 ∉ occurrences lineEnd block ++ [block.length, block.length + 2] := by
    simp only [List.mem_append, List.mem_cons, List.not_mem_nil, or_false, not_or]
    refine ⟨fun hmem => ?_, by omega, by omega⟩
    have := (hblock _ hmem).1
    omega
  rw [Line.occurrences_append (by decide), occurrences_append_body block h, hlength, List.filter_append,
    List.filter_eq_nil_iff.2 fun i hi => by simpa using hinside i hi, List.nil_append]
  rw [List.filter_cons_of_pos (by simp), List.filter_cons_of_neg (by simpa using hend), List.filter_nil]

/-- No client can put a line end into the response or move the end of its head.  Whatever the chunk is, the response to
it is a head that is fixed but for the decimal length of what stands behind it, and a body; of its five line ends all
are in the head; there is one blank line, with which the head ends; and all of it is well-formed UTF-8. -/
theorem lineEnds_of_chunk (c : Chunk) :
    let response := (Response.ofPath c.request.path).encode
    ∃ head body, response = head ++ body ∧
      head = Utf8.encode ("HTTP/1.1 200 OK\r\nContent-Length: ".toList ++ decimal body.length ++
        "\r\nContent-Type: text/html\r\nConnection: close\r\n\r\n".toList) ∧
      (occurrences [0x0D, 0x0A] response).length = 5 ∧
      (∀ i ∈ occurrences [0x0D, 0x0A] response, i + 2 ≤ head.length) ∧
      (∃ i, occurrences [0x0D, 0x0A, 0x0D, 0x0A] response = [i] ∧ i + 4 = head.length) ∧
      response.toByteArray.IsValidUTF8 := by
  intro response
  have hbody : ¬ lineEnd <:+: body c.request.path := not_lineEnd_infix_body (Request.not_lineEnd_infix_path c.text)
  have hfirst : IsLine (Utf8.encode statusLine) := isLine_encode (by decide) (by decide)
  have hfields := isLine_fields (body c.request.path).length
  have hhead := encode_head (body c.request.path).length
  have hcount := length_occurrences_block hfirst hfields
  have hblank := blank_occurrences_block hfirst hfields
  generalize block (Utf8.encode statusLine) ((fields (body c.request.path).length).map Utf8.encode) = lines at *
  have hresponse : response = lines ++ (lineEnd ++ lineEnd) ++ body c.request.path := by
    rw [← hhead]
    rfl
  have hlength : (lines ++ (lineEnd ++ lineEnd)).length = lines.length + 4 := by simp [lineEnd_eq_pair]
  have hplaces := occurrences_append_body lines hbody
  have hblanks := blank_occurrences_append_body hbody hblank
  rw [← hresponse] at hplaces hblanks
  refine ⟨lines ++ (lineEnd ++ lineEnd), body c.request.path, hresponse, hhead.symm, ?_, ?_, ?_, ?_⟩
  · rw [show [0x0D, 0x0A] = lineEnd by decide, hplaces, List.length_append, hcount]
    simp [fields]
  · rw [show [0x0D, 0x0A] = lineEnd by decide, hplaces, hlength]
    intro i hi
    simp only [List.mem_append, List.mem_cons, List.not_mem_nil, or_false] at hi
    rcases hi with hi | rfl | rfl
    · have := (hblank i hi).1
      omega
    · omega
    · omega
  · exact ⟨lines.length, hblanks, hlength.symm⟩
  · have htext : response =
        Utf8.encode (Response.head (body c.request.path).length ++ (Response.ofPath c.request.path).body) :=
      (Utf8.encode_append _ _).symm
    rw [htext]
    exact ⟨_, rfl⟩

end Delimited

end RequestEcho
