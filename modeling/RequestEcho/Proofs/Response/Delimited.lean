import Mathlib.Data.List.Basic
import RequestEcho.Proofs.Numeral.RoundTrip
import RequestEcho.Proofs.Utf8.Ascii
import RequestEcho.Proofs.Utf8.RoundTrip
import RequestEcho.Http

/-!
# Reading responses by their declared lengths

A reader that knows nothing of how responses are written: it looks for the blank line that ends a head, takes the
declared number of bytes as the body, and begins again (`readOne?`, `readAll?`).

* A cut at a separator passes over everything that does not hold the first byte of the separator (`cutAt?_append`), so
  the blank line is found at the end of the head, whatever the body holds (`cutAt?_head`).
* One response is read off whatever stands behind it (`readOne?_encode`), so the responses to a list of paths are read
  off one by one, and the paths are read off their bodies (`readAll?_appendAll`).
-/

namespace RequestEcho

namespace Delimited

/-! ### The reader -/

/-- What stands before the first occurrence of `sep`, and what stands behind it. -/
def cutAt? (sep : Bytes) : Bytes → Option (Bytes × Bytes)
  | [] => none
  | b :: bs =>
    if sep <+: b :: bs then some ([], (b :: bs).drop sep.length)
    else (cutAt? sep bs).map fun p => (b :: p.1, p.2)

def lineEnd : Bytes := Utf8.encode ['\r', '\n']

def lengthName : Text := "Content-Length: ".toList

/-- The value of the field `Content-Length` in a head, from the line that begins with its name. -/
def contentLength? (head : Bytes) : Option Nat := do
  let (_, field) ← cutAt? (lineEnd ++ Utf8.encode lengthName) head
  let value := ((cutAt? lineEnd field).map Prod.fst).getD field
  Numeral.value? 10 (← Utf8.decode? value)

/-- The body of the first response, and the bytes behind it. -/
def readOne? (bs : Bytes) : Option (Bytes × Bytes) := do
  let (head, rest) ← cutAt? (lineEnd ++ lineEnd) bs
  let length ← contentLength? head
  if length ≤ rest.length then some (rest.take length, rest.drop length) else none

theorem length_of_cutAt? {sep bs before behind : Bytes} (h : cutAt? sep bs = some (before, behind)) :
    before.length + sep.length + behind.length = bs.length := by
  induction bs generalizing before with
  | nil => simp [cutAt?] at h
  | cons b bs ih =>
    rw [cutAt?] at h
    split at h
    · rename_i hsep
      have hle := hsep.length_le
      simp only [Option.some.injEq, Prod.mk.injEq] at h
      obtain ⟨rfl, rfl⟩ := h
      simp at hle ⊢
      omega
    · obtain ⟨⟨p, q⟩, hp, he⟩ := Option.map_eq_some_iff.1 h
      simp only [Prod.mk.injEq] at he
      obtain ⟨rfl, rfl⟩ := he
      have := ih hp
      simp
      omega

/-- Reading takes at least the blank line. -/
theorem length_of_readOne? {bs body rest : Bytes} (h : readOne? bs = some (body, rest)) : rest.length < bs.length := by
  simp only [readOne?, Option.bind_eq_bind, Option.bind_eq_some_iff] at h
  obtain ⟨⟨head, behind⟩, hcut, length, -, htake⟩ := h
  have hlen := length_of_cutAt? hcut
  have hsep : (lineEnd ++ lineEnd).length = 4 := by decide
  split at htake
  · simp only [Option.some.injEq, Prod.mk.injEq] at htake
    obtain ⟨-, rfl⟩ := htake
    simp
    omega
  · cases htake

/-- The bodies of the responses that the bytes are made of. -/
def readAll? (bs : Bytes) : Option (List Bytes) :=
  if bs = [] then some []
  else
    match _h : readOne? bs with
    | none => none
    | some (body, rest) => (readAll? rest).map (body :: ·)
termination_by bs.length
decreasing_by exact length_of_readOne? (by assumption)

def opening : Text := "<h1>Path: ".toList

def closing : Text := "</h1>".toList

/-- The path that a body shows. -/
def path? (body : Bytes) : Option Text := do
  let text ← Utf8.decode? body
  (← text.dropPrefix? opening).dropSuffix? closing

/-! ### Cuts -/

theorem cutAt?_append {x : UInt8} {sep before : Bytes} (hsep : sep.head? = some x) (hx : x ∉ before) (bs : Bytes) :
    cutAt? sep (before ++ bs) = (cutAt? sep bs).map fun p => (before ++ p.1, p.2) := by
  induction before with
  | nil => simp
  | cons b before ih =>
    have hb : ¬ sep <+: b :: (before ++ bs) := by
      intro hbegins
      obtain ⟨sep, rfl⟩ := List.head?_eq_some_iff.1 hsep
      exact hx ((List.cons_prefix_cons.1 hbegins).1 ▸ List.mem_cons_self)
    rw [List.cons_append, cutAt?, if_neg hb, ih fun h => hx (List.mem_cons_of_mem _ h), Option.map_map]
    rfl

theorem cutAt?_sep {sep : Bytes} (hsep : sep ≠ []) (bs : Bytes) : cutAt? sep (sep ++ bs) = some ([], bs) := by
  obtain ⟨x, sep, rfl⟩ := List.exists_cons_of_ne_nil hsep
  rw [List.cons_append, cutAt?, if_pos ⟨bs, rfl⟩]
  simp

/-- A separator is found behind what does not hold its first byte. -/
theorem cutAt?_append_sep {x : UInt8} {sep before : Bytes} (hsep : sep.head? = some x) (hx : x ∉ before) (bs : Bytes) :
    cutAt? sep (before ++ (sep ++ bs)) = some (before, bs) := by
  have hne : sep ≠ [] := fun h => by simp [h] at hsep
  rw [cutAt?_append hsep hx, cutAt?_sep hne]
  simp

/-! ### Heads -/

private theorem lineEnd_eq : lineEnd = [13, 10] := by decide

private theorem head?_lineEnd_append (bs : Bytes) : (lineEnd ++ bs).head? = some 13 := by rw [lineEnd_eq]; rfl

/-- A line of a head: not empty, and without the byte that begins a line end. -/
def IsLine (line : Bytes) : Prop := line ≠ [] ∧ 13 ∉ line

theorem isLine_encode {t : Text} (ht : t ≠ []) (hcr : '\r' ∉ t) : IsLine (Utf8.encode t) :=
  ⟨fun h => ht (Utf8.encode_eq_nil_iff.1 h), fun h => hcr ((Utf8.mem_encode_of_lt_128 (by decide)).1 h)⟩

/-- The line end before a line begins no blank line. -/
theorem cutAt?_line {line : Bytes} (h : IsLine line) (bs : Bytes) :
    cutAt? (lineEnd ++ lineEnd) (lineEnd ++ line ++ bs) =
      (cutAt? (lineEnd ++ lineEnd) bs).map fun p => (lineEnd ++ line ++ p.1, p.2) := by
  obtain ⟨hne, hcr⟩ := h
  obtain ⟨b, line, rfl⟩ := List.exists_cons_of_ne_nil hne
  have hb : (13 : UInt8) ≠ b := fun h => hcr (h ▸ List.mem_cons_self)
  have hhere : ¬ lineEnd ++ lineEnd <+: 13 :: 10 :: (b :: line ++ bs) := by
    rw [lineEnd_eq]
    simp [hb]
  have hnext : ¬ lineEnd ++ lineEnd <+: 10 :: (b :: line ++ bs) := by
    rw [lineEnd_eq]
    simp
  have hbytes : lineEnd ++ (b :: line) ++ bs = 13 :: 10 :: (b :: line ++ bs) := by
    rw [lineEnd_eq]
    simp
  rw [hbytes, cutAt?, if_neg hhere, cutAt?, if_neg hnext, cutAt?_append (head?_lineEnd_append _) hcr,
    Option.map_map, Option.map_map]
  simp [lineEnd_eq, Function.comp_def]

/-- The lines of a head, up to the blank line. -/
def block (first : Bytes) (others : List Bytes) : Bytes := first ++ others.flatMap (lineEnd ++ ·)

/-- The first blank line is the one behind the lines of the head. -/
theorem cutAt?_block {first : Bytes} {others : List Bytes} (hfirst : IsLine first) (hothers : ∀ l ∈ others, IsLine l)
    (bs : Bytes) : cutAt? (lineEnd ++ lineEnd) (block first others ++ (lineEnd ++ lineEnd ++ bs)) =
      some (block first others, bs) := by
  -- a line end in the block is followed by a line, so the search passes over it
  have hlines : cutAt? (lineEnd ++ lineEnd) (others.flatMap (lineEnd ++ ·) ++ (lineEnd ++ lineEnd ++ bs)) =
      some (others.flatMap (lineEnd ++ ·), bs) := by
    induction others with
    | nil => exact cutAt?_sep (by decide) bs
    | cons line others ih =>
      rw [List.flatMap_cons, List.append_assoc, cutAt?_line (hothers line List.mem_cons_self),
        ih fun l h => hothers l (List.mem_cons_of_mem _ h)]
      rfl
  rw [block, List.append_assoc, cutAt?_append (head?_lineEnd_append _) hfirst.2, hlines]
  rfl

def statusLine : Text := "HTTP/1.1 200 OK".toList

/-- The fields of the head of a response whose body has `length` bytes, one a line. -/
def fields (length : Nat) : List Text :=
  [lengthName ++ decimal length, "Content-Type: text/html".toList, "Connection: close".toList]

theorem encode_head (length : Nat) : Utf8.encode (Response.head length) =
    block (Utf8.encode statusLine) ((fields length).map Utf8.encode) ++ (lineEnd ++ lineEnd) := by
  have hfirst : "HTTP/1.1 200 OK\r\nContent-Length: ".toList = statusLine ++ ['\r', '\n'] ++ lengthName := by
    decide
  have hlast : "\r\nContent-Type: text/html\r\nConnection: close\r\n\r\n".toList =
      ['\r', '\n'] ++ "Content-Type: text/html".toList ++ (['\r', '\n'] ++ "Connection: close".toList) ++
        (['\r', '\n'] ++ ['\r', '\n']) := by
    decide
  -- the fixed words are cut at their line ends by evaluation, which cannot go under the numeral between them
  have hhead := congrArg₂ (· ++ decimal length ++ ·) hfirst hlast
  rw [show Response.head length = _ from hhead]
  simp only [block, fields, lineEnd, Utf8.encode_append, List.map_cons, List.map_nil, List.flatMap_cons,
    List.flatMap_nil, List.append_assoc, List.append_nil]

theorem isLine_fields (length : Nat) : ∀ line ∈ (fields length).map Utf8.encode, IsLine line := by
  have hdecimal : '\r' ∉ decimal length := fun h => absurd (Numeral.isDigit_of_mem_decimal h) (by decide)
  intro line h
  obtain ⟨t, ht, rfl⟩ := List.mem_map.1 h
  simp only [fields, List.mem_cons, List.not_mem_nil, or_false] at ht
  rcases ht with rfl | rfl | rfl
  · refine isLine_encode (List.append_ne_nil_of_left_ne_nil (by decide) _) fun h => ?_
    rcases List.mem_append.1 h with h | h
    · exact absurd h (by decide)
    · exact hdecimal h
  · exact isLine_encode (by decide) (by decide)
  · exact isLine_encode (by decide) (by decide)

theorem cutAt?_head (length : Nat) (bs : Bytes) :
    cutAt? (lineEnd ++ lineEnd) (Utf8.encode (Response.head length) ++ bs) =
      some (block (Utf8.encode statusLine) ((fields length).map Utf8.encode), bs) := by
  rw [encode_head, List.append_assoc]
  exact cutAt?_block (isLine_encode (by decide) (by decide)) (isLine_fields length) bs

/-- The declared length is read back. -/
theorem contentLength?_head (length : Nat) :
    contentLength? (block (Utf8.encode statusLine) ((fields length).map Utf8.encode)) = some length := by
  have hstatus : 13 ∉ Utf8.encode statusLine := (isLine_encode (by decide) (by decide)).2
  have hdecimal : 13 ∉ Utf8.encode (decimal length) := fun h => absurd
    (Numeral.isDigit_of_mem_decimal ((Utf8.mem_encode_of_lt_128 (c := '\r') (by decide)).1 h)) (by decide)
  have hfield : block (Utf8.encode statusLine) ((fields length).map Utf8.encode) =
      Utf8.encode statusLine ++ (lineEnd ++ Utf8.encode lengthName ++
        (Utf8.encode (decimal length) ++ (lineEnd ++ Utf8.encode "Content-Type: text/html".toList ++
          (lineEnd ++ Utf8.encode "Connection: close".toList)))) := by
    simp only [block, fields, Utf8.encode_append, List.map_cons, List.map_nil, List.flatMap_cons, List.flatMap_nil,
      List.append_assoc, List.append_nil]
  rw [contentLength?, hfield, cutAt?_append_sep (head?_lineEnd_append _) hstatus]
  simp only [Option.bind_eq_bind, Option.bind_some]
  rw [List.append_assoc lineEnd, cutAt?_append_sep (by decide) hdecimal]
  simp [Utf8.decode?_encode, Numeral.value?_decimal]

/-! ### Responses -/

/-- One response is read off whatever stands behind it. -/
theorem readOne?_encode (r : Response) (bs : Bytes) : readOne? (r.encode ++ bs) = some (Utf8.encode r.body, bs) := by
  rw [readOne?, Response.encode, List.append_assoc, cutAt?_head]
  simp [contentLength?_head]

/-- What stands behind a response is read as if it stood alone. -/
theorem readAll?_encode_append (r : Response) (bs : Bytes) :
    readAll? (r.encode ++ bs) = (readAll? bs).map (Utf8.encode r.body :: ·) := by
  have hne : r.encode ++ bs ≠ [] := List.append_ne_nil_of_left_ne_nil r.encode_ne_nil bs
  rw [readAll?, if_neg hne]
  split
  · rename_i h
    simp [readOne?_encode] at h
  · rename_i body rest h
    rw [readOne?_encode] at h
    simp only [Option.some.injEq, Prod.mk.injEq] at h
    obtain ⟨rfl, rfl⟩ := h
    rfl

/-! ### Paths -/

/-- The bytes of the body that answers a path. -/
def body (path : Text) : Bytes := Utf8.encode (Response.ofPath path).body

/-- What the buffer holds once the answers to the paths are written to its end one after another. -/
def appendAll (buffer : Bytes) (paths : List Text) : Bytes :=
  paths.foldl (fun buffer path => (Response.ofPath path).appendTo buffer) buffer

theorem appendAll_cons (buffer : Bytes) (path : Text) (paths : List Text) :
    appendAll buffer (path :: paths) = appendAll (buffer ++ (Response.ofPath path).encode) paths := rfl

theorem appendAll_append (buffer bs : Bytes) (paths : List Text) :
    appendAll (buffer ++ bs) paths = buffer ++ appendAll bs paths := by
  induction paths generalizing bs with
  | nil => rfl
  | cons path paths ih => rw [appendAll_cons, appendAll_cons, List.append_assoc, ih]

/-- Nothing in the buffer is touched, and what is added does not depend on it. -/
theorem appendAll_eq (buffer : Bytes) (paths : List Text) : appendAll buffer paths = buffer ++ appendAll [] paths := by
  have h := appendAll_append buffer [] paths
  rwa [List.append_nil] at h

theorem readAll?_appendAll_nil (paths : List Text) : readAll? (appendAll [] paths) = some (paths.map body) := by
  induction paths with
  | nil => rw [appendAll, List.foldl_nil, readAll?, if_pos rfl, List.map_nil]
  | cons path paths ih =>
    rw [appendAll_cons, List.nil_append, appendAll_eq, readAll?_encode_append, ih]
    rfl

/-- The path is what the fixed words of the body enclose. -/
theorem path?_body (path : Text) : path? (body path) = some path := by
  have hbody : (Response.ofPath path).body = opening ++ (path ++ closing) := List.append_assoc ..
  have hbegins : (opening ++ (path ++ closing)).dropPrefix? opening = some (path ++ closing) :=
    List.dropPrefix?_append_of_beq _ (by simp)
  have hsuffix : (path ++ closing).dropSuffix? closing = some path :=
    List.dropSuffix?_eq_some_iff.2 ⟨closing, rfl, by simp⟩
  rw [path?, body, Utf8.decode?_encode, hbody]
  simp only [Option.bind_eq_bind, Option.bind_some]
  rw [hbegins]
  exact hsuffix

theorem mapM_path?_map_body (paths : List Text) : (paths.map body).mapM path? = some paths := by
  induction paths with
  | nil => rfl
  | cons path paths ih =>
    rw [List.map_cons, List.mapM_cons, path?_body, ih]
    rfl

/-- Answers written to the end of a buffer leave what it holds as it is. Read by their declared lengths from there on,
they give the bodies in order with no byte left over, and the bodies give the paths. Every single answer is read off
whatever stands behind it, and different lists of paths are written differently. -/
theorem readAll?_appendAll (buffer : Bytes) (paths : List Text) :
    buffer <+: appendAll buffer paths ∧
      readAll? ((appendAll buffer paths).drop buffer.length) = some (paths.map body) ∧
      (paths.map body).mapM path? = some paths ∧
      (∀ path bs, readOne? ((Response.ofPath path).encode ++ bs) = some (body path, bs)) ∧
      ∀ paths', appendAll buffer paths' = appendAll buffer paths → paths' = paths := by
  have hread : ∀ paths, readAll? ((appendAll buffer paths).drop buffer.length) = some (paths.map body) := by
    intro paths
    rw [appendAll_eq, List.drop_left, readAll?_appendAll_nil]
  refine ⟨?_, hread paths, mapM_path?_map_body paths, fun path => readOne?_encode (Response.ofPath path), ?_⟩
  · rw [appendAll_eq]
    exact List.prefix_append ..
  · intro paths' h
    have hbodies : paths'.map body = paths.map body := by
      have hsome := hread paths'
      rw [h, hread paths] at hsome
      exact (Option.some.inj hsome).symm
    have hpaths := mapM_path?_map_body paths'
    rw [hbodies, mapM_path?_map_body] at hpaths
    exact (Option.some.inj hpaths).symm

end Delimited

end RequestEcho
