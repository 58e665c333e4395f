import RequestEcho.Numeral

/-!
# Requests and responses

A request is read from a text and a response is written as bytes.

* A line is cut by two cuts over any alphabet, so that they can be made on bytes and on characters alike: up to the
  first pair of adjacent delimiters, and the second of the pieces between single delimiters.
* The path of a request is the second word of its first line. A text without such a word asks for the path `Invalid`, so
  every text is a request.
* Every response is a success whose body shows a path, not escaped. It is sent as a fixed header block, which declares
  the length of the body in bytes, and the body.
-/

namespace RequestEcho

/-! ### Cutting a line -/

namespace Line

variable {α : Type} [DecidableEq α]

/-- What stands before the first `x` that is directly followed by `y`; all of it if there is none. -/
def upTo (x y : α) : List α → List α
  | [] => []
  | [a] => [a]
  | a :: b :: rest => if a = x ∧ b = y then [] else a :: upTo x y (b :: rest)

/-- The piece between the first and the second `sep`, or after the first if there is no second. -/
def secondPiece? (sep : α) (l : List α) : Option (List α) :=
  match l.dropWhile (· ≠ sep) with
  | [] => none
  | _ :: rest => some (rest.takeWhile (· ≠ sep))

end Line

/-! ### Requests -/

structure Request where
  path : Text
deriving DecidableEq, Repr

namespace Request

def invalidPath : Text := "Invalid".toList

/-- The second word of the first line. Lines end at `\r\n` and words at each single space, so two spaces in a row
enclose an empty word, which is no path. -/
def path? (text : Text) : Option Text :=
  (Line.secondPiece? ' ' (Line.upTo '\r' '\n' text)).filter (· ≠ [])

def ofText (text : Text) : Request := ⟨(path? text).getD invalidPath⟩

end Request

/-! ### Responses -/

structure Response where
  body : Text
deriving DecidableEq, Repr

namespace Response

def ofPath (path : Text) : Response := ⟨"<h1>Path: ".toList ++ path ++ "</h1>".toList⟩

/-- The header block of a response whose body has `length` bytes. -/
def head (length : Nat) : Text :=
  "HTTP/1.1 200 OK\r\nContent-Length: ".toList ++ decimal length ++
    "\r\nContent-Type: text/html\r\nConnection: close\r\n\r\n".toList

def encode (r : Response) : Bytes :=
  Utf8.encode (head (Utf8.encode r.body).length) ++ Utf8.encode r.body

theorem head_ne_nil (length : Nat) : head length ≠ [] :=
  List.append_ne_nil_of_left_ne_nil (List.append_ne_nil_of_left_ne_nil (by decide) _) _

theorem encode_ne_nil (r : Response) : r.encode ≠ [] :=
  List.append_ne_nil_of_left_ne_nil (fun h => head_ne_nil _ (Utf8.encode_eq_nil_iff.1 h)) _

/-- What `buffer` holds once the response is written to its end. -/
def appendTo (buffer : Bytes) (r : Response) : Bytes := buffer ++ r.encode

end Response

end RequestEcho
