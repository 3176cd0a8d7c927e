/-!
Bytes of a file as text.

Files hold UTF-8. A carriage return, alone or before a line feed, ends a line as a line feed does, and
is read as one.
-/

namespace ClientTypes.Text

/-- Every end of a line as a line feed. -/
def unifyBreaks : List Char → List Char
  | [] => []
  | '\r' :: '\n' :: rest => '\n' :: unifyBreaks rest
  | '\r' :: rest => '\n' :: unifyBreaks rest
  | c :: rest => c :: unifyBreaks rest

/-- The text of a file, if its bytes are text at all. -/
def decode? (bytes : ByteArray) : Option String :=
  (String.fromUTF8? bytes).map fun s => String.ofList (unifyBreaks s.toList)

end ClientTypes.Text
