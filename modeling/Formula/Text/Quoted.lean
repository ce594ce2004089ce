/-!
# Quoted text

The form in which messages show a text : between double quotes, with the quote, the
backslash, the tabulator and the two line end characters escaped by a backslash.
-/

namespace Formula

/-- How one character is written between quotes. -/
def quotedChar : Char → List Char
  | '\t' => ['\\', 't']
  | '\n' => ['\\', 'n']
  | '\r' => ['\\', 'r']
  | '\"' => ['\\', '\"']
  | '\\' => ['\\', '\\']
  | c => [c]

/-- A text between double quotes. -/
def quoted (text : String) : String :=
  String.ofList ('\"' :: text.toList.flatMap quotedChar ++ ['\"'])

end Formula
