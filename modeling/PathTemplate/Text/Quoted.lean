import PathTemplate.Unicode.Classes

/-!
# Quoted texts

* `Quoted.escape` — how a character is shown between double quotes.
* `Quoted.render` — a text between double quotes.
-/

namespace PathTemplate.Quoted

/-- A character between double quotes: six short escapes, `\u` and the code point in braces for what
cannot be seen, and every other character as itself. -/
def escape (c : Char) : Text :=
  match c with
  | '\x00' => ['\\', '0']
  | '\t' => ['\\', 't']
  | '\r' => ['\\', 'r']
  | '\n' => ['\\', 'n']
  | '"' => ['\\', '"']
  | '\\' => ['\\', '\\']
  | c => if Unicode.isPlain c then [c] else ['\\', 'u', '{'] ++ Hex.digits c.toNat ++ ['}']

/-- A text between double quotes. -/
def render (t : Text) : Text := ['"'] ++ t.flatMap escape ++ ['"']

end PathTemplate.Quoted
