import PathTemplate.Text.Hex
import PathTemplate.Text.Utf8

/-!
# Percent encoding of URI components

* `Percent.encode` — every byte but those of `Percent.isKept` becomes `%` and two upper-case digits.
* `Percent.decode` — reads `%` and two digits of either case as a byte, keeps every other `%`, and
  reads the bytes as UTF-8.
-/

namespace PathTemplate.Percent

/-- The characters of a URI component that stand for themselves: the ASCII letters and digits, and
nine marks. -/
def isKept (c : Char) : Bool :=
  ('a' ≤ c && c ≤ 'z') || ('A' ≤ c && c ≤ 'Z') || ('0' ≤ c && c ≤ '9') ||
    ['-', '_', '.', '!', '~', '*', '\'', '(', ')'].contains c

/-- A byte as `%` and two digits. -/
def escapeByte (b : Nat) : Text := ['%', Hex.upper (b / 16), Hex.upper (b % 16)]

/-- The form of a text as a URI component. -/
def encode (t : Text) : Text :=
  t.flatMap fun c => if isKept c then [c] else (Utf8.bytes c).flatMap escapeByte

/-- The bytes that a text with escapes stands for. -/
def bytes : Text → List Nat
  | [] => []
  | '%' :: a :: b :: rest =>
    match Hex.value? a, Hex.value? b with
    | some x, some y => (16 * x + y) :: bytes rest
    | _, _ => Utf8.bytes '%' ++ bytes (a :: b :: rest)
  | c :: rest => Utf8.bytes c ++ bytes rest

/-- The text that a text with escapes stands for. -/
def decode (t : Text) : Text := Utf8.decode (bytes t)

end PathTemplate.Percent
