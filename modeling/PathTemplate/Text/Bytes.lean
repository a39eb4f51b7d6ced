import PathTemplate.Text.Utf8

/-!
# Texts by their bytes

A text is stored as its bytes, and places in it are numbers of bytes.

* `Utf8.cut?`, `Utf8.slice?` — a text up to a place, and between two places, if no character is cut.
* `Utf8.occurrences` — where bytes occur in other bytes.
-/

namespace PathTemplate.Utf8

/-- The text before a place and the text after it. There is none if the place is within a character
or past the end. -/
def cut? : Text → Nat → Option (Text × Text)
  | t, 0 => some ([], t)
  | [], _ + 1 => none
  | c :: t, n + 1 =>
    if (bytes c).length ≤ n + 1 then (cut? t (n + 1 - (bytes c).length)).map fun (s, r) =>
    (c :: s, r) else none

/-- The text from one place to another. There is none if the first one is after the second, or if
one of them is no place between characters. -/
def slice? (t : Text) (start stop : Nat) : Option Text :=
  (cut? t stop).bind fun (s, _) => (cut? s start).map Prod.snd

/-- Walks along bytes, of which the first one is at `place`. The first `skip` bytes belong to an
occurrence already found. -/
def occurrencesFrom (needle : List Nat) : (skip place : Nat) → List Nat → List Nat
  | _, _, [] => []
  | skip + 1, place, _ :: bs => occurrencesFrom needle skip (place + 1) bs
  | 0, place, b :: bs =>
    if needle.isPrefixOf (b :: bs) then place :: occurrencesFrom needle (needle.length - 1)
    (place + 1) bs
    else occurrencesFrom needle 0 (place + 1) bs

/-- The places where bytes occur in other bytes, from the left and without overlaps. -/
def occurrences (needle bs : List Nat) : List Nat := occurrencesFrom needle 0 0 bs

end PathTemplate.Utf8
