import PathTemplate.Expression.Quote
import PathTemplate.Text.Bytes

/-!
# Source text of expressions, by bytes

Delimiters are searched for in the bytes of a text, and what is between them is cut out of it.

* `Expression.loosenAt` — loosens the delimiters at some places of a text.
* `Expression.Literal.sourceByBytes` — the expression of a literal text, with the places that a
  search finds.
-/

namespace PathTemplate.Expression

open Utf8 (size slice?)

/-- Loosens the delimiters at some places of a text, from the place `last` on, where one has ended
if `inRun`. A place before `last` is passed over. There is no expression if a place cuts a
character. -/
def loosenAt (delimiter t : Text) : (last : Nat) → (inRun : Bool) → List Nat → Option Text
  | last, _, [] => (slice? t last (size t)).map quote
  | last, inRun, place :: places =>
    if place < last then loosenAt delimiter t last inRun places
    else if place = last then
      (loosenAt delimiter t (place + size delimiter) true places).map
      ((if inRun then [] else delimiterRun delimiter) ++ ·)
    else
      (slice? t last place).bind fun between =>
        (loosenAt delimiter t (place + size delimiter) true places).map
        (quote between ++ delimiterRun delimiter ++ ·)

/-- The expression of a literal text, where `search` gives the places of some bytes in other bytes.
There is none if a delimiter is found within a character. -/
def Literal.sourceByBytes (search : List Nat → List Nat → List Nat) (l : Literal) (t : Text) :
    Option Text :=
  if l.loose ∧ l.delimiter ≠ [] then loosenAt l.delimiter t 0 false
    (search (Utf8.encode l.delimiter) (Utf8.encode t))
  else some (quote t)

end PathTemplate.Expression
