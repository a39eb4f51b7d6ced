import PathTemplate.Text.Hex

/-!
# Tables of code points

* `Ranges` — ascending intervals of code points.
* `Ranges.read` — reads a table from its written form, words `LO-HI` and `N` in hexadecimal.
* `Ranges.has` — membership.
-/

namespace PathTemplate.Unicode

/-- Ascending, disjoint intervals of code points, both ends included. -/
abbrev Ranges := List (Nat × Nat)

/-- The interval written `LO-HI`, or the single code point written `N`. -/
def Ranges.interval (word : Text) : Nat × Nat :=
  match Text.fields '-' word with
  | [lo, hi] => (Hex.number lo, Hex.number hi)
  | _ => (Hex.number word, Hex.number word)

/-- Reads a table; blanks and line ends stand between two intervals. -/
def Ranges.read (table : String) : Ranges := (Text.words table.toList).map Ranges.interval

/-- `n` lies in one of the intervals. The search stops at the first interval beyond `n`. -/
def Ranges.has : Ranges → Nat → Bool
  | [], _ => false
  | (lo, hi) :: rest, n => if n < lo then false else n ≤ hi || Ranges.has rest n

end PathTemplate.Unicode
