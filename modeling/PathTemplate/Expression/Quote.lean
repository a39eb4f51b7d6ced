import PathTemplate.Text.Basic

/-!
# Source text of expressions

* `Expression.quote` — an expression that matches a text as it stands.
* `Expression.stretch`, `Expression.shortStretch` — any characters before the next delimiter, as
  many or as few as possible.
* `Expression.loosen` — a text in which every run of delimiters stands for any number of them.
-/

namespace PathTemplate.Expression

/-- The characters that mean something in an expression. -/
def isSpecial (c : Char) : Bool :=
  ['\\', '.', '+', '*', '?', '(', ')', '|', '[', ']', '{', '}', '^', '$', '#', '&', '-',
  '~'].contains c

/-- A character that stands for itself. -/
def quoteChar (c : Char) : Text := if isSpecial c then ['\\', c] else [c]

def quote (t : Text) : Text := t.flatMap quoteChar

@[simp] theorem quote_nil : quote [] = [] := rfl

theorem quote_cons (c : Char) (t : Text) : quote (c :: t) = quoteChar c ++ quote t := rfl

theorem quote_eq_nil_iff {t : Text} : quote t = [] ↔ t = [] := by
  cases t with
  | nil => simp
  | cons c t => simp [quote_cons, quoteChar]; split <;> simp

/-- One character that starts no delimiter, any number of times. -/
def outside (delimiter : Text) : Text :=
  ['(', '?', ':', '(', '?', '!'] ++ quote delimiter ++ [')', '.', ')', '+']

/-- As many characters as possible before the next delimiter, at least one: what `*` stands for. -/
def stretch (delimiter : Text) : Text := outside delimiter

/-- As few characters as possible before the next delimiter, at least one: what a parameter without
a pattern of its own stands for. -/
def shortStretch (delimiter : Text) : Text := outside delimiter ++ ['?']

/-- One or more delimiters, and no further one. -/
def delimiterRun (delimiter : Text) : Text :=
  ['(', '?', ':'] ++ quote delimiter ++ [')', '+', '(', '?', '!'] ++ quote delimiter ++ [')']

/-- Walks along a text. The first `skip` characters belong to a delimiter already dealt with;
`inRun` says that a delimiter ends here. Delimiters are found from the left and do not overlap. -/
def loosenFrom (delimiter : Text) : (skip : Nat) → (inRun : Bool) → Text → Text
  | _, _, [] => []
  | skip + 1, inRun, _ :: rest => loosenFrom delimiter skip inRun rest
  | 0, inRun, c :: rest =>
    if delimiter.isPrefixOf (c :: rest) then
      (if inRun then [] else delimiterRun delimiter) ++
        loosenFrom delimiter (delimiter.length - 1) true rest
    else quoteChar c ++ loosenFrom delimiter 0 false rest

/-- A text in which every run of delimiters stands for any number of them. -/
def loosen (delimiter t : Text) : Text := loosenFrom delimiter 0 false t

/-- How literal text of a template is written as an expression. -/
structure Literal where
  delimiter : Text
  loose : Bool

/-- The expression of a literal text. Without a delimiter there is nothing to loosen. -/
def Literal.source (l : Literal) (t : Text) : Text :=
  if l.loose ∧ l.delimiter ≠ [] then loosen l.delimiter t else quote t

end PathTemplate.Expression
