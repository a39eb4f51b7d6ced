import PathTemplate.Expression.Attempt
import PathTemplate.Expression.Reader
import PathTemplate.Text.Utf8

/-!
# Searching

* `Match` — a place where an expression matches, with its captures; `Verdict` — the result of a
  search.
* `Expression.search` — the leftmost match at or after a place.
* `Expression.split` — the stretches of a text between the matches of an expression.
-/

namespace PathTemplate

structure Match where
  start : Cursor
  finish : State
  deriving DecidableEq, Repr

namespace Match

def span (m : Match) : Span := ⟨m.start, m.finish.pos⟩

/-- The capture of a group; the group with number zero is the whole match. -/
def group? (m : Match) : Nat → Option Span
  | 0 => some m.span
  | i + 1 => m.finish.capture? (i + 1)

end Match

def Cursor.byteOffset (c : Cursor) : Nat := Utf8.size c.before

/-- The result of a search: a match, none, or the budget was spent before either was certain. -/
inductive Verdict (α : Type) where
  | found (a : α)
  | none
  | gaveUp
  deriving DecidableEq, Repr

namespace Expression

/-- How often one search may go back. -/
def budget : Nat := 1000000

/-- The expression cannot be matched by following all ways at once. -/
def isHard (e : Expression) : Bool := e.root.isHard e.referenced

/-- The first way to match that starts at a place or later. -/
def firstWay (n : Node) (before : Text) (after : Text) : Option Match :=
  match (n.ways ⟨⟨before, after⟩, []⟩).head? with
  | some s => some ⟨⟨before, after⟩, s⟩
  | none =>
    match after with
    | [] => none
    | c :: after => firstWay n (c :: before) after

/-- The first attempt that finds a match, among those that start at a place or later. All of them
share the budget. -/
def firstAttempt (n : Node) (before : Text) (after : Text) (budget : Nat) : Verdict Match :=
  match n.attempt .found ⟨⟨before, after⟩, []⟩ budget with
  | .found s _ => .found ⟨s.origin ⟨before, after⟩, s⟩
  | .exhausted => .gaveUp
  | .failed budget =>
    match after with
    | [] => .none
    | c :: after => firstAttempt n (c :: before) after budget

/-- The leftmost match that starts at a place or later. -/
def search (e : Expression) (c : Cursor) : Verdict Match :=
  if e.isHard then firstAttempt (e.root.arrange e.referenced true .whole) c.before c.after budget
  else
    match firstWay e.root c.before c.after with
    | some m => .found m
    | none => .none

def find (e : Expression) (t : Text) : Verdict Match := e.search (.start t)

/-- The stretches between the matches after a place, at most `n` matches being looked for. -/
def splitFrom (e : Expression) : (n : Nat) → Cursor → Verdict (List Text)
  | 0, c => .found [c.after]
  | n + 1, c =>
    match e.search c with
    | .gaveUp => .gaveUp
    | .none => .found [c.after]
    | .found m =>
      match e.splitFrom n m.finish.pos with
      | .found ts => .found (Span.text ⟨c, m.start⟩ :: ts)
      | v => v

/-- The stretches of a text between the matches of an expression that matches no empty text: there
are at most as many matches as characters. -/
def split (e : Expression) (t : Text) : Verdict (List Text) := e.splitFrom t.length (.start t)

end Expression

end PathTemplate
