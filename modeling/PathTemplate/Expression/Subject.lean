import PathTemplate.Expression.Node

/-!
# Places in a subject

* `Cursor` — a place in a text: what is before it, nearest first, and what is after it.
* `Span` — the stretch between two places.
* `State` — a cursor and the captures made on the way, latest first.
* `Assertion.holds` — a condition on a place.
-/

namespace PathTemplate

structure Cursor where
  before : Text
  after : Text
  deriving DecidableEq, Repr

namespace Cursor

def start (t : Text) : Cursor := ⟨[], t⟩

def subject (c : Cursor) : Text := c.before.reverse ++ c.after

def offset (c : Cursor) : Nat := c.before.length

/-- The number of characters after the place. -/
def left (c : Cursor) : Nat := c.after.length

/-- The place `n` characters earlier. -/
def back? (c : Cursor) : Nat → Option Cursor
  | 0 => some c
  | n + 1 =>
    match c.before with
    | [] => none
    | x :: before => back? ⟨before, x :: c.after⟩ n

/-- The place after the text `t`, if `t` follows. -/
def skip? (c : Cursor) : Text → Option Cursor
  | [] => some c
  | x :: t =>
    match c.after with
    | [] => none
    | y :: after => if x = y then skip? ⟨y :: c.before, after⟩ t else none

end Cursor

/-- A stretch of a text. -/
structure Span where
  start : Cursor
  stop : Cursor
  deriving DecidableEq, Repr

def Span.text (s : Span) : Text := s.start.after.take (s.stop.offset - s.start.offset)

/-- How far a match has come: the place, and the captures, the latest one of a group first. A group
without a capture can be noted as well. -/
structure State where
  pos : Cursor
  captures : List (Nat × Option Span) := []
  deriving DecidableEq, Repr

namespace State

def left (s : State) : Nat := s.pos.left

def capture? (s : State) (index : Nat) : Option Span := (s.captures.lookup index).join

/-- Captures what lies between a place and this one. -/
def capture (s : State) (index : Nat) (start : Cursor) : State :=
  { s with captures := (index, some ⟨start, s.pos⟩) :: s.captures }

/-- The text that a group captured. That of the whole match is not known before its end. -/
def text? (s : State) (index : Nat) : Option Text :=
  if index = 0 then none else (s.capture? index).map Span.text

/-- The match starts here. This is noted under the number of the whole match. -/
def keep (s : State) : State := s.capture 0 s.pos

/-- Where a match starts that was looked for from `c` on. -/
def origin (s : State) (c : Cursor) : Cursor := ((s.capture? 0).map Span.start).getD c

/-- One character further, if the next one passes a test. -/
def advance? (p : Char → Bool) (s : State) : Option State :=
  match s.pos.after with
  | [] => none
  | c :: after => if p c then some { s with pos := ⟨c :: s.pos.before, after⟩ } else none

/-- The captures of a match inside a larger one: the groups of the inner match start afresh. -/
def adopt (s : State) (groups : List Nat) (inner : State) : State where
  pos := inner.pos
  captures := groups.map (fun i => (i, inner.capture? i)) ++ s.captures

end State

/-- A character of words stands at the start of a text. -/
def startsWord (t : Text) : Bool := t.head?.any Unicode.isWord

/-- A condition on a place. A search begins where its subject does. -/
def Assertion.holds (a : Assertion) (c : Cursor) : Bool :=
  match a with
  | textStart | searchStart => c.before.isEmpty
  | textEnd => c.after.isEmpty
  | lineStart => c.before.isEmpty || c.before.head? = some '\n'
  | lineEnd => c.after.isEmpty || c.after.head? = some '\n'
  | wordBoundary => startsWord c.before != startsWord c.after
  | noWordBoundary => startsWord c.before == startsWord c.after
  | wordStart => !startsWord c.before && startsWord c.after
  | wordEnd => startsWord c.before && !startsWord c.after

/-- A character of the subject is the one of the expression. -/
def matchesChar (c : Char) (ignoreCase : Bool) (d : Char) : Bool :=
  if ignoreCase then Unicode.sameFold c d else c = d

end PathTemplate
