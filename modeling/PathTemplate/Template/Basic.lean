import PathTemplate.Text.Basic

/-!
# Templates

* `Modifier` — how often a parameter may occur.
* `Param` — one parameter, or a group of literal text if its name is empty.
* `Part` — literal text or a parameter; `Template` — parts and the delimiter they were read with.
* `Template.params` — the parameters that capture a value, in order.
-/

namespace PathTemplate

/-- How often a parameter may occur other than once. -/
inductive Modifier where
  | optional | zeroOrMore | oneOrMore
  deriving DecidableEq, Repr

def Modifier.char : Modifier → Char
  | .optional => '?'
  | .zeroOrMore => '*'
  | .oneOrMore => '+'

def Modifier.ofChar? : Char → Option Modifier
  | '?' => some .optional
  | '*' => some .zeroOrMore
  | '+' => some .oneOrMore
  | _ => none

def Modifier.isOptional : Modifier → Bool
  | .optional | .zeroOrMore => true
  | .oneOrMore => false

def Modifier.isRepeating : Modifier → Bool
  | .zeroOrMore | .oneOrMore => true
  | .optional => false

theorem Modifier.ofChar?_eq_some_iff {c : Char} {m : Modifier} :
    ofChar? c = some m ↔ c = m.char := by
  constructor
  · unfold ofChar?; split <;> rintro ⟨⟩ <;> rfl
  · rintro rfl; cases m <;> rfl

/-- One parameter of a template: the literal text around its value, the expression its values match,
how often it occurs, and what separates two of its values. A parameter with an empty name is a group
of literal text, which captures nothing. -/
structure Param where
  name : Text
  before : Text := []
  after : Text := []
  pattern : Option Text := none
  modifier : Option Modifier := none
  separator : Option Text := none
  deriving DecidableEq, Repr

namespace Param

def isCapturing (p : Param) : Bool := !p.name.isEmpty

def isOptional (p : Param) : Bool := p.modifier.any Modifier.isOptional

def isRepeating (p : Param) : Bool := p.modifier.any Modifier.isRepeating

/-- What stands between two values: the text after the first and before the second one, unless a
separator is recorded. -/
def between (p : Param) : Text := p.separator.getD (p.after ++ p.before)

end Param

inductive Part where
  | text (t : Text)
  | param (p : Param)
  deriving DecidableEq, Repr

/-- The parameter that a part is, if it is one. -/
def Part.param? : Part → Option Param
  | .text _ => none
  | .param p => some p

/-- A template: its parts in order, and the delimiter they were read with. -/
structure Template where
  parts : List Part
  delimiter : Text
  deriving DecidableEq, Repr

namespace Template

def isEmpty (t : Template) : Bool := t.parts.isEmpty

/-- All parameters, the groups of literal text among them. -/
def allParams (t : Template) : List Param := t.parts.filterMap Part.param?

theorem mem_allParams {t : Template} {p : Param} : p ∈ t.allParams ↔ .param p ∈ t.parts := by
  rw [allParams, List.mem_filterMap]
  refine ⟨?_, fun hp => ⟨_, hp, rfl⟩⟩
  rintro ⟨_ | q, hmem, hq⟩
  · cases hq
  · cases hq
    exact hmem

/-- The capturing parameters, in order. -/
def params (t : Template) : List Param := t.allParams.filter Param.isCapturing

end Template

end PathTemplate
