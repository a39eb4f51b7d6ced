import PathTemplate.Error
import PathTemplate.Expression.Quote
import PathTemplate.Expression.Search
import PathTemplate.Template.Basic

/-!
# Expressions of parts

* `Expression.anchored` — an expression for whole texts; `Expression.rejects` — it refuses a text.
* `Param.valueSource` — the expression of one value; `Param.fragment` — that of the parameter.
* `Guard` — what the strict check remembers: whether the last parameter is known to end, and the
  text since.
* `Template.fragments` — the expressions of all parts, or the first error.
-/

namespace PathTemplate

namespace Expression

/-- The expression of whole texts: case counts as the flags say. -/
def anchored (flags : Flags) (source : Text) : Except Fault Expression :=
  read (flags.inlineSwitch ++ ['^'] ++ source ++ ['$'])

/-- The expression matches somewhere in a text. -/
def matchesIn (e : Expression) (t : Text) : Except ExpressionError Bool :=
  match e.find t with
  | .found _ => .ok true
  | .none => .ok false
  | .gaveUp => .error .gaveUp

/-- The text is a boundary: it is not empty and the expression does not match it. -/
def rejects (e : Expression) (t : Text) : Except ExpressionError Bool :=
  if t = [] then .ok false else (e.matchesIn t).map not

end Expression

namespace Param

def valueSource (delimiter : Text) (p : Param) : Text :=
  match p.pattern with
  | some pattern => ['(', '?', ':'] ++ pattern ++ [')']
  | none => Expression.shortStretch delimiter

def modifierSource (p : Param) : Text := p.modifier.toList.map Modifier.char

/-- The expression of a parameter: the text before it, its value or values in a group, and the text
after it. -/
def fragment (l : Expression.Literal) (p : Param) : Text :=
  let before := l.source p.before
  let after := l.source p.after
  let value := p.valueSource l.delimiter
  if !p.isCapturing then ['(', '?', ':'] ++ before ++ after ++ [')'] ++ p.modifierSource
  else if p.isRepeating then
    ['(', '?', ':'] ++ before ++ ['('] ++ value ++ ['(', '?', ':'] ++ l.source p.between ++ value ++
      [')', '*', ')'] ++ after ++ [')'] ++ (if p.isOptional then ['?'] else [])
  else
    ['(', '?', ':'] ++ before ++ ['('] ++ value ++ [')'] ++ after ++ [')'] ++ p.modifierSource

end Param

/-- What the strict check remembers: whether the last value is known to end before what follows, and
the literal text since. -/
structure Guard where
  safe : Bool := true
  context : Text := []

/-- Checks a capturing parameter. Its pattern must be an expression. If the value before it is not
known to end, the pattern must refuse the text in between; in strict mode it must refuse the text
after it, or its separator. -/
def Guard.pass (flags : Flags) (l : Expression.Literal) (g : Guard) (p : Param) :
    Except ExpressionError Guard :=
  match Expression.anchored flags (p.valueSource l.delimiter) with
  | .error cause => .error (.invalidPattern p.name cause)
  | .ok e => do
    let reached ←
      if g.safe then .ok true
      else e.rejects (if p.before = [] then g.context else p.before)
    if !reached then .error (.ambiguousPattern p.name)
    else
      let ended ← if flags.strict then e.rejects p.after else .ok true
      if !p.isRepeating then .ok ⟨ended, []⟩
      else if p.between = [] then .error (.missingSeparator p.name)
      else
        let apart ← if ended then .ok true else e.rejects p.between
        if !apart then .error (.ambiguousSeparator p.name)
        else .ok ⟨!flags.strict, []⟩

namespace Template

def fragmentsFrom (flags : Flags) (l : Expression.Literal) (g : Guard) :
    List Part → Except ExpressionError (List Text)
  | [] => .ok []
  | .text t :: rest =>
    (fragmentsFrom flags l { g with context := t } rest).map (l.source t :: ·)
  | .param p :: rest =>
    if p.isCapturing then
      match g.pass flags l p with
      | .error e => .error e
      | .ok g => (fragmentsFrom flags l g rest).map (p.fragment l :: ·)
    else (fragmentsFrom flags l g rest).map (p.fragment l :: ·)

/-- The expressions of all parts, in order. -/
def fragments (flags : Flags) (l : Expression.Literal) (t : Template) :
    Except ExpressionError (List Text) := fragmentsFrom flags l {} t.parts

end Template

end PathTemplate
