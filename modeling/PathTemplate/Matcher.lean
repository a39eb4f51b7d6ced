import PathTemplate.PathExpression
import PathTemplate.Value

/-!
# Matching paths

* `Matcher` — the expression of paths, the expressions that separate repeated values, and the
  codec of captures.
* `Matcher.ofExpression` — the matcher of an expression.
* `Matcher.run` — matches a text and gives the values of the parameters.
-/

namespace PathTemplate

/-- What is needed to match paths. A parameter that repeats has a separator. -/
structure Matcher where
  expression : PathExpression
  decode : Option Codec
  separators : List (Option Expression)

namespace Matcher

/-- The expression between the values of a parameter, if it repeats. -/
def separator (flags : Flags) (l : Expression.Literal) (p : Param) :
    Except ExpressionError (Option Expression) :=
  if !p.isRepeating then .ok none
  else
    let source := flags.inlineSwitch ++ l.source p.between
    match Expression.read source with
    | .error cause => .error (.unreadable source cause)
    | .ok e => .ok (some e)

/-- The matcher of an expression. `delimiter` is the one that the template was read with. -/
def ofExpression (e : PathExpression) (delimiter : Text) (o : MatchOptions) :
    Except ExpressionError Matcher :=
  (e.keys.mapM (separator e.flags ⟨delimiter, o.expression.loose⟩)).map fun separators =>
    ⟨e, o.decode, separators⟩

/-- The value of a capture: split if the parameter repeats, and decoded. -/
def value (decode : Option Codec) (separator : Option Expression) (t : Text) :
    Except ExpressionError ParamValue :=
  match separator with
  | none => .ok (.single (recode decode t))
  | some e =>
    match e.split t with
    | .found ts => .ok (.multiple (ts.map (recode decode)))
    | .none | .gaveUp => .error .gaveUp

/-- The values of parameters, the group of the first one being `index`, put in one after the other.
A parameter without a capture has no value. -/
def collect (decode : Option Codec) (m : Match) : (index : Nat) →
    List (Param × Option Expression) → Params → Except ExpressionError Params
  | _, [], params => .ok params
  | index, (p, separator) :: rest, params =>
    match m.group? index with
    | none => collect decode m (index + 1) rest params
    | some span =>
      match value decode separator span.text with
      | .error e => .error e
      | .ok v => collect decode m (index + 1) rest (params.insert p.name v)

def run (matcher : Matcher) (t : Text) : Except ExpressionError (Option Found) :=
  match matcher.expression.find t with
  | .error e => .error e
  | .ok none => .ok none
  | .ok (some m) =>
    (collect matcher.decode m 1 (matcher.expression.keys.zip matcher.separators) .empty).map
      fun params => some ⟨m.span.text, m.start.byteOffset, params⟩

end Matcher

end PathTemplate
