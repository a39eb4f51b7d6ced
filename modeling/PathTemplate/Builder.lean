import PathTemplate.PathExpression
import PathTemplate.Value

/-!
# Building paths

* `Segment` — literal text, or a parameter with the expression that its values are checked against.
* `Builder` — the segments of a template and the codec of values.
* `Template.toBuilder` — the builder of a template; `Builder.build` — a path from values.
-/

namespace PathTemplate

/-- A piece of a path to be built. -/
inductive Segment where
  | text (t : Text)
  | param (p : Param) (check : Option Expression)

/-- What is needed to build paths. -/
structure Builder where
  segments : List Segment
  encode : Option Codec

namespace Segment

/-- The text passes the check. -/
def accepts (check : Option Expression) (t : Text) : Except BuildError Bool :=
  match check with
  | none => .ok true
  | some e =>
    match e.matchesIn t with
    | .ok b => .ok b
    | .error e => .error (.expression e)

/-- The text of a single value. The value is checked together with the text around it. -/
def single (p : Param) (check : Option Expression) (encode : Option Codec) :
    Option ParamValue → Except BuildError Text
  | none => if p.isOptional then .ok [] else .error (.missingParam p.name)
  | some (.multiple _) => .error (.expectedSingle p.name)
  | some (.single value) =>
    let built := p.before ++ recode encode value ++ p.after
    match accepts check built with
    | .error e => .error e
    | .ok true => .ok built
    | .ok false => .error (.invalidValue p.name value)

/-- The encoded elements of a sequence, each of them checked; `index` is the number of the first. -/
def elements (p : Param) (check : Option Expression) (encode : Option Codec) (index : Nat) :
    List Text → Except BuildError (List Text)
  | [] => .ok []
  | value :: rest =>
    match accepts check (recode encode value) with
    | .error e => .error e
    | .ok false => .error (.invalidElement p.name index value)
    | .ok true => (elements p check encode (index + 1) rest).map (recode encode value :: ·)

/-- The text of a sequence of values. -/
def sequence (p : Param) (check : Option Expression) (encode : Option Codec) :
    Option ParamValue → Except BuildError Text
  | none => if p.isOptional then .ok [] else .error (.missingParam p.name)
  | some (.single _) => .error (.expectedSequence p.name)
  | some (.multiple []) => if p.isOptional then .ok [] else .error (.emptySequence p.name)
  | some (.multiple values) =>
    (elements p check encode 0 values).map fun ts =>
      p.before ++ List.intercalate p.between ts ++ p.after

/-- The text of a segment. A group of literal text that may be left out is left out. -/
def build (encode : Option Codec) (params : Params) : Segment → Except BuildError Text
  | text t => .ok t
  | param p check =>
    if !p.isCapturing then .ok (if p.isOptional then [] else p.before ++ p.after)
    else if p.isRepeating then sequence p check encode (params.get? p.name)
    else single p check encode (params.get? p.name)

def param? : Segment → Option Param
  | text _ => none
  | param p _ => some p

end Segment

namespace Builder

/-- The path of some values: the texts of the segments in order, or the first error. -/
def build (b : Builder) (params : Params) : Except BuildError Text :=
  (b.segments.mapM (Segment.build b.encode params)).map List.flatten

def buildEmpty (b : Builder) : Except BuildError Text := b.build .empty

def keys (b : Builder) : List Param :=
  (b.segments.filterMap Segment.param?).filter Param.isCapturing

end Builder

/-- The expression that values of a parameter are checked against: that of one element if there may
be several, else that of the whole parameter. -/
def Param.checkSource (l : Expression.Literal) (p : Param) : Text :=
  if p.isRepeating then p.valueSource l.delimiter else p.fragment l

namespace Template

def segment (o : BuildOptions) (l : Expression.Literal) : Part → Except ExpressionError Segment
  | .text t => .ok (.text t)
  | .param p =>
    if o.validate && p.isCapturing then
      match Expression.anchored o.flags (p.checkSource l) with
      | .error cause => .error (.unreadable (p.checkSource l) cause)
      | .ok e => .ok (.param p (some e))
    else .ok (.param p none)

/-- The builder of a template. It exists only if the template has an expression. -/
def toBuilder (o : BuildOptions) (t : Template) : Except ExpressionError Builder :=
  let l : Expression.Literal := ⟨t.delimiter, o.loose⟩
  match t.fragments o.flags l with
  | .error e => .error e
  | .ok _ => (t.parts.mapM (segment o l)).map fun segments => ⟨segments, o.encode⟩

end Template

end PathTemplate
