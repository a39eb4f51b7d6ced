import PathTemplate.Fragment

/-!
# Expressions of paths

* `PathExpression` — an expression with the parameters of its groups and the flags it was made with.
* `Template.source` — the text of the expression of a template; `Template.toExpression` — all of it.
* `PathExpression.ofExpression` — a ready-made expression; its parameters are read off its text.
-/

namespace PathTemplate

/-- An expression for paths. The group with number `i + 1` belongs to the parameter with number
`i`. -/
structure PathExpression where
  expression : Expression
  keys : List Param
  flags : Flags
  deriving DecidableEq, Repr

namespace Template

/-- The text of the expression of a template: the parts in order, then a delimiter that may be
there, then the end or what may follow a path. -/
def source (o : ExpressionOptions) (t : Template) : Except ExpressionError Text :=
  let l : Expression.Literal := ⟨t.delimiter, o.loose⟩
  (t.fragments o.flags l).map fun fragments =>
    o.flags.inlineSwitch ++ (if o.start then ['^'] else []) ++ fragments.flatten ++
      (if o.trailing then ['(', '?', ':'] ++ l.source t.delimiter ++ [')', '?'] else []) ++
      (if o.finish then ['$']
        else ['(', '?', '='] ++ Expression.quote t.delimiter ++ ['|', '$', ')'])

def toExpression (o : ExpressionOptions) (t : Template) : Except ExpressionError PathExpression :=
  match t.source o with
  | .error e => .error e
  | .ok source =>
    match Expression.read source with
    | .error cause => .error (.unreadable source cause)
    | .ok expression => .ok ⟨expression, t.params, o.flags⟩

end Template

namespace PathExpression

/-- The name at the start of what follows `(?`, if a group with a name opens there. -/
def groupName? (t : Text) : Option Text :=
  let upTo (body : Text) : Option Text :=
    if body.contains '>' then some (body.takeWhile (· ≠ '>')) else none
  match t with
  | 'P' :: '<' :: body => upTo body
  | '<' :: '=' :: _ | '<' :: '!' :: _ => none
  | '<' :: body => upTo body
  | _ => none

/-- The name of the group that an opening parenthesis before `t` opens, and the next free number
after it; `none` if the group does not capture. -/
def groupAt (free : Nat) : Text → Option Text × Nat
  | '?' :: t => (groupName? t, free)
  | _ => (some (Text.ofNat free), free + 1)

/-- The names of the groups in the text of an expression; a group without a name gets the next
number. Escapes and classes are passed over. -/
def groupNames : (free : Nat) → (inClass : Bool) → Text → List Text
  | _, _, [] | _, _, ['\\'] => []
  | free, inClass, '\\' :: _ :: t => groupNames free inClass t
  | free, false, '[' :: t => groupNames free true t
  | free, true, ']' :: t => groupNames free false t
  | free, false, '(' :: t =>
    (groupAt free t).1.toList ++ groupNames (groupAt free t).2 false t
  | free, inClass, _ :: t => groupNames free inClass t

def ofExpression (e : Expression) : PathExpression where
  expression := e
  keys := (groupNames 0 false e.source).map fun name => { name }
  flags := { raw := true }

def isMatch (e : PathExpression) (t : Text) : Except ExpressionError Bool :=
  e.expression.matchesIn t

def find (e : PathExpression) (t : Text) : Except ExpressionError (Option Match) :=
  match e.expression.find t with
  | .found m => .ok (some m)
  | .none => .ok none
  | .gaveUp => .error .gaveUp

theorem find_eq_ok_some_iff {e : PathExpression} {t : Text} {m : Match} :
    e.find t = .ok (some m) ↔ e.expression.find t = .found m := by
  unfold find
  cases e.expression.find t <;> simp

end PathExpression

end PathTemplate
