import PathTemplate.Builder
import PathTemplate.Matcher
import PathTemplate.Template.Parser

/-!
# Paths

* `Path` — how a path is described: by a template text, by a template, or by a ready-made
  expression.
* `Path.parse`, `Path.expression`, `Path.builder`, `Path.matcher` — what can be made of it.
-/

namespace PathTemplate

/-- A description of paths. -/
inductive Path where
  | pattern (t : Text)
  | template (t : Template)
  | raw (e : Expression)

namespace Path

def lift {ε α : Type} (f : ε → PathError) : Except ε α → Except PathError α
  | .error e => .error (f e)
  | .ok a => .ok a

theorem lift_eq_ok_iff {ε α : Type} {f : ε → PathError} {x : Except ε α} {a : α} :
    lift f x = .ok a ↔ x = .ok a := by
  cases x <;> simp [lift]

/-- Reads a template text under options that can be used. -/
def parse (o : ParseOptions) (t : Text) : Except PathError Template :=
  match o.check with
  | .error e => .error (.options e)
  | .ok () => lift .pattern (Template.parse o t)

theorem parse_eq_ok_iff {o : ParseOptions} {t : Text} {d : Template} :
    parse o t = .ok d ↔ o.delimiter ≠ [] ∧ Template.parse o t = .ok d := by
  unfold parse
  by_cases hd : o.delimiter = []
  · simp [ParseOptions.check, hd]
  · simp [ParseOptions.check, hd, lift_eq_ok_iff]

theorem parse_eq_pattern_error_iff {o : ParseOptions} {t : Text} {e : SyntaxError} :
    parse o t = .error (.pattern e) ↔ o.delimiter ≠ [] ∧ Template.parse o t = .error e := by
  unfold parse
  by_cases hd : o.delimiter = []
  · simp [ParseOptions.check, hd]
  · cases Template.parse o t <;> simp [ParseOptions.check, hd, lift]

/-- The template of a description, or its expression. The delimiter of a template must not be
empty. -/
def resolve (o : ParseOptions) : Path → Except PathError (Template ⊕ Expression)
  | pattern t => (parse o t).map .inl
  | template t =>
    match o.check with
    | .error e => .error (.options e)
    | .ok () => if t.delimiter = [] then .error (.options .emptyDelimiter) else .ok (.inl t)
  | raw e =>
    match o.check with
    | .error e => .error (.options e)
    | .ok () => .ok (.inr e)

theorem resolve_pattern {o : ParseOptions} {s : Text} {t : Template} (h : parse o s = .ok t) :
    (pattern s).resolve o = .ok (.inl t) := by
  rw [resolve, h]
  rfl

theorem resolve_template {o : ParseOptions} {t : Template} (ho : o.delimiter ≠ [])
    (ht : t.delimiter ≠ []) : (template t).resolve o = .ok (.inl t) := by
  simp [resolve, ParseOptions.check, ho, ht]

/-- A template that is used has a delimiter. -/
theorem delimiter_ne_nil {o : ParseOptions} {p : Path} {t : Template}
    (h : p.resolve o = .ok (.inl t)) : t.delimiter ≠ [] := by
  unfold resolve at h
  split at h
  · obtain ⟨t', ht', heq⟩ := exists_of_map_eq_ok h
    cases heq
    obtain ⟨hne, hparse⟩ := parse_eq_ok_iff.1 ht'
    unfold Template.parse at hparse
    split at hparse
    · cases hparse
    · obtain ⟨parts, -, rfl⟩ := exists_of_map_eq_ok hparse
      exact hne
  · split at h
    · cases h
    · split at h
      · cases h
      · rename_i hne
        cases h
        exact hne
  · split at h <;> cases h

def expression (o : ExpressionOptions) (p : Path) : Except PathError PathExpression :=
  match p.resolve o.parse with
  | .error e => .error e
  | .ok (.inl t) => lift .expression (t.toExpression o)
  | .ok (.inr e) => .ok (.ofExpression e)

/-- The builder of a description; a ready-made expression has none. -/
def builder (o : BuildOptions) (p : Path) : Except PathError Builder :=
  match p.resolve o.parse with
  | .error e => .error e
  | .ok (.inl t) => lift .expression (t.toBuilder o)
  | .ok (.inr _) => .error (.build .rawUnsupported)

def matcher (o : MatchOptions) (p : Path) : Except PathError Matcher :=
  match p.resolve o.expression.parse with
  | .error e => .error e
  | .ok (.inl t) =>
    match t.toExpression o.expression with
    | .error e => .error (.expression e)
    | .ok e => lift .expression (Matcher.ofExpression e t.delimiter o)
  | .ok (.inr e) =>
    lift .expression (Matcher.ofExpression (.ofExpression e) o.expression.parse.delimiter o)

end Path

end PathTemplate
