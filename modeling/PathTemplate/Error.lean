import PathTemplate.Expression.Escape
import PathTemplate.Options
import PathTemplate.Template.Lexeme
import PathTemplate.Text.Quoted

/-!
# Errors

* `ExpressionError` — why a template has no expression, or a search gave up.
* `BuildError` — why a path cannot be built from some values.
* `PathError` — what can go wrong with a path at all.
-/

namespace PathTemplate

/-- Why a template has no expression, or a search gave up. -/
inductive ExpressionError where
  | ambiguousPattern (name : Text)
  | ambiguousSeparator (name : Text)
  | missingSeparator (name : Text)
  | invalidPattern (name : Text) (cause : Expression.Fault)
  | unreadable (source : Text) (cause : Expression.Fault)
  | gaveUp
  deriving DecidableEq, Repr

/-- The error in words, where its words are fixed. -/
def ExpressionError.message? : ExpressionError → Option String
  | ambiguousPattern name =>
    some ("ambiguous pattern for \"" ++ String.ofList name ++
      "\": its pattern can match the text that precedes it")
  | ambiguousSeparator name =>
    some ("ambiguous pattern for \"" ++ String.ofList name ++
      "\" separator: its pattern can match the separator")
  | missingSeparator name =>
    some ("missing separator for repeated parameter \"" ++ String.ofList name ++ "\"")
  | invalidPattern _ _ | unreadable _ _ | gaveUp => none

/-- Why a path cannot be built. -/
inductive BuildError where
  | missingParam (name : Text)
  | expectedSingle (name : Text)
  | expectedSequence (name : Text)
  | emptySequence (name : Text)
  | invalidValue (name value : Text)
  | invalidElement (name : Text) (index : Nat) (value : Text)
  | rawUnsupported
  | expression (e : ExpressionError)
  deriving DecidableEq, Repr

def BuildError.message? : BuildError → Option String
  | missingParam name => some ("missing required parameter \"" ++ String.ofList name ++ "\"")
  | expectedSingle name =>
    some ("expected \"" ++ String.ofList name ++ "\" to be a single value, got a sequence")
  | expectedSequence name =>
    some ("expected \"" ++ String.ofList name ++ "\" to be a sequence, got a single value")
  | emptySequence name => some ("expected \"" ++ String.ofList name ++ "\" to not be empty")
  | invalidValue name value =>
    some ("value for \"" ++ String.ofList name ++ "\" does not match pattern: " ++
      String.ofList (Quoted.render value))
  | invalidElement name index value =>
    some ("value \"" ++ String.ofList name ++ "/" ++ toString index ++
      "\" does not match pattern: " ++ String.ofList (Quoted.render value))
  | rawUnsupported => some "cannot build a path from a pre-compiled regular expression"
  | expression e => e.message?

/-- What can go wrong with a path. -/
inductive PathError where
  | options (e : OptionsError)
  | pattern (e : SyntaxError)
  | expression (e : ExpressionError)
  | build (e : BuildError)
  deriving DecidableEq, Repr

end PathTemplate
