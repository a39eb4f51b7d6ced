import PathTemplate.Codec

/-!
# Options

* `ParseOptions`, `ExpressionOptions`, `MatchOptions`, `BuildOptions` — what can be set for
  reading a template, for its expression, for matching and for building; the defaults are the field
  defaults.
* `OptionsError` — the one thing that options can get wrong: an empty delimiter.
* `Flag`, `Flags` — the settings an expression was made with.
-/

namespace PathTemplate

/-- Why options are refused. -/
inductive OptionsError where
  | emptyDelimiter
  deriving DecidableEq, Repr

def OptionsError.message : OptionsError → String
  | .emptyDelimiter => "delimiter must not be empty"

/-- The delimiter of paths unless another one is set. -/
def defaultDelimiter : Text := ['/']

/-- How a template is read: the delimiter it is read with, and the codec of its literal text. -/
structure ParseOptions where
  delimiter : Text := defaultDelimiter
  encodePath : Codec := .identity

/-- How the expression of a template is made. -/
structure ExpressionOptions where
  parse : ParseOptions := {}
  sensitive : Bool := false
  loose : Bool := true
  strict : Bool := false
  start : Bool := true
  finish : Bool := true
  trailing : Bool := true

/-- How paths are matched; without a codec, captures stay as they are. -/
structure MatchOptions where
  expression : ExpressionOptions := {}
  decode : Option Codec := some .percentDecode

/-- How paths are built; without a codec, values are written as they are. -/
structure BuildOptions where
  parse : ParseOptions := {}
  sensitive : Bool := false
  loose : Bool := true
  strict : Bool := false
  validate : Bool := true
  encode : Option Codec := some .uriComponent

/-- The text after an optional codec. -/
def recode : Option Codec → Text → Text
  | none, t => t
  | some codec, t => codec.apply t

/-- A setting of an expression; `raw` marks an expression that was given ready-made. -/
inductive Flag where
  | sensitive | loose | strict | start | finish | trailing | raw
  deriving DecidableEq, Repr

def Flag.all : List Flag := [.sensitive, .loose, .strict, .start, .finish, .trailing, .raw]

def Flag.name : Flag → String
  | .sensitive => "SENSITIVE"
  | .loose => "LOOSE"
  | .strict => "STRICT"
  | .start => "START"
  | .finish => "END"
  | .trailing => "TRAILING"
  | .raw => "RAW"

structure Flags where
  sensitive : Bool := false
  loose : Bool := false
  strict : Bool := false
  start : Bool := false
  finish : Bool := false
  trailing : Bool := false
  raw : Bool := false
  deriving DecidableEq, Repr

namespace Flags

def has (f : Flags) : Flag → Bool
  | .sensitive => f.sensitive
  | .loose => f.loose
  | .strict => f.strict
  | .start => f.start
  | .finish => f.finish
  | .trailing => f.trailing
  | .raw => f.raw

def toList (f : Flags) : List Flag := Flag.all.filter f.has

/-- What an expression under these flags starts with: a switch to ignore case, unless case
counts. -/
def inlineSwitch (f : Flags) : Text := if f.sensitive then [] else ['(', '?', 'i', ')']

end Flags

namespace ParseOptions

/-- The options can be used: the delimiter is not empty. -/
def check (o : ParseOptions) : Except OptionsError Unit :=
  if o.delimiter = [] then .error .emptyDelimiter else .ok ()

end ParseOptions

namespace ExpressionOptions

def check (o : ExpressionOptions) : Except OptionsError Unit := o.parse.check

def flags (o : ExpressionOptions) : Flags :=
  { sensitive := o.sensitive, loose := o.loose, strict := o.strict
    start := o.start, finish := o.finish, trailing := o.trailing }

end ExpressionOptions

def MatchOptions.check (o : MatchOptions) : Except OptionsError Unit := o.expression.check

namespace BuildOptions

def check (o : BuildOptions) : Except OptionsError Unit := o.parse.check

/-- The flags that the options set; a value is always checked from its start to its end. -/
def flags (o : BuildOptions) : Flags :=
  { sensitive := o.sensitive, loose := o.loose, strict := o.strict, start := true, finish := true }

end BuildOptions

end PathTemplate
