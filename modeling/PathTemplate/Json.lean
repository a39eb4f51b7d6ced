import PathTemplate.Options
import PathTemplate.Template.Basic
import PathTemplate.Value

/-!
# Serialized forms

* `Json` — the data that is written and read.
* `Json.members?` — a record as members by name, or as the list of its fields in order.
* `toJson` and `ofJson?` of templates, values, matches and options — each type's written form, and
  reading it. Codecs are not written; reading options gives the default ones.
-/

namespace PathTemplate

/-- Data of the JSON format. A number that is written with a fraction is
`mantissa / 10 ^ places`. -/
inductive Json where
  | null
  | bool (b : Bool)
  | int (n : Int)
  | fraction (mantissa : Int) (places : Nat)
  | str (t : Text)
  | arr (items : List Json)
  | obj (members : List (Text × Json))
  deriving Inhabited

namespace Json

def text? : Json → Option Text
  | str t => some t
  | _ => none

def bool? : Json → Option Bool
  | bool b => some b
  | _ => none

def items? : Json → Option (List Json)
  | arr xs => some xs
  | _ => none

def optionalText : Option Text → Json
  | none => null
  | some t => str t

/-- Reads a text or nothing; a missing member is nothing. -/
def optionalText? : Option Json → Option (Option Text)
  | none | some null => some none
  | some (str t) => some (some t)
  | some _ => none

def orDefault {α : Type} (read : Json → Option α) (fallback : α) : Option Json → Option α
  | none => some fallback
  | some j => read j

/-- The members of a record with these fields. A list gives the fields in order and may end
early. -/
def members? (fields : List Text) : Json → Option (List (Text × Json))
  | obj ms => some ms
  | arr xs => if xs.length ≤ fields.length then some (fields.zip xs) else none
  | _ => none

def object? : Json → Option (List (Text × Json))
  | obj ms => some ms
  | _ => none

end Json

/-! ### names of members -/

namespace Field

def tokens : Text := ['t', 'o', 'k', 'e', 'n', 's']
def delimiter : Text := ['d', 'e', 'l', 'i', 'm', 'i', 't', 'e', 'r']
def text : Text := ['t', 'e', 'x', 't']
def param : Text := ['p', 'a', 'r', 'a', 'm']
def name : Text := ['n', 'a', 'm', 'e']
def before : Text := ['p', 'r', 'e', 'f', 'i', 'x']
def after : Text := ['s', 'u', 'f', 'f', 'i', 'x']
def pattern : Text := ['p', 'a', 't', 't', 'e', 'r', 'n']
def modifier : Text := ['m', 'o', 'd', 'i', 'f', 'i', 'e', 'r']
def separator : Text := ['s', 'e', 'p', 'a', 'r', 'a', 't', 'o', 'r']
def path : Text := ['p', 'a', 't', 'h']
def index : Text := ['i', 'n', 'd', 'e', 'x']
def params : Text := ['p', 'a', 'r', 'a', 'm', 's']
def sensitive : Text := ['s', 'e', 'n', 's', 'i', 't', 'i', 'v', 'e']
def loose : Text := ['l', 'o', 'o', 's', 'e']
def strict : Text := ['s', 't', 'r', 'i', 'c', 't']
def start : Text := ['s', 't', 'a', 'r', 't']
def finish : Text := ['e', 'n', 'd']
def trailing : Text := ['t', 'r', 'a', 'i', 'l', 'i', 'n', 'g']
def validate : Text := ['v', 'a', 'l', 'i', 'd', 'a', 't', 'e']

end Field

open Json

/-! ### templates -/

/-- A modifier is written as its character. -/
def Modifier.toJson (m : Modifier) : Json := str [m.char]

/-- Reads a modifier: its character, or an object with that character as the name of an empty
member. -/
def Modifier.ofJson? : Json → Option Modifier
  | str [c] => ofChar? c
  | obj [([c], .null)] => ofChar? c
  | _ => none

/-- All six fields of a parameter are written. -/
def Param.toJson (p : Param) : Json :=
  obj [(Field.name, str p.name), (Field.before, str p.before), (Field.after, str p.after),
    (Field.pattern, optionalText p.pattern),
    (Field.modifier, (p.modifier.map Modifier.toJson).getD null),
    (Field.separator, optionalText p.separator)]

def Param.fields : List Text :=
  [Field.name, Field.before, Field.after, Field.pattern, Field.modifier, Field.separator]

/-- Reads a parameter; only its name is required. -/
def Param.ofJson? (j : Json) : Option Param := do
  let ms ← j.members? fields
  let name ← (ms.lookup Field.name).bind text?
  let before ← orDefault text? [] (ms.lookup Field.before)
  let after ← orDefault text? [] (ms.lookup Field.after)
  let pattern ← optionalText? (ms.lookup Field.pattern)
  let modifier ←
    match ms.lookup Field.modifier with
    | none | some .null => some none
    | some m => (Modifier.ofJson? m).map some
  let separator ← optionalText? (ms.lookup Field.separator)
  some { name, before, after, pattern, modifier, separator }

/-- A part is an object with one member, named for its kind. -/
def Part.toJson : Part → Json
  | .text t => obj [(Field.text, str t)]
  | .param p => obj [(Field.param, p.toJson)]

def Part.ofJson? : Json → Option Part
  | obj [(kind, j)] =>
    if kind = Field.text then j.text?.map .text
    else if kind = Field.param then (Param.ofJson? j).map .param
    else none
  | _ => none

/-- A template is written with its parts and its delimiter. -/
def Template.toJson (t : Template) : Json :=
  obj [(Field.tokens, arr (t.parts.map Part.toJson)), (Field.delimiter, str t.delimiter)]

def Template.ofJson? (j : Json) : Option Template := do
  let ms ← j.members? [Field.tokens, Field.delimiter]
  let items ← (ms.lookup Field.tokens).bind items?
  let parts ← items.mapM Part.ofJson?
  let delimiter ← (ms.lookup Field.delimiter).bind text?
  some ⟨parts, delimiter⟩

/-! ### values and matches -/

/-- A value is a string or a list of strings. -/
def ParamValue.toJson : ParamValue → Json
  | single t => str t
  | multiple ts => arr (ts.map str)

def ParamValue.ofJson? : Json → Option ParamValue
  | str t => some (single t)
  | arr xs => (xs.mapM text?).map multiple
  | _ => none

/-- Values are the members of an object. -/
def Params.toJson (p : Params) : Json := obj (p.entries.map fun (name, v) => (name, v.toJson))

def Params.ofJson? : Json → Option Params
  | obj ms => (ms.mapM fun (m : Text × Json) => (ParamValue.ofJson? m.2).map (m.1, ·)).map ofList
  | _ => none

/-- The largest offset that can be read. -/
def Found.maxIndex : Nat := 18446744073709551615

/-- A match is written with all its fields. -/
def Found.toJson (f : Found) : Json :=
  obj [(Field.path, str f.path), (Field.index, int f.index), (Field.params, f.params.toJson)]

/-- Reads an offset: a whole number of at most 64 bits, written without a fraction. -/
def Found.index? : Json → Option Nat
  | int n => if 0 ≤ n ∧ n ≤ maxIndex then some n.toNat else none
  | _ => none

/-- Reads a match; all fields are required. -/
def Found.ofJson? (j : Json) : Option Found := do
  let ms ← j.members? [Field.path, Field.index, Field.params]
  let path ← (ms.lookup Field.path).bind text?
  let index ← (ms.lookup Field.index).bind index?
  let params ← (ms.lookup Field.params).bind Params.ofJson?
  some ⟨path, index, params⟩

/-! ### options -/

/-- Of the options for reading, the delimiter is written. -/
def ParseOptions.toJson (o : ParseOptions) : Json := obj [(Field.delimiter, str o.delimiter)]

def ParseOptions.ofMembers? (ms : List (Text × Json)) : Option ParseOptions :=
  (orDefault text? defaultDelimiter (ms.lookup Field.delimiter)).map fun delimiter => { delimiter }

/-- Reads options for reading, from an object or a list. -/
def ParseOptions.ofJson? (j : Json) : Option ParseOptions :=
  (j.members? [Field.delimiter]).bind ofMembers?

/-- The delimiter and the settings are members of one object. -/
def ExpressionOptions.toJson (o : ExpressionOptions) : Json :=
  obj [(Field.delimiter, str o.parse.delimiter), (Field.sensitive, .bool o.sensitive),
    (Field.loose, .bool o.loose), (Field.strict, .bool o.strict), (Field.start, .bool o.start),
    (Field.finish, .bool o.finish), (Field.trailing, .bool o.trailing)]

/-- Reads options for an expression from the members of an object. -/
def ExpressionOptions.ofMembers? (ms : List (Text × Json)) : Option ExpressionOptions := do
  let d : ExpressionOptions := {}
  let parse ← ParseOptions.ofMembers? ms
  let sensitive ← orDefault bool? d.sensitive (ms.lookup Field.sensitive)
  let loose ← orDefault bool? d.loose (ms.lookup Field.loose)
  let strict ← orDefault bool? d.strict (ms.lookup Field.strict)
  let start ← orDefault bool? d.start (ms.lookup Field.start)
  let finish ← orDefault bool? d.finish (ms.lookup Field.finish)
  let trailing ← orDefault bool? d.trailing (ms.lookup Field.trailing)
  some { parse, sensitive, loose, strict, start, finish, trailing }

def ExpressionOptions.ofJson? (j : Json) : Option ExpressionOptions := j.object?.bind ofMembers?

/-- Options for matching are written as those of their expression. -/
def MatchOptions.toJson (o : MatchOptions) : Json := o.expression.toJson

def MatchOptions.ofJson? (j : Json) : Option MatchOptions :=
  (ExpressionOptions.ofJson? j).map fun expression => { expression }

/-- The delimiter and the settings are members of one object. -/
def BuildOptions.toJson (o : BuildOptions) : Json :=
  obj [(Field.delimiter, str o.parse.delimiter), (Field.sensitive, .bool o.sensitive),
    (Field.loose, .bool o.loose), (Field.strict, .bool o.strict),
    (Field.validate, .bool o.validate)]

def BuildOptions.ofJson? (j : Json) : Option BuildOptions := do
  let d : BuildOptions := {}
  let ms ← j.object?
  let parse ← ParseOptions.ofMembers? ms
  let sensitive ← orDefault bool? d.sensitive (ms.lookup Field.sensitive)
  let loose ← orDefault bool? d.loose (ms.lookup Field.loose)
  let strict ← orDefault bool? d.strict (ms.lookup Field.strict)
  let validate ← orDefault bool? d.validate (ms.lookup Field.validate)
  some { parse, sensitive, loose, strict, validate }

end PathTemplate
