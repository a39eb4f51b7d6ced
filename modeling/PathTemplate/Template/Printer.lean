import PathTemplate.Expression.Quote
import PathTemplate.Template.Basic
import PathTemplate.Unicode.Classes

/-!
# Writing templates

* `Template.Pen` — what a writer has to know about the text before: the next free number, and
  whether a plain name ends there, which an identifier character would extend.
* `Pen.isSynthesized`, `Pen.isWildcard`, `Pen.isBare` — which form a parameter is written in.
* `Template.print` — the template text; reading it again gives the template back.
-/

namespace PathTemplate.Template

/-- The characters that mean something in template text. -/
def isReserved (c : Char) : Bool :=
  ['{', '}', '(', ')', '+', '?', '!', ':', '*', ';', '@', ',', '\\'].contains c

/-- A name that can be written without quotes. -/
def isPlainName (name : Text) : Bool := !name.isEmpty && name.all Unicode.isIdentifier

def escapeChar (c : Char) : Text := if isReserved c then ['\\', c] else [c]

/-- Literal text. After a plain name, an identifier character at the start needs an escape. -/
def escape (afterName : Bool) : Text → Text
  | [] => []
  | c :: rest =>
    (if (afterName && Unicode.isIdentifier c) || isReserved c then ['\\', c] else [c]) ++
      rest.flatMap escapeChar

def quoteName (name : Text) : Text :=
  ['"'] ++ name.flatMap (fun c => if c = '"' ∨ c = '\\' then ['\\', c] else [c]) ++ ['"']

/-- What a writer knows about the text written so far: the next free number, and whether that text
ends with a plain name. -/
structure Pen where
  free : Nat := 0
  openName : Bool := false

namespace Pen

/-- The name is the one that an unnamed parameter would get here. -/
def isSynthesized (pen : Pen) (p : Param) : Bool := p.name = Text.ofNat pen.free

/-- The name and pattern of a parameter, and the pen after them. A name that reading would give
anyway is left out before a pattern. -/
def nameAndPattern (pen : Pen) (p : Param) : Text × Pen :=
  let plain := isPlainName p.name
  let written := ':' :: if plain then p.name else quoteName p.name
  match p.pattern with
  | none => (written, { pen with openName := plain })
  | some pattern =>
    if pen.isSynthesized p then (['('] ++ pattern ++ [')'], ⟨pen.free + 1, false⟩)
    else (written ++ ['('] ++ pattern ++ [')'], ⟨pen.free, false⟩)

/-- The parameter is what an asterisk stands for, its name apart. -/
def isWildcard (delimiter : Text) (p : Param) : Bool :=
  p.before.isEmpty && p.after.isEmpty && p.modifier = some .zeroOrMore &&
    p.separator = some delimiter && p.pattern = some (Expression.stretch delimiter)

/-- The parameter can be written without braces. A pattern without a name cannot follow a plain
name: it would be read as the pattern of that name. -/
def isBare (pen : Pen) (delimiter : Text) (p : Param) : Bool :=
  p.isCapturing && p.before.isEmpty && p.after.isEmpty &&
    !(pen.openName && p.pattern.isSome && pen.isSynthesized p) &&
    match p.modifier with
    | none | some .optional => p.separator.isNone
    | some .oneOrMore => p.separator = some delimiter
    | some .zeroOrMore => false

def modifierText (p : Param) : Text := p.modifier.toList.map Modifier.char

/-- The separator, if reading would not supply it. -/
def writtenSeparator (p : Param) : Option Text :=
  if p.separator = (if p.isRepeating then some (p.after ++ p.before) else none) then none
  else p.separator

/-- A parameter, and the pen after it. -/
def param (pen : Pen) (delimiter : Text) (p : Param) : Text × Pen :=
  if isWildcard delimiter p && (pen.isSynthesized p || isPlainName p.name) then
    if pen.isSynthesized p then (['*'], ⟨pen.free + 1, true⟩)
    else ('*' :: p.name, ⟨pen.free, true⟩)
  else if pen.isBare delimiter p then
    let (t, after) := pen.nameAndPattern p
    (t ++ modifierText p, { after with openName := after.openName && p.modifier.isNone })
  else
    let named := p.isCapturing || p.pattern.isSome
    let (t, after) := if named then pen.nameAndPattern p else ([], pen)
    let separator := (writtenSeparator p).elim [] fun s => ';' :: escape false s
    (['{'] ++ escape false p.before ++ t ++ escape (named && after.openName) p.after ++ separator ++
      ['}'] ++ modifierText p, ⟨after.free, false⟩)

def parts (delimiter : Text) : Pen → List Part → Text
  | _, [] => []
  | pen, .text t :: rest => escape pen.openName t ++ parts delimiter ⟨pen.free, false⟩ rest
  | pen, .param p :: rest =>
    let (t, after) := pen.param delimiter p
    t ++ parts delimiter after rest

end Pen

def print (t : Template) : Text := Pen.parts t.delimiter {} t.parts

end PathTemplate.Template
