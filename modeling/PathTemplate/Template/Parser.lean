import PathTemplate.Expression.Quote
import PathTemplate.Options
import PathTemplate.Template.Basic
import PathTemplate.Template.Lexeme

/-!
# Reading templates

* `Lexeme.text` — the literal text at the start of some lexemes.
* `Template.bare?`, `Template.wildcard`, `Template.group?` — the three forms of a parameter:
  `:name` or `(pattern)`, `*`, and a group in braces.
* `Template.partsFrom` — all parts; a parameter without a name gets the next free number.
* `Template.parse` — reads a template text.
-/

namespace PathTemplate

namespace Lexeme

/-- The lexeme is a character of literal text. -/
def isText (x : Lexeme) : Bool := x.kind = .char || x.kind = .escaped

/-- The literal text at the start of some lexemes. -/
def text (xs : List Lexeme) : Text := (xs.takeWhile isText).flatMap value

/-- What follows the literal text at the start. -/
def afterText (xs : List Lexeme) : List Lexeme := xs.dropWhile isText

/-- The value of the first lexeme if it is of this kind, and what follows it; else nothing is
taken. -/
def take? (kind : Kind) : List Lexeme → Option Text × List Lexeme
  | [] => (none, [])
  | x :: xs => if x.kind = kind then (some x.value, xs) else (none, x :: xs)

def Kind.modifier? : Kind → Option Modifier
  | .question => some .optional
  | .asterisk => some .zeroOrMore
  | .plus => some .oneOrMore
  | _ => none

/-- The modifier that the first lexeme stands for, if any, and what follows it. -/
def takeModifier : List Lexeme → Option Modifier × List Lexeme
  | [] => (none, [])
  | x :: xs =>
    match x.kind.modifier? with
    | some m => (some m, xs)
    | none => (none, x :: xs)

/-- The lexeme is a literal character that can be part of a plain name. -/
def continuesName (x : Lexeme) : Bool :=
  x.kind = .char && x.value.head?.any Unicode.isIdentifier

/-! ### what is left is not longer -/

theorem length_afterText_le (xs : List Lexeme) : (afterText xs).length ≤ xs.length :=
  length_dropWhile_le _ _

theorem length_take?_le (kind : Kind) (xs : List Lexeme) :
    (take? kind xs).2.length ≤ xs.length := by
  unfold take?; split
  · simp
  · split <;> simp

theorem length_takeModifier_le (xs : List Lexeme) : (takeModifier xs).2.length ≤ xs.length := by
  unfold takeModifier; split
  · simp
  · split <;> simp

end Lexeme

namespace Template

open Lexeme (text afterText take? takeModifier continuesName)

/-- A parameter that was read, what follows it, and the next free number. -/
structure Step where
  param : Param
  rest : List Lexeme
  free : Nat

/-- The written name, or else the next free number. -/
def nameOr (free : Nat) : Option Text → Text × Nat
  | some name => (name, free)
  | none => (Text.ofNat free, free + 1)

/-- A parameter outside braces. Its modifier is `?` or `+`: after a parameter, `*` is refused,
because it would be read as a wildcard. -/
def bare? (o : ParseOptions) (free : Nat) (xs : List Lexeme) : Except SyntaxError Step :=
  let (name, xs) := take? .name xs
  let (pattern, xs) := take? .pattern xs
  let (name, free) := nameOr free name
  match xs with
  | x :: rest =>
    match x.kind with
    | .asterisk => .error (.asteriskAfterParam x.index name)
    | .question => .ok ⟨{ name, pattern, modifier := some .optional }, rest, free⟩
    | .plus =>
      .ok ⟨{ name, pattern, modifier := some .oneOrMore, separator := some o.delimiter },
        rest, free⟩
    | _ => .ok ⟨{ name, pattern }, x :: rest, free⟩
  | [] => .ok ⟨{ name, pattern }, [], free⟩

/-- What follows an asterisk: the identifier characters that name the wildcard. -/
def wildcard (o : ParseOptions) (free : Nat) (xs : List Lexeme) : Step :=
  let written := (xs.takeWhile continuesName).flatMap Lexeme.value
  let (name, free) := nameOr free (if written = [] then none else some written)
  let param : Param :=
    { name
      pattern := some (Expression.stretch o.delimiter)
      modifier := some .zeroOrMore
      separator := some o.delimiter }
  ⟨param, xs.dropWhile continuesName, free⟩

/-- What follows an opening brace: literal text, a name, a pattern, literal text, and after a
semicolon the separator, each of which may be missing; then the closing brace and a modifier. A
repeated group without a separator is separated by the text around its values. -/
def group? (o : ParseOptions) (free : Nat) (xs : List Lexeme) : Except SyntaxError Step :=
  let before := text xs
  let (name, xs) := take? .name (afterText xs)
  let (pattern, xs) := take? .pattern xs
  let after := text xs
  let (semicolon, xs) := take? .semicolon (afterText xs)
  let written := semicolon.map fun _ => text xs
  let xs := if semicolon.isSome then afterText xs else xs
  match xs with
  | [] => .error (.unexpected .finish 0 .closing)
  | x :: rest =>
    if x.kind ≠ .closing then .error (.unexpected x.kind x.index .closing)
    else
      let (modifier, rest) := takeModifier rest
      let (name, free) := if name.isNone && pattern.isNone then ([], free) else nameOr free name
      let before := o.encodePath.apply before
      let after := o.encodePath.apply after
      let separator :=
        match written with
        | some t => some (o.encodePath.apply t)
        | none => if modifier.any Modifier.isRepeating then some (after ++ before) else none
      .ok ⟨{ name, before, after, pattern, modifier, separator }, rest, free⟩

/-! ### each form takes a lexeme -/

theorem length_of_bare? {o : ParseOptions} {free : Nat} {x : Lexeme} {xs : List Lexeme} {s : Step}
    (hx : x.kind = .name ∨ x.kind = .pattern) (h : bare? o free (x :: xs) = .ok s) :
    s.rest.length ≤ xs.length := by
  have key : (take? .pattern (take? .name (x :: xs)).2).2.length ≤ xs.length := by
    rcases hx with hx | hx
    · simpa [take?, hx] using Lexeme.length_take?_le .pattern xs
    · simp [take?, hx]
  unfold bare? at h
  simp only at h
  split at h
  · rename_i y rest heq
    rw [heq] at key
    simp only [List.length_cons] at key
    split at h
    · simp at h
    · cases h; simp; omega
    · cases h; simp; omega
    · cases h; simp; omega
  · cases h; simp

theorem length_of_wildcard (o : ParseOptions) (free : Nat) (xs : List Lexeme) :
    (wildcard o free xs).rest.length ≤ xs.length := by
  simpa [wildcard] using length_dropWhile_le _ xs

theorem length_of_group? {o : ParseOptions} {free : Nat} {xs : List Lexeme} {s : Step}
    (h : group? o free xs = .ok s) : s.rest.length ≤ xs.length := by
  unfold group? at h
  simp only at h
  have h₁ := Lexeme.length_afterText_le xs
  have h₂ := Lexeme.length_take?_le .name (afterText xs)
  have h₃ := Lexeme.length_take?_le .pattern (take? .name (afterText xs)).2
  generalize (take? .pattern (take? .name (afterText xs)).2).2 = ys at h h₃
  have h₄ := Lexeme.length_afterText_le ys
  have h₅ := Lexeme.length_take?_le .semicolon (afterText ys)
  have h₆ := Lexeme.length_afterText_le (take? .semicolon (afterText ys)).2
  split at h
  · simp at h
  · rename_i x rest heq
    have h₇ := Lexeme.length_takeModifier_le rest
    split at h
    · simp at h
    · cases h
      have h₈ := congrArg List.length heq
      simp only [List.length_cons] at h₈ ⊢
      split at h₈ <;> omega

/-- All parts that the lexemes stand for. `free` is the next free number. -/
def partsFrom (o : ParseOptions) (free : Nat) (xs : List Lexeme) : Except SyntaxError (List Part) :=
  match xs with
  | [] => .ok []
  | x :: rest =>
    if ht : x.isText then
      have : (afterText (x :: rest)).length < rest.length + 1 := by
        simpa [afterText, ht] using Nat.lt_succ_of_le (length_dropWhile_le _ rest)
      (partsFrom o free (afterText (x :: rest))).map
        (.text (o.encodePath.apply (text (x :: rest))) :: ·)
    else if hb : x.kind = .name ∨ x.kind = .pattern then
      match h : bare? o free (x :: rest) with
      | .error e => .error e
      | .ok s =>
        have := length_of_bare? hb h
        (partsFrom o s.free s.rest).map (.param s.param :: ·)
    else if x.kind = .asterisk then
      have := length_of_wildcard o free rest
      let s := wildcard o free rest
      (partsFrom o s.free s.rest).map (.param s.param :: ·)
    else if x.kind = .opening then
      match h : group? o free rest with
      | .error e => .error e
      | .ok s =>
        have := length_of_group? h
        (partsFrom o s.free s.rest).map (.param s.param :: ·)
    else if x.kind = .finish then .ok []
    else .error (.unexpected x.kind x.index .finish)
termination_by xs.length

/-- Reads a template text. The delimiter is recorded on the template. -/
def parse (o : ParseOptions) (t : Text) : Except SyntaxError Template :=
  match Lexeme.ofText t with
  | .error e => .error e
  | .ok xs => (partsFrom o 0 xs).map fun parts => ⟨parts, o.delimiter⟩

end Template

end PathTemplate
