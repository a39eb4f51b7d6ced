import PathTemplate.Unicode.Folding
import PathTemplate.Unicode.Script

/-!
# Sets of characters

* `CharSet` — the sets that an expression can name, and what is made of them.
* `CharSet.has` — membership.
* `CharSet.named?` — the set of a Unicode property; `CharSet.posix?` — an ASCII class such as
  `alpha`.
-/

namespace PathTemplate

/-- A set of characters. `folded s` holds what differs from a member of `s` in case at most. -/
inductive CharSet where
  | none
  | range (lo hi : Char)
  | digits | spaces | wordChars
  | alphabetic | uppercase | lowercase
  | categories (gs : List Unicode.Category)
  | listed (rs : Unicode.Ranges)
  | union (a b : CharSet)
  | inter (a b : CharSet)
  | compl (a : CharSet)
  | folded (a : CharSet)
  deriving DecidableEq, Repr

namespace CharSet

def has : CharSet → Char → Bool
  | none, _ => false
  | range lo hi, c => lo ≤ c && c ≤ hi
  | digits, c => Unicode.isDigit c
  | spaces, c => Unicode.isSpace c
  | wordChars, c => Unicode.isWord c
  | alphabetic, c => Unicode.isAlphabetic c
  | uppercase, c => Unicode.isUppercase c
  | lowercase, c => Unicode.isLowercase c
  | categories gs, c => gs.contains (Unicode.Category.of c)
  | listed rs, c => rs.has c.toNat
  | union a b, c => a.has c || b.has c
  | inter a b, c => a.has c && b.has c
  | compl a, c => !a.has c
  | folded a, c => a.has c || (Unicode.foldClass c).any a.has

def all : CharSet := compl none

def single (c : Char) : CharSet := range c c

/-- Every character that ends no line. -/
def inLine : CharSet := compl (single '\n')

def diff (a b : CharSet) : CharSet := inter a (compl b)

/-- The members of one of the two sets only. -/
def symmDiff (a b : CharSet) : CharSet := union (diff a b) (diff b a)

def ascii : CharSet := range '\x00' '\x7f'

/-- The set with what differs from its members in case, if case is ignored. -/
def foldIf (ignoreCase : Bool) (a : CharSet) : CharSet := if ignoreCase then folded a else a

/-- The set or, if it is negated, the characters outside it. -/
def complIf (negated : Bool) (a : CharSet) : CharSet := if negated then compl a else a

def unions (sets : List CharSet) : CharSet := sets.foldr union none

def hexDigits : CharSet := unions [range '0' '9', range 'A' 'F', range 'a' 'f']

@[simp] theorem has_all (c : Char) : all.has c = true := rfl
@[simp] theorem has_single (c d : Char) : (single c).has d = decide (d = c) := by
  simp only [single, has, ← Bool.decide_and]
  congr 1
  exact propext ⟨fun h => Char.le_antisymm h.2 h.1, fun h => h ▸ ⟨Char.le_refl _, Char.le_refl _⟩⟩
@[simp] theorem has_inLine (c : Char) : inLine.has c = !decide (c = '\n') := by simp [inLine, has]

def posix? (name : Text) : Option CharSet :=
  let upper := range 'A' 'Z'
  let lower := range 'a' 'z'
  let digit := range '0' '9'
  match String.ofList name with
  | "alnum" => some (unions [digit, upper, lower])
  | "alpha" => some (unions [upper, lower])
  | "ascii" => some ascii
  | "blank" => some (unions [single '\t', single ' '])
  | "cntrl" => some (unions [range '\x00' '\x1f', single '\x7f'])
  | "digit" => some digit
  | "graph" => some (range '!' '~')
  | "lower" => some lower
  | "print" => some (range ' ' '~')
  | "punct" => some (unions [range '!' '/', range ':' '@', range '[' '\x60', range '\x7b' '~'])
  | "space" => some (unions [range '\t' '\r', single ' '])
  | "upper" => some upper
  | "word" => some (unions [digit, upper, single '_', lower])
  | "xdigit" => some hexDigits
  | _ => Option.none

open Unicode (Category) in
/-- The general categories that a short or long name stands for. -/
def categories? (name : String) : Option (List Category) :=
  match name with
  | "lu" | "uppercaseletter" => some [.lu]
  | "ll" | "lowercaseletter" => some [.ll]
  | "lt" | "titlecaseletter" => some [.lt]
  | "lm" | "modifierletter" => some [.lm]
  | "lo" | "otherletter" => some [.lo]
  | "lc" | "casedletter" => some [.lu, .ll, .lt]
  | "l" | "letter" => some [.lu, .ll, .lt, .lm, .lo]
  | "mn" | "nonspacingmark" => some [.mn]
  | "mc" | "spacingmark" => some [.mc]
  | "me" | "enclosingmark" => some [.me]
  | "m" | "mark" | "combiningmark" => some [.mn, .mc, .me]
  | "nd" | "decimalnumber" | "digit" => some [.nd]
  | "nl" | "letternumber" => some [.nl]
  | "no" | "othernumber" => some [.no]
  | "n" | "number" => some [.nd, .nl, .no]
  | "pc" | "connectorpunctuation" => some [.pc]
  | "pd" | "dashpunctuation" => some [.pd]
  | "ps" | "openpunctuation" => some [.ps]
  | "pe" | "closepunctuation" => some [.pe]
  | "pi" | "initialpunctuation" => some [.pi]
  | "pf" | "finalpunctuation" => some [.pf]
  | "po" | "otherpunctuation" => some [.po]
  | "p" | "punctuation" | "punct" => some [.pc, .pd, .ps, .pe, .pi, .pf, .po]
  | "sm" | "mathsymbol" => some [.sm]
  | "sc" | "currencysymbol" => some [.sc]
  | "sk" | "modifiersymbol" => some [.sk]
  | "so" | "othersymbol" => some [.so]
  | "s" | "symbol" => some [.sm, .sc, .sk, .so]
  | "zs" | "spaceseparator" => some [.zs]
  | "zl" | "lineseparator" => some [.zl]
  | "zp" | "paragraphseparator" => some [.zp]
  | "z" | "separator" => some [.zs, .zl, .zp]
  | "cc" | "control" | "cntrl" => some [.cc]
  | "cf" | "format" => some [.cf]
  | "co" | "privateuse" => some [.co]
  | "cn" | "unassigned" => some [.cn]
  | "c" | "other" => some [.cc, .cf, .co, .cn]
  | _ => Option.none

/-- The set of some general categories, or one of three larger sets named beside them. -/
def general? (name : String) : Option CharSet :=
  match name with
  | "any" => some all
  | "ascii" => some ascii
  | "assigned" => some (compl (categories [.cn]))
  | _ => (categories? name).map categories

/-- The characters of a script alone. -/
def script? (name : Text) : Option CharSet := (Unicode.Script.named? name).map fun s => listed s.own

/-- The characters used in a script: its own ones and those that it shares. What some script shares
is not neutral. -/
def scriptUse? (name : Text) : Option CharSet :=
  (Unicode.Script.named? name).map fun s =>
    if s.isNeutral then diff (listed s.own)
    (unions (Unicode.Script.all.map fun t => listed t.shared))
    else union (listed s.own) (listed s.shared)

/-- The form in which names of properties are compared: small ASCII letters and digits without
blanks, hyphens, low lines and a leading `is`. -/
def propertyKey (name : Text) : Text :=
  let key (t : Text) :=
    (t.filter fun c => Unicode.isAscii c ∧ c ≠ ' ' ∧ c ≠ '-' ∧ c ≠ '_').map Char.toLower
  match name with
  | i :: s :: rest =>
    if i.toLower = 'i' ∧ s.toLower = 's' ∧ key rest ≠ ['c'] then key rest else key name
  | _ => key name

/-- The set of the characters with a property, or with one of its values. -/
def property? (name : Text) : Option CharSet :=
  match String.ofList name with
  | "alphabetic" | "alpha" => some alphabetic
  | "uppercase" | "upper" => some uppercase
  | "lowercase" | "lower" => some lowercase
  | "whitespace" | "wspace" | "space" => some spaces
  | key => general? key <|> script? name

/-- The set of the characters for which a property has a value. -/
def propertyValue? (property value : Text) : Option CharSet :=
  match String.ofList property with
  | "gc" | "generalcategory" => general? (String.ofList value)
  | "sc" | "script" => script? value
  | "scx" | "scriptextensions" => scriptUse? value
  | _ => Option.none

/-- The set of a property named alone, or named with a value after a colon or an equals sign. -/
def named? (name : Text) : Option CharSet :=
  let isSign (c : Char) := c = ':' || c = '='
  match name.dropWhile (!isSign ·) with
  | [] => property? (propertyKey name)
  | _ :: value => propertyValue? (propertyKey (name.takeWhile (!isSign ·))) (propertyKey value)

end CharSet

end PathTemplate
