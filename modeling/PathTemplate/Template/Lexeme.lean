import PathTemplate.Unicode.Classes

/-!
# Lexemes of template text

* `Lexeme.Kind`, `Lexeme` — what a template text is made of; a lexeme knows where it starts.
* `SyntaxError` — why a text is no template, with the place of the offence.
* `Lexeme.next` — the lexeme at the start of a text, and the text after it.
* `Lexeme.ofText` — the lexemes of a text, ended by the only one of kind `finish`.
-/

namespace PathTemplate

inductive Lexeme.Kind where
  | opening | closing | question | asterisk | plus
  | semicolon | bang | atSign | comma
  | name | pattern | char | escaped | finish
  deriving DecidableEq, Repr

/-- How a kind is shown to the reader of an error. -/
def Lexeme.Kind.display : Lexeme.Kind → String
  | .opening => "\x7b" | .closing => "\x7d" | .question => "?" | .asterisk => "*" | .plus => "+"
  | .semicolon => ";" | .bang => "!" | .atSign => "@" | .comma => ","
  | .name => "NAME" | .pattern => "PATTERN" | .char => "CHAR" | .escaped => "ESCAPED"
  | .finish => "END"

/-- The kind of a character that is a lexeme by itself and means something. -/
def Lexeme.Kind.ofMark? : Char → Option Lexeme.Kind
  | '{' => some .opening
  | '}' => some .closing
  | '?' => some .question
  | '*' => some .asterisk
  | '+' => some .plus
  | ';' => some .semicolon
  | '!' => some .bang
  | '@' => some .atSign
  | ',' => some .comma
  | _ => none

/-- One lexeme: its kind, where it starts, and what it stands for. -/
structure Lexeme where
  kind : Lexeme.Kind
  index : Nat
  value : Text
  deriving DecidableEq, Repr

/-- Why a text is no template. Every cause knows the place of the offence. -/
inductive SyntaxError where
  | loneEscape (index : Nat)
  | missingName (index : Nat)
  | unterminatedQuote (index : Nat)
  | leadingQuestionMark (index : Nat)
  | capturingGroup (index : Nat)
  | unbalancedPattern (index : Nat)
  | missingPattern (index : Nat)
  | unexpected (kind : Lexeme.Kind) (index : Nat) (expected : Lexeme.Kind)
  | asteriskAfterParam (index : Nat) (name : Text)
  deriving DecidableEq, Repr

namespace SyntaxError

def index : SyntaxError → Nat
  | loneEscape i | missingName i | unterminatedQuote i | leadingQuestionMark i | capturingGroup i
  | unbalancedPattern i | missingPattern i | unexpected _ i _ | asteriskAfterParam i _ => i

def message : SyntaxError → String
  | loneEscape i => "unexpected end of pattern after escape character at " ++ toString i
  | missingName i => "missing parameter name at " ++ toString i
  | unterminatedQuote i => "unterminated quote at " ++ toString i
  | leadingQuestionMark i => "Pattern cannot start with \"?\" at " ++ toString i
  | capturingGroup i => "Capturing groups are not allowed at " ++ toString i
  | unbalancedPattern i => "unbalanced pattern at " ++ toString i
  | missingPattern i => "missing pattern at " ++ toString i
  | unexpected kind i expected =>
    "unexpected " ++ kind.display ++ " at " ++ toString i ++ ", expected " ++ expected.display
  | asteriskAfterParam i name =>
    "unexpected * at " ++ toString i ++ ", you probably want `/*` or `\x7b/:" ++
    String.ofList name ++
      "\x7d*`"

end SyntaxError

namespace Lexeme

/-- A quoted name up to its closing quote, and the text after it. A backslash makes the next
character part of the name. -/
def quotedName : Text → Option (Text × Text)
  | [] => none
  | '"' :: rest => some ([], rest)
  | ['\\'] => none
  | '\\' :: c :: rest => (quotedName rest).map fun (name, after) => (c :: name, after)
  | c :: rest => (quotedName rest).map fun (name, after) => (c :: name, after)

/-- What follows an opening parenthesis makes its group capture: everything but `?`, and a name. -/
def opensCapture : Text → Bool
  | '?' :: '<' :: '=' :: _ => false
  | '?' :: '<' :: '!' :: _ => false
  | '?' :: '<' :: _ => true
  | '?' :: 'P' :: '<' :: _ => true
  | '?' :: _ => false
  | _ => true

/-- A pattern up to the parenthesis that closes it, and the text after that. The pattern was opened
at `start`; `depth` of its own parentheses are open at `index`. -/
def patternBody (start : Nat) : (depth index : Nat) → Text → Except SyntaxError (Text × Text)
  | _, _, [] => .error (.unbalancedPattern start)
  | _, _, ['\\'] => .error (.unbalancedPattern start)
  | depth, index, '\\' :: c :: rest =>
    (patternBody start depth (index + 2) rest).map fun (p, after) => ('\\' :: c :: p, after)
  | 0, _, ')' :: rest => .ok ([], rest)
  | depth + 1, index, ')' :: rest =>
    (patternBody start depth (index + 1) rest).map fun (p, after) => (')' :: p, after)
  | depth, index, '(' :: rest =>
    if opensCapture rest then .error (.capturingGroup index)
    else (patternBody start (depth + 1) (index + 1) rest).map fun (p, after) => ('(' :: p, after)
  | depth, index, c :: rest =>
    (patternBody start depth (index + 1) rest).map fun (p, after) => (c :: p, after)

/-- The lexeme that starts with `c` at `index`, and the text after it. -/
def next (index : Nat) (c : Char) (rest : Text) : Except SyntaxError (Lexeme × Text) :=
  match Kind.ofMark? c with
  | some kind => .ok (⟨kind, index, [c]⟩, rest)
  | none =>
    match c, rest with
    | '\\', [] => .error (.loneEscape index)
    | '\\', d :: after => .ok (⟨.escaped, index, [d]⟩, after)
    | ':', '"' :: quoted =>
      match quotedName quoted with
      | none => .error (.unterminatedQuote (index + 1))
      | some ([], _) => .error (.missingName index)
      | some (name, after) => .ok (⟨.name, index, name⟩, after)
    | ':', rest =>
      match rest.takeWhile Unicode.isIdentifier with
      | [] => .error (.missingName index)
      | name => .ok (⟨.name, index, name⟩, rest.dropWhile Unicode.isIdentifier)
    | '(', '?' :: _ => .error (.leadingQuestionMark (index + 1))
    | '(', rest =>
      match patternBody index 0 (index + 1) rest with
      | .error e => .error e
      | .ok ([], _) => .error (.missingPattern index)
      | .ok (p, after) => .ok (⟨.pattern, index, p⟩, after)
    | c, rest => .ok (⟨.char, index, [c]⟩, rest)

/-! ### lexemes are not empty -/

theorem length_of_quotedName {t name after : Text} (h : quotedName t = some (name, after)) :
    after.length < t.length := by
  fun_induction quotedName t generalizing name after with
  | case1 => simp at h
  | case2 rest => simp_all
  | case3 => simp at h
  | case4 c rest ih =>
    obtain ⟨⟨n, a⟩, h₁, h₂⟩ := Option.map_eq_some_iff.1 h
    have := ih h₁
    simp_all; omega
  | case5 c rest _ _ _ ih =>
    obtain ⟨⟨n, a⟩, h₁, h₂⟩ := Option.map_eq_some_iff.1 h
    have := ih h₁
    simp_all; omega

theorem length_of_patternBody {start depth index : Nat} {t p after : Text}
    (h : patternBody start depth index t = .ok (p, after)) : after.length < t.length := by
  fun_induction patternBody start depth index t generalizing p after with
  | case1 => simp at h
  | case2 => simp at h
  | case3 depth index c rest ih =>
    obtain ⟨⟨q, a⟩, h₁, h₂⟩ := exists_of_map_eq_ok h
    have := ih h₁
    simp_all; omega
  | case4 => simp_all
  | case5 index rest depth ih =>
    obtain ⟨⟨q, a⟩, h₁, h₂⟩ := exists_of_map_eq_ok h
    have := ih h₁
    simp_all; omega
  | case6 => simp at h
  | case7 depth index rest _ ih =>
    obtain ⟨⟨q, a⟩, h₁, h₂⟩ := exists_of_map_eq_ok h
    have := ih h₁
    simp_all; omega
  | case8 depth index c rest _ _ _ _ _ ih =>
    obtain ⟨⟨q, a⟩, h₁, h₂⟩ := exists_of_map_eq_ok h
    have := ih h₁
    simp_all; omega

/-- What is left after a lexeme is shorter than the text the lexeme started. -/
theorem length_of_next {index : Nat} {c : Char} {rest after : Text} {x : Lexeme}
    (h : next index c rest = .ok (x, after)) : after.length ≤ rest.length := by
  unfold next at h
  split at h
  · simp at h; simp [h.2]
  · split at h
    · simp at h
    · simp at h; simp [← h.2]
    · split at h
      · simp at h
      · simp at h
      · rename_i hq; simp at h
        have := length_of_quotedName hq
        simp_all; omega
    · split at h
      · simp at h
      · simp at h
        rw [← h.2]; exact length_dropWhile_le _ _
    · simp at h
    · split at h
      · simp at h
      · simp at h
      · rename_i hp; simp at h
        have := length_of_patternBody hp
        simp_all; omega
    · simp at h; simp [h.2]

/-- The lexemes of a text that starts at `index` of the whole. -/
def scan (index : Nat) (t : Text) : Except SyntaxError (List Lexeme) :=
  match t with
  | [] => .ok [⟨.finish, index, []⟩]
  | c :: rest =>
    match h : next index c rest with
    | .error e => .error e
    | .ok (x, after) =>
      have := length_of_next h
      (scan (index + (rest.length + 1 - after.length)) after).map (x :: ·)
termination_by t.length

def ofText (t : Text) : Except SyntaxError (List Lexeme) := scan 0 t

end Lexeme

end PathTemplate
