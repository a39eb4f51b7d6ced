import PathTemplate.Expression.Node

/-!
# Lexical parts of expressions

* `Fault` — why a text is no expression.
* `Switches` — the inline flags in force at a place.
* `skipBlank` — leaves out comments, and blanks under free spacing.
* `Reference` — how a group is referred to.
* `Escape.read` — what a backslash and the characters after it stand for.
-/

namespace PathTemplate.Expression

/-- Why a text is no expression. -/
inductive Fault where
  | unclosedGroup | unopenedGroup | tooDeep | unclosedComment
  | nothingToRepeat | emptyRange
  | trailingBackslash | unknownEscape | badCodePoint | unknownProperty
  | unclosedClass | badClass
  | badGroupName | badSwitches | unknownGroup | mixedReferences
  | unevenLookbehind | emptyConditional
  deriving DecidableEq, Repr

/-- The inline flags `i`, `m`, `s`, `U` and `x`. -/
structure Switches where
  ignoreCase : Bool := false
  multiLine : Bool := false
  dotAll : Bool := false
  swapGreed : Bool := false
  freeSpacing : Bool := false
  deriving DecidableEq, Repr

/-- What is being left out: nothing, a line comment, or a comment in parentheses. -/
inductive Skipping where
  | nothing | line | remark

/-- Leaves out `(?#…)`, and under free spacing blanks and `#` up to the end of the line. -/
def skipFrom (freeSpacing : Bool) : Skipping → Text → Except Fault Text
  | .nothing, [] => .ok []
  | .nothing, '(' :: '?' :: '#' :: rest => skipFrom freeSpacing .remark rest
  | .nothing, c :: rest =>
    if freeSpacing ∧ c = '#' then skipFrom freeSpacing .line rest
    else if freeSpacing ∧ (c = ' ' ∨ c = '\t' ∨ c = '\r' ∨ c = '\n') then
      skipFrom freeSpacing .nothing rest
    else .ok (c :: rest)
  | .line, [] => .ok []
  | .line, c :: rest => skipFrom freeSpacing (if c = '\n' then .nothing else .line) rest
  | .remark, [] => .error .unclosedComment
  | .remark, ['\\'] => .error .unclosedComment
  | .remark, '\\' :: _ :: rest => skipFrom freeSpacing .remark rest
  | .remark, c :: rest => skipFrom freeSpacing (if c = ')' then .nothing else .remark) rest

/-- Leaves out what stands for nothing before the next part. -/
def skipBlank (sw : Switches) (t : Text) : Except Fault Text := skipFrom sw.freeSpacing .nothing t

theorem length_of_skipFrom {free : Bool} {k : Skipping} {t rest : Text}
    (h : skipFrom free k t = .ok rest) : rest.length ≤ t.length := by
  fun_induction skipFrom free k t with
  | case1 => cases h; simp
  | case2 r ih => have := ih h; simp; omega
  | case3 c r _ _ ih => have := ih h; simp; omega
  | case4 c r _ _ _ ih => have := ih h; simp; omega
  | case5 c r _ _ _ => cases h; simp
  | case6 => cases h; simp
  | case7 c r ih => have := ih h; simp; omega
  | case8 => cases h
  | case9 => cases h
  | case10 _ r ih => have := ih h; simp; omega
  | case11 c r _ _ ih => have := ih h; simp; omega

theorem length_of_skipBlank {sw : Switches} {t rest : Text} (h : skipBlank sw t = .ok rest) :
    rest.length ≤ t.length := length_of_skipFrom h

/-- The largest number that can stand in an expression. -/
def maxNumber : Nat := 18446744073709551615

/-- The decimal number at the start of a text, and what follows it. -/
def decimal? (t : Text) : Option (Nat × Text) :=
  let digits := t.takeWhile Unicode.isAsciiDigit
  let n := digits.foldl (fun n c => 10 * n + (c.toNat - 48)) 0
  if digits ≠ [] ∧ n ≤ maxNumber then some (n, t.dropWhile Unicode.isAsciiDigit) else none

theorem length_dropWhile_lt {p : Char → Bool} {t : Text} (h : t.takeWhile p ≠ []) :
    (t.dropWhile p).length < t.length := by
  have h₁ := congrArg List.length (List.takeWhile_append_dropWhile (p := p) (l := t))
  have h₂ := List.length_pos_iff.2 h
  simp only [List.length_append] at h₁
  omega

theorem length_of_dropWhile_eq {p : Char → Bool} {t rest : Text} (h : t.dropWhile p = rest) :
    rest.length ≤ t.length := h ▸ length_dropWhile_le p t

theorem length_of_decimal? {t rest : Text} {n : Nat} (h : decimal? t = some (n, rest)) :
    rest.length < t.length := by
  unfold decimal? at h
  simp only at h
  split at h
  · rename_i hd
    cases h
    exact length_dropWhile_lt hd.1
  · cases h

def isNameChar (c : Char) : Bool := Unicode.isAlphanumeric c || c = '_'

/-- The name at the start of a text, closed by `close`, and what follows that. -/
def groupName? (close : Char) (t : Text) : Option (Text × Text) :=
  match t.takeWhile isNameChar, t.dropWhile isNameChar with
  | [], _ => none
  | name, c :: rest => if c = close then some (name, rest) else none
  | _, [] => none

theorem length_of_groupName? {close : Char} {t name rest : Text}
    (h : groupName? close t = some (name, rest)) : rest.length < t.length := by
  unfold groupName? at h
  split at h
  · cases h
  · rename_i hd _
    have := length_of_dropWhile_eq hd
    split at h
    · cases h; exact this
    · cases h
  · cases h

/-- A reference to a group: by its number, by its name, or to the last but `n` of those before. -/
inductive Reference where
  | number (n : Nat)
  | name (name : Text)
  | back (n : Nat)
  deriving DecidableEq, Repr

namespace Reference

/-- A reference in front of the sign `close`. -/
def named (close : Char) (t : Text) : Except Fault (Reference × Text) :=
  match t with
  | '-' :: t =>
    match decimal? t with
    | some (n + 1, c :: after) =>
      if c = close then .ok (.back n, after) else .error .badGroupName
    | _ => .error .badGroupName
  | t =>
    match groupName? close t with
    | some (x, after) => .ok (.name x, after)
    | none => .error .badGroupName

/-- A reference in place of the condition of a conditional, if there is one. -/
def asked? : Text → Except Fault (Option (Reference × Text))
  | [] => .error .unclosedGroup
  | '<' :: t => (named '>' t).map some
  | '\'' :: t => (named '\'' t).map some
  | c :: t =>
    if Unicode.isAsciiDigit c then
      match decimal? (c :: t) with
      | some (n, after) => .ok (some (.number n, after))
      | none => .error .unknownGroup
    else .ok none

theorem length_of_named {close : Char} {t after : Text} {r : Reference}
    (h : named close t = .ok (r, after)) : after.length < t.length := by
  unfold named at h
  split at h
  · split at h
    · rename_i hd
      have := length_of_decimal? hd
      split at h
      · cases h
        simp at this ⊢
        omega
      · cases h
    · cases h
  · split at h
    · rename_i hn
      cases h
      exact length_of_groupName? hn
    · cases h

theorem length_of_asked? {t after : Text} {r : Reference}
    (h : asked? t = .ok (some (r, after))) : after.length < t.length := by
  unfold asked? at h
  split at h
  · cases h
  · obtain ⟨_, hn, h⟩ := exists_of_map_eq_ok h
    cases h
    exact Nat.lt_succ_of_lt (length_of_named hn)
  · obtain ⟨_, hn, h⟩ := exists_of_map_eq_ok h
    cases h
    exact Nat.lt_succ_of_lt (length_of_named hn)
  · split at h
    · split at h
      · rename_i hd
        cases h
        exact length_of_decimal? hd
      · cases h
    · cases h

end Reference

/-- What an escape stands for. -/
inductive Escape where
  | char (c : Char) (ignoreCase : Bool)
  | set (s : CharSet)
  | assertion (a : Assertion) (repeatable : Bool)
  | keep
  | reference (r : Reference)

namespace Escape

def codePoint (sw : Switches) (n : Nat) : Except Fault Escape :=
  if h : n.isValidChar then .ok (.char (Char.ofNatAux n h) sw.ignoreCase) else .error .badCodePoint

/-- A code point in `count` hexadecimal digits, or in up to eight of them between braces. -/
def hex (sw : Switches) (count : Nat) (t : Text) : Except Fault (Escape × Text) :=
  match if (t.take count).length = count then Hex.number? (t.take count) else none with
  | some n => (codePoint sw n).map (·, t.drop count)
  | none =>
    match t with
    | '{' :: rest =>
      let digits := rest.takeWhile fun c => (Hex.value? c).isSome
      match rest.dropWhile fun c => (Hex.value? c).isSome with
      | '}' :: after =>
        if digits = [] ∨ 8 < digits.length then .error .unknownEscape
        else (codePoint sw (Hex.number digits)).map (·, after)
      | _ => .error .unknownEscape
    | _ => .error .unknownEscape

/-- The set of a property: one letter, or a name between braces. -/
def property (sw : Switches) (negated : Bool) (t : Text) : Except Fault (Escape × Text) :=
  let set (name : Text) (after : Text) : Except Fault (Escape × Text) :=
    match CharSet.named? name with
    | some s => .ok (.set (.complIf negated (.foldIf sw.ignoreCase s)), after)
    | none => .error .unknownProperty
  match t with
  | [] => .error .unknownEscape
  | '{' :: rest =>
    match rest.dropWhile (· ≠ '}') with
    | _ :: after => set (rest.takeWhile (· ≠ '}')) after
    | [] => .error .unknownProperty
  | c :: after => set [c] after

/-- What the escapes that mean something outside classes only stand for. -/
def outside (c : Char) (t : Text) : Except Fault (Option (Escape × Text)) :=
  match c, t with
  | 'k', '<' :: rest => (Reference.named '>' rest).map fun (r, after) => some (.reference r, after)
  | 'k', '\'' :: rest =>
    (Reference.named '\'' rest).map fun (r, after) => some (.reference r, after)
  | 'k', _ => .error .badGroupName
  | 'A', t => .ok (some (.assertion .textStart false, t))
  | 'z', t => .ok (some (.assertion .textEnd false, t))
  | 'b', '{' :: _ => .error .unknownEscape
  | 'b', t => .ok (some (.assertion .wordBoundary false, t))
  | 'B', '{' :: _ => .error .unknownEscape
  | 'B', t => .ok (some (.assertion .noWordBoundary false, t))
  | '<', t => .ok (some (.assertion .wordStart false, t))
  | '>', t => .ok (some (.assertion .wordEnd false, t))
  | 'G', t => .ok (some (.assertion .searchStart true, t))
  | 'K', t => .ok (some (.keep, t))
  | _, _ => .ok none

/-- The letters that mean themselves after a backslash in a class, having a meaning outside. -/
def isPlainInClass (c : Char) : Bool := ['k', 'A', 'z', 'B', 'K', 'G'].contains c

/-- What a backslash and `c` stand for; `t` is what follows them. An ASCII letter without a meaning
is an error, any other character stands for itself. -/
def read (sw : Switches) (inClass : Bool) (c : Char) (t : Text) : Except Fault (Escape × Text) :=
  if Unicode.isAsciiDigit c then
    match decimal? (c :: t) with
    | some (n, after) => .ok (.reference (.number n), after)
    | none => .error .unknownGroup
  else
    match if inClass then .ok none else outside c t with
    | .error e => .error e
    | .ok (some found) => .ok found
    | .ok none =>
      match c with
      | 'd' => .ok (.set .digits, t)
      | 'D' => .ok (.set (.compl .digits), t)
      | 's' => .ok (.set .spaces, t)
      | 'S' => .ok (.set (.compl .spaces), t)
      | 'w' => .ok (.set .wordChars, t)
      | 'W' => .ok (.set (.compl .wordChars), t)
      | 'h' => .ok (.set .hexDigits, t)
      | 'H' => .ok (.set (.compl .hexDigits), t)
      | 'x' => hex sw 2 t
      | 'u' => hex sw 4 t
      | 'U' => hex sw 8 t
      | 'p' => property sw false t
      | 'P' => property sw true t
      | 'a' => .ok (.char '\x07' false, t)
      | 'b' => .ok (.char '\x08' false, t)
      | 'f' => .ok (.char '\x0c' false, t)
      | 'n' => .ok (.char '\n' false, t)
      | 'r' => .ok (.char '\r' false, t)
      | 't' => .ok (.char '\t' false, t)
      | 'v' => .ok (.char '\x0b' false, t)
      | 'e' => .ok (.char '\x1b' false, t)
      | c =>
        if Unicode.isAsciiLetter c && !(inClass && isPlainInClass c) then .error .unknownEscape
        else .ok (.char c false, t)

theorem length_of_hex {sw : Switches} {count : Nat} {t after : Text} {e : Escape}
    (h : hex sw count t = .ok (e, after)) : after.length ≤ t.length := by
  unfold hex at h
  split at h
  · obtain ⟨_, _, h⟩ := exists_of_map_eq_ok h
    cases h
    simp
  · split at h
    · split at h
      · rename_i hd
        have := length_of_dropWhile_eq hd
        simp only at h
        split at h
        · cases h
        · obtain ⟨_, _, h⟩ := exists_of_map_eq_ok h
          cases h
          simp at this ⊢
          omega
      · cases h
    · cases h

theorem length_of_property {sw : Switches} {negated : Bool} {t after : Text} {e : Escape}
    (h : property sw negated t = .ok (e, after)) : after.length ≤ t.length := by
  unfold property at h
  simp only at h
  split at h
  · cases h
  · split at h
    · rename_i hd
      have := length_of_dropWhile_eq hd
      split at h
      · cases h; simp at this ⊢; omega
      · cases h
    · cases h
  · split at h
    · cases h; simp
    · cases h

theorem length_of_outside {c : Char} {t after : Text} {e : Escape}
    (h : outside c t = .ok (some (e, after))) : after.length ≤ t.length := by
  unfold outside at h
  split at h
  case h_1 | h_2 =>
    obtain ⟨_, hn, h⟩ := exists_of_map_eq_ok h
    cases h
    exact Nat.le_succ_of_le (Nat.le_of_lt (Reference.length_of_named hn))
  all_goals (cases h; try simp)

theorem length_of_read {sw : Switches} {inClass : Bool} {c : Char} {t after : Text} {e : Escape}
    (h : read sw inClass c t = .ok (e, after)) : after.length ≤ t.length := by
  unfold read at h
  split at h
  · split at h
    · rename_i hd; cases h
      have := length_of_decimal? hd
      simp at this; omega
    · cases h
  · split at h
    · cases h
    · rename_i ho
      cases h
      split at ho
      · cases ho
      · exact length_of_outside ho
    · split at h
      all_goals first
        | exact length_of_hex h
        | exact length_of_property h
        | (cases h; exact Nat.le_refl _)
        | (split at h <;> cases h; exact Nat.le_refl _)

end Escape

end PathTemplate.Expression
