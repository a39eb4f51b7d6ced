import PathTemplate.Expression.CharSet

/-!
# Syntax trees of expressions

* `Node` — an expression; `Assertion` — a condition on a place in the subject.
* `Node.width?` — how many characters every match takes, if that is fixed.
* `Node.isHard` — the expression looks around, commits itself or refers back, or is referred to.
* `Node.arrange` — marks the pieces whose first way of matching is the only one that counts.
-/

namespace PathTemplate

/-- A condition on a place in the subject. -/
inductive Assertion where
  | textStart | textEnd | lineStart | lineEnd
  | wordBoundary | noWordBoundary | wordStart | wordEnd
  | searchStart
  deriving DecidableEq, Repr

/-- Where a lookaround looks: at what follows, or at the `width` characters before. -/
inductive Direction where
  | ahead
  | behind (width : Nat)
  deriving DecidableEq, Repr

/-- An expression. A sequence ends with its last piece, and with `empty` if that piece is a sequence
itself. A `unit` matches in one step, in the first way its body can. A reference says whether the
group is `entered` wherever it stands: the whole match is, and so is a group that is still open
there. -/
inductive Node where
  | empty
  | char (c : Char) (ignoreCase : Bool)
  | oneOf (s : CharSet)
  | assertion (a : Assertion)
  | seq (a b : Node)
  | alt (a b : Node)
  | group (index : Nat) (body : Node)
  | loop (body : Node) (lo : Nat) (hi : Option Nat) (greedy : Bool)
  | look (direction : Direction) (positive : Bool) (body : Node)
  | atomic (body : Node)
  | backref (index : Nat) (entered : Bool)
  | present (index : Nat) (entered : Bool)
  | choice (condition a b : Node)
  | keep
  | unit (body : Node)
  deriving DecidableEq, Repr

namespace Node

def seqAll : List Node → Node
  | [] => empty
  | [a@(seq _ _)] => seq a empty
  | [a] => a
  | a :: rest => seq a (seqAll rest)

/-- The choice between some branches, the first one preferred. -/
def altAll : List Node → Node
  | [] => empty
  | [a] => a
  | a :: rest => alt a (altAll rest)

def groups : Node → List Nat
  | seq a b | alt a b => a.groups ++ b.groups
  | group i a => i :: a.groups
  | loop a _ _ _ | look _ _ a | atomic a | unit a => a.groups
  | choice c a b => c.groups ++ a.groups ++ b.groups
  | empty | char _ _ | oneOf _ | assertion _ | backref _ _ | present _ _ | keep => []

/-- The number of characters that every match takes, if that is known. -/
def width? : Node → Option Nat
  | empty | assertion _ | look _ _ _ | present _ _ | keep => some 0
  | char _ _ | oneOf _ => some 1
  | seq a b => do some ((← a.width?) + (← b.width?))
  | alt a b => do
    let m ← a.width?
    let n ← b.width?
    if m = n then some m else none
  | group _ a | atomic a | unit a => a.width?
  | loop a lo hi _ => if hi = some lo then a.width?.map (lo * ·) else none
  | choice c a b => do
    let k ← c.width?
    let m ← a.width?
    let n ← b.width?
    if k + m = n then some n else none
  | backref _ _ => none

/-- The assertions that look at the words around a place from one side, or at the search itself. -/
def isSided : Assertion → Bool
  | .wordStart | .wordEnd | .searchStart => true
  | _ => false

/-- A match may need more than the first way of every piece: there is a lookaround, an atomic group,
a reference, a conditional, or a group to which one of the references in `refs` points. -/
def isHard (refs : List Nat) : Node → Bool
  | empty | char _ _ | oneOf _ => false
  | assertion a => isSided a
  | seq a b | alt a b => a.isHard refs || b.isHard refs
  | group i a => refs.contains i || a.isHard refs
  | loop a _ _ _ | unit a => a.isHard refs
  | look _ _ _ | atomic _ | backref _ _ | present _ _ | choice _ _ _ | keep => true

/-- A piece that always takes the same number of characters and needs no more than its first way. -/
def isSettled (refs : List Nat) (n : Node) : Bool := !n.isHard refs && n.width?.isSome

/-- Marks a piece to be matched in one step; single characters and conditions always are. -/
def asUnit : Node → Node
  | empty => empty
  | char c i => char c i
  | oneOf s => oneOf s
  | assertion a => assertion a
  | n => unit n

/-- Where a piece stands in a sequence: outside any, among the settled pieces that start one, or
after these. -/
inductive Spot where
  | whole | lead | rest
  deriving DecidableEq

/-- Marks the pieces that are matched in one step. `all` says that what follows may need every way
of this one. In a sequence, the settled pieces at its start and at its end are marked; if only the
first way counts, so is all that follows the last hard piece. -/
def arrange (refs : List Nat) : (all : Bool) → Spot → Node → Node
  | all, spot, seq a b =>
    if spot = .whole && !all && !(seq a b).isHard refs then unit (seq a b)
    else if spot ≠ .rest && a.isSettled refs then seq a.asUnit (arrange refs all .lead b)
    else if !all && !(seq a b).isHard refs then unit (seq a b)
    else if all && (seq a b).isSettled refs then seq a.asUnit (arrange refs all .rest b)
    else seq (arrange refs true .whole a) (arrange refs all .rest b)
  | all, spot, n =>
    if (spot ≠ .whole && n.isSettled refs) || (!all && !n.isHard refs) then n.asUnit
    else
      let all := all || spot ≠ .whole
      match n with
      | alt a b => alt (arrange refs all .whole a) (arrange refs all .whole b)
      | group i a => group i (arrange refs all .whole a)
      | loop a lo hi greedy =>
        loop (arrange refs (all || ¬(lo = 0 ∧ hi = some 1)) .whole a) lo hi greedy
      | look d positive a => look d positive (arrange refs false .whole a)
      | atomic a => atomic (arrange refs false .whole a)
      | choice c a b =>
        choice (arrange refs all .whole c) (arrange refs all .whole a) (arrange refs all .whole b)
      | n => n

end Node

end PathTemplate
