import PathTemplate.Expression.Ways

/-!
# Matching with a budget

* `Outcome` — a match was found, there is none, or the budget for going back is spent.
* `Attempt.exactly`, `Attempt.upTo`, `Attempt.many` — repetition.
* `Node.attempt` — matches an expression and then what follows it; when that fails, goes back to the
  last choice. Going back costs one unit of the budget.
-/

namespace PathTemplate

/-- What became of an attempt, with the budget that is left. -/
inductive Outcome where
  | found (s : State) (budget : Nat)
  | failed (budget : Nat)
  | exhausted
  deriving DecidableEq, Repr

/-- Goes back. -/
def Outcome.fail : Nat → Outcome
  | 0 => exhausted
  | budget + 1 => failed budget

/-- Takes the other choice if the first one failed. -/
def Outcome.orElse (o : Outcome) (other : Nat → Outcome) : Outcome :=
  match o with
  | failed budget => other budget
  | o => o

/-- What follows: a way to go on from a state with a budget. -/
abbrev Onward := State → Nat → Outcome

namespace Attempt

/-- Of a further round and of stopping, the preferred choice first. -/
def prefer (greedy : Bool) (further stop : Onward) : Onward := fun s budget =>
  if greedy then (further s budget).orElse (stop s) else (stop s budget).orElse (further s)

variable (round : Onward → Onward) (greedy : Bool) (onward : Onward)

def exactly : Nat → Onward
  | 0 => onward
  | n + 1 => fun s budget => round (exactly n) s budget

def upTo : Nat → Onward
  | 0 => onward
  | n + 1 => prefer greedy (fun s budget => round (upTo n) s budget) onward

/-- Any number of rounds, each of which takes a character; `n` characters are left. -/
def many : Nat → Onward
  | 0 => onward
  | n + 1 =>
    prefer greedy
      (fun s budget =>
        round (fun t budget => if t.left < s.left then many n t budget else .fail budget) s budget)
      onward

def between (lo : Nat) (hi : Option Nat) : Onward :=
  exactly round
    (match hi with
    | some hi => upTo round greedy onward (hi - lo)
    | none => fun s budget => many round greedy onward s.left s budget) lo

end Attempt

def Onward.orFail (onward : Onward) (s : Option State) (budget : Nat) : Outcome :=
  match s with
  | some t => onward t budget
  | none => .fail budget

/-- Matches an expression from a state, and what follows from the state after it. -/
def Node.attempt : Node → Onward → Onward
  | empty, onward, s, budget => onward s budget
  | char c ignoreCase, onward, s, budget =>
    onward.orFail (s.advance? (matchesChar c ignoreCase)) budget
  | oneOf set, onward, s, budget => onward.orFail (s.advance? set.has) budget
  | assertion a, onward, s, budget => if a.holds s.pos then onward s budget else .fail budget
  | seq a b, onward, s, budget => a.attempt (b.attempt onward) s budget
  | alt a b, onward, s, budget => (a.attempt onward s budget).orElse (b.attempt onward s)
  | group i a, onward, s, budget => a.attempt (fun t => onward (t.capture i s.pos)) s budget
  | loop a lo hi greedy, onward, s, budget =>
    Attempt.between a.attempt greedy onward lo hi s budget
  | look d positive a, onward, s, budget =>
    let start := match d with
      | .ahead => some s.pos
      | .behind w => s.pos.back? w
    match start, positive with
    | some p, true => a.attempt (fun t => onward { t with pos := s.pos }) { s with pos := p } budget
    | none, true => .fail budget
    | some p, false =>
      match a.attempt Outcome.found { s with pos := p } budget with
      | .found _ budget => .fail budget
      | .failed budget => onward s budget
      | .exhausted => .exhausted
    | none, false => onward s budget
  | atomic a, onward, s, budget =>
    match a.attempt Outcome.found s budget with
    | .found t budget => onward t budget
    | o => o
  | backref i _, onward, s, budget =>
    onward.orFail (((s.text? i).bind s.pos.skip?).map fun p => { s with pos := p }) budget
  | present i entered, onward, s, budget =>
    if entered || (s.capture? i).isSome then onward s budget else .fail budget
  | choice c a b, onward, s, budget =>
    -- there is no going back into the condition once it holds
    match c.attempt .found s budget with
    | .found t budget => a.attempt onward t budget
    | .failed budget => b.attempt onward s budget
    | .exhausted => .exhausted
  | keep, onward, s, budget => onward s.keep budget
  | unit a, onward, s, budget =>
    onward.orFail ((a.ways { s with captures := [] }).head?.map (s.adopt a.groups)) budget

end PathTemplate
