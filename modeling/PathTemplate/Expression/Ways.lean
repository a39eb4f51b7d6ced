import PathTemplate.Expression.Subject

/-!
# All ways to match

* `distinct` — the first of several states at each place.
* `Rounds.exactly`, `Rounds.upTo`, `Rounds.repeated` — the ways to repeat a body.
* `Node.ways` — the ways to match an expression from a place, the preferred ones first and one for
  each place at which a match can end. Without references back, what follows depends on that place
  only.
-/

namespace PathTemplate

/-- The first state at each place; `seen` holds what is left at the places seen before. -/
def distinctFrom (seen : List Nat) : List State → List State
  | [] => []
  | s :: rest =>
    if seen.contains s.left then distinctFrom seen rest
    else s :: distinctFrom (s.left :: seen) rest

def distinct (ss : List State) : List State := distinctFrom [] ss

namespace Rounds

variable (body : State → List State) (greedy : Bool)

/-- The order of going on and of stopping at a state. -/
def prefer (further : List State) (s : State) : List State :=
  if greedy then further ++ [s] else s :: further

def exactly : Nat → List State → List State
  | 0, ss => ss
  | n + 1, ss => exactly n (distinct (ss.flatMap body))

/-- Up to `n` rounds from each of some states. `seen` holds the places already reached, with the
number of rounds that were left there; the states come with the places seen after them. -/
def upTo : (n : Nat) → (seen : List (Nat × Nat)) → List State → List (Nat × Nat) × List State
  | 0, seen, ss => (seen, ss)
  | n + 1, seen, ss =>
    ss.foldl (fun (seen, out) s =>
      if seen.contains (n, s.left) then (seen, out)
      else
        let (seen, further) := upTo n ((n, s.left) :: seen) (body s)
        (seen, out ++ prefer greedy further s))
      (seen, [])

/-- Further rounds after some states at which a round ended. At each place only the first arrival
counts. A round that took nothing, at the place `origin` of the first round, is not repeated. -/
def more (origin : Nat) : (fuel : Nat) → (seen : List Nat) → List State → List Nat × List State
  | 0, seen, ss =>
    ss.foldl (fun (seen, out) s =>
      if seen.contains s.left then (seen, out) else (s.left :: seen, out ++ [s])) (seen, [])
  | fuel + 1, seen, ss =>
    ss.foldl (fun (seen, out) s =>
      if seen.contains s.left then (seen, out)
      else if s.left = origin then (s.left :: seen, out ++ [s])
      else
        let (seen, further) := more origin fuel (s.left :: seen) (body s)
        (seen, out ++ prefer greedy further s))
      (seen, [])

/-- One round or more. Every further round takes a character, so there are at most as many of them
as characters. -/
def repeated (s : State) : List State := (more body greedy s.left s.left [] (body s)).2

def between (lo : Nat) (hi : Option Nat) (s : State) : List State :=
  match hi with
  | some hi =>
    distinct ((exactly body lo [s]).flatMap fun t => (upTo body greedy (hi - lo) [] [t]).2)
  | none =>
    match lo with
    | 0 => distinct (prefer greedy (repeated body greedy s) s)
    | lo + 1 => distinct ((exactly body lo [s]).flatMap (repeated body greedy))

end Rounds

/-- The ways to match from a state, the preferred ones first, one for each place. -/
def Node.ways : Node → State → List State
  | empty, s => [s]
  | char c ignoreCase, s => (s.advance? (matchesChar c ignoreCase)).toList
  | oneOf set, s => (s.advance? set.has).toList
  | assertion a, s => if a.holds s.pos then [s] else []
  | seq a b, s => distinct ((a.ways s).flatMap b.ways)
  | alt a b, s => distinct (a.ways s ++ b.ways s)
  | group i a, s => (a.ways s).map fun t => t.capture i s.pos
  | loop a lo hi greedy, s => Rounds.between a.ways greedy lo hi s
  | look d positive a, s =>
    let start := match d with
      | .ahead => some s.pos
      | .behind w => s.pos.back? w
    let found := start.bind fun p => (a.ways { s with pos := p }).head?
    match found, positive with
    | some t, true => [{ t with pos := s.pos }]
    | none, false => [s]
    | _, _ => []
  | atomic a, s => (a.ways s).take 1
  | backref i _, s =>
    match (s.text? i).bind s.pos.skip? with
    | some p => [{ s with pos := p }]
    | none => []
  | present i entered, s => if entered || (s.capture? i).isSome then [s] else []
  | choice c a b, s =>
    match (c.ways s).head? with
    | some t => a.ways t
    | none => b.ways s
  | keep, s => [s.keep]
  | unit a, s => ((a.ways { s with captures := [] }).take 1).map (s.adopt a.groups)

end PathTemplate
