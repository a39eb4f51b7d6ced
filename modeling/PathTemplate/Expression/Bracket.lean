import PathTemplate.Expression.Escape

/-!
# Bracketed classes

* `Bracket.Token` — a character as it stands, one that an escape stands for, or a set.
* `Bracket.scan` — the tokens of a class, up to the bracket that balances the first one.
* `Bracket.Open` — a class being read; `Bracket.assemble` — the set of some tokens.
* `Bracket.read` — both together.
-/

namespace PathTemplate.Expression.Bracket

/-- What a class is made of. -/
inductive Token where
  | raw (c : Char)
  | quoted (c : Char)
  | set (s : CharSet)
  deriving DecidableEq, Repr

/-- The tokens up to the bracket that closes the last of `depth + 1` open ones. -/
def scanFrom (sw : Switches) (depth : Nat) (t : Text) : Except Fault (List Token × Text) :=
  match t with
  | [] => .error .unclosedClass
  | '\\' :: [] => .error .trailingBackslash
  | '\\' :: c :: rest =>
    match h : Escape.read sw true c rest with
    | .error e => .error e
    | .ok (.char d _, after) =>
      have := Escape.length_of_read h
      (scanFrom sw depth after).map fun (ts, after) => (.quoted d :: ts, after)
    | .ok (.set s, after) =>
      have := Escape.length_of_read h
      (scanFrom sw depth after).map fun (ts, after) => (.set s :: ts, after)
    | .ok _ => .error .badClass
  | '[' :: rest =>
    (scanFrom sw (depth + 1) rest).map fun (ts, after) => (.raw '[' :: ts, after)
  | ']' :: rest =>
    match depth with
    | 0 => .ok ([.raw ']'], rest)
    | depth + 1 => (scanFrom sw depth rest).map fun (ts, after) => (.raw ']' :: ts, after)
  | c :: rest => (scanFrom sw depth rest).map fun (ts, after) => (.raw c :: ts, after)
termination_by t.length

/-- Takes the character `c` as it stands, if the text starts with it. -/
def takeRaw (c : Char) : Text → List Token × Text
  | [] => ([], [])
  | d :: rest => if d = c then ([.raw c], rest) else ([], d :: rest)

/-- The tokens of a class after its first bracket. A bracket that closes is a member at the
start. -/
def scan (sw : Switches) (t : Text) : Except Fault (List Token × Text) :=
  let (caret, t) := takeRaw '^' t
  let (bracket, t) := takeRaw ']' t
  (scanFrom sw 0 t).map fun (ts, after) => (caret ++ bracket ++ ts, after)

inductive Operator where
  | inter | diff | symmDiff
  deriving DecidableEq, Repr

def Operator.apply : Operator → CharSet → CharSet → CharSet
  | inter => CharSet.inter
  | diff => CharSet.diff
  | symmDiff => CharSet.symmDiff

/-- The operator that two equal characters stand for. -/
def Operator.ofChar? : Char → Option Operator
  | '&' => some inter
  | '-' => some diff
  | '~' => some symmDiff
  | _ => none

/-- A class being read: whether it is negated, the set and operator before the current members, and
the current members. -/
structure Open where
  negated : Bool
  left : Option (CharSet × Operator) := none
  members : CharSet := .none

namespace Open

def add (o : Open) (s : CharSet) : Open := { o with members := .union o.members s }

/-- The set read so far, the operator applied. -/
def combined (ignoreCase : Bool) (o : Open) : CharSet :=
  match o.left with
  | none => o.members
  | some (s, op) => op.apply (s.foldIf ignoreCase) (o.members.foldIf ignoreCase)

/-- The class after an operator. Operators group to the left. -/
def operator (ignoreCase : Bool) (o : Open) (op : Operator) : Open :=
  { o with left := some (o.combined ignoreCase, op), members := .none }

def close (ignoreCase : Bool) (o : Open) : CharSet :=
  .complIf o.negated (.foldIf ignoreCase (o.combined ignoreCase))

/-- A class that starts before these tokens, and how many of them belong to its start: a caret, and
then hyphens or one closing bracket, which are members. -/
def start (ts : List Token) : Open × Nat :=
  let (negated, ts) := match ts with
    | .raw '^' :: rest => (true, rest)
    | ts => (false, ts)
  let caret := if negated then 1 else 0
  let hyphens := (ts.takeWhile (· = .raw '-')).length
  if 0 < hyphens then ({ negated, members := .single '-' }, caret + hyphens)
  else match ts with
    | .raw ']' :: _ => ({ negated, members := .single ']' }, caret + 1)
    | _ => ({ negated }, caret)

end Open

/-- The characters of the tokens up to the next colon; a name has no others. -/
def rawName : List Token → Text × List Token
  | [] => ([], [])
  | .raw ':' :: rest => ([], .raw ':' :: rest)
  | .raw c :: rest => let (name, after) := rawName rest; (c :: name, after)
  | ts => ([], ts)

/-- The ASCII class `[:name:]` or `[:^name:]` whose first bracket stands before these tokens, and
how many of them it takes. -/
def posix? (ignoreCase : Bool) (ts : List Token) : Option (CharSet × Nat) :=
  match ts with
  | .raw ':' :: rest =>
    let (negated, rest) := match rest with
      | .raw '^' :: rest => (true, rest)
      | rest => (false, rest)
    match rawName rest with
    | (name, .raw ':' :: .raw ']' :: _) =>
      (CharSet.posix? name).map fun s =>
        (.complIf negated (.foldIf ignoreCase s), (if negated then 1 else 0) + name.length + 3)
    | _ => none
  | _ => none

/-- The member that starts with a token, and how many of the tokens after it belong to it: a set, a
character, or a range between two characters. -/
def member (t : Token) (rest : List Token) : Except Fault (CharSet × Nat) :=
  let isRange := match rest with
    | .raw '-' :: .raw ']' :: _ | .raw '-' :: .raw '-' :: _ => false
    | .raw '-' :: _ => true
    | _ => false
  match t, rest with
  | .set s, _ => if isRange then .error .badClass else .ok (s, 0)
  | .raw lo, _ :: .raw hi :: _ | .raw lo, _ :: .quoted hi :: _
  | .quoted lo, _ :: .raw hi :: _ | .quoted lo, _ :: .quoted hi :: _ =>
    if !isRange then .ok (.single lo, 0)
    else if lo ≤ hi then .ok (.range lo hi, 2) else .error .emptyRange
  | .raw c, _ | .quoted c, _ => if isRange then .error .badClass else .ok (.single c, 0)

/-- Reads tokens; the first `skip` of them were dealt with, and the classes in `outer` are open, the
innermost first. The tokens end with the bracket that closes the outermost class. -/
def assemble (ignoreCase : Bool) : (skip : Nat) → (outer : List Open) → List Token →
    Except Fault CharSet
  | _, _, [] => .error .unclosedClass
  | skip + 1, outer, _ :: rest => assemble ignoreCase skip outer rest
  | 0, [], _ :: rest =>
    let (o, n) := Open.start rest
    assemble ignoreCase n [o] rest
  | 0, o :: outer, t :: rest =>
    match t, rest with
    | .raw '[', rest =>
      match posix? ignoreCase rest with
      | some (s, n) => assemble ignoreCase n (o.add s :: outer) rest
      | none =>
        let (inner, n) := Open.start rest
        assemble ignoreCase n (inner :: o :: outer) rest
    | .raw ']', rest =>
      match outer with
      | [] => if rest = [] then .ok (o.close ignoreCase) else .error .badClass
      | next :: outer => assemble ignoreCase 0 (next.add (o.close ignoreCase) :: outer) rest
    | t, rest =>
      match operator? t rest with
      | some op => assemble ignoreCase 1 (o.operator ignoreCase op :: outer) rest
      | none =>
        match member t rest with
        | .error e => .error e
        | .ok (s, n) => assemble ignoreCase n (o.add s :: outer) rest
where
  /-- The operator that a token and the next one write together. -/
  operator? (t : Token) (rest : List Token) : Option Operator :=
    match t, rest with
    | .raw c, .raw d :: _ => if c = d then Operator.ofChar? c else none
    | _, _ => none

/-- The class whose first bracket stands before the text, and what follows it. -/
def read (sw : Switches) (t : Text) : Except Fault (CharSet × Text) :=
  match scan sw t with
  | .error e => .error e
  | .ok (ts, after) => (assemble sw.ignoreCase 0 [] (.raw '[' :: ts)).map (·, after)

theorem length_of_scanFrom {sw : Switches} {depth : Nat} {t after : Text} {ts : List Token}
    (h : scanFrom sw depth t = .ok (ts, after)) : after.length ≤ t.length := by
  fun_induction scanFrom sw depth t generalizing ts after with
  | case1 => cases h
  | case2 => cases h
  | case3 => cases h
  | case4 depth c rest d i r hr _ ih =>
    obtain ⟨⟨us, a⟩, h₁, h₂⟩ := exists_of_map_eq_ok h
    have h₃ := ih h₁
    have h₄ := Escape.length_of_read hr
    cases h₂; simp; omega
  | case5 depth c rest s r hr _ ih =>
    obtain ⟨⟨us, a⟩, h₁, h₂⟩ := exists_of_map_eq_ok h
    have h₃ := ih h₁
    have h₄ := Escape.length_of_read hr
    cases h₂; simp; omega
  | case6 => cases h
  | case7 depth rest ih =>
    obtain ⟨⟨us, a⟩, h₁, h₂⟩ := exists_of_map_eq_ok h
    have h₃ := ih h₁
    cases h₂; simp; omega
  | case8 rest => cases h; simp
  | case9 rest depth ih =>
    obtain ⟨⟨us, a⟩, h₁, h₂⟩ := exists_of_map_eq_ok h
    have h₃ := ih h₁
    cases h₂; simp; omega
  | case10 depth c rest _ _ _ _ ih =>
    obtain ⟨⟨us, a⟩, h₁, h₂⟩ := exists_of_map_eq_ok h
    have h₃ := ih h₁
    cases h₂; simp; omega

theorem length_takeRaw_le (c : Char) (t : Text) : (takeRaw c t).2.length ≤ t.length := by
  unfold takeRaw
  split
  · simp
  · split <;> simp

theorem length_of_read {sw : Switches} {t after : Text} {s : CharSet}
    (h : read sw t = .ok (s, after)) : after.length ≤ t.length := by
  unfold read at h
  split at h
  · cases h
  · rename_i hs
    obtain ⟨_, _, h⟩ := exists_of_map_eq_ok h
    cases h
    unfold scan at hs
    obtain ⟨⟨us, a⟩, h₁, h₂⟩ := exists_of_map_eq_ok hs
    have := length_of_scanFrom h₁
    cases h₂
    exact Nat.le_trans this (Nat.le_trans (length_takeRaw_le _ _) (length_takeRaw_le _ _))

end PathTemplate.Expression.Bracket
