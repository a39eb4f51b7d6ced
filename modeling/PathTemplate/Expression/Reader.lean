import PathTemplate.Expression.Bracket

/-!
# Reading expressions

* `count?`, `quantified` — how often a piece is repeated.
* `Piece`, `Level`, `Enclosure` — what was read inside the innermost open parenthesis, and what an
  open parenthesis is for.
* `Draft` — an expression being read; `Draft.step` — one more character, group or escape.
* `Expression.read` — the expression of a text.
-/

namespace PathTemplate

/-- An expression: its text, its tree, the number of its groups, and the groups it refers back
to. -/
structure Expression where
  source : Text
  root : Node
  groups : Nat
  referenced : List Nat
  deriving DecidableEq, Repr

namespace Expression

/-! ### repetition -/

/-- The lower bound of a repetition, zero if only an upper one is written. -/
def lower? : Text → Option (Nat × Text)
  | ',' :: t => some (0, ',' :: t)
  | t => decimal? t

/-- The upper bound of a repetition: the lower one before the closing brace, or what follows a
comma, which may be nothing. -/
def upper? (sw : Switches) (lo : Nat) : Text → Option (Option Nat × Text)
  | '}' :: t => some (some lo, '}' :: t)
  | ',' :: t =>
    match skipBlank sw t with
    | .error _ => none
    | .ok t =>
      match decimal? t with
      | some (hi, t) => some (some hi, t)
      | none => some (none, t)
  | _ => none

/-- The bounds `{lo}`, `{lo,}`, `{,hi}`, `{lo,hi}` or `{,}` after their opening brace, and what
follows them. Anything else is no repetition. -/
def bounds? (sw : Switches) (t : Text) : Option (Nat × Option Nat × Text) :=
  match skipBlank sw t with
  | .error _ => none
  | .ok t =>
    match lower? t with
    | none => none
    | some (lo, t) =>
      match skipBlank sw t with
      | .error _ => none
      | .ok t =>
        match upper? sw lo t with
        | none => none
        | some (hi, t) =>
          match skipBlank sw t with
          | .ok ('}' :: t) => some (lo, hi, t)
          | _ => none

/-- The repetition at the start of a text, and what follows it. -/
def count? (sw : Switches) : Text → Option (Nat × Option Nat × Text)
  | '?' :: t => some (0, some 1, t)
  | '*' :: t => some (0, none, t)
  | '+' :: t => some (1, none, t)
  | '{' :: t => bounds? sw t
  | _ => none

/-- A piece of a sequence: its tree, whether it can be repeated, and the branches it chooses
from. -/
structure Piece where
  node : Node
  repeatable : Bool
  choices : List Node

def Piece.plain (node : Node) (repeatable : Bool) : Piece := ⟨node, repeatable, [node]⟩

/-- Nothing at all. -/
def Piece.nothing : Piece := .plain .empty false

/-- A piece as a condition: a reference asks whether its group has a capture. -/
def Piece.asCondition (p : Piece) : Piece :=
  match p.node with
  | .backref i entered => .plain (.present i entered) true
  | _ => p

/-- A conditional: the first branch is for where the condition holds, the others for where it does
not. Where both are empty, only the condition is left. -/
def Piece.conditional (condition p : Piece) : Piece :=
  match p.choices with
  | [] => condition
  | a :: rest =>
    if a = .empty ∧ Node.altAll rest = .empty then condition
    else .plain (.choice condition.node a (.altAll rest)) true

def takeChar (c : Char) : Text → Bool × Text
  | [] => (false, [])
  | d :: rest => if d = c then (true, rest) else (false, d :: rest)

/-- A piece with the repetition that follows it: as many rounds as possible, as few with `?`; with
`+` the choice is final. -/
def quantified (sw : Switches) (p : Piece) (t : Text) : Except Fault (Piece × Text) :=
  match skipBlank sw t with
  | .error e => .error e
  | .ok t =>
    match count? sw t with
    | none => .ok (p, t)
    | some (lo, hi, t) =>
      if !p.repeatable then .error .nothingToRepeat
      else if hi.any (· < lo) then .error .emptyRange
      else
        match skipBlank sw t with
        | .error e => .error e
        | .ok t =>
          let (few, t) := takeChar '?' t
          let (final, t) := takeChar '+' t
          let loop := Node.loop p.node lo hi (few == sw.swapGreed)
          .ok (.plain (if final then .atomic loop else loop) true, t)

/-! ### drafts -/

/-- What was read inside an open parenthesis: the finished branches and the pieces of the current
one, both newest first. -/
structure Level where
  branches : List Piece := []
  pieces : List Piece := []

def Level.branch (l : Level) : Piece :=
  match l.pieces with
  | [] => .nothing
  | [p] => p
  | ps => .plain (.seqAll (ps.reverse.map Piece.node)) true

def Level.finish (l : Level) : Piece :=
  match l.branches with
  | [] => l.branch
  | bs =>
    let choices := (l.branch :: bs).reverse.map Piece.node
    ⟨.altAll choices, true, choices⟩

/-- What an open parenthesis is for. A plain group brings back the switches before it. -/
inductive Enclosure where
  | capture (index : Nat)
  | plain (switches : Switches)
  | atomic
  | look (ahead positive : Bool)
  | condition
  | choice (condition : Piece)

namespace Enclosure

def captures (index : Nat) : Enclosure → Bool
  | capture i => i = index
  | _ => false

def isCondition : Enclosure → Bool
  | condition => true
  | _ => false

end Enclosure

/-- An expression being read: the switches in force, the groups opened so far and their names, the
groups referred to, the innermost level and the levels around it. -/
structure Draft where
  switches : Switches := {}
  groups : Nat := 0
  names : List (Text × Nat) := []
  referenced : List Nat := []
  numbered : Bool := false
  level : Level := {}
  outer : List (Enclosure × Level) := []

def maxDepth : Nat := 63

namespace Draft

/-- Adds a piece; nothing at all is left out. -/
def push (d : Draft) (p : Piece) : Draft :=
  match p.node with
  | .empty => d
  | _ => { d with level := { d.level with pieces := p :: d.level.pieces } }

theorem exists_push_eq (d : Draft) (p : Piece) : ∃ l, d.push p = { d with level := l } := by
  unfold push
  split
  · exact ⟨d.level, rfl⟩
  · exact ⟨_, rfl⟩

def pushQuantified (d : Draft) (p : Piece) (t : Text) : Except Fault (Draft × Text) :=
  (quantified d.switches p t).map fun (p, t) => (d.push p, t)

def nextBranch (d : Draft) : Draft :=
  { d with level := ⟨d.level.branch :: d.level.branches, []⟩ }

/-- The innermost level as a piece. In a level without a choice, references by number and named
groups do not go together. -/
def finishLevel (d : Draft) : Except Fault Piece :=
  if d.level.branches.isEmpty && d.numbered && !d.names.isEmpty then .error .mixedReferences
  else .ok d.level.finish

/-- Opens a parenthesis. -/
def enter (d : Draft) (e : Enclosure) : Draft :=
  { d with level := {}, outer := (e, d.level) :: d.outer }

/-- Opens a group that captures. -/
def enterGroup (d : Draft) : Draft :=
  let d := { d with groups := d.groups + 1 }
  d.enter (.capture d.groups)

def enterNamed (d : Draft) (t : Text) : Except Fault (Draft × Text) :=
  match groupName? '>' t with
  | none => .error .badGroupName
  | some (name, t) =>
    let d := d.enterGroup
    .ok ({ d with names := (name, d.groups) :: d.names }, t)

/-- A lookaround. Behind a place, every branch must have a width, and branches of different widths
are looked for one after the other. -/
def lookaround (ahead positive : Bool) (p : Piece) : Except Fault Node :=
  if ahead then .ok (.look .ahead positive p.node)
  else
    let behind (n : Node) : Option Node := n.width?.map fun w => .look (.behind w) positive n
    match behind p.node with
    | some n => .ok n
    | none =>
      match if 1 < p.choices.length then p.choices.mapM behind else none with
      | some ns => .ok (if positive then .altAll ns else .seqAll ns)
      | none => .error .unevenLookbehind

def close (d : Draft) : Except Fault (Draft × Piece) :=
  match d.outer with
  | [] => .error .unopenedGroup
  | (e, level) :: outer =>
    match d.finishLevel with
    | .error e => .error e
    | .ok p =>
      let d := { d with level, outer }
      match e with
      | .capture i => .ok (d, .plain (.group i p.node) true)
      | .plain switches => .ok ({ d with switches }, p)
      | .atomic => .ok (d, .plain (.atomic p.node) true)
      | .look ahead positive => (lookaround ahead positive p).map fun n => (d, .plain n false)
      | .condition => .ok (d, p.asCondition)
      | .choice condition => .ok (d, condition.conditional p)

/-- The innermost parenthesis is that of a condition. -/
def inCondition (d : Draft) : Bool := d.outer.head?.any (·.1.isCondition)

/-- The number is that of the whole match, or of a group that is still open. -/
def hasEntered (d : Draft) (index : Nat) : Bool :=
  index = 0 || d.outer.any (·.1.captures index)

def refer (d : Draft) (index : Nat) : Except Fault (Draft × Piece) :=
  if d.groups < index then .error .unknownGroup
  else
    .ok ({ d with referenced := index :: d.referenced },
      .plain (.backref index (d.hasEntered index)) true)

/-- Refers to a group by its name, the last one of that name, or by a number in place of a name. -/
def referByName (d : Draft) (name : Text) : Except Fault (Draft × Piece) :=
  match d.names.lookup name with
  | some index => d.refer index
  | none =>
    match decimal? name with
    | some (index, []) => d.refer index
    | _ => .error .unknownGroup

/-- Follows a reference. Only those by number are at odds with named groups. -/
def follow (d : Draft) : Reference → Except Fault (Draft × Piece)
  | .number n => (d.refer n).map fun (d, p) => ({ d with numbered := true }, p)
  | .name name => d.referByName name
  | .back n => if d.groups < n then .error .unknownGroup else d.refer (d.groups - n)

/-- Flags after `(?`, up to the colon that opens a group or the parenthesis that ends them. `off`
says that flags are switched off; `previous` is the character before. -/
def switchesFrom : (sw : Switches) → (off : Bool) → (previous : Char) → Text →
    Except Fault (Switches × Bool × Text)
  | _, _, _, [] => .error .unclosedGroup
  | sw, off, previous, c :: t =>
    if sw.freeSpacing ∧ (c = ' ' ∨ c = '\t' ∨ c = '\r' ∨ c = '\n') then switchesFrom sw off c t
    else
      match c with
      | 'i' => switchesFrom { sw with ignoreCase := !off } off c t
      | 'm' => switchesFrom { sw with multiLine := !off } off c t
      | 's' => switchesFrom { sw with dotAll := !off } off c t
      | 'U' => switchesFrom { sw with swapGreed := !off } off c t
      | 'x' => switchesFrom { sw with freeSpacing := !off } off c t
      | 'u' => if off then .error .badSwitches else switchesFrom sw off c t
      | '-' => if off then .error .badSwitches else switchesFrom sw true c t
      | ')' => if previous = '?' ∨ previous = '-' then .error .badSwitches else .ok (sw, false, t)
      | ':' => if previous = '-' then .error .badSwitches else .ok (sw, true, t)
      | _ => .error .badSwitches

/-- What follows a condition. It can be left alone only if it asks for a group. -/
def choose (d : Draft) (condition : Piece) : Text → Except Fault (Draft × Text)
  | [] => .error .unclosedGroup
  | ')' :: t =>
    match condition.node with
    | .present _ _ => d.pushQuantified condition t
    | _ => .error .emptyConditional
  | t => .ok (d.enter (.choice condition), t)

/-- A conditional, from its condition on: a reference that is closed at once, or an expression. -/
def conditional (d : Draft) (t : Text) : Except Fault (Draft × Text) :=
  match Reference.asked? t with
  | .error e => .error e
  | .ok none => .ok (d.enter .condition, t)
  | .ok (some (r, t)) =>
    match d.follow r with
    | .error e => .error e
    | .ok (d, p) =>
      match skipBlank d.switches t with
      | .error e => .error e
      | .ok (')' :: t) => d.choose p.asCondition t
      | .ok _ => .error .unclosedGroup

/-- What an opening parenthesis is for, from the first character after it on. -/
def opening (d : Draft) : Text → Except Fault (Draft × Text)
  | '?' :: '=' :: t => .ok (d.enter (.look true true), t)
  | '?' :: '!' :: t => .ok (d.enter (.look true false), t)
  | '?' :: '<' :: '=' :: t => .ok (d.enter (.look false true), t)
  | '?' :: '<' :: '!' :: t => .ok (d.enter (.look false false), t)
  | '?' :: '<' :: t => d.enterNamed t
  | '?' :: 'P' :: '<' :: t => d.enterNamed t
  | '?' :: 'P' :: '=' :: t =>
    match groupName? ')' t with
    | none => .error .badGroupName
    | some (name, t) =>
      match d.referByName name with
      | .error e => .error e
      | .ok (d, p) => d.pushQuantified p t
  | '?' :: '>' :: t => .ok (d.enter .atomic, t)
  | '?' :: '(' :: t => d.conditional t
  | '?' :: t =>
    match switchesFrom d.switches false '?' t with
    | .error e => .error e
    | .ok (sw, true, t) => .ok ({ d.enter (.plain d.switches) with switches := sw }, t)
    | .ok (sw, false, t) => { d with switches := sw }.pushQuantified .nothing t
  | t => .ok (d.enterGroup, t)

def openGroup (d : Draft) (t : Text) : Except Fault (Draft × Text) :=
  if maxDepth ≤ d.outer.length then .error .tooDeep
  else
    match skipBlank d.switches t with
    | .error e => .error e
    | .ok t => d.opening t

/-- What follows a backslash. -/
def escaped (d : Draft) : Text → Except Fault (Draft × Text)
  | [] => .error .trailingBackslash
  | c :: t =>
    match Escape.read d.switches false c t with
    | .error e => .error e
    | .ok (.char c ignoreCase, t) => d.pushQuantified (.plain (.char c ignoreCase) true) t
    | .ok (.set s, t) => d.pushQuantified (.plain (.oneOf s) true) t
    | .ok (.assertion a repeatable, t) => d.pushQuantified (.plain (.assertion a) repeatable) t
    | .ok (.keep, t) => d.pushQuantified (.plain .keep true) t
    | .ok (.reference r, t) =>
      match d.follow r with
      | .error e => .error e
      | .ok (d, p) => d.pushQuantified p t

/-- One step of reading: what starts with `c`. -/
def step (d : Draft) (c : Char) (t : Text) : Except Fault (Draft × Text) :=
  match c with
  | '|' => .ok (d.nextBranch, t)
  | '(' => d.openGroup t
  | ')' =>
    match d.close with
    | .error e => .error e
    | .ok (d', p) => if d.inCondition then d'.choose p t else d'.pushQuantified p t
  | '\\' => d.escaped t
  | '[' =>
    match Bracket.read d.switches t with
    | .error e => .error e
    | .ok (s, t) => d.pushQuantified (.plain (.oneOf s) true) t
  | '.' => d.pushQuantified (.plain (.oneOf (if d.switches.dotAll then .all else .inLine)) true) t
  | '^' =>
    d.pushQuantified
      (.plain (.assertion (if d.switches.multiLine then .lineStart else .textStart)) false) t
  | '$' =>
    d.pushQuantified
      (.plain (.assertion (if d.switches.multiLine then .lineEnd else .textEnd)) false) t
  | '?' | '*' | '+' => .error .nothingToRepeat
  | c => d.pushQuantified (.plain (.char c d.switches.ignoreCase) true) t

end Draft

/-! ### every step takes a character -/

theorem length_of_lower? {t rest : Text} {lo : Nat} (h : lower? t = some (lo, rest)) :
    rest.length ≤ t.length := by
  unfold lower? at h
  split at h
  · cases h; exact Nat.le_refl _
  · exact Nat.le_of_lt (length_of_decimal? h)

theorem length_of_upper? {sw : Switches} {lo : Nat} {t rest : Text} {hi : Option Nat}
    (h : upper? sw lo t = some (hi, rest)) : rest.length ≤ t.length := by
  unfold upper? at h
  split at h
  · cases h; exact Nat.le_refl _
  · split at h
    · cases h
    · rename_i hs
      have l₁ := length_of_skipBlank hs
      split at h
      · rename_i hd
        have l₂ := length_of_decimal? hd
        cases h; simp; omega
      · cases h; simp; omega
  · cases h

theorem length_of_bounds? {sw : Switches} {t rest : Text} {lo : Nat} {hi : Option Nat}
    (h : bounds? sw t = some (lo, hi, rest)) : rest.length ≤ t.length := by
  unfold bounds? at h
  split at h
  · cases h
  · rename_i h₁
    have l₁ := length_of_skipBlank h₁
    split at h
    · cases h
    · rename_i h₂
      have l₂ := length_of_lower? h₂
      split at h
      · cases h
      · rename_i h₃
        have l₃ := length_of_skipBlank h₃
        split at h
        · cases h
        · rename_i h₄
          have l₄ := length_of_upper? h₄
          split at h
          · rename_i h₅
            have l₅ := length_of_skipBlank h₅
            cases h; simp at l₅; omega
          · cases h

theorem length_of_count? {sw : Switches} {t rest : Text} {lo : Nat} {hi : Option Nat}
    (h : count? sw t = some (lo, hi, rest)) : rest.length ≤ t.length := by
  unfold count? at h
  split at h
  case h_4 => exact Nat.le_succ_of_le (length_of_bounds? h)
  all_goals (cases h; try simp)

theorem length_takeChar_le (c : Char) (t : Text) : (takeChar c t).2.length ≤ t.length := by
  unfold takeChar
  split
  · simp
  · split <;> simp

theorem length_of_quantified {sw : Switches} {p q : Piece} {t rest : Text}
    (h : quantified sw p t = .ok (q, rest)) : rest.length ≤ t.length := by
  unfold quantified at h
  split at h
  · cases h
  · rename_i t₁ h₁
    have l₁ := length_of_skipBlank h₁
    split at h
    · cases h; exact l₁
    · rename_i t₂ h₂
      have l₂ := length_of_count? h₂
      split at h
      · cases h
      · split at h
        · cases h
        · split at h
          · cases h
          · rename_i t₃ h₃
            have l₃ := length_of_skipBlank h₃
            have l₄ := length_takeChar_le '?' t₃
            have l₅ := length_takeChar_le '+' (takeChar '?' t₃).2
            simp only [Except.ok.injEq, Prod.mk.injEq] at h
            obtain ⟨_, rfl⟩ := h
            omega

namespace Draft

theorem length_of_pushQuantified {d d' : Draft} {p : Piece} {t rest : Text}
    (h : d.pushQuantified p t = .ok (d', rest)) : rest.length ≤ t.length := by
  obtain ⟨⟨q, r⟩, h₁, h₂⟩ := exists_of_map_eq_ok h
  cases h₂
  exact length_of_quantified h₁

theorem length_of_enterNamed {d d' : Draft} {t rest : Text}
    (h : d.enterNamed t = .ok (d', rest)) : rest.length ≤ t.length := by
  unfold enterNamed at h
  split at h
  · cases h
  · rename_i hn
    cases h
    exact Nat.le_of_lt (length_of_groupName? hn)

theorem length_of_switchesFrom {sw sw' : Switches} {off group : Bool} {c : Char} {t rest : Text}
    (h : switchesFrom sw off c t = .ok (sw', group, rest)) : rest.length ≤ t.length := by
  induction t generalizing sw off c with
  | nil => cases h
  | cons a t ih =>
    unfold switchesFrom at h
    have key : ∀ {sw off c}, switchesFrom sw off c t = .ok (sw', group, rest) →
        rest.length ≤ t.length + 1 := fun h => Nat.le_succ_of_le (ih h)
    split at h
    · exact key h
    · split at h
      all_goals first
        | exact key h
        | (split at h <;> first | exact key h | (cases h; done) | (cases h; simp))
        | cases h

theorem length_of_choose {d d' : Draft} {p : Piece} {t rest : Text}
    (h : d.choose p t = .ok (d', rest)) : rest.length ≤ t.length := by
  unfold choose at h
  split at h
  · cases h
  · split at h
    · exact Nat.le_succ_of_le (length_of_pushQuantified h)
    · cases h
  · cases h
    exact Nat.le_refl _

theorem length_of_conditional {d d' : Draft} {t rest : Text}
    (h : d.conditional t = .ok (d', rest)) : rest.length ≤ t.length := by
  unfold conditional at h
  split at h
  · cases h
  · cases h
    exact Nat.le_refl _
  · rename_i ha
    have l₁ := Reference.length_of_asked? ha
    split at h
    · cases h
    · split at h
      · cases h
      · rename_i hs
        have l₂ := length_of_skipBlank hs
        have l₃ := length_of_choose h
        simp at l₂
        omega
      · cases h

theorem length_of_opening {d d' : Draft} {t rest : Text} (h : d.opening t = .ok (d', rest)) :
    rest.length ≤ t.length := by
  unfold opening at h
  split at h
  case h_5 => exact Nat.le_succ_of_le (Nat.le_succ_of_le (length_of_enterNamed h))
  case h_6 =>
    exact Nat.le_succ_of_le (Nat.le_succ_of_le (Nat.le_succ_of_le (length_of_enterNamed h)))
  case h_7 =>
    split at h
    · cases h
    · rename_i hn
      have := length_of_groupName? hn
      split at h
      · cases h
      · have := length_of_pushQuantified h
        simp; omega
  case h_9 => exact Nat.le_succ_of_le (Nat.le_succ_of_le (length_of_conditional h))
  case h_10 =>
    split at h
    · cases h
    · rename_i hs
      have := length_of_switchesFrom hs
      cases h; simp; omega
    · rename_i hs
      have := length_of_switchesFrom hs
      have := length_of_pushQuantified h
      simp; omega
  all_goals
    cases h
    first
      | exact Nat.le_refl _
      | (simp only [List.length_cons]; omega)

theorem length_of_openGroup {d d' : Draft} {t rest : Text}
    (h : d.openGroup t = .ok (d', rest)) : rest.length ≤ t.length := by
  unfold openGroup at h
  split at h
  · cases h
  · split at h
    · cases h
    · rename_i hs
      exact Nat.le_trans (length_of_opening h) (length_of_skipBlank hs)

theorem length_of_escaped {d d' : Draft} {t rest : Text}
    (h : d.escaped t = .ok (d', rest)) : rest.length ≤ t.length := by
  unfold escaped at h
  split at h
  · cases h
  · rename_i c t
    have key : ∀ {e : Escape} {t₁ : Text}, Escape.read d.switches false c t = .ok (e, t₁) →
        rest.length ≤ t₁.length → rest.length ≤ (c :: t).length := by
      intro e t₁ hr hl
      have := Escape.length_of_read hr
      simp; omega
    split at h
    · cases h
    · rename_i hr; exact key hr (length_of_pushQuantified h)
    · rename_i hr; exact key hr (length_of_pushQuantified h)
    · rename_i hr; exact key hr (length_of_pushQuantified h)
    · rename_i hr; exact key hr (length_of_pushQuantified h)
    · rename_i hr
      split at h
      · cases h
      · exact key hr (length_of_pushQuantified h)

theorem length_of_step {d d' : Draft} {c : Char} {t rest : Text}
    (h : d.step c t = .ok (d', rest)) : rest.length ≤ t.length := by
  unfold step at h
  split at h
  · cases h; exact Nat.le_refl _
  · exact length_of_openGroup h
  · split at h
    · cases h
    · split at h
      · exact length_of_choose h
      · exact length_of_pushQuantified h
  · exact length_of_escaped h
  · split at h
    · cases h
    · rename_i hb
      exact Nat.le_trans (length_of_pushQuantified h) (Bracket.length_of_read hb)
  all_goals first
    | exact length_of_pushQuantified h
    | cases h

/-- Reads the rest of an expression. -/
def readFrom (d : Draft) (t : Text) : Except Fault Draft :=
  match hs : skipBlank d.switches t with
  | .error e => .error e
  | .ok [] => .ok d
  | .ok (c :: rest) =>
    match h : d.step c rest with
    | .error e => .error e
    | .ok (d', rest') =>
      have h₁ := length_of_step h
      have h₂ := length_of_skipBlank hs
      have : rest'.length < t.length := by simp at h₂; omega
      readFrom d' rest'
termination_by t.length

end Draft

def read (t : Text) : Except Fault Expression :=
  match Draft.readFrom {} t with
  | .error e => .error e
  | .ok d =>
    if d.outer ≠ [] then .error .unclosedGroup
    else d.finishLevel.map fun p => ⟨t, p.node, d.groups, d.referenced⟩

end Expression

end PathTemplate
