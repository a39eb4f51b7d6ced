import PathTemplate.Proofs.Expression.Sense
import PathTemplate.Proofs.Unicode.Folding
import PathTemplate.Expression.Reader

/-!
# Reading expressions piece by piece

A text with a sense of its own has that sense wherever it stands in an expression.

* `Expression.isQuiet` — what follows a piece does not repeat it;
* `Draft.IsOpen` — a draft to which pieces can be added; `Draft.add` — the draft with some more
  pieces;
* `Expression.Denotes` — a text is read as pieces, which have a sense together;
* `Expression.DenotesOne` — a text is read as one piece, which may be repeated;
* `Denotes.append`, `Denotes.group`, `Denotes.capture`, `Denotes.absent`, `Denotes.presentOrEnd` —
  how texts are put together;
* `Denotes.read` — such a text on its own is an expression.
-/

namespace PathTemplate.Expression

/-! ### what follows a piece -/

/-- What follows a piece does not repeat it, and is no comment. -/
def isQuiet : Text → Bool
  | '?' :: _ | '*' :: _ | '+' :: _ | '{' :: _ | '(' :: '?' :: '#' :: _ => false
  | _ => true

theorem isQuiet_paren {t : Text} (h : isQuiet t = true) : isQuiet ('(' :: t) = true := by
  unfold isQuiet
  split <;> simp_all [isQuiet]

/-- Case may count or not; all other switches are off. -/
def caseSwitch (ignoreCase : Bool) : Switches := { ignoreCase }

@[simp] theorem caseSwitch_ignoreCase (ic : Bool) : (caseSwitch ic).ignoreCase = ic := rfl
@[simp] theorem caseSwitch_multiLine (ic : Bool) : (caseSwitch ic).multiLine = false := rfl
@[simp] theorem caseSwitch_dotAll (ic : Bool) : (caseSwitch ic).dotAll = false := rfl
@[simp] theorem caseSwitch_swapGreed (ic : Bool) : (caseSwitch ic).swapGreed = false := rfl
@[simp] theorem caseSwitch_freeSpacing (ic : Bool) : (caseSwitch ic).freeSpacing = false := rfl

variable {ic : Bool} {t rest : Text}

theorem skipBlank_of_isQuiet (h : isQuiet t = true) : skipBlank (caseSwitch ic) t = .ok t := by
  unfold skipBlank caseSwitch
  unfold skipFrom
  split <;> simp_all [isQuiet]

theorem count?_of_isQuiet (h : isQuiet t = true) : count? (caseSwitch ic) t = none := by
  unfold count?
  split <;> simp_all [isQuiet]

theorem quantified_of_isQuiet (p : Piece) (h : isQuiet t = true) :
    quantified (caseSwitch ic) p t = .ok (p, t) := by
  simp only [quantified, skipBlank_of_isQuiet h, count?_of_isQuiet h]

/-- The text `q` repeats a piece, at least `lo` and at most `hi` times. -/
def Repeats (q : Text) (lo : Nat) (hi : Option Nat) (greedy : Bool) : Prop :=
  ∀ ic p rest, p.repeatable = true → isQuiet rest = true →
    quantified (caseSwitch ic) p (q ++ rest) = .ok (.plain (.loop p.node lo hi greedy) true, rest)

theorem takeChar_of_isQuiet {c : Char} (hc : c = '?' ∨ c = '+') (h : isQuiet t = true) :
    takeChar c t = (false, t) := by
  unfold takeChar
  split
  · rfl
  · split
    · rename_i d rest hd
      subst hd
      rcases hc with rfl | rfl <;> cases h
    · rfl

theorem repeats_char {c : Char} {lo : Nat} {hi : Option Nat} (hhi : hi.any (· < lo) = false)
    (hcount : ∀ sw t, count? sw (c :: t) = some (lo, hi, t))
    (hc : ∀ t, skipBlank {} (c :: t) = .ok (c :: t)) : Repeats [c] lo hi true := by
  intro ic p rest hp hrest
  have hskip : skipBlank (caseSwitch ic) (c :: rest) = .ok (c :: rest) := hc rest
  simp [quantified, hskip, hcount, hp, hhi, skipBlank_of_isQuiet hrest,
    takeChar_of_isQuiet (.inl rfl) hrest, takeChar_of_isQuiet (.inr rfl) hrest]

theorem repeats_optional : Repeats ['?'] 0 (some 1) true :=
  repeats_char rfl (fun _ _ => rfl) fun t => by simp [skipBlank, skipFrom]

theorem repeats_any : Repeats ['*'] 0 none true :=
  repeats_char rfl (fun _ _ => rfl) fun t => by simp [skipBlank, skipFrom]

theorem repeats_some : Repeats ['+'] 1 none true :=
  repeats_char rfl (fun _ _ => rfl) fun t => by simp [skipBlank, skipFrom]

theorem repeats_few : Repeats ['+', '?'] 1 none false := by
  intro ic p rest hp hrest
  have hskip : skipBlank (caseSwitch ic) ('+' :: '?' :: rest) = .ok ('+' :: '?' :: rest) := by
    simp [skipBlank, skipFrom]
  have hskip' : skipBlank (caseSwitch ic) ('?' :: rest) = .ok ('?' :: rest) := by
    simp [skipBlank, skipFrom]
  have htake : takeChar '?' ('?' :: rest) = (true, rest) := rfl
  simp [quantified, hskip, count?, hp, hskip', htake, takeChar_of_isQuiet (.inr rfl) hrest]

/-! ### drafts -/

/-- There are references by number, and groups with names. -/
def Draft.isMixed (d : Draft) : Bool := d.numbered && !d.names.isEmpty

/-- A draft to which pieces can be added: `g` groups were opened, and `k` more parentheses may
be. -/
structure Draft.IsOpen (ic : Bool) (k g : Nat) (d : Draft) : Prop where
  switches : d.switches = caseSwitch ic
  groups : d.groups = g
  unmixed : d.isMixed = false
  room : d.outer.length + k ≤ maxDepth

namespace Draft

variable {d d' : Draft} {k g g' : Nat} {c : Char}

/-- The draft with some more pieces, and with `g` groups opened. -/
def add (d : Draft) (ps : List Piece) (g : Nat) : Draft :=
  { d with groups := g, level := { d.level with pieces := ps.reverse ++ d.level.pieces } }

theorem add_add (d : Draft) (ps qs : List Piece) (g g' : Nat) :
    (d.add ps g).add qs g' = d.add (ps ++ qs) g' := by
  simp [add]

theorem IsOpen.add (h : d.IsOpen ic k g) (ps : List Piece) (g' : Nat) :
    (d.add ps g').IsOpen ic k g' :=
  ⟨h.switches, rfl, h.unmixed, h.room⟩

theorem IsOpen.weaken (h : d.IsOpen ic k g) {k' : Nat} (hk : k' ≤ k) : d.IsOpen ic k' g :=
  ⟨h.switches, h.groups, h.unmixed, by have := h.room; omega⟩

/-- A level is finished, unless references by number and named groups are mixed. -/
theorem finishLevel_of_unmixed (h : d.isMixed = false) : d.finishLevel = .ok d.level.finish := by
  have hcond : (d.level.branches.isEmpty && d.numbered && !d.names.isEmpty) = false := by
    rw [Bool.and_assoc, show (d.numbered && !d.names.isEmpty) = false from h, Bool.and_false]
  rw [finishLevel, hcond]
  rfl

/-- Goes on reading after a step. -/
def resume : Except Fault (Draft × Text) → Except Fault Draft
  | .error e => .error e
  | .ok (d, t) => d.readFrom t

theorem readFrom_nil (d : Draft) : d.readFrom [] = .ok d := by
  have h : skipBlank d.switches [] = .ok [] := rfl
  rw [readFrom]
  split <;> simp_all

theorem readFrom_cons (hs : skipBlank d.switches (c :: t) = .ok (c :: t)) :
    d.readFrom (c :: t) = resume (d.step c t) := by
  rw [readFrom]
  split
  · simp_all
  · simp_all
  · rename_i hs'
    rw [hs] at hs'
    cases hs'
    split <;> simp_all [resume]

theorem IsOpen.readFrom_cons (h : d.IsOpen ic k g) (hq : isQuiet (c :: t) = true) :
    d.readFrom (c :: t) = resume (d.step c t) :=
  Draft.readFrom_cons (h.switches ▸ skipBlank_of_isQuiet hq)

theorem push_eq (d : Draft) {p : Piece} (hp : p.node ≠ .empty) : d.push p = d.add [p] d.groups := by
  unfold push add
  split
  · contradiction
  · simp

theorem IsOpen.resume_push (h : d.IsOpen ic k g) {p : Piece} (hp : p.node ≠ .empty)
    (hq : isQuiet t = true) : resume (d.pushQuantified p t) = (d.add [p] g).readFrom t := by
  rw [pushQuantified, h.switches, quantified_of_isQuiet p hq]
  show (d.push p).readFrom t = _
  rw [push_eq d hp, h.groups]

theorem IsOpen.resume_repeat (h : d.IsOpen ic k g) {p : Piece} (hp : p.repeatable = true) {q : Text}
    {lo : Nat} {hi : Option Nat} {greedy : Bool} (hq : Repeats q lo hi greedy)
    (ht : isQuiet t = true) :
    resume (d.pushQuantified p (q ++ t)) =
      (d.add [.plain (.loop p.node lo hi greedy) true] g).readFrom t := by
  rw [pushQuantified, h.switches, hq ic p t hp ht]
  show (d.push _).readFrom t = _
  rw [push_eq d (by simp [Piece.plain]), h.groups]

end Draft

/-! ### pieces with a sense -/

/-- The text is read as some pieces; their groups have the numbers after `g`, up to `g'`. -/
def Reads (ic : Bool) (k g g' : Nat) (x : Text) (ps : List Piece) : Prop :=
  ∀ (d : Draft) rest, d.IsOpen ic k g → isQuiet rest = true → d.readFrom (x ++ rest) =
  (d.add ps g').readFrom rest

/-- The text is read as one piece, which may be repeated. -/
def ReadsOne (ic : Bool) (k g g' : Nat) (x : Text) (p : Piece) : Prop :=
  ∀ (d : Draft) rest, d.IsOpen ic k g → d.readFrom (x ++ rest) = Draft.resume
  ((d.add [] g').pushQuantified p rest)

/-- Regular trees with this sense together.  With `once`, every group captures once at most, and the
groups have the numbers after `g`, up to `g'`. -/
structure HasSense (once : Bool) (g g' : Nat) (ns : List Node) (S : Sense) : Prop where
  proper : ∀ n ∈ ns, n ≠ .empty
  regular : ∀ n ∈ ns, n.isRegular = true
  numbered : once = true → Node.NumberedAll g g' ns
  matches_eq : Node.MatchesAll ns = S

/-- The branch of some pieces. -/
def branchOf (ps : List Piece) : Piece := Level.branch { pieces := ps.reverse }

/-- The text has a sense wherever it stands.  It opens the groups after `g`, up to `g'`, and `k`
parentheses inside each other; `solid` says that it can be repeated as a group. -/
structure Denotes (once solid ic : Bool) (k g g' : Nat) (x : Text) (S : Sense) : Prop where
  quiet : ∀ rest, isQuiet rest = true → isQuiet (x ++ rest) = true
  pieces : ∃ ps, Reads ic k g g' x ps ∧ HasSense once g g' (ps.map Piece.node) S ∧
    (solid = true → (branchOf ps).repeatable = true)

/-- The text has a sense wherever it stands, and what follows may repeat it. -/
structure DenotesOne (once ic : Bool) (k g g' : Nat) (x : Text) (S : Sense) : Prop where
  quiet : ∀ rest, isQuiet (x ++ rest) = true
  piece : ∃ p, ReadsOne ic k g g' x p ∧ HasSense once g g' [p.node] S ∧ p.repeatable = true

section

variable {once solid solid' : Bool} {k g m g' : Nat} {x y : Text} {R S : Sense} {ps qs : List Piece}
  {p : Piece} {ms ns : List Node}

theorem HasSense.append (h₁ : HasSense once g m ms R) (h₂ : HasSense once m g' ns S) :
    HasSense once g g' (ms ++ ns) (R.seq S) where
  proper n hn := (List.mem_append.1 hn).elim (h₁.proper n) (h₂.proper n)
  regular n hn := (List.mem_append.1 hn).elim (h₁.regular n) (h₂.regular n)
  numbered ho := (h₁.numbered ho).append (h₂.numbered ho)
  matches_eq := by rw [Node.matchesAll_append, h₁.matches_eq, h₂.matches_eq]

theorem hasSense_one {n : Node} (hp : n ≠ .empty) (hr : n.isRegular = true)
    (hn : once = true → g ≤ g' ∧ n.isLinear = true ∧ ∀ i ∈ n.groups, g < i ∧ i ≤ g')
    (hm : n.Matches = S) : HasSense once g g' [n] S where
  proper := by simpa using hp
  regular := by simpa using hr
  numbered ho := ⟨g', (hn ho).1, (hn ho).2.1, (hn ho).2.2, Nat.le_refl g'⟩
  matches_eq := by rw [Node.matchesAll_singleton, hm]

theorem HasSense.numbered_one {n : Node} (h : HasSense once g g' [n] S) (ho : once = true) :
    g ≤ g' ∧ n.isLinear = true ∧ ∀ i ∈ n.groups, g < i ∧ i ≤ g' := by
  have hn := h.numbered ho
  refine ⟨hn.le, ?_, by simpa using hn.groups⟩
  obtain ⟨m, -, hl, -, -⟩ := hn
  exact hl

theorem HasSense.matches_one {n : Node} (h : HasSense once g g' [n] S) : n.Matches = S := by
  rw [← Node.matchesAll_singleton, h.matches_eq]

theorem branchOf_cons_cons (p q : Piece) (ps : List Piece) :
    branchOf (p :: q :: ps) = .plain (.seqAll ((p :: q :: ps).map Piece.node)) true := by
  have h : ∃ a b l, (p :: q :: ps).reverse = a :: b :: l := by
    cases hl : (p :: q :: ps).reverse with
    | nil => simp at hl
    | cons a l =>
      cases l with
      | nil =>
        have := congrArg List.length hl
        simp at this
      | cons b l => exact ⟨a, b, l, rfl⟩
  obtain ⟨a, b, l, h⟩ := h
  rw [branchOf, h]
  show Piece.plain (.seqAll ((a :: b :: l).reverse.map Piece.node)) true = _
  rw [← h, List.reverse_reverse]

theorem branchOf_node (g g' : Nat) (ps : List Piece) (hs : ∀ n ∈ ps.map Piece.node, n ≠ .empty) :
    (branchOf ps).node.Matches = Node.MatchesAll (ps.map Piece.node) ∧
      ((∀ n ∈ ps.map Piece.node, n.isRegular = true) → (branchOf ps).node.isRegular = true) ∧
      (ps ≠ [] → (branchOf ps).node ≠ .empty) ∧
      (Node.NumberedAll g g' (ps.map Piece.node) →
        (branchOf ps).node.isLinear = true ∧ ∀ i ∈ (branchOf ps).node.groups, g < i ∧ i ≤ g') := by
  match ps with
  | [] =>
    exact ⟨rfl, fun _ => rfl, fun h => absurd rfl h,
      fun _ => ⟨rfl, by simp [branchOf, Level.branch, Piece.nothing, Piece.plain, Node.groups]⟩⟩
  | [p] =>
    refine ⟨(Node.matchesAll_singleton _).symm, by simp [branchOf, Level.branch], fun _ => ?_,
      fun h => ?_⟩
    · simpa [branchOf, Level.branch] using hs
    · have hg := h.groups
      obtain ⟨m, -, hl, -, -⟩ := h
      exact ⟨hl, by simpa [branchOf, Level.branch] using hg⟩
  | p :: q :: ps =>
    rw [branchOf_cons_cons]
    refine ⟨Node.matches_seqAll _, fun h => Node.isRegular_seqAll h, fun _ => ?_,
      fun h => ⟨h.isLinear_seqAll, ?_⟩⟩
    · simp [Piece.plain, Node.seqAll]
    · show ∀ i ∈ (Node.seqAll _).groups, _
      rw [Node.groups_seqAll]
      exact h.groups

theorem HasSense.branch (h : HasSense once g g' (ps.map Piece.node) S) (hps : ps ≠ []) :
    HasSense once g g' [(branchOf ps).node] S := by
  obtain ⟨hm, hr, hp, hn⟩ := branchOf_node g g' ps h.proper
  exact hasSense_one (hp hps) (hr h.regular) (fun ho => ⟨(h.numbered ho).le, hn (h.numbered ho)⟩)
    (hm.trans h.matches_eq)

theorem ne_nil_of_repeatable (h : (branchOf ps).repeatable = true) : ps ≠ [] := by
  rintro rfl
  simp [branchOf, Level.branch, Piece.nothing, Piece.plain] at h

theorem branchOf_append_repeatable
    (h : (branchOf ps).repeatable = true ∨ (branchOf qs).repeatable = true) :
    (branchOf (ps ++ qs)).repeatable = true := by
  match ps, qs with
  | [], qs => exact h.resolve_left fun h => ne_nil_of_repeatable h rfl
  | [p], [] => exact h.resolve_right fun h => ne_nil_of_repeatable h rfl
  | [p], q :: qs => exact congrArg Piece.repeatable (branchOf_cons_cons p q qs)
  | p :: q :: ps, qs => exact congrArg Piece.repeatable (branchOf_cons_cons p q (ps ++ qs))

/-! ### putting texts together -/

theorem reads_nil : Reads ic k g g [] [] := fun d rest hd _ => by simp [Draft.add, ← hd.groups]

theorem denotes_nil : Denotes once false ic k g g [] .nothing where
  quiet _ h := h
  pieces := ⟨[], reads_nil, ⟨by simp, by simp, fun _ => Nat.le_refl g, rfl⟩, by simp⟩

theorem Reads.append (hx : Reads ic k g m x ps) (hy : Reads ic k m g' y qs)
    (hquiet : ∀ rest, isQuiet rest = true → isQuiet (y ++ rest) = true) :
    Reads ic k g g' (x ++ y) (ps ++ qs) := by
  intro d rest hd hrest
  rw [List.append_assoc, hx d _ hd (hquiet _ hrest), hy _ _ (hd.add ps m) hrest, Draft.add_add]

theorem Denotes.append (hx : Denotes once solid ic k g m x R)
    (hy : Denotes once solid' ic k m g' y S) :
    Denotes once (solid || solid') ic k g g' (x ++ y) (R.seq S) where
  quiet rest h := by
    rw [List.append_assoc]
    exact hx.quiet _ (hy.quiet _ h)
  pieces := by
    obtain ⟨ps, hps, hpsS, hpsr⟩ := hx.pieces
    obtain ⟨qs, hqs, hqsS, hqsr⟩ := hy.pieces
    refine ⟨ps ++ qs, hps.append hqs hy.quiet, ?_, fun h => branchOf_append_repeatable ?_⟩
    · rw [List.map_append]
      exact hpsS.append hqsS
    · rw [Bool.or_eq_true] at h
      exact h.imp hpsr hqsr

theorem Reads.weaken (h : Reads ic k g g' x ps) {k' : Nat} (hk : k ≤ k') : Reads ic k' g g' x ps :=
  fun d rest hd hrest => h d rest (hd.weaken hk) hrest

theorem Denotes.weaken (h : Denotes once solid ic k g g' x S) {k' : Nat} (hk : k ≤ k') :
    Denotes once solid ic k' g g' x S where
  quiet := h.quiet
  pieces := by
    obtain ⟨ps, hps, hS, hr⟩ := h.pieces
    exact ⟨ps, hps.weaken hk, hS, hr⟩

theorem Denotes.unsolid (h : Denotes once solid ic k g g' x S) :
    Denotes once false ic k g g' x S where
  quiet := h.quiet
  pieces := by
    obtain ⟨ps, hps, hS, -⟩ := h.pieces
    exact ⟨ps, hps, hS, fun h => by cases h⟩

theorem Denotes.congr (h : Denotes once solid ic k g g' x R) (hRS : R = S) :
    Denotes once solid ic k g g' x S :=
  hRS ▸ h

theorem ReadsOne.reads (h : ReadsOne ic k g g' x p) (hp : p.node ≠ .empty) :
    Reads ic k g g' x [p] := by
  intro d rest hd hrest
  rw [h d rest hd, (hd.add [] g').resume_push hp hrest, Draft.add_add]
  rfl

theorem ReadsOne.repeated (h : ReadsOne ic k g g' x p) (hp : p.repeatable = true) {q : Text}
    {lo : Nat} {hi : Option Nat} {greedy : Bool} (hq : Repeats q lo hi greedy) :
    Reads ic k g g' (x ++ q) [.plain (.loop p.node lo hi greedy) true] := by
  intro d rest hd hrest
  rw [List.append_assoc, h d _ hd, (hd.add [] g').resume_repeat hp hq hrest, Draft.add_add]
  rfl

theorem DenotesOne.denotes (h : DenotesOne once ic k g g' x S) :
    Denotes once true ic k g g' x S where
  quiet rest _ := h.quiet rest
  pieces := by
    obtain ⟨p, hread, hS, hp⟩ := h.piece
    exact ⟨[p], hread.reads (hS.proper _ (by simp)), hS, fun _ => hp⟩

theorem DenotesOne.repeated (h : DenotesOne once ic k g g' x S) {q : Text} {lo : Nat}
    {hi : Option Nat} {greedy : Bool} (hq : Repeats q lo hi greedy)
    (hc : once = true → g = g' ∨ lo ≤ 1 ∧ hi = some 1) :
    Denotes once true ic k g g' (x ++ q) (S.rounds lo hi) where
  quiet rest _ := by
    rw [List.append_assoc]
    exact h.quiet _
  pieces := by
    obtain ⟨p, hread, hS, hp⟩ := h.piece
    refine ⟨[.plain (.loop p.node lo hi greedy) true], hread.repeated hp hq, ?_, fun _ => rfl⟩
    refine hasSense_one (by simp [Piece.plain]) (hS.regular p.node (by simp)) (fun ho => ?_) ?_
    · obtain ⟨hle, hl, hg⟩ := hS.numbered_one ho
      refine ⟨hle, ?_, hg⟩
      show (Node.loop p.node lo hi greedy).isLinear = true
      rcases hc ho with rfl | ⟨hlo, hhi⟩
      · have hnil : p.node.groups = [] := by
          rw [List.eq_nil_iff_forall_not_mem]
          intro i hi
          have := hg i hi
          omega
        simp [Node.isLinear, hl, hnil]
      · simp [Node.isLinear, hl, hlo, hhi]
    · show Sense.rounds lo hi p.node.Matches = _
      rw [hS.matches_one]

/-! ### parentheses -/

theorem Draft.IsOpen.enter {d : Draft} (h : d.IsOpen ic (k + 1) g) (e : Enclosure) :
    (d.enter e).IsOpen ic k g :=
  ⟨h.switches, h.groups, h.unmixed, by have := h.room; simp [Draft.enter]; omega⟩

theorem Draft.IsOpen.finishLevel {d : Draft} (h : d.isMixed = false) (e : Enclosure)
    (ps : List Piece) (g' : Nat) : ((d.enter e).add ps g').finishLevel = .ok (branchOf ps) := by
  rw [Draft.finishLevel_of_unmixed (d := (d.enter e).add ps g') h]
  simp [Draft.enter, Draft.add, Level.finish, branchOf]

theorem Draft.IsOpen.close {d : Draft} (h : d.IsOpen ic (k + 1) g) (ps : List Piece) (g' i : Nat) :
    ((d.enter (.plain d.switches)).add ps g').close = .ok (d.add [] g', branchOf ps) ∧
    ((d.enter (.capture i)).add ps g').close =
      .ok (d.add [] g', .plain (.group i (branchOf ps).node) true) ∧
    ((d.enter (.look true false)).add ps g').close =
      .ok (d.add [] g', .plain (.look .ahead false (branchOf ps).node) false) := by
  have hclose : ∀ e, ((d.enter e).add ps g').outer = (e, d.level) :: d.outer := fun _ => rfl
  refine ⟨?_, ?_, ?_⟩
  all_goals
    simp only [Draft.close, hclose, Draft.IsOpen.finishLevel h.unmixed, Draft.lookaround, if_true,
      Except.map]
    rfl

theorem Draft.IsOpen.openGroup {d : Draft} (h : d.IsOpen ic (k + 1) g) (t : Text) :
    d.openGroup ('?' :: ':' :: t) = .ok (d.enter (.plain d.switches), t) ∧
      d.openGroup ('?' :: '!' :: t) = .ok (d.enter (.look true false), t) ∧
      d.openGroup ('?' :: '=' :: t) = .ok (d.enter (.look true true), t) := by
  have hroom : ¬maxDepth ≤ d.outer.length := by
    have := h.room
    omega
  have hskip : ∀ t, skipBlank d.switches ('?' :: t) = .ok ('?' :: t) := fun t => by
    simp [skipBlank, skipFrom, h.switches]
  refine ⟨?_, ?_, ?_⟩
  · simp only [Draft.openGroup, if_neg hroom, hskip, Draft.opening]
    simp [Draft.switchesFrom, h.switches, Draft.enter]
  · simp only [Draft.openGroup, if_neg hroom, hskip, Draft.opening]
  · simp only [Draft.openGroup, if_neg hroom, hskip, Draft.opening]

theorem Draft.IsOpen.openCapture {d : Draft} (h : d.IsOpen ic (k + 1) g) (hq : isQuiet t = true) :
    d.openGroup t = .ok (d.enterGroup, t) := by
  have hroom : ¬maxDepth ≤ d.outer.length := by
    have := h.room
    omega
  simp only [Draft.openGroup, if_neg hroom, h.switches, skipBlank_of_isQuiet hq]
  unfold Draft.opening
  split <;> simp_all [isQuiet]

/-- A parenthesis is closed that is not that of a condition. -/
theorem Draft.step_close {d d' : Draft} (hc : d.inCondition = false)
    (hclose : d.close = .ok (d', p)) (t : Text) : d.step ')' t = d'.pushQuantified p t := by
  simp [Draft.step, hclose, hc]

theorem Draft.IsOpen.readFrom_close {d d' : Draft} (hd : d.IsOpen ic k g)
    (hps : Reads ic k g g' x ps) (hc : (d.add ps g').inCondition = false)
    (hclose : (d.add ps g').close = .ok (d', p)) (rest : Text) :
    d.readFrom (x ++ ')' :: rest) = Draft.resume (d'.pushQuantified p rest) := by
  have hstep := Draft.step_close hc hclose rest
  rw [hps d _ hd rfl, (hd.add ps g').readFrom_cons rfl, hstep]

theorem Reads.group (h : Reads ic k g g' x ps) :
    ReadsOne ic (k + 1) g g' (['(', '?', ':'] ++ x ++ [')']) (branchOf ps) := by
  intro d rest hd
  have htext : ['(', '?', ':'] ++ x ++ [')'] ++ rest = '(' :: '?' :: ':' :: (x ++ ')' :: rest) := by
    simp
  rw [htext, hd.readFrom_cons rfl]
  show Draft.resume (d.openGroup _) = _
  rw [(hd.openGroup _).1]
  exact (hd.enter _).readFrom_close h rfl (hd.close ps g' 0).1 rest

theorem Denotes.group (h : Denotes once true ic k g g' x S) :
    DenotesOne once ic (k + 1) g g' (['(', '?', ':'] ++ x ++ [')']) S where
  quiet _ := rfl
  piece := by
    obtain ⟨ps, hps, hS, hr⟩ := h.pieces
    exact ⟨branchOf ps, hps.group, hS.branch (ne_nil_of_repeatable (hr rfl)), hr rfl⟩

/-- A group in which there is nothing is no piece. -/
theorem Reads.emptyGroup (h : Reads ic k g g' x []) :
    Reads ic (k + 1) g g' (['(', '?', ':'] ++ x ++ [')']) [] := by
  intro d rest hd hrest
  rw [h.group d rest hd, Draft.pushQuantified, (hd.add [] g').switches,
    quantified_of_isQuiet _ hrest]
  rfl

/-- A group that does not capture and that nothing repeats may be empty. -/
theorem Denotes.plainGroup (h : Denotes once solid ic k g g' x S) :
    Denotes once solid ic (k + 1) g g' (['(', '?', ':'] ++ x ++ [')']) S where
  quiet _ _ := rfl
  pieces := by
    obtain ⟨ps, hps, hS, hr⟩ := h.pieces
    by_cases hne : ps = []
    · subst hne
      exact ⟨[], hps.emptyGroup, hS, hr⟩
    · exact ⟨[branchOf ps], hps.group.reads ((hS.branch hne).proper _ (by simp)), hS.branch hne, hr⟩

theorem Reads.capture (h : Reads ic k (g + 1) g' x ps)
    (hquiet : ∀ rest, isQuiet rest = true → isQuiet (x ++ rest) = true) :
    ReadsOne ic (k + 1) g g' (['('] ++ x ++ [')'])
      (.plain (.group (g + 1) (branchOf ps).node) true) := by
  intro d rest hd
  have htext : ['('] ++ x ++ [')'] ++ rest = '(' :: (x ++ ')' :: rest) := by simp
  have hq := hquiet (')' :: rest) rfl
  have hd' : (Draft.mk d.switches (d.groups + 1) d.names d.referenced d.numbered d.level
      d.outer).IsOpen ic (k + 1) (g + 1) := ⟨hd.switches, by rw [← hd.groups], hd.unmixed, hd.room⟩
  rw [htext, hd.readFrom_cons (isQuiet_paren hq)]
  show Draft.resume (d.openGroup _) = _
  rw [hd.openCapture hq]
  have hc := (hd'.close ps g' (g + 1)).2.1
  have hi : d.groups + 1 = g + 1 := by rw [hd.groups]
  show Draft.readFrom ((Draft.mk d.switches (d.groups + 1) d.names d.referenced d.numbered d.level
        d.outer).enter (.capture (d.groups + 1))) _ = _
  rw [hi] at hc ⊢
  rw [hi] at hd'
  exact (hd'.enter _).readFrom_close h rfl hc rest

/-- A group that captures may be empty. -/
theorem Denotes.capture (h : Denotes once solid ic k (g + 1) g' x S) (hg : once = true → g < g') :
    DenotesOne once ic (k + 1) g g' (['('] ++ x ++ [')']) (S.captured (g + 1)) where
  quiet rest := by simpa using isQuiet_paren (h.quiet (')' :: rest) rfl)
  piece := by
    obtain ⟨ps, hps, hS, -⟩ := h.pieces
    obtain ⟨hm, hr, -, hn⟩ := branchOf_node (g + 1) g' ps hS.proper
    refine ⟨.plain (.group (g + 1) (branchOf ps).node) true, hps.capture h.quiet, ?_, rfl⟩
    refine hasSense_one (by simp [Piece.plain]) (hr hS.regular) (fun ho => ?_) ?_
    · obtain ⟨hl, hgs⟩ := hn (hS.numbered ho)
      refine ⟨Nat.le_of_lt (hg ho), hl, fun i hi => ?_⟩
      have := hg ho
      rcases List.mem_cons.1 hi with rfl | hi
      · omega
      · have := hgs i hi
        omega
    · show Sense.captured (g + 1) (branchOf ps).node.Matches = _
      rw [hm, hS.matches_eq]

theorem Reads.absent (h : Reads ic k g g' x ps) :
    Reads ic (k + 1) g g' (['(', '?', '!'] ++ x ++ [')'])
      [.plain (.look .ahead false (branchOf ps).node) false] := by
  intro d rest hd hrest
  have htext : ['(', '?', '!'] ++ x ++ [')'] ++ rest = '(' :: '?' :: '!' :: (x ++ ')' :: rest) := by
    simp
  rw [htext, hd.readFrom_cons rfl]
  show Draft.resume (d.openGroup _) = _
  rw [(hd.openGroup _).2.1]
  show Draft.readFrom (d.enter _) _ = _
  rw [(hd.enter _).readFrom_close h rfl (hd.close ps g' 0).2.2 rest,
    (hd.weaken (Nat.le_succ k) |>.add [] g').resume_push (by simp [Piece.plain]) hrest,
    Draft.add_add]
  rfl

theorem Denotes.absent (h : Denotes once true ic k g g' x S) :
    Denotes once false ic (k + 1) g g' (['(', '?', '!'] ++ x ++ [')']) S.absent where
  quiet _ _ := rfl
  pieces := by
    obtain ⟨ps, hps, hS, hr⟩ := h.pieces
    have hne := ne_nil_of_repeatable (hr rfl)
    have hb := hS.branch hne
    refine ⟨[.plain (.look .ahead false (branchOf ps).node) false], hps.absent, ?_, by simp⟩
    refine hasSense_one (by simp [Piece.plain]) (hb.regular (branchOf ps).node (by simp))
      (fun ho => hb.numbered_one ho) ?_
    rw [← hb.matches_one]
    refine Sense.ext fun p q w => ?_
    show q = p ∧ w = [] ∧ (∀ o, some p = some o → ∀ r u, ¬(branchOf ps).node.Matches o r u) ↔ _
    simp [Sense.absent]

/-- A condition on what must follow, unless the text ends. -/
theorem Denotes.presentOrEnd (h : Denotes once solid ic k g g' x S) :
    Denotes once false ic (k + 1) g g' (['(', '?', '='] ++ x ++ ['|', '$', ')'])
      (S.either (.place .textEnd)).present where
  quiet _ _ := rfl
  pieces := by
    obtain ⟨ps, hps, hS, -⟩ := h.pieces
    obtain ⟨hm, hr, -, hn⟩ := branchOf_node g g' ps hS.proper
    refine ⟨[.plain (.look .ahead true (.alt (branchOf ps).node (.assertion .textEnd))) false],
      fun d rest hd hrest => ?_, ?_, by simp⟩
    · have htext : ['(', '?', '='] ++ x ++ ['|', '$', ')'] ++ rest =
          '(' :: '?' :: '=' :: (x ++ '|' :: '$' :: ')' :: rest) := by
        simp
      have hd₁ := (hd.enter (.look true true)).add ps g'
      -- the second branch is the end of the text
      have hd₂ : ((d.enter (.look true true)).add ps g').nextBranch.IsOpen ic k g' :=
        ⟨hd₁.switches, hd₁.groups, hd₁.unmixed, hd₁.room⟩
      have hend : ((d.enter (.look true true)).add ps g').nextBranch.step '$' (')' :: rest) =
          ((d.enter (.look true true)).add ps g').nextBranch.pushQuantified
            (.plain (.assertion .textEnd) false) (')' :: rest) := by
        simp [Draft.step, hd₂.switches]
      have hclose : (((d.enter (.look true true)).add ps g').nextBranch.add
            [.plain (.assertion .textEnd) false] g').close =
          .ok
            (d.add [] g', .plain (.look .ahead true (.alt (branchOf ps).node (.assertion .textEnd)))
                false) := by
        have hfinish : (((d.enter (.look true true)).add ps g').nextBranch.add
              [.plain (.assertion .textEnd) false] g').finishLevel =
            .ok ⟨.alt (branchOf ps).node (.assertion .textEnd), true,
                [(branchOf ps).node, .assertion .textEnd]⟩ := by
          simp [Draft.finishLevel, Draft.nextBranch, Draft.enter, Draft.add, Level.finish,
            Level.branch, branchOf, Piece.plain, Node.altAll]
        have houter : (((d.enter (.look true true)).add ps g').nextBranch.add
              [.plain (.assertion .textEnd) false] g').outer =
            (.look true true, d.level) :: d.outer := rfl
        simp only [Draft.close, houter, hfinish, Draft.lookaround, if_true, Except.map]
        rfl
      have hparen := Draft.step_close rfl hclose rest
      rw [htext, hd.readFrom_cons rfl]
      show Draft.resume (d.openGroup _) = _
      rw [(hd.openGroup _).2.2]
      show Draft.readFrom (d.enter _) _ = _
      rw [hps _ _ (hd.enter _) rfl, hd₁.readFrom_cons rfl]
      show Draft.readFrom (Draft.nextBranch _) _ = _
      rw [hd₂.readFrom_cons rfl, hend, hd₂.resume_push (by simp [Piece.plain]) rfl,
        (hd₂.add [.plain (.assertion .textEnd) false] g').readFrom_cons rfl, hparen,
        (hd.weaken (Nat.le_succ k) |>.add [] g').resume_push (by simp [Piece.plain]) hrest,
        Draft.add_add]
      rfl
    · refine hasSense_one (by simp [Piece.plain]) ?_ (fun ho => ?_) ?_
      · simpa [Piece.plain, Node.isRegular] using hr hS.regular
      · have hg := hn (hS.numbered ho)
        simpa [Piece.plain, Node.isLinear, Node.groups] using ⟨(hS.numbered ho).le, hg⟩
      · refine Sense.ext fun p q w => ?_
        show q = p ∧ (∃ o, some p = some o ∧ ∃ r, (branchOf ps).node.Matches o r w ∨ _) ↔ _
        rw [hm, hS.matches_eq]
        simp only [Option.some.injEq, exists_eq_left']
        rfl

/-! ### characters -/

theorem readFrom_char {d : Draft} {c : Char} (hd : d.switches = caseSwitch ic)
    (hc : isSpecial c = false) (rest : Text) :
    d.readFrom (c :: rest) = Draft.resume (d.pushQuantified (.plain (.char c ic) true) rest) := by
  have hq : isQuiet (c :: rest) = true := by
    unfold isQuiet
    split <;> simp_all [isSpecial]
  rw [Draft.readFrom_cons (hd ▸ skipBlank_of_isQuiet hq)]
  unfold Draft.step
  split
  all_goals first
    | exact absurd hc (by decide)
    | rw [hd]; rfl

/-- An escaped character stands for itself, whether case counts or not. -/
theorem readFrom_escaped {d : Draft} {c : Char} (hd : d.switches = caseSwitch ic)
    (hc : isSpecial c = true) (rest : Text) :
    d.readFrom ('\\' :: c :: rest) =
      Draft.resume (d.pushQuantified (.plain (.char c false) true) rest) := by
  have hread : Escape.read d.switches false c rest = .ok (.char c false, rest) := by
    simp only [isSpecial, List.contains_eq_mem, List.mem_cons, List.not_mem_nil, or_false,
      decide_eq_true_eq] at hc
    rcases hc with rfl | rfl | rfl | rfl | rfl | rfl | rfl | rfl | rfl | rfl | rfl | rfl | rfl |
      rfl | rfl | rfl | rfl | rfl <;> rfl
  have hstep : d.step '\\' (c :: rest) = d.pushQuantified (.plain (.char c false) true) rest := by
    simp only [Draft.step, Draft.escaped, hread]
  rw [Draft.readFrom_cons (hd ▸ skipBlank_of_isQuiet rfl), hstep]

theorem isQuiet_quoteChar (c : Char) (rest : Text) : isQuiet (quoteChar c ++ rest) = true := by
  unfold quoteChar
  split
  · rfl
  · show isQuiet (c :: rest) = true
    unfold isQuiet
    split <;> simp_all [isSpecial]

/-- A quoted character is read as itself, whatever was read before. -/
theorem exists_readFrom_quoteChar (ic : Bool) (c : Char) :
    ∃ i, matchesChar c i = matchesChar c ic ∧
      ∀ (d : Draft) rest, d.switches = caseSwitch ic →
        d.readFrom (quoteChar c ++ rest) =
          Draft.resume (d.pushQuantified (.plain (.char c i) true) rest) := by
  cases hc : isSpecial c with
  | true =>
    have hquote : quoteChar c = ['\\', c] := by simp [quoteChar, hc]
    refine ⟨false, ?_, fun d rest hd => ?_⟩
    · funext d
      cases ic with
      | false => rfl
      | true =>
        rw [Bool.eq_iff_iff]
        simpa [matchesChar] using (Unicode.sameFold_iff_of_isSpecial hc (d := d)).symm
    · rw [hquote]
      exact readFrom_escaped hd hc rest
  | false =>
    have hquote : quoteChar c = [c] := by simp [quoteChar, hc]
    refine ⟨ic, rfl, fun d rest hd => ?_⟩
    rw [hquote]
    exact readFrom_char hd hc rest

theorem exists_readsOne_quoteChar (ic : Bool) (c : Char) : ∃ i, matchesChar c i = matchesChar c ic ∧
    ∀ k g, ReadsOne ic k g g (quoteChar c) (.plain (.char c i) true) := by
  obtain ⟨i, hi, hread⟩ := exists_readFrom_quoteChar ic c
  refine ⟨i, hi, fun k g d rest hd => ?_⟩
  rw [← hd.groups]
  exact hread d rest hd.switches

theorem denotesOne_quoteChar (c : Char) :
    DenotesOne once ic k g g (quoteChar c) (.one (matchesChar c ic)) := by
  obtain ⟨i, hi, hread⟩ := exists_readsOne_quoteChar ic c
  refine ⟨isQuiet_quoteChar c, .plain (.char c i) true, hread k g, ?_, rfl⟩
  exact hasSense_one (by simp [Piece.plain]) rfl
    (fun _ => ⟨Nat.le_refl g, rfl, by simp [Piece.plain, Node.groups]⟩) (by rw [← hi]; rfl)

theorem readsOne_dot : ReadsOne ic k g g ['.'] (.plain (.oneOf .inLine) true) := by
  intro d rest hd
  have hstep : d.step '.' rest = d.pushQuantified (.plain (.oneOf .inLine) true) rest := by
    simp [Draft.step, hd.switches]
  show d.readFrom ('.' :: rest) = _
  rw [← hd.groups, hd.readFrom_cons rfl, hstep]
  rfl

theorem denotesOne_dot : DenotesOne once ic k g g ['.'] (.one CharSet.inLine.has) :=
  ⟨fun rest => rfl, .plain (.oneOf .inLine) true, readsOne_dot,
    hasSense_one (by simp [Piece.plain]) rfl
    (fun _ => ⟨Nat.le_refl g, rfl, by simp [Piece.plain, Node.groups]⟩) rfl, rfl⟩

theorem reads_assertion {c : Char} {a : Assertion} (hq : ∀ t, isQuiet (c :: t) = true)
    (hstep : ∀ (d : Draft) t, d.switches = caseSwitch ic →
      d.step c t = d.pushQuantified (.plain (.assertion a) false) t) :
    Reads ic k g g [c] [.plain (.assertion a) false] := by
  intro d rest hd hrest
  show d.readFrom (c :: rest) = _
  rw [hd.readFrom_cons (hq rest), hstep d rest hd.switches,
    hd.resume_push (by simp [Piece.plain]) hrest]

theorem reads_textStart : Reads ic k g g ['^'] [.plain (.assertion .textStart) false] :=
  reads_assertion (fun _ => rfl) fun d t h => by simp [Draft.step, h]

theorem reads_textEnd : Reads ic k g g ['$'] [.plain (.assertion .textEnd) false] :=
  reads_assertion (fun _ => rfl) fun d t h => by simp [Draft.step, h]

theorem denotes_assertion {c : Char} {a : Assertion} (hq : ∀ t, isQuiet (c :: t) = true)
    (h : Reads ic k g g [c] [.plain (.assertion a) false]) :
    Denotes once false ic k g g [c] (.place a) :=
  ⟨fun rest _ => hq rest, [.plain (.assertion a) false], h,
    hasSense_one (by simp [Piece.plain]) rfl
    (fun _ => ⟨Nat.le_refl g, rfl, by simp [Piece.plain, Node.groups]⟩) rfl, by simp⟩

theorem denotes_textStart : Denotes once false ic k g g ['^'] (.place .textStart) :=
  denotes_assertion (fun _ => rfl) reads_textStart

theorem denotes_textEnd : Denotes once false ic k g g ['$'] (.place .textEnd) :=
  denotes_assertion (fun _ => rfl) reads_textEnd

/-! ### whole expressions -/

/-- What an expression begins with, so that case does not count. -/
def switchSource (ic : Bool) : Text := if ic then ['(', '?', 'i', ')'] else []

theorem readFrom_switch (ic : Bool) (hq : isQuiet t = true) :
    Draft.readFrom {} (switchSource ic ++ t) = Draft.readFrom { switches := caseSwitch ic } t := by
  cases ic with
  | false => rfl
  | true =>
    have hskip : ∀ sw : Switches, skipBlank sw t = .ok t →
        (Draft.pushQuantified { switches := sw } .nothing t) = .ok ({ switches := sw }, t) := by
      intro sw h
      have hcount : count? sw t = none := by
        unfold count?
        split <;> simp_all [isQuiet]
      simp only [Draft.pushQuantified, quantified, h, hcount]
      rfl
    have hopen :
        Draft.openGroup {} ('?' :: 'i' :: ')' :: t) = .ok ({ switches := caseSwitch true }, t) := by
      have h := hskip (caseSwitch true) (skipBlank_of_isQuiet hq)
      simp only [Draft.openGroup, maxDepth, List.length_nil]
      simp [skipBlank, skipFrom]
      exact h
    show Draft.readFrom {} ('(' :: '?' :: 'i' :: ')' :: t) = _
    have hstep :
        Draft.step {} '(' ('?' :: 'i' :: ')' :: t) = .ok ({ switches := caseSwitch true }, t) :=
      hopen
    rw [Draft.readFrom_cons (by simp [skipBlank, skipFrom]), hstep]
    rfl

theorem Reads.readFrom (h : Reads ic maxDepth 0 g' x ps) (hquiet : isQuiet x = true) :
    Draft.readFrom {} (switchSource ic ++ x) =
      .ok ((Draft.mk (caseSwitch ic) 0 [] [] false {} []).add ps g') := by
  have hopen : (Draft.mk (caseSwitch ic) 0 [] [] false {} []).IsOpen ic maxDepth 0 :=
    ⟨rfl, rfl, rfl, by simp⟩
  have hread := h _ [] hopen rfl
  rw [List.append_nil] at hread
  rw [readFrom_switch ic hquiet]
  exact hread.trans (Draft.readFrom_nil _)

theorem Reads.read (h : Reads ic maxDepth 0 g' x ps) (hquiet : isQuiet x = true) :
    Expression.read (switchSource ic ++ x) =
      .ok ⟨switchSource ic ++ x, (branchOf ps).node, g', []⟩ := by
  simp only [Expression.read, h.readFrom hquiet]
  simp [Draft.add, Draft.finishLevel, Level.finish, branchOf, Except.map]

theorem Denotes.read (h : Denotes once solid ic maxDepth 0 g' x S) :
    ∃ e, read (switchSource ic ++ x) = .ok e ∧ e.root.isRegular = true ∧
      (once = true → e.root.isLinear = true) ∧ e.root.Matches = S := by
  obtain ⟨ps, hps, hS, -⟩ := h.pieces
  obtain ⟨hm, hr, -, hn⟩ := branchOf_node 0 g' ps hS.proper
  have hquiet := h.quiet [] rfl
  rw [List.append_nil] at hquiet
  exact ⟨_, hps.read hquiet, hr hS.regular, fun ho => (hn (hS.numbered ho)).1,
    hm.trans hS.matches_eq⟩

/-- An expression has as many groups as its text opens. -/
theorem Denotes.groups_read (h : Denotes once solid ic maxDepth 0 g' x S) {e : Expression}
    (he : Expression.read (switchSource ic ++ x) = .ok e) : e.groups = g' := by
  obtain ⟨ps, hps, -, -⟩ := h.pieces
  have hquiet := h.quiet [] rfl
  rw [List.append_nil] at hquiet
  rw [hps.read hquiet] at he
  cases he
  rfl

end

end PathTemplate.Expression
