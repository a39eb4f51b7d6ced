import PathTemplate.Proofs.Expression.Stand

/-!
# What was read outside of all parentheses

The pieces outside of all parentheses are looked at when the whole text was read, and not before.
Drafts that differ in them alone are read further in the same way, and fail in the same way.

* `AlikeLevels`, `Draft.Alike` — drafts that are the same but for these pieces;
* `SameFate` — two results are the same error, or are related;
* `Draft.Alike.step` — every step is taken in both drafts, or fails in both;
* `Draft.Alike.readFrom` — and so is reading as a whole;
* `exists_read_textStart_iff` — a text is an expression with and without `^` before it, or in
  neither case.
-/

namespace PathTemplate.Expression

/-- Levels with the ones around them that are the same but for the outermost one, which has a choice
in both or in neither. -/
inductive AlikeLevels : Level → List (Enclosure × Level) → Level → List (Enclosure × Level) → Prop
  | outermost {l m : Level} (h : l.branches.isEmpty = m.branches.isEmpty) : AlikeLevels l [] m []
  | inner (l : Level) (x : Enclosure) {l₁ m₁ : Level} {o o' : List (Enclosure × Level)}
      (h : AlikeLevels l₁ o m₁ o') : AlikeLevels l ((x, l₁) :: o) l ((x, m₁) :: o')

/-- The drafts are the same but for what was read outside of all parentheses. -/
def Draft.Alike (d e : Draft) : Prop :=
  ∃ l o, e = { d with level := l, outer := o } ∧ AlikeLevels d.level d.outer l o

/-- Both results are the same error, or both are there and are related. -/
def SameFate {α : Type} (R : α → α → Prop) (x y : Except Fault α) : Prop :=
  (∃ k, x = .error k ∧ y = .error k) ∨ ∃ a b, x = .ok a ∧ y = .ok b ∧ R a b

/-- The drafts of two results are alike, and what else they have is the same. -/
def AlikeWith {α : Type} (a b : Draft × α) : Prop := a.1.Alike b.1 ∧ a.2 = b.2

variable {α : Type} {l m : Level} {o o' : List (Enclosure × Level)} {d e d' e' : Draft}

theorem AlikeLevels.enclosures (h : AlikeLevels l o m o') : o'.map Prod.fst = o.map Prod.fst := by
  induction h with
  | outermost => rfl
  | inner l x h ih => rw [List.map_cons, List.map_cons, ih]

/-- What is done to the innermost levels does not make them differ. -/
theorem AlikeLevels.map (h : AlikeLevels l o m o') {f : Level → Level}
    (hf :
      l.branches.isEmpty = m.branches.isEmpty → (f l).branches.isEmpty = (f m).branches.isEmpty) :
    AlikeLevels (f l) o (f m) o' := by
  cases h with
  | outermost h => exact .outermost (hf h)
  | inner l x h => exact .inner (f l) x h

theorem sameFate_error {R : α → α → Prop} (k : Fault) : SameFate R (.error k) (.error k) :=
  .inl ⟨k, rfl, rfl⟩

theorem sameFate_ok (h : d.Alike e) (a : α) : SameFate AlikeWith (.ok (d, a)) (.ok (e, a)) :=
  .inr ⟨_, _, rfl, rfl, h, rfl⟩

theorem SameFate.cases {x y : Except Fault (Draft × α)} (h : SameFate AlikeWith x y) :
    (∃ k, x = .error k ∧ y = .error k) ∨ ∃ d e a, x = .ok (d, a) ∧ y = .ok (e, a) ∧ d.Alike e := by
  rcases h with h | ⟨⟨d, a⟩, ⟨e, _⟩, hx, hy, h, rfl⟩
  · exact .inl h
  · exact .inr ⟨d, e, a, hx, hy, h⟩

namespace Draft

namespace Alike

theorem switches (h : d.Alike e) : e.switches = d.switches := by
  obtain ⟨l, o, rfl, -⟩ := h
  rfl

theorem enclosures (h : d.Alike e) : e.outer.map Prod.fst = d.outer.map Prod.fst := by
  obtain ⟨l, o, rfl, hlevels⟩ := h
  exact hlevels.enclosures

theorem hasEntered (h : d.Alike e) (i : Nat) : e.hasEntered i = d.hasEntered i := by
  have hany : ∀ d : Draft, d.hasEntered i = (i = 0 || (d.outer.map Prod.fst).any (·.captures i)) :=
      fun d => by
    rw [List.any_map]
    rfl
  rw [hany, hany, h.enclosures]

theorem inCondition (h : d.Alike e) : e.inCondition = d.inCondition := by
  have hhead : ∀ d : Draft, d.inCondition = (d.outer.map Prod.fst).head?.any (·.isCondition) :=
      fun d => by
    rw [List.head?_map, Option.any_map]
    rfl
  rw [hhead, hhead, h.enclosures]

theorem withSwitches (h : d.Alike e) (sw : Switches) :
    Alike { d with switches := sw } { e with switches := sw } := by
  obtain ⟨l, o, rfl, hlevels⟩ := h
  exact ⟨l, o, rfl, hlevels⟩

theorem push (h : d.Alike e) (p : Piece) : (d.push p).Alike (e.push p) := by
  obtain ⟨l, o, rfl, hlevels⟩ := h
  unfold Draft.push
  split
  · exact ⟨l, o, rfl, hlevels⟩
  · exact ⟨_, o, rfl, hlevels.map (f := fun l => { l with pieces := p :: l.pieces }) fun h => h⟩

theorem nextBranch (h : d.Alike e) : d.nextBranch.Alike e.nextBranch := by
  obtain ⟨l, o, rfl, hlevels⟩ := h
  exact ⟨_, o, rfl, hlevels.map (f := fun l => ⟨l.branch :: l.branches, []⟩) fun _ => rfl⟩

theorem enter (h : d.Alike e) (x : Enclosure) : (d.enter x).Alike (e.enter x) := by
  obtain ⟨l, o, rfl, hlevels⟩ := h
  exact ⟨{}, (x, l) :: o, rfl, .inner {} x hlevels⟩

theorem enterGroup (h : d.Alike e) : d.enterGroup.Alike e.enterGroup := by
  obtain ⟨l, o, rfl, hlevels⟩ := h
  exact ⟨{}, _, rfl, .inner {} _ hlevels⟩

theorem pushQuantified (h : d.Alike e) (p : Piece) (t : Text) :
    SameFate AlikeWith (d.pushQuantified p t) (e.pushQuantified p t) := by
  rw [Draft.pushQuantified, Draft.pushQuantified, h.switches]
  cases quantified d.switches p t with
  | error k => exact sameFate_error k
  | ok x => exact sameFate_ok (h.push x.1) x.2

/-- A parenthesis is closed in both drafts, or in neither: the outermost level is not looked at. -/
theorem close (h : d.Alike e) : SameFate AlikeWith d.close e.close := by
  obtain ⟨l, o, rfl, hlevels⟩ := h
  obtain ⟨sw, groups, names, referenced, numbered, level, outer⟩ := d
  cases hlevels with
  | outermost => exact sameFate_error _
  | @inner _ x l₁ m₁ o o' hlevels =>
    simp only [Draft.close, Draft.finishLevel]
    split
    · exact sameFate_error _
    · rename_i p _
      cases x with
      | capture i => exact sameFate_ok ⟨_, _, rfl, hlevels⟩ _
      | plain sw => exact sameFate_ok ⟨_, _, rfl, hlevels⟩ _
      | atomic => exact sameFate_ok ⟨_, _, rfl, hlevels⟩ _
      | look ahead positive =>
        dsimp only
        cases lookaround ahead positive p with
        | error k => exact sameFate_error k
        | ok n => exact sameFate_ok ⟨_, _, rfl, hlevels⟩ _
      | condition => exact sameFate_ok ⟨_, _, rfl, hlevels⟩ _
      | choice condition => exact sameFate_ok ⟨_, _, rfl, hlevels⟩ _

theorem refer (h : d.Alike e) (i : Nat) : SameFate AlikeWith (d.refer i) (e.refer i) := by
  have hentered := h.hasEntered i
  obtain ⟨l, o, rfl, hlevels⟩ := h
  simp only [Draft.refer, hentered]
  split
  · exact sameFate_error _
  · exact .inr ⟨_, _, rfl, rfl, ⟨l, o, rfl, hlevels⟩, rfl⟩

theorem referByName (h : d.Alike e) (name : Text) :
    SameFate AlikeWith (d.referByName name) (e.referByName name) := by
  have hnames : e.names = d.names := by
    obtain ⟨l, o, rfl, -⟩ := h
    rfl
  rw [Draft.referByName, Draft.referByName, hnames]
  split
  · exact h.refer _
  · split
    · exact h.refer _
    · exact sameFate_error _

theorem follow (h : d.Alike e) (r : Reference) : SameFate AlikeWith (d.follow r) (e.follow r) := by
  cases r with
  | number n =>
    rw [Draft.follow, Draft.follow]
    rcases (h.refer n).cases with
      ⟨k, hd, he⟩ | ⟨d', e', p, hd, he, l, o, rfl, hlevels⟩ <;> rw [hd, he]
    · exact sameFate_error k
    · exact .inr ⟨_, _, rfl, rfl, ⟨l, o, rfl, hlevels⟩, rfl⟩
  | name name => exact h.referByName name
  | back n =>
    have hgroups : e.groups = d.groups := by
      obtain ⟨l, o, rfl, -⟩ := h
      rfl
    simp only [Draft.follow, hgroups]
    split
    · exact sameFate_error _
    · exact h.refer _

theorem enterNamed (h : d.Alike e) (t : Text) :
    SameFate AlikeWith (d.enterNamed t) (e.enterNamed t) := by
  obtain ⟨l, o, rfl, hlevels⟩ := h
  simp only [Draft.enterNamed]
  split
  · exact sameFate_error _
  · exact sameFate_ok ⟨{}, _, rfl, .inner {} _ hlevels⟩ _

theorem choose (h : d.Alike e) (condition : Piece) (t : Text) :
    SameFate AlikeWith (d.choose condition t) (e.choose condition t) := by
  unfold Draft.choose
  split
  · exact sameFate_error _
  · split
    · exact h.pushQuantified condition _
    · exact sameFate_error _
  · exact sameFate_ok (h.enter _) _

theorem conditional (h : d.Alike e) (t : Text) :
    SameFate AlikeWith (d.conditional t) (e.conditional t) := by
  unfold Draft.conditional
  split
  · exact sameFate_error _
  · exact sameFate_ok (h.enter _) _
  · rename_i r t' _
    rcases (h.follow r).cases with ⟨k, hd, he⟩ | ⟨d', e', p, hd, he, h'⟩ <;> rw [hd, he]
    · exact sameFate_error k
    · simp only [h'.switches]
      split
      · exact sameFate_error _
      · exact h'.choose _ _
      · exact sameFate_error _

theorem opening (h : d.Alike e) (t : Text) : SameFate AlikeWith (d.opening t) (e.opening t) := by
  unfold Draft.opening
  rw [h.switches]
  split
  case h_1 | h_2 | h_3 | h_4 | h_8 => exact sameFate_ok (h.enter _) _
  case h_5 | h_6 => exact h.enterNamed _
  case h_7 =>
    split
    · exact sameFate_error _
    · rename_i name t' _
      rcases (h.referByName name).cases with ⟨k, hd, he⟩ | ⟨d', e', p, hd, he, h'⟩ <;> rw [hd, he]
      · exact sameFate_error k
      · exact h'.pushQuantified p t'
  case h_9 => exact h.conditional _
  case h_10 =>
    split
    · exact sameFate_error _
    · exact sameFate_ok ((h.enter _).withSwitches _) _
    · exact (h.withSwitches _).pushQuantified _ _
  case h_11 => exact sameFate_ok h.enterGroup t

theorem openGroup (h : d.Alike e) (t : Text) :
    SameFate AlikeWith (d.openGroup t) (e.openGroup t) := by
  have hlen : e.outer.length = d.outer.length := by simpa using congrArg List.length h.enclosures
  rw [Draft.openGroup, Draft.openGroup, h.switches, hlen]
  split
  · exact sameFate_error _
  · cases skipBlank d.switches t with
    | error k => exact sameFate_error k
    | ok t => exact h.opening t

theorem escaped (h : d.Alike e) (t : Text) : SameFate AlikeWith (d.escaped t) (e.escaped t) := by
  cases t with
  | nil => exact sameFate_error _
  | cons c t =>
    simp only [Draft.escaped, h.switches]
    split
    · exact sameFate_error _
    · exact h.pushQuantified _ _
    · exact h.pushQuantified _ _
    · exact h.pushQuantified _ _
    · exact h.pushQuantified _ _
    · rename_i r t' _
      rcases (h.follow r).cases with ⟨k, hd, he⟩ | ⟨d', e', p, hd, he, h'⟩ <;> rw [hd, he]
      · exact sameFate_error k
      · exact h'.pushQuantified p t'

theorem step (h : d.Alike e) (c : Char) (t : Text) :
    SameFate AlikeWith (d.step c t) (e.step c t) := by
  unfold Draft.step
  rw [h.switches, h.inCondition]
  split
  · exact sameFate_ok h.nextBranch t
  · exact h.openGroup t
  · rcases h.close.cases with ⟨k, hd, he⟩ | ⟨d', e', p, hd, he, h'⟩ <;> rw [hd, he]
    · exact sameFate_error k
    · dsimp only
      split
      · exact h'.choose p t
      · exact h'.pushQuantified p t
  · exact h.escaped t
  · cases Bracket.read d.switches t with
    | error k => exact sameFate_error k
    | ok x => exact h.pushQuantified _ _
  case h_9 | h_10 | h_11 => exact sameFate_error _
  all_goals exact h.pushQuantified _ _

theorem readFrom_of_skipBlank_error {k : Fault} {t : Text}
    (hs : skipBlank d.switches t = .error k) : d.readFrom t = .error k := by
  rw [Draft.readFrom]
  split
  · simp_all
  · simp_all
  · simp_all

theorem readFrom (h : d.Alike e) (t : Text) : SameFate Alike (d.readFrom t) (e.readFrom t) := by
  fun_induction Draft.readFrom d t generalizing e with
  | case1 d t k hs =>
    rw [readFrom_of_skipBlank_error (h.switches ▸ hs)]
    exact sameFate_error k
  | case2 d t hs =>
    rw [readFrom_of_skipBlank_nil (h.switches ▸ hs)]
    exact .inr ⟨d, e, rfl, rfl, h⟩
  | case3 d t c rest hs k hstep =>
    rw [readFrom_of_skipBlank (d := e) (h.switches ▸ hs)]
    rcases (h.step c rest).cases with ⟨k', hd, he⟩ | ⟨d', e', r, hd, -, -⟩
    · rw [hstep] at hd
      cases hd
      rw [he]
      exact sameFate_error k
    · rw [hstep] at hd
      cases hd
  | case4 d t c rest hs d' rest' hstep _ _ _ ih =>
    rw [readFrom_of_skipBlank (d := e) (h.switches ▸ hs)]
    rcases (h.step c rest).cases with ⟨k', hd, -⟩ | ⟨d₁, e', r, hd, he, h'⟩
    · rw [hstep] at hd
      cases hd
    · rw [hstep] at hd
      cases hd
      rw [he]
      exact ih h'

end Alike

end Draft

/-! ### whole expressions -/

/-- A text is an expression if all of it is read, no parenthesis is left open, and the outermost
level can be finished. -/
theorem exists_read_iff {t : Text} : (∃ e, read t = .ok e) ↔
    ∃ d, Draft.readFrom {} t = .ok d ∧ d.outer = [] ∧ ∃ p, d.finishLevel = .ok p := by
  unfold read
  cases Draft.readFrom {} t with
  | error k => simp
  | ok d =>
    by_cases houter : d.outer = []
    · cases hp : d.finishLevel <;> simp [houter, hp, Except.map]
    · simp [houter]

theorem Draft.Alike.finish_iff (h : d.Alike e) :
    (e.outer = [] ∧ ∃ p, e.finishLevel = .ok p) ↔ d.outer = [] ∧ ∃ p, d.finishLevel = .ok p := by
  obtain ⟨l, o, rfl, hlevels⟩ := h
  obtain ⟨sw, groups, names, referenced, numbered, level, outer⟩ := d
  cases hlevels with
  | outermost hb =>
    simp only [Draft.finishLevel, hb]
    split <;> simp
  | inner l x h => simp

/-- Whether a text is an expression does not depend on whether the start of the text is asked
for. -/
theorem exists_read_textStart_iff {ic : Bool} {x : Text} (hx : isQuiet x = true) :
    (∃ e, read (switchSource ic ++ (['^'] ++ x)) = .ok e) ↔
    ∃ e, read (switchSource ic ++ x) = .ok e := by
  have hopen : Draft.IsOpen ic maxDepth 0 { switches := caseSwitch ic } := ⟨rfl, rfl, rfl, by simp⟩
  have halike : ({ switches := caseSwitch ic } : Draft).Alike
      (Draft.add { switches := caseSwitch ic } [.plain (.assertion .textStart) false] 0) :=
    ⟨_, _, rfl, .outermost rfl⟩
  rw [exists_read_iff, exists_read_iff, readFrom_switch ic rfl, readFrom_switch ic hx,
    reads_textStart _ _ hopen hx]
  rcases halike.readFrom x with ⟨k, hd, he⟩ | ⟨d, e, hd, he, h⟩
  · rw [hd, he]
  · rw [hd, he]
    simpa using h.finish_iff

end PathTemplate.Expression
