import PathTemplate.Proofs.Expression.Search
import PathTemplate.Proofs.Expression.Stand

/-!
# Pieces that may be left out

An expression for whole texts that are matched by one piece, and the same expression if the piece
may be left out: both find the same texts, the empty one apart, which the second one may find even
if the first does not. This is so for every piece, with references and lookarounds or without, and
if the budget is spent for one of them, the other finds nothing but the empty text.

* `Node.whole` — the expression of a piece for whole texts;
* `Node.exists_left_optional_iff`, `Expression.exists_firstWay_whole_iff` — where all ways are
  followed;
* `Expression.exists_firstAttempt_iff`, `Expression.attempt_optional` — where one way is tried
  after the other;
* `Expression.exists_find_optional`, `Expression.exists_find_of_optional` — the expressions find
  the same texts;
* `Expression.read_optional` — both expressions exist, or neither.
-/

namespace PathTemplate

variable {ic : Bool} {n : Node} {s : State} {ss : List State} {k : Nat}

/-! ### all ways -/

theorem exists_left_distinct_iff : (∃ t ∈ distinct ss, t.left = k) ↔ ∃ t ∈ ss, t.left = k := by
  constructor
  · rintro ⟨t, ht, hk⟩
    exact ⟨t, mem_of_mem_distinct ht, hk⟩
  · rintro ⟨s, hs, rfl⟩
    exact exists_mem_distinctFrom [] hs (by simp)

namespace Node

theorem exists_left_seq_iff {a b : Node} :
    (∃ t ∈ (seq a b).ways s, t.left = k) ↔ ∃ r ∈ a.ways s, ∃ t ∈ b.ways r, t.left = k := by
  rw [ways, exists_left_distinct_iff]
  simp only [List.mem_flatMap]
  constructor
  · rintro ⟨t, ⟨r, hr, ht⟩, hk⟩
    exact ⟨r, hr, t, ht, hk⟩
  · rintro ⟨r, hr, t, ht, hk⟩
    exact ⟨t, ⟨r, hr, ht⟩, hk⟩

/-- A piece that may be left out leads to where the piece leads, and to where it starts. -/
theorem exists_left_optional_iff :
    (∃ t ∈ (loop n 0 (some 1) true).ways s, t.left = k) ↔
    (∃ t ∈ n.ways s, t.left = k) ∨ s.left = k := by
  rw [ways, Rounds.between, exists_left_distinct_iff]
  simp [Rounds.exactly, Rounds.upTo, Rounds.prefer, or_and_right, exists_or]

/-- The expression of a piece for whole texts. -/
def whole (n : Node) : Node := seqAll [assertion .textStart, n, assertion .textEnd]

theorem whole_eq (n : Node) :
    n.whole = seq (assertion .textStart) (seq n (assertion .textEnd)) := by
  simp [whole, seqAll]

theorem ways_whole_eq_nil {before after : Text} (h : before ≠ []) :
    n.whole.ways ⟨⟨before, after⟩, []⟩ = [] := by
  have hstart : Assertion.textStart.holds ⟨before, after⟩ = false := by
    simpa [Assertion.holds] using h
  simp [whole_eq, ways, hstart, distinct, distinctFrom]

theorem exists_ways_whole_iff {t : Text} :
    (∃ r, r ∈ n.whole.ways ⟨.start t, []⟩) ↔ ∃ r ∈ n.ways ⟨.start t, []⟩, r.left = 0 := by
  have hend : ∀ r : State, Assertion.textEnd.holds r.pos = true ↔ r.left = 0 := by
    intro r
    simp [Assertion.holds, State.left, Cursor.left]
  have hleft :
      (∃ r, r ∈ n.whole.ways ⟨.start t, []⟩) ↔ ∃ r ∈ n.whole.ways ⟨.start t, []⟩, r.left = 0 := by
    constructor
    · rintro ⟨r, hr⟩
      refine ⟨r, hr, ?_⟩
      simp only [whole_eq, ways] at hr
      obtain ⟨r₁, -, hr⟩ := List.mem_flatMap.1 (mem_of_mem_distinct hr)
      obtain ⟨r₂, -, hr⟩ := List.mem_flatMap.1 (mem_of_mem_distinct hr)
      split at hr
      · rename_i h
        obtain rfl := List.mem_singleton.1 hr
        exact (hend r).1 h
      · cases hr
    · rintro ⟨r, hr, -⟩
      exact ⟨r, hr⟩
  rw [hleft, whole_eq, exists_left_seq_iff]
  have hstart : (assertion Assertion.textStart).ways ⟨.start t, []⟩ = [⟨.start t, []⟩] := rfl
  simp only [hstart, List.mem_singleton, exists_eq_left, exists_left_seq_iff]
  refine exists_congr fun r => and_congr_right fun _ => ?_
  simp only [ways]
  split <;> simp_all

end Node

namespace Expression

/-- Following all ways, a whole text is found at its start only. -/
theorem exists_firstWay_whole_iff {t : Text} :
    (∃ m, firstWay n.whole [] t = some m) ↔ ∃ r ∈ n.ways ⟨.start t, []⟩, r.left = 0 := by
  have hlater : ∀ (after before : Text), before ≠ [] → firstWay n.whole before after = none := by
    intro after
    induction after with
    | nil =>
      intro before h
      rw [firstWay, Node.ways_whole_eq_nil h]
      rfl
    | cons c after ih =>
      intro before h
      rw [firstWay, Node.ways_whole_eq_nil h]
      exact ih (c :: before) (by simp)
  rw [← Node.exists_ways_whole_iff]
  unfold firstWay
  cases hways : n.whole.ways ⟨.start t, []⟩ with
  | nil =>
    have hways' : n.whole.ways ⟨⟨[], t⟩, []⟩ = [] := hways
    rw [hways']
    cases t with
    | nil => simp
    | cons c t => simp [hlater t [c] (by simp)]
  | cons r rs =>
    have hways' : n.whole.ways ⟨⟨[], t⟩, []⟩ = r :: rs := hways
    rw [hways']
    simp

/-! ### attempts -/

/-- Of the attempts at a whole text, only the one at its start can find it. -/
theorem exists_firstAttempt_iff {b : Node} {t : Text} {budget : Nat} :
    (∃ m, firstAttempt (.seq (.assertion .textStart) b) [] t budget = .found m) ↔
      ∃ r c, b.attempt .found ⟨.start t, []⟩ budget = .found r c := by
  have hlater : ∀ (after before : Text) (budget : Nat) (m : Match), before ≠ [] →
      firstAttempt (.seq (.assertion .textStart) b) before after budget ≠ .found m := by
    intro after
    induction after with
    | nil =>
      intro before budget m h
      have hstart : Assertion.textStart.holds ⟨before, []⟩ = false := by
        simpa [Assertion.holds] using h
      cases budget <;> simp [firstAttempt, Node.attempt, hstart, Outcome.fail]
    | cons c after ih =>
      intro before budget m h
      have hstart : Assertion.textStart.holds ⟨before, c :: after⟩ = false := by
        simpa [Assertion.holds] using h
      cases budget with
      | zero => simp [firstAttempt, Node.attempt, hstart, Outcome.fail]
      | succ budget =>
        rw [firstAttempt]
        simp only [Node.attempt, hstart, Bool.false_eq_true, if_false, Outcome.fail]
        exact ih (c :: before) budget m (by simp)
  unfold firstAttempt
  have hstart : (Node.seq (.assertion .textStart) b).attempt .found ⟨⟨[], t⟩, []⟩ budget =
      b.attempt .found ⟨.start t, []⟩ budget := rfl
  rw [hstart]
  cases b.attempt .found ⟨.start t, []⟩ budget with
  | found r c => simp
  | exhausted => simp
  | failed budget =>
    cases t with
    | nil => simp
    | cons c t => simp [hlater t [c] budget _ (by simp)]

/-- A hard piece of a whole text is arranged by itself. -/
theorem arrange_whole {refs : List Nat} (h : n.isHard refs = true) :
    n.whole.arrange refs true .whole =
      .seq (.assertion .textStart) (.seq (n.arrange refs true .whole) (.assertion .textEnd)) := by
  simp [Node.whole_eq, Node.arrange, Node.isSettled, Node.isHard, Node.isSided, Node.width?,
    Node.asUnit, h]

theorem arrange_optional {refs : List Nat} (h : n.isHard refs = true) :
    (Node.loop n 0 (some 1) true).arrange refs true .whole =
      .loop (n.arrange refs true .whole) 0 (some 1) true := by
  simp [Node.arrange, Node.isHard, h]

/-- The piece is tried first, then it is left out. -/
theorem attempt_optional {a b : Node} {c : Nat} :
    (Node.seq (.loop a 0 (some 1) true) b).attempt .found s c =
      ((Node.seq a b).attempt .found s c).orElse (b.attempt .found s) :=
  rfl

/-- The piece finds a whole text: with references or lookarounds, one way is tried after the other,
else all ways are followed. -/
theorem exists_find_whole_iff {e : Expression} {t : Text} (hroot : e.root = n.whole) :
    (∃ m, e.find t = .found m) ↔
    if n.isHard e.referenced then ∃ r c,
      (Node.seq (n.arrange e.referenced true .whole) (.assertion .textEnd)).attempt .found
      ⟨.start t, []⟩ budget = .found r c else ∃ r ∈ n.ways ⟨.start t, []⟩, r.left = 0 := by
  have hhard : e.isHard = n.isHard e.referenced := by
    simp [isHard, hroot, Node.whole_eq, Node.isHard, Node.isSided]
  unfold find search
  rw [hhard, hroot]
  split
  · rename_i hn
    rw [arrange_whole hn]
    exact exists_firstAttempt_iff
  · rw [← exists_firstWay_whole_iff]
    simp only [Cursor.start]
    cases firstWay n.whole [] t <;> simp

section

variable {e e' : Expression} {t : Text} (hroot : e.root = n.whole)
  (hroot' : e'.root = (Node.loop n 0 (some 1) true).whole) (hrefs : e'.referenced = e.referenced)

include hroot hroot' hrefs

/-- A whole text that the piece finds is found as well if the piece may be left out. -/
theorem exists_find_optional (h : ∃ m, e.find t = .found m) : ∃ m, e'.find t = .found m := by
  rw [exists_find_whole_iff hroot] at h
  rw [exists_find_whole_iff hroot', hrefs]
  split at h
  · rename_i hn
    obtain ⟨r, c, h⟩ := h
    refine (if_pos (by simpa [Node.isHard] using hn)).mpr ⟨r, c, ?_⟩
    rw [arrange_optional hn, attempt_optional, h]
    rfl
  · rename_i hn
    refine (if_neg (by simpa [Node.isHard] using hn)).mpr ?_
    exact Node.exists_left_optional_iff.2 (.inl h)

/-- A whole text that is found if the piece may be left out is found by the piece, unless it is
empty. -/
theorem exists_find_of_optional (ht : t ≠ []) (h : ∃ m, e'.find t = .found m) :
    ∃ m, e.find t = .found m := by
  have hend : Assertion.textEnd.holds (.start t) = false := by
    simpa [Assertion.holds, Cursor.start] using ht
  rw [exists_find_whole_iff hroot', hrefs] at h
  rw [exists_find_whole_iff hroot]
  split at h
  · rename_i hn
    have hn' : n.isHard e.referenced = true := by simpa [Node.isHard] using hn
    obtain ⟨r, c, h⟩ := h
    rw [arrange_optional hn', attempt_optional] at h
    rw [if_pos hn']
    cases hattempt : (Node.seq (n.arrange e.referenced true .whole) (.assertion .textEnd)).attempt
        .found ⟨.start t, []⟩ budget with
    | found r c => exact ⟨r, c, rfl⟩
    | exhausted =>
      rw [hattempt] at h
      cases h
    | failed c =>
      -- where the piece is left out, the end of the text is not reached
      rw [hattempt] at h
      simp [Outcome.orElse, Node.attempt, hend, Outcome.fail_ne_found] at h
  · rename_i hn
    refine (if_neg (by simpa [Node.isHard] using hn)).mpr ?_
    refine (Node.exists_left_optional_iff.1 h).resolve_right ?_
    simpa [State.left, Cursor.left, Cursor.start] using ht

end

/-! ### reading -/

theorem exists_readFrom_textEnd {d : Draft} {p : Piece} (hd : d.switches = caseSwitch ic)
    (houter : d.outer = [])
    (hlevel : d.level = { pieces := [.plain (.assertion .textStart) false] })
    (hp : p.node ≠ .empty) :
    ∃ d', (d.push p).readFrom ['$'] = .ok d' ∧ d'.outer = [] ∧ d'.groups = d.groups ∧
      d'.referenced = d.referenced ∧
      d'.finishLevel =
        if d.numbered && !d.names.isEmpty then .error .mixedReferences else .ok
          (.plain p.node.whole true) := by
  have hpush := Draft.push_eq d hp
  have hd' : (d.push p).switches = caseSwitch ic := (Draft.push_switches d p).trans hd
  have hstep :
      (d.push p).step '$' [] = .ok ((d.push p).push (.plain (.assertion .textEnd) false), []) := by
    simp only [Draft.step, hd', caseSwitch_multiLine, Bool.false_eq_true, if_false,
      Draft.pushQuantified]
    rw [quantified_of_isQuiet _ rfl]
    rfl
  refine ⟨(d.push p).push (.plain (.assertion .textEnd) false), ?_, ?_, ?_, ?_, ?_⟩
  · rw [Draft.readFrom_cons (hd' ▸ skipBlank_of_isQuiet rfl), hstep]
    exact Draft.readFrom_nil _
  all_goals rw [Draft.push_eq _ (by simp [Piece.plain]), hpush]
  · exact houter
  · rfl
  · rfl
  · simp [Draft.finishLevel, Draft.add, hlevel, Level.finish, Level.branch, Node.whole, Piece.plain]

/-- A piece of a whole text that may be left out: both expressions exist, or neither. -/
theorem read_optional {x : Text} (hx : StandsOne true ic x) :
    ((∃ k, read (switchSource ic ++ (['^'] ++ x ++ ['$'])) = .error k) ∧
      ∃ k, read (switchSource ic ++ (['^'] ++ (x ++ ['?']) ++ ['$'])) = .error k) ∨
    ∃ e e' n, read (switchSource ic ++ (['^'] ++ x ++ ['$'])) = .ok e ∧
      read (switchSource ic ++ (['^'] ++ (x ++ ['?']) ++ ['$'])) = .ok e' ∧ e.root = Node.whole n ∧
      e'.root = (Node.loop n 0 (some 1) true).whole ∧ e'.referenced = e.referenced := by
  let d₀ : Draft :=
    { switches := caseSwitch ic, level := { pieces := [.plain (.assertion .textStart) false] } }
  obtain ⟨y, hread, hall⟩ := hx.reads d₀ rfl
  have hstart : ∀ q, Draft.readFrom {} (switchSource ic ++ (['^'] ++ (x ++ q) ++ ['$'])) =
      y.bind fun z => Draft.resume (z.1.pushQuantified z.2 (q ++ ['$'])) := by
    intro q
    have hquiet := hx.quiet (q ++ ['$'])
    have hopen : Draft.IsOpen ic 0 0 { switches := caseSwitch ic } := ⟨rfl, rfl, rfl, by simp⟩
    have htext : ['^'] ++ (x ++ q) ++ ['$'] = ['^'] ++ (x ++ (q ++ ['$'])) := by simp
    rw [readFrom_switch ic rfl, htext, reads_textStart _ _ hopen hquiet]
    exact hread (q ++ ['$'])
  have hplain := hstart []
  have hoptional := hstart ['?']
  rw [List.append_nil] at hplain
  cases y with
  | error k =>
    left
    exact ⟨⟨k, by simp only [read, hplain]; rfl⟩, ⟨k, by simp only [read, hoptional]; rfl⟩⟩
  | ok z =>
    obtain ⟨hz, hsolid⟩ := hall z rfl
    obtain ⟨hrepeatable, hnode⟩ := hsolid rfl
    have hsw : z.1.switches = caseSwitch ic := hz.switches
    obtain ⟨d₁, hread₁, houter₁, hgroups₁, hrefs₁, hfinish₁⟩ := exists_readFrom_textEnd hsw hz.outer
      hz.level hnode
    obtain ⟨d₂, hread₂, houter₂, hgroups₂, hrefs₂, hfinish₂⟩ := exists_readFrom_textEnd
      (p := .plain (.loop z.2.node 0 (some 1) true) true) hsw hz.outer hz.level
      (by simp [Piece.plain])
    have hplain' : Draft.readFrom {} (switchSource ic ++ (['^'] ++ x ++ ['$'])) = .ok d₁ := by
      rw [hplain, ← hread₁]
      exact Draft.resume_pushQuantified hsw z.2 rfl
    have hoptional' :
        Draft.readFrom {} (switchSource ic ++ (['^'] ++ (x ++ ['?']) ++ ['$'])) = .ok d₂ := by
      rw [hoptional, ← hread₂]
      show Draft.resume (z.1.pushQuantified z.2 (['?'] ++ ['$'])) = _
      rw [Draft.pushQuantified, hsw, repeats_optional ic z.2 ['$'] hrepeatable rfl]
      rfl
    simp only [read, hplain', hoptional', houter₁, houter₂, hfinish₁, hfinish₂, hgroups₁, hgroups₂,
      hrefs₁, hrefs₂]
    cases z.1.numbered && !z.1.names.isEmpty with
    | true => exact .inl ⟨⟨_, rfl⟩, ⟨_, rfl⟩⟩
    | false => exact .inr ⟨_, _, z.2.node, rfl, rfl, rfl, rfl, rfl⟩

end Expression

end PathTemplate
