import PathTemplate.Proofs.Expression.Enclosed
import PathTemplate.Proofs.Expression.Literal

/-!
# Texts that stand anywhere in an expression

What a text is read as can depend on what was read before: groups have other numbers, references can
be unknown, and there can be too many parentheses. It does not depend on what follows, and reading
it leaves the parentheses and switches as they were.

* `Piece.IsSolid`, `Draft.Extends` — a piece that can be repeated; a draft with some more pieces;
* `Stands`, `StandsOne` — a text is read as some pieces, or as one that can be repeated, or not at
  all;
* `Stands.append`, `StandsOne.repeated`, `Stands.group`, `Stands.capture`, `Stands.absent` — how
  such texts are put together;
* `standsOne_of_isSelfContained`, `stands_source`, `stands_shortStretch` — patterns, literal texts
  and values without a pattern.
-/

namespace PathTemplate.Expression

/-- Something can repeat the piece, and it is more than nothing. -/
def Piece.IsSolid (p : Piece) : Prop := p.repeatable = true ∧ p.node ≠ .empty

/-- The draft `d'` is `d` with the pieces `ps`, the newest first, and perhaps with other groups and
references. -/
structure Draft.Extends (d d' : Draft) (ps : List Piece) : Prop where
  switches : d'.switches = d.switches
  outer : d'.outer = d.outer
  level : d'.level = { d.level with pieces := ps ++ d.level.pieces }

/-- Whatever was read before, the text is read as some pieces, or not at all, and what follows has
no part in it. -/
structure Stands (solid ic : Bool) (x : Text) : Prop where
  quiet : ∀ rest, isQuiet rest = true → isQuiet (x ++ rest) = true
  reads : ∀ d : Draft, d.switches = caseSwitch ic → ∃ y : Except Fault Draft,
    (∀ rest, isQuiet rest = true → d.readFrom (x ++ rest) = y.bind (·.readFrom rest)) ∧
      ∀ d', y = .ok d' → ∃ ps, d.Extends d' ps ∧ (solid = true → ∃ p ∈ ps, p.IsSolid)

/-- Whatever was read before, the text is read as one piece, or not at all, and what follows may
repeat it. -/
structure StandsOne (solid ic : Bool) (x : Text) : Prop where
  quiet : ∀ rest, isQuiet (x ++ rest) = true
  reads : ∀ d : Draft, d.switches = caseSwitch ic → ∃ y : Except Fault (Draft × Piece),
    (∀ rest, d.readFrom (x ++ rest) = y.bind fun z => Draft.resume (z.1.pushQuantified z.2 rest)) ∧
      ∀ z, y = .ok z → d.Extends z.1 [] ∧ (solid = true → z.2.IsSolid)

variable {solid solid' ic : Bool} {d d' d'' : Draft} {p : Piece} {ps qs : List Piece}
  {x y t rest : Text}

namespace Draft

theorem Extends.refl (d : Draft) : d.Extends d [] := ⟨rfl, rfl, rfl⟩

theorem Extends.trans (h : d.Extends d' ps) (h' : d'.Extends d'' qs) :
    d.Extends d'' (qs ++ ps) where
  switches := h'.switches.trans h.switches
  outer := h'.outer.trans h.outer
  level := by rw [h'.level, h.level, List.append_assoc]

theorem exists_extends_push (d : Draft) (p : Piece) :
    ∃ ps, d.Extends (d.push p) ps ∧ (p.IsSolid → p ∈ ps) := by
  by_cases hp : p.node = .empty
  · exact ⟨[], by simpa [push, hp] using Extends.refl d, fun h => absurd hp h.2⟩
  · exact ⟨[p], by rw [push_eq d hp]; exact ⟨rfl, rfl, rfl⟩, fun _ => by simp⟩

theorem resume_pushQuantified (hd : d.switches = caseSwitch ic) (p : Piece)
    (hq : isQuiet rest = true) : resume (d.pushQuantified p rest) = (d.push p).readFrom rest := by
  rw [pushQuantified, hd, quantified_of_isQuiet p hq]
  rfl

end Draft

theorem quantified_of_not_repeatable {c : Char} (hc : c ∈ ['?', '*', '+'])
    (hp : p.repeatable = false) :
    quantified (caseSwitch ic) p (c :: t) = .error .nothingToRepeat := by
  simp only [List.mem_cons, List.not_mem_nil, or_false] at hc
  rcases hc with rfl | rfl | rfl <;> simp [quantified, skipBlank, skipFrom, count?, hp]

/-! ### putting texts together -/

theorem stands_nil : Stands false ic [] :=
  ⟨fun _ h => h, fun d _ =>
  ⟨.ok d, fun _ _ => rfl, fun d' h => by cases h; exact ⟨[], .refl d, by simp⟩⟩⟩

theorem Stands.append (hx : Stands solid ic x) (hy : Stands solid' ic y) :
    Stands (solid || solid') ic (x ++ y) where
  quiet rest h := by
    rw [List.append_assoc]
    exact hx.quiet _ (hy.quiet _ h)
  reads d hd := by
    obtain ⟨a, hread, hall⟩ := hx.reads d hd
    cases a with
    | error k =>
      refine ⟨.error k, fun rest hrest => ?_, fun d' h => by cases h⟩
      rw [List.append_assoc, hread _ (hy.quiet _ hrest)]
      rfl
    | ok d₁ =>
      obtain ⟨ps, hps, hsolid⟩ := hall d₁ rfl
      obtain ⟨b, hread', hall'⟩ := hy.reads d₁ (hps.switches.trans hd)
      refine ⟨b, fun rest hrest => ?_, fun d' h => ?_⟩
      · rw [List.append_assoc, hread _ (hy.quiet _ hrest)]
        exact hread' rest hrest
      · obtain ⟨qs, hqs, hsolid'⟩ := hall' d' h
        refine ⟨qs ++ ps, hps.trans hqs, fun hs => ?_⟩
        rcases (Bool.or_eq_true _ _).mp hs with hs | hs
        · obtain ⟨p, hp, h⟩ := hsolid hs
          exact ⟨p, List.mem_append_right qs hp, h⟩
        · obtain ⟨p, hp, h⟩ := hsolid' hs
          exact ⟨p, List.mem_append_left ps hp, h⟩

theorem Stands.unsolid (h : Stands solid ic x) : Stands false ic x where
  quiet := h.quiet
  reads d hd := by
    obtain ⟨y, hread, hall⟩ := h.reads d hd
    refine ⟨y, hread, fun d' hd' => ?_⟩
    obtain ⟨ps, hps, -⟩ := hall d' hd'
    exact ⟨ps, hps, by simp⟩

theorem StandsOne.stands (h : StandsOne solid ic x) : Stands solid ic x where
  quiet rest _ := h.quiet rest
  reads d hd := by
    obtain ⟨y, hread, hall⟩ := h.reads d hd
    cases y with
    | error k => exact ⟨.error k, fun rest _ => hread rest, fun d' h => by cases h⟩
    | ok z =>
      obtain ⟨hz, hsolid⟩ := hall z rfl
      obtain ⟨ps, hps, hmem⟩ := z.1.exists_extends_push z.2
      refine ⟨.ok (z.1.push z.2), fun rest hrest => ?_, fun d' h => ?_⟩
      · rw [hread rest]
        exact Draft.resume_pushQuantified (hz.switches.trans hd) z.2 hrest
      · cases h
        exact ⟨ps ++ [], hz.trans hps, fun hs => ⟨z.2, by simpa using hmem (hsolid hs), hsolid hs⟩⟩

theorem StandsOne.repeated (h : StandsOne solid ic x) {c : Char} {q : Text} {lo : Nat}
    {hi : Option Nat} {greedy : Bool} (hc : c ∈ ['?', '*', '+'])
    (hq : Repeats (c :: q) lo hi greedy) : Stands solid ic (x ++ c :: q) where
  quiet rest _ := by
    rw [List.append_assoc]
    exact h.quiet _
  reads d hd := by
    obtain ⟨y, hread, hall⟩ := h.reads d hd
    cases y with
    | error k =>
      refine ⟨.error k, fun rest _ => ?_, fun d' h => by cases h⟩
      rw [List.append_assoc, hread]
      rfl
    | ok z =>
      obtain ⟨hz, -⟩ := hall z rfl
      have hsw := hz.switches.trans hd
      cases hp : z.2.repeatable with
      | false =>
        refine ⟨.error .nothingToRepeat, fun rest _ => ?_, fun d' h => by cases h⟩
        rw [List.append_assoc, hread]
        show Draft.resume (z.1.pushQuantified z.2 (c :: (q ++ rest))) = _
        rw [Draft.pushQuantified, hsw, quantified_of_not_repeatable hc hp]
        rfl
      | true =>
        have hloop : (Piece.plain (.loop z.2.node lo hi greedy) true).IsSolid :=
          ⟨rfl, by simp [Piece.plain]⟩
        obtain ⟨ps, hps, hmem⟩ := z.1.exists_extends_push
          (.plain (.loop z.2.node lo hi greedy) true)
        refine ⟨.ok (z.1.push (.plain (.loop z.2.node lo hi greedy) true)), fun rest hrest => ?_,
          fun d' h => ?_⟩
        · rw [List.append_assoc, hread]
          show Draft.resume (z.1.pushQuantified z.2 (c :: q ++ rest)) = _
          rw [Draft.pushQuantified, hsw, hq ic z.2 rest hp hrest]
          rfl
        · cases h
          exact ⟨ps ++ [], hz.trans hps, fun _ => ⟨_, by simpa using hmem hloop, hloop⟩⟩

/-! ### parentheses -/

namespace Draft

theorem readFrom_close (hd : d.inCondition = false) (rest : Text) :
    d.readFrom (')' :: rest) = d.close.bind fun z => resume (z.1.pushQuantified z.2 rest) := by
  rw [readFrom_cons (by simp [skipBlank, skipFrom])]
  simp only [step, hd]
  cases d.close <;> rfl

/-- How a text in parentheses is read, if the text is read in the same way whatever follows. -/
theorem exists_reads_enclosed {q : Text} {d₁ : Draft} {e : Enclosure} {y : Except Fault Draft}
    (hopen : ∀ rest, d.readFrom (q ++ x ++ [')'] ++ rest) =
      if maxDepth ≤ d.outer.length then .error .tooDeep else d₁.readFrom (x ++ ')' :: rest))
    (hread : ∀ rest, d₁.readFrom (x ++ ')' :: rest) = y.bind (·.readFrom (')' :: rest)))
    (he : e.isCondition = false)
    (hy : ∀ d', y = .ok d' →
      d'.outer = (e, d.level) :: d.outer ∧ e.saved.getD d'.switches = d.switches) :
    ∃ y' : Except Fault (Draft × Piece), (∀ rest, d.readFrom (q ++ x ++ [')'] ++ rest) =
        y'.bind fun z => resume (z.1.pushQuantified z.2 rest)) ∧
      ∀ z, y' = .ok z → d.Extends z.1 [] ∧ ∃ d', y = .ok d' ∧ d'.close = .ok z := by
  by_cases hdeep : maxDepth ≤ d.outer.length
  · exact ⟨.error .tooDeep, fun rest => by rw [hopen, if_pos hdeep]; rfl, fun z hz => by cases hz⟩
  refine ⟨y.bind close, fun rest => ?_, fun z hz => ?_⟩
  · rw [hopen, if_neg hdeep, hread]
    cases y with
    | error k => rfl
    | ok d' => exact readFrom_close (by simp [inCondition, (hy d' rfl).1, he]) rest
  · cases y with
    | error k => cases hz
    | ok d' =>
      obtain ⟨houter, hsaved⟩ := hy d' rfl
      obtain ⟨ho, hl, hs, -⟩ := of_close (show d'.close = .ok (z.1, z.2) from hz) houter
      exact ⟨⟨hs.trans hsaved, ho, hl⟩, d', rfl, hz⟩

theorem readFrom_group (hd : d.switches = caseSwitch ic) (t : Text) :
    d.readFrom ('(' :: '?' :: ':' :: t) =
      if maxDepth ≤ d.outer.length then .error .tooDeep
      else (d.enter (.plain d.switches)).readFrom t := by
  rw [readFrom_cons (by simp [skipBlank, skipFrom])]
  simp only [step, openGroup, opening]
  split
  · rfl
  · simp [skipBlank, skipFrom, switchesFrom, hd, resume, enter]

theorem readFrom_absent (t : Text) :
    d.readFrom ('(' :: '?' :: '!' :: t) =
      if maxDepth ≤ d.outer.length then .error .tooDeep
      else (d.enter (.look true false)).readFrom t := by
  rw [readFrom_cons (by simp [skipBlank, skipFrom])]
  simp only [step, openGroup, opening]
  split
  · rfl
  · simp [skipBlank, skipFrom, resume]

theorem readFrom_capture (hd : d.switches = caseSwitch ic) (ht : isQuiet t = true) :
    d.readFrom ('(' :: t) =
      if maxDepth ≤ d.outer.length then .error .tooDeep else d.enterGroup.readFrom t := by
  rw [readFrom_cons (hd ▸ skipBlank_of_isQuiet (isQuiet_paren ht))]
  show resume (d.openGroup t) = _
  split
  · rename_i hdeep
    rw [openGroup, if_pos hdeep]
    rfl
  · rename_i hroom
    simp only [openGroup, if_neg hroom, hd, skipBlank_of_isQuiet ht,
      opening_capture (t := t) (by rintro x rfl; simp [isQuiet] at ht)]
    rfl

end Draft

/-- A piece that can be repeated makes the branch it stands in one. -/
theorem isSolid_finish {l : Level} (hl : l.branches = []) (h : ∃ p ∈ l.pieces, p.IsSolid) :
    l.finish.IsSolid := by
  obtain ⟨p, hp, hsolid⟩ := h
  have hfinish : l.finish = branchOf l.pieces.reverse := by
    simp [Level.finish, hl, branchOf, Level.branch]
  rw [hfinish]
  have hmem := List.mem_reverse.2 hp
  cases hps : l.pieces.reverse with
  | nil => simp [hps] at hmem
  | cons q qs =>
    cases qs with
    | nil =>
      obtain rfl : p = q := by simpa [hps] using hmem
      exact hsolid
    | cons q' qs =>
      rw [branchOf_cons_cons]
      exact ⟨rfl, by simp [Piece.plain, Node.seqAll]⟩

/-- Where a parenthesis without a choice is closed, references by number and named groups are not
mixed. -/
theorem Draft.isMixed_of_close (h : d.close = .ok (d', p)) (hb : d.level.branches = []) :
    d'.isMixed = false := by
  unfold Draft.close at h
  split at h
  · cases h
  split at h
  · cases h
  rename_i q hfinish
  have hmixed : d.isMixed = false := by
    unfold Draft.finishLevel at hfinish
    split at hfinish
    · cases hfinish
    · rename_i hcond
      simpa [hb, Draft.isMixed] using hcond
  split at h
  case h_4 =>
    obtain ⟨n, -, heq⟩ := exists_of_map_eq_ok h
    cases heq
    exact hmixed
  all_goals
    cases h
    exact hmixed

/-- How a text in parentheses that do not capture is read. Where they are closed, references by
number and named groups are not mixed. -/
theorem Stands.exists_reads_group (h : Stands solid ic x) (hd : d.switches = caseSwitch ic) :
    ∃ y : Except Fault (Draft × Piece),
      (∀ rest, d.readFrom (['(', '?', ':'] ++ x ++ [')'] ++ rest) =
        y.bind fun z => Draft.resume (z.1.pushQuantified z.2 rest)) ∧
      ∀ z, y = .ok z → d.Extends z.1 [] ∧ (solid = true → z.2.IsSolid) ∧ z.1.isMixed = false := by
  obtain ⟨y, hread, hall⟩ := h.reads (d.enter (.plain d.switches)) hd
  obtain ⟨y', hreads, hy'⟩ := Draft.exists_reads_enclosed (d := d) (q := ['(', '?', ':'])
    (e := .plain d.switches)
    (fun rest => by simp [Draft.readFrom_group hd]) (fun rest => hread (')' :: rest) rfl) rfl
      fun d' hd' => by
      obtain ⟨ps, hps, -⟩ := hall d' hd'
      exact ⟨hps.outer, rfl⟩
  refine ⟨y', hreads, fun z hz => ?_⟩
  obtain ⟨hextends, d', hd', hclose⟩ := hy' z hz
  obtain ⟨ps, hps, hsolid⟩ := hall d' hd'
  have hbranches : d'.level.branches = [] := by
    rw [hps.level]
    rfl
  refine ⟨hextends, fun hs => ?_, Draft.isMixed_of_close hclose hbranches⟩
  obtain ⟨p, hp, hp'⟩ := hsolid hs
  rw [(Draft.of_close hclose hps.outer).2.2.2.2 d.switches rfl]
  refine isSolid_finish hbranches ⟨p, ?_, hp'⟩
  rw [hps.level]
  exact List.mem_append_left _ hp

theorem Stands.group (h : Stands solid ic x) :
    StandsOne solid ic (['(', '?', ':'] ++ x ++ [')']) where
  quiet _ := rfl
  reads d hd := by
    obtain ⟨y, hread, hall⟩ := h.exists_reads_group hd
    exact ⟨y, hread, fun z hz => ⟨(hall z hz).1, (hall z hz).2.1⟩⟩

theorem Stands.capture (h : Stands solid ic x) : StandsOne true ic (['('] ++ x ++ [')']) where
  quiet rest := by simpa using isQuiet_paren (h.quiet (')' :: rest) rfl)
  reads d hd := by
    have hquiet : ∀ rest, isQuiet (x ++ ')' :: rest) = true := fun rest => h.quiet _ rfl
    obtain ⟨y, hread, hall⟩ := h.reads d.enterGroup hd
    have hy : ∀ d', y = .ok d' →
        d'.outer = (.capture (d.groups + 1), d.level) :: d.outer ∧ d'.switches = d.switches := by
      intro d' hd'
      obtain ⟨ps, hps, -⟩ := hall d' hd'
      exact ⟨hps.outer, hps.switches⟩
    obtain ⟨y', hreads, hy'⟩ := Draft.exists_reads_enclosed (d := d) (q := ['('])
      (e := .capture (d.groups + 1)) (fun rest => by simp [Draft.readFrom_capture hd (hquiet rest)])
      (fun rest => hread (')' :: rest) rfl) rfl hy
    refine ⟨y', hreads, fun z hz => ?_⟩
    obtain ⟨hextends, d', hd', hclose⟩ := hy' z hz
    exact ⟨hextends, fun _ => (Draft.of_close hclose (hy d' hd').1).2.2.2.1 _ rfl⟩

theorem Stands.absent (h : Stands solid ic x) :
    StandsOne false ic (['(', '?', '!'] ++ x ++ [')']) where
  quiet _ := rfl
  reads d hd := by
    obtain ⟨y, hread, hall⟩ := h.reads (d.enter (.look true false)) hd
    obtain ⟨y', hreads, hy'⟩ := Draft.exists_reads_enclosed (d := d) (q := ['(', '?', '!'])
      (e := .look true false)
      (fun rest => by simp [Draft.readFrom_absent]) (fun rest => hread (')' :: rest) rfl) rfl
        fun d' hd' => by
        obtain ⟨ps, hps, -⟩ := hall d' hd'
        exact ⟨hps.outer, hps.switches⟩
    exact ⟨y', hreads, fun z hz => ⟨(hy' z hz).1, by simp⟩⟩

/-- A text that is an expression on its own, in a group that does not capture, if the group is
one. -/
theorem standsOne_of_isSelfContained (hx : IsSelfContained ic x)
    (hgroup : ∃ e, read (switchSource ic ++ (['(', '?', ':'] ++ x ++ [')'] ++ ['$'])) = .ok e) :
    StandsOne false ic (['(', '?', ':'] ++ x ++ [')']) where
  quiet _ := rfl
  reads d hd := by
    rcases hx.readFrom_cases with hstable | hopen
    · obtain ⟨y, hread, hall⟩ := hstable (d.enter (.plain d.switches)) hd
      obtain ⟨y', hreads, hy'⟩ := Draft.exists_reads_enclosed (d := d) (q := ['(', '?', ':'])
        (e := .plain d.switches) (fun rest => by simp [Draft.readFrom_group hd])
        (fun rest => hread (')' :: rest) (closed_paren rest)) rfl fun d' hd' => ⟨hall d' hd', rfl⟩
      exact ⟨y', hreads, fun z hz => ⟨(hy' z hz).1, by simp⟩⟩
    · -- a comment that goes on beyond the text leaves the group open
      obtain ⟨e, he⟩ := hgroup
      unfold read at he
      split at he
      · cases he
      rename_i d₁ hread
      split at he
      · cases he
      rename_i houter
      have htext :
          ['(', '?', ':'] ++ x ++ [')'] ++ ['$'] = '(' :: '?' :: ':' :: (x ++ [')', '$']) := by
        simp
      rw [htext, readFrom_switch ic rfl, Draft.readFrom_group rfl,
        if_neg (by simp [maxDepth])] at hread
      obtain ⟨inner, hinner⟩ := hopen (Draft.enter { switches := caseSwitch ic } _) rfl [')', '$']
        (closed_paren _) (by decide) d₁ hread
      simp [← hinner, Draft.enter] at houter

/-! ### literal texts and values -/

theorem standsOne_quoteChar (ic : Bool) (c : Char) : StandsOne false ic (quoteChar c) where
  quiet := isQuiet_quoteChar c
  reads d hd := by
    obtain ⟨i, -, hread⟩ := exists_readFrom_quoteChar ic c
    exact ⟨.ok (d, .plain (.char c i) true), fun rest => hread d rest hd,
      fun z hz => by cases hz; exact ⟨.refl d, by simp⟩⟩

theorem standsOne_dot (ic : Bool) : StandsOne false ic ['.'] where
  quiet _ := rfl
  reads d hd := by
    refine ⟨.ok (d, .plain (.oneOf .inLine) true), fun rest => ?_,
      fun z hz => by cases hz; exact ⟨.refl d, by simp⟩⟩
    show d.readFrom ('.' :: rest) = _
    rw [Draft.readFrom_cons (by simp [skipBlank, skipFrom, hd])]
    simp [Draft.step, hd, Except.bind]

theorem stands_quote (ic : Bool) (t : Text) : Stands false ic (quote t) := by
  induction t with
  | nil => exact stands_nil
  | cons c t ih => exact (standsOne_quoteChar ic c).stands.append ih

theorem stands_loosenFrom (ic : Bool) (D : Text) (skip : Nat) (inRun : Bool) (t : Text) :
    Stands false ic (loosenFrom D skip inRun t) := by
  have hrun : Stands false ic (delimiterRun D) := by
    have htext : delimiterRun D =
        ['(', '?', ':'] ++ quote D ++ [')'] ++ ['+'] ++ (['(', '?', '!'] ++ quote D ++ [')']) := by
      simp [delimiterRun]
    rw [htext]
    exact ((stands_quote ic D).group.repeated (by simp) repeats_some).append
      (stands_quote ic D).absent.stands
  refine loosenFrom_induction (P := Stands false ic) stands_nil (fun x hx => ?_)
    (fun c rest x _ hx => ?_) skip inRun t
  · exact hrun.append hx
  · exact (standsOne_quoteChar ic c).stands.append hx

theorem stands_source (ic : Bool) (l : Literal) (t : Text) : Stands false ic (l.source t) := by
  unfold Literal.source
  split
  · exact stands_loosenFrom ic l.delimiter 0 false t
  · exact stands_quote ic t

theorem stands_shortStretch (ic : Bool) (D : Text) : Stands false ic (shortStretch D) := by
  have htext : shortStretch D =
      ['(', '?', ':'] ++ (['(', '?', '!'] ++ quote D ++ [')'] ++ ['.']) ++ [')'] ++ ['+', '?'] := by
    simp [shortStretch, outside]
  rw [htext]
  exact ((stands_quote ic D).absent.stands.append (standsOne_dot ic).stands).group.repeated
    (by simp) repeats_few

end PathTemplate.Expression
