import PathTemplate.Proofs.Readable
import PathTemplate.Proofs.Runs.Mirror
import PathTemplate.Proofs.Segment.Basic

/-!
# Loose expressions ignore the length of runs

The expressions of templates with loose delimiters, piece by piece. `D` is the delimiter, one
character with no other form.

* `Sense.IsDry` — no match takes a delimiter;
* `OverlooksRuns` — pieces whose attempts ignore the length of runs; if none of them is hard, they
  are dry;
* `OverlooksRuns.append`, `OverlooksRuns.loop`, `OverlooksRuns.group` — how such pieces are put
  together;
* `Expression.Overlooks`, `Expression.OverlooksOne` — texts that are read as such pieces, or as
  one of them;
* `Expression.overlooks_source`, `Expression.overlooks_fragment` — so are literal texts and
  parameters;
* `Template.overlooksRuns_root` — and so are the expressions of whole templates.
-/

namespace PathTemplate

open Expression (Literal Reads ReadsOne Repeats Piece branchOf isQuiet)

/-! ### matches without delimiters -/

/-- Every match leads on over a text without delimiters. -/
def Sense.IsDry (D : Char) (S : Sense) : Prop := ∀ p q w, S p q w → ∃ v, p.Takes v q ∧ D ∉ v

namespace Sense

variable {D : Char} {R S : Sense}

theorem isDry_nothing (D : Char) : nothing.IsDry D := by
  rintro p q w ⟨rfl, -⟩
  exact ⟨[], .refl q, by simp⟩

theorem isDry_place (D : Char) (a : Assertion) : (place a).IsDry D := by
  rintro p q w ⟨-, rfl, -⟩
  exact ⟨[], .refl q, by simp⟩

theorem isDry_one {test : Char → Bool} (htest : test D = false) : (one test).IsDry D := by
  rintro p q w ⟨d, hd, h, -⟩
  refine ⟨[d], h, ?_⟩
  rw [List.mem_singleton]
  rintro rfl
  rw [htest] at hd
  cases hd

theorem IsDry.seq (hR : R.IsDry D) (hS : S.IsDry D) : (R.seq S).IsDry D := by
  rintro p q w ⟨r, u, v, hu, hv, -⟩
  obtain ⟨x, hx, hxD⟩ := hR _ _ _ hu
  obtain ⟨y, hy, hyD⟩ := hS _ _ _ hv
  exact ⟨x ++ y, hx.trans hy, by simp [hxD, hyD]⟩

theorem IsDry.rounds (hR : R.IsDry D) (lo : Nat) (hi : Option Nat) : (R.rounds lo hi).IsDry D := by
  have hiterates : ∀ n, IsDry D (Iterates R n) := by
    intro n
    induction n with
    | zero => exact isDry_nothing D
    | succ n ih => exact hR.seq ih
  rintro p q w ⟨n, -, h⟩
  exact hiterates _ p q w h

end Sense

/-! ### pieces -/

/-- Attempts of the pieces come to the same end however long runs are, and arranging does not change
them.  If no piece is hard, so that no attempts are made, then no match takes a delimiter. -/
structure OverlooksRuns (D : Char) (ns : List Node) : Prop where
  proper : ∀ n ∈ ns, n ≠ .empty
  regular : ∀ n ∈ ns, n.isRegular = true
  steady : ∀ n ∈ ns, n.IsSteady
  ignores : IgnoresRuns D (Node.attemptAll ns)
  dry : ns.any (Node.isHard []) = false → Sense.IsDry D (Node.MatchesAll ns)

section

variable {D c : Char} {i : Bool} {n : Node} {ms ns : List Node} {ps : List Piece}

theorem Node.isArranged_of_isRegular (hn : n.isRegular = true) (exact : Bool) :
    n.isArranged exact = true := by
  induction n generalizing exact with
  | seq a b iha ihb | alt a b iha ihb =>
    simp only [isRegular, Bool.and_eq_true] at hn
    simp [isArranged, iha hn.1, ihb hn.2]
  | group i a ih =>
    simp only [isRegular, Bool.and_eq_true] at hn
    exact ih hn.2 _
  | loop a lo hi greedy ih | look d positive a ih => exact ih hn _
  | empty | char c i | oneOf s | assertion a => rfl
  | _ => cases hn

theorem isReached_attempt (hn : n.isRegular = true) : IsReached n.attempt := by
  intro k s b t b' h
  obtain ⟨q, w, b₁, -, h⟩ := (Node.attempt_follows (Node.isArranged_of_isRegular hn true)).found _ _
    _ _ _ h
  exact ⟨_, b₁, h⟩

/-- One piece that is not like `empty`. -/
theorem overlooksRuns_one (hp : n ≠ .empty) (hr : n.isRegular = true) (hs : n.IsSteady)
    (hi : IgnoresRuns D n.attempt) (hd : n.isHard [] = false → Sense.IsDry D n.Matches) :
    OverlooksRuns D [n] where
  proper := by simpa using hp
  regular := by simpa using hr
  steady := by simpa using hs
  ignores := hi
  dry h := by
    rw [Node.matchesAll_singleton]
    exact hd (by simpa using h)

theorem overlooksRuns_nil (D : Char) : OverlooksRuns D [] :=
  ⟨by simp, by simp, by simp, fun _ _ _ _ h => h, fun _ => Sense.isDry_nothing D⟩

namespace OverlooksRuns

theorem append (hm : OverlooksRuns D ms) (hn : OverlooksRuns D ns) :
    OverlooksRuns D (ms ++ ns) where
  proper n h := (List.mem_append.1 h).elim (hm.proper n) (hn.proper n)
  regular n h := (List.mem_append.1 h).elim (hm.regular n) (hn.regular n)
  steady n h := (List.mem_append.1 h).elim (hm.steady n) (hn.steady n)
  ignores := by
    have hcomp := hm.ignores.comp hn.ignores
    rwa [show Node.attemptAll (ms ++ ns) = fun k => Node.attemptAll ms (Node.attemptAll ns k) from
      funext fun k => Node.attemptAll_append ms ns k]
  dry h := by
    rw [List.any_append, Bool.or_eq_false_iff] at h
    rw [Node.matchesAll_append]
    exact (hm.dry h.1).seq (hn.dry h.2)

theorem dry_one (h : OverlooksRuns D [n]) (hn : n.isHard [] = false) : Sense.IsDry D n.Matches := by
  rw [← Node.matchesAll_singleton]
  exact h.dry (by simpa using hn)

theorem loop (h : OverlooksRuns D [n]) {lo : Nat} {hi : Option Nat} (hhi : hi ≠ some lo)
    (greedy : Bool) : OverlooksRuns D [.loop n lo hi greedy] := by
  have hregular := h.regular n (by simp)
  refine overlooksRuns_one (by simp) hregular ((h.steady n (by simp)).loop hhi greedy) ?_
    fun hn => ?_
  · exact h.ignores.between (isReached_attempt hregular) greedy lo hi
  · exact (h.dry_one hn).rounds lo hi

/-- What is captured is hard. -/
theorem group (h : OverlooksRuns D [n]) (hhard : n.isHard [] = true) {i : Nat} (hi : i ≠ 0) :
    OverlooksRuns D [.group i n] := by
  have hregular : (Node.group i n).isRegular = true := by
    simp [Node.isRegular, hi, h.regular n (by simp)]
  refine overlooksRuns_one (by simp) hregular ((h.steady n (by simp)).group hhard i)
    (IgnoresRuns.group h.ignores i) fun hn => ?_
  simp [Node.isHard, hhard] at hn

end OverlooksRuns

theorem overlooksRuns_char (hc : matchesChar c i D = false) : OverlooksRuns D [.char c i] :=
  overlooksRuns_one (by simp) rfl (Node.isSteady_char c i) (ignoresRuns_char hc) fun _ =>
  Sense.isDry_one hc

theorem overlooksRuns_textStart (D : Char) : OverlooksRuns D [.assertion .textStart] :=
  overlooksRuns_one (by simp) rfl (Node.isSteady_assertion _) ignoresRuns_textStart fun _ =>
  Sense.isDry_place D _

theorem overlooksRuns_textEnd (D : Char) : OverlooksRuns D [.assertion .textEnd] :=
  overlooksRuns_one (by simp) rfl (Node.isSteady_assertion _) ignoresRuns_textEnd fun _ =>
  Sense.isDry_place D _

/-- A delimiter alone does not ignore the length of runs, but all delimiters of a run do. -/
theorem overlooksRuns_run (hi : IsOnly D i) :
    OverlooksRuns D [.loop (.char D i) 1 none true, .look .ahead false (.char D i)] where
  proper := by simp
  regular := by simp [Node.isRegular]
  steady := by
    intro n hn
    rcases List.mem_pair.1 hn with rfl | rfl
    · exact (Node.isSteady_char D i).loop (by simp) true
    · exact Node.isSteady_look .ahead false D i
  ignores := ignoresRuns_run hi
  dry h := by simp [Node.isHard] at h

theorem overlooksRuns_outside (hi : IsOnly D i) (set : CharSet) :
    OverlooksRuns D [.look .ahead false (.char D i), .oneOf set] where
  proper := by simp
  regular := by simp [Node.isRegular]
  steady := by
    intro n hn
    rcases List.mem_pair.1 hn with rfl | rfl
    · exact Node.isSteady_look .ahead false D i
    · exact Node.isSteady_oneOf set
  ignores := ignoresRuns_outside hi set
  dry h := by simp [Node.isHard] at h

/-! ### branches -/

theorem attempt_branchOf (ps : List Piece) :
    (branchOf ps).node.attempt = Node.attemptAll (ps.map Piece.node) := by
  match ps with
  | [] => rfl
  | [p] => rfl
  | p :: q :: ps => rw [Expression.branchOf_cons_cons, Piece.plain, Node.attempt_seqAll]

theorem isHard_branchOf (refs : List Nat) (ps : List Piece) :
    (branchOf ps).node.isHard refs = (ps.map Piece.node).any (Node.isHard refs) := by
  match ps with
  | [] => rfl
  | [p] => simp [branchOf, Expression.Level.branch]
  | p :: q :: ps => rw [Expression.branchOf_cons_cons, Piece.plain, Node.isHard_seqAll]

theorem isSteady_branchOf (h : ∀ n ∈ ps.map Piece.node, n.IsSteady) :
    (branchOf ps).node.IsSteady := by
  match ps with
  | [] => exact Node.isSteady_empty
  | [p] => exact h p.node (by simp)
  | p :: q :: ps =>
    rw [Expression.branchOf_cons_cons]
    exact Node.isSteady_seqAll h

/-- A branch of such pieces is one of them. -/
theorem OverlooksRuns.branch (h : OverlooksRuns D (ps.map Piece.node)) (hps : ps ≠ []) :
    OverlooksRuns D [(branchOf ps).node] := by
  obtain ⟨hm, hr, hp, -⟩ := Expression.branchOf_node 0 0 ps h.proper
  refine overlooksRuns_one (hp hps) (hr h.regular) (isSteady_branchOf h.steady) ?_ fun hn => ?_
  · rw [attempt_branchOf]
    exact h.ignores
  · rw [hm]
    exact h.dry (isHard_branchOf [] ps ▸ hn)

end

/-! ### texts -/

namespace Expression

/-- The text is read as pieces that ignore the length of runs; `solid` says that it can be repeated
as a group, and `hard` that one of them is hard. -/
structure Overlooks (D : Char) (solid hard ic : Bool) (k g g' : Nat) (x : Text) : Prop where
  quiet : ∀ rest, isQuiet rest = true → isQuiet (x ++ rest) = true
  pieces :
    ∃ ps, Reads ic k g g' x ps ∧ OverlooksRuns D (ps.map Piece.node) ∧
      (solid = true → (branchOf ps).repeatable = true) ∧
      (hard = true → (ps.map Piece.node).any (Node.isHard []) = true)

/-- The text is read as one such piece, and what follows may repeat it. -/
structure OverlooksOne (D : Char) (hard ic : Bool) (k g g' : Nat) (x : Text) : Prop where
  quiet : ∀ rest, isQuiet (x ++ rest) = true
  piece : ∃ p, ReadsOne ic k g g' x p ∧ OverlooksRuns D [p.node] ∧ p.repeatable = true ∧
    (hard = true → p.node.isHard [] = true)

section

variable {D : Char} {solid solid' hard hard' ic : Bool} {k g m g' : Nat} {x y : Text} {l : Literal}
  {p : Param}

theorem overlooks_nil : Overlooks D false false ic k g g [] :=
  ⟨fun _ h => h, [], reads_nil, overlooksRuns_nil D, by simp, by simp⟩

theorem Overlooks.append (hx : Overlooks D solid hard ic k g m x)
    (hy : Overlooks D solid' hard' ic k m g' y) :
    Overlooks D (solid || solid') (hard || hard') ic k g g' (x ++ y) where
  quiet rest h := by
    rw [List.append_assoc]
    exact hx.quiet _ (hy.quiet _ h)
  pieces := by
    obtain ⟨ps, hps, hpsD, hpsr, hpsh⟩ := hx.pieces
    obtain ⟨qs, hqs, hqsD, hqsr, hqsh⟩ := hy.pieces
    refine ⟨ps ++ qs, hps.append hqs hy.quiet, ?_, fun h => branchOf_append_repeatable ?_,
      fun h => ?_⟩
    · rw [List.map_append]
      exact hpsD.append hqsD
    · rw [Bool.or_eq_true] at h
      exact h.imp hpsr hqsr
    · rw [Bool.or_eq_true] at h
      rw [List.map_append, List.any_append, Bool.or_eq_true]
      exact h.imp hpsh hqsh

theorem Overlooks.mono (h : Overlooks D solid hard ic k g g' x) {k' : Nat} (hk : k ≤ k')
    (hs : solid' = true → solid = true) (hh : hard' = true → hard = true) :
    Overlooks D solid' hard' ic k' g g' x where
  quiet := h.quiet
  pieces := by
    obtain ⟨ps, hps, hpsD, hpsr, hpsh⟩ := h.pieces
    exact ⟨ps, hps.weaken hk, hpsD, fun h => hpsr (hs h), fun h => hpsh (hh h)⟩

theorem OverlooksOne.overlooks (h : OverlooksOne D hard ic k g g' x) :
    Overlooks D true hard ic k g g' x where
  quiet rest _ := h.quiet rest
  pieces := by
    obtain ⟨p, hread, hD, hp, hh⟩ := h.piece
    exact ⟨[p], hread.reads (hD.proper _ (by simp)), hD, fun _ => hp, fun h => by simpa using hh h⟩

theorem OverlooksOne.repeated (h : OverlooksOne D hard ic k g g' x) {q : Text} {lo : Nat}
    {hi : Option Nat} {greedy : Bool} (hq : Repeats q lo hi greedy) (hhi : hi ≠ some lo) :
    Overlooks D true hard ic k g g' (x ++ q) where
  quiet rest _ := by
    rw [List.append_assoc]
    exact h.quiet _
  pieces := by
    obtain ⟨p, hread, hD, hp, hh⟩ := h.piece
    refine ⟨[.plain (.loop p.node lo hi greedy) true], hread.repeated hp hq, hD.loop hhi greedy,
      fun _ => rfl, fun h => ?_⟩
    simpa [Piece.plain, Node.isHard] using hh h

/-! ### parentheses -/

theorem Overlooks.group (h : Overlooks D true hard ic k g g' x) :
    OverlooksOne D hard ic (k + 1) g g' (['(', '?', ':'] ++ x ++ [')']) where
  quiet _ := rfl
  piece := by
    obtain ⟨ps, hps, hD, hr, hh⟩ := h.pieces
    exact ⟨branchOf ps, hps.group, hD.branch (ne_nil_of_repeatable (hr rfl)), hr rfl,
      fun h => isHard_branchOf [] ps ▸ hh h⟩

/-- A group that nothing repeats may be empty. -/
theorem Overlooks.plainGroup (h : Overlooks D solid hard ic k g g' x) :
    Overlooks D false hard ic (k + 1) g g' (['(', '?', ':'] ++ x ++ [')']) where
  quiet _ _ := rfl
  pieces := by
    obtain ⟨ps, hps, hD, hr, hh⟩ := h.pieces
    by_cases hne : ps = []
    · subst hne
      exact ⟨[], hps.emptyGroup, hD, by simp, hh⟩
    · have hb := hD.branch hne
      refine ⟨[branchOf ps], hps.group.reads (hb.proper _ (by simp)), hb, by simp, fun h => ?_⟩
      simpa [isHard_branchOf] using hh h

theorem Overlooks.capture (h : Overlooks D true true ic k (g + 1) g' x) :
    OverlooksOne D true ic (k + 1) g g' (['('] ++ x ++ [')']) where
  quiet rest := by simpa using isQuiet_paren (h.quiet (')' :: rest) rfl)
  piece := by
    obtain ⟨ps, hps, hD, hr, hh⟩ := h.pieces
    have hhard : (branchOf ps).node.isHard [] = true := isHard_branchOf [] ps ▸ hh rfl
    exact ⟨_, hps.capture h.quiet, (hD.branch (ne_nil_of_repeatable (hr rfl))).group hhard
        (Nat.succ_ne_zero g), rfl, fun _ => by
      simp [Piece.plain, Node.isHard, hhard]⟩

theorem Overlooks.modified (h : Overlooks D true hard ic k g g' x) (m : Option Modifier) :
    Overlooks D true hard ic (k + 1) g g'
      (['(', '?', ':'] ++ x ++ [')'] ++ m.toList.map Modifier.char) := by
  match m with
  | none => simpa using h.group.overlooks
  | some .optional => exact h.group.repeated repeats_optional (by simp)
  | some .zeroOrMore => exact h.group.repeated repeats_any (by simp)
  | some .oneOrMore => exact h.group.repeated repeats_some (by simp)

/-! ### literal text -/

theorem isOnly_of_matchesChar_eq (hD : IsAlone D) {i : Bool}
    (hi : matchesChar D i = matchesChar D ic) : IsOnly D i := by
  intro c
  rw [hi]
  exact matchesChar_delimiter' hD

theorem overlooksOne_quoteChar (hD : IsAlone D) {c : Char} (hc : c ≠ D) :
    OverlooksOne D false ic k g g (quoteChar c) := by
  obtain ⟨i, hi, hread⟩ := exists_readsOne_quoteChar ic c
  refine ⟨isQuiet_quoteChar c, _, hread k g, overlooksRuns_char ?_, rfl, by simp⟩
  rw [hi, Bool.eq_false_iff, Ne, matchesChar_delimiter hD]
  exact hc

theorem exists_reads_delimiter (hD : IsAlone D) (ic : Bool) :
    ∃ i, IsOnly D i ∧ ∀ k g, Reads ic k g g (quote [D]) [.plain (.char D i) true] := by
  obtain ⟨i, hi, hread⟩ := exists_readsOne_quoteChar ic D
  refine ⟨i, isOnly_of_matchesChar_eq hD hi, fun k g => ?_⟩
  rw [show quote [D] = quoteChar D by simp [quote]]
  exact (hread k g).reads (by simp [Piece.plain])

theorem overlooks_delimiterRun (hD : IsAlone D) :
    Overlooks D true true ic (k + 1) g g (delimiterRun [D]) := by
  obtain ⟨i, hi, hread⟩ := exists_reads_delimiter hD ic
  have htext : delimiterRun [D] =
      ['(', '?', ':'] ++ quote [D] ++ [')'] ++ ['+'] ++
        (['(', '?', '!'] ++ quote [D] ++ [')']) := by
    simp [delimiterRun]
  rw [htext]
  exact ⟨fun _ _ => rfl, _,
    ((hread k g).group.repeated rfl repeats_some).append (hread k g).absent fun _ _ => rfl,
    overlooksRuns_run hi, fun _ => rfl, fun _ => rfl⟩

theorem overlooks_loosenFrom (hD : IsAlone D) (skip : Nat) (inRun : Bool) (t : Text) :
    Overlooks D (!(loosenFrom [D] skip inRun t).isEmpty) false ic (k + 1) g g
      (loosenFrom [D] skip inRun t) := by
  have happend : ∀ {x y : Text} {hard : Bool}, Overlooks D true hard ic (k + 1) g g x →
      Overlooks D (!y.isEmpty) false ic (k + 1) g g y →
      Overlooks D (!(x ++ y).isEmpty) false ic (k + 1) g g (x ++ y) :=
    fun hx hy => (hx.append hy).mono (Nat.le_refl _) (fun _ => rfl) (by simp)
  refine loosenFrom_induction (P := fun x => Overlooks D (!x.isEmpty) false ic (k + 1) g g x)
    overlooks_nil (fun x hx => ?_) (fun c rest x hpre hx => ?_) skip inRun t
  · exact happend (overlooks_delimiterRun hD) hx
  · have hc : c ≠ D := fun hc => hpre (by simp [hc])
    exact happend (overlooksOne_quoteChar hD hc).overlooks hx

theorem overlooks_source (ic : Bool) (k g : Nat) (hl : l.delimiter = [D]) (hloose : l.loose = true)
    (hD : IsAlone D) (t : Text) :
    Overlooks D (!(l.source t).isEmpty) false ic (k + 1) g g (l.source t) := by
  have hsource : l.source t = loosenFrom [D] 0 false t := by
    simp [Literal.source, loosen, hl, hloose]
  rw [hsource]
  exact overlooks_loosenFrom hD 0 false t

/-! ### parameters -/

theorem overlooksOne_outside (hD : IsAlone D) :
    OverlooksOne D true ic (k + 2) g g
      (['(', '?', ':'] ++ ((['(', '?', '!'] ++ quote [D] ++ [')']) ++ ['.']) ++ [')']) := by
  obtain ⟨i, hi, hread⟩ := exists_reads_delimiter hD ic
  have hbody :
      Overlooks D true true ic (k + 1) g g ((['(', '?', '!'] ++ quote [D] ++ [')']) ++ ['.']) :=
    ⟨fun _ _ => rfl, _, (hread k g).absent.append (readsOne_dot.reads (by simp [Piece.plain]))
      fun _ _ => rfl,
      overlooksRuns_outside hi .inLine, fun _ => rfl, fun _ => rfl⟩
  exact hbody.group

theorem overlooks_stretch (hD : IsAlone D) :
    Overlooks D true true ic (k + 2) g g (stretch [D]) ∧
    Overlooks D true true ic (k + 2) g g (shortStretch [D]) := by
  have hshort : shortStretch [D] =
      ['(', '?', ':'] ++ ((['(', '?', '!'] ++ quote [D] ++ [')']) ++ ['.']) ++ [')'] ++
        ['+', '?'] := by
    simp [shortStretch, outside]
  have hlong : stretch [D] =
      ['(', '?', ':'] ++ ((['(', '?', '!'] ++ quote [D] ++ [')']) ++ ['.']) ++ [')'] ++ ['+'] := by
    simp [stretch, outside]
  rw [hlong, hshort]
  exact ⟨(overlooksOne_outside hD).repeated repeats_some (by simp),
    (overlooksOne_outside hD).repeated repeats_few (by simp)⟩

theorem overlooks_valueSource (hl : l.delimiter = [D]) (hD : IsAlone D)
    (hp : p.pattern = none ∨ p.pattern = some (stretch l.delimiter)) :
    Overlooks D true true ic (k + 3) g g (p.valueSource l.delimiter) := by
  unfold Param.valueSource
  rcases hp with hp | hp <;> rw [hp, hl]
  · exact (overlooks_stretch hD).2.mono (Nat.le_succ _) id id
  · exact (overlooks_stretch hD).1.group.overlooks

theorem overlooks_inner (ic : Bool) (k g : Nat) (hl : l.delimiter = [D]) (hloose : l.loose = true)
    (hD : IsAlone D)
    (hp : p.isCapturing = true → p.pattern = none ∨ p.pattern = some (stretch l.delimiter)) :
    Overlooks D (p.isCapturing || (!(l.source p.before).isEmpty || !(l.source p.after).isEmpty))
      false ic (k + 5) g (g + p.groups) (p.innerSource l) := by
  unfold Param.innerSource Param.groups
  have hbefore := fun g => overlooks_source ic (k + 4) g hl hloose hD p.before
  have hafter := fun g => overlooks_source ic (k + 4) g hl hloose hD p.after
  cases hc : p.isCapturing with
  | false => exact (hbefore g).append (hafter g)
  | true =>
    have hvalue : Overlooks D true true ic (k + 3) (g + 1) (g + 1) (p.valueSource l.delimiter) :=
      overlooks_valueSource hl hD (hp hc)
    have hvalues : Overlooks D true true ic (k + 4) (g + 1) (g + 1) (p.valueSource l.delimiter ++
          (if p.isRepeating then ['(', '?', ':'] ++
            (l.source p.between ++ p.valueSource l.delimiter) ++ [')'] ++ ['*'] else [])) := by
      split
      · have hround : Overlooks D true true ic (k + 3) (g + 1) (g + 1)
            (l.source p.between ++ p.valueSource l.delimiter) :=
          ((overlooks_source ic (k + 2) (g + 1) hl hloose hD p.between).append hvalue).mono
            (Nat.le_refl _) (by simp) (by simp)
        exact (hvalue.mono (Nat.le_succ _) id id).append
          (hround.group.repeated repeats_any (by simp))
      · rw [List.append_nil]
        exact hvalue.mono (Nat.le_succ _) id id
    have hall := (hbefore g).append (hvalues.capture.overlooks.append (hafter (g + 1)))
    simpa using hall.mono (Nat.le_refl _) (fun _ => by simp) Bool.false_ne_true.elim

/-- The expression of a parameter ignores the length of runs, if it is one at all. -/
theorem overlooks_fragment (hl : l.delimiter = [D]) (hloose : l.loose = true) (hD : IsAlone D)
    (hp : p.isCapturing = true → p.pattern = none ∨ p.pattern = some (stretch l.delimiter))
    (htext :
      p.isCapturing = false → p.modifier ≠ none → l.source p.before ++ l.source p.after ≠ []) :
    Overlooks D false false ic (k + 6) g (g + p.groups) (p.fragment l) := by
  have hinner := overlooks_inner ic k g hl hloose hD hp
  rw [Param.fragment_eq]
  by_cases hsolid :
    (p.isCapturing || (!(l.source p.before).isEmpty || !(l.source p.after).isEmpty)) = true
  · rw [hsolid] at hinner
    exact (hinner.modified p.occurrence).mono (Nat.le_refl _) (by simp) id
  · -- an empty group has no modifier
    obtain ⟨hc, hb, ha⟩ :
        p.isCapturing = false ∧ l.source p.before = [] ∧ l.source p.after = [] := by
      simpa using hsolid
    have hocc : p.occurrence = none := by
      by_contra hne
      have hmodifier : p.modifier ≠ none := by simpa [Param.occurrence, hc] using hne
      exact htext hc hmodifier (by simp [hb, ha])
    rw [hocc]
    simpa using hinner.plainGroup

end

end Expression

/-! ### templates -/

namespace Template

open Expression (Overlooks)

variable {D : Char} {once ic : Bool} {k k' g : Nat} {l : Literal} {σ : Text → Sense}
  {o : ExpressionOptions} {t : Template} {e : PathExpression}

theorem overlooks_fragments (hl : l.delimiter = [D]) (hloose : l.loose = true) (hD : IsAlone D)
    {parts : List Part} (hparts : ∀ p, .param p ∈ parts → Readable once ic k' l σ p)
    (hpatterns : ∀ p, .param p ∈ parts → p.isCapturing = true →
      p.pattern = none ∨ p.pattern = some (Expression.stretch l.delimiter)) :
    Overlooks D false false ic (k + 6) g (g + groups parts) (parts.flatMap (Part.fragment l)) := by
  induction parts generalizing g with
  | nil => exact Expression.overlooks_nil
  | cons part parts ih =>
    have ih' := fun g => ih (g := g) (fun p hp => hparts p (List.mem_cons_of_mem _ hp))
      (fun p hp => hpatterns p (List.mem_cons_of_mem _ hp))
    cases part with
    | text t =>
      have ht : Overlooks D false false ic (k + 6) g g (l.source t) :=
        (Expression.overlooks_source ic (k + 5) g hl hloose hD t).mono (Nat.le_refl _) (by simp) id
      exact ht.append (ih' g)
    | param p =>
      have hp := hparts p (List.mem_cons_self ..)
      rw [groups_param, ← Nat.add_assoc]
      exact (Expression.overlooks_fragment hl hloose hD (hpatterns p (List.mem_cons_self ..))
        hp.text).append (ih' _)

theorem overlooks_tail (hl : l.delimiter = [D]) (hloose : l.loose = true) (hD : IsAlone D)
    (trailing : Bool) :
    Overlooks D false false ic 63 g g
      (if trailing then ['(', '?', ':'] ++ l.source l.delimiter ++ [')', '?'] else []) := by
  cases trailing with
  | false => exact Expression.overlooks_nil
  | true =>
    have hne : l.source l.delimiter ≠ [] := l.source_ne_nil (by simp [hl])
    have hsource : Overlooks D true false ic 62 g g (l.source l.delimiter) :=
      (Expression.overlooks_source ic 61 g hl hloose hD l.delimiter).mono (Nat.le_refl _)
      (by simpa using hne) id
    have hall := hsource.modified (some .optional)
    simpa [Modifier.char] using hall.mono (Nat.le_refl _) (fun _ => rfl) id

/-- The expression of a template for whole paths, with loose delimiters and without patterns that
are written out, ignores the length of runs. -/
theorem overlooksRuns_root (hstart : o.start = true) (hfinish : o.finish = true)
    (hloose : o.loose = true) (hdelimiter : t.delimiter = [D]) (hD : IsAlone D)
    (hpatterns :
      ∀ p ∈ t.params, p.pattern = none ∨ p.pattern = some (Expression.stretch t.delimiter))
    (h : t.toExpression o = .ok e) :
    OverlooksRuns D [e.expression.root] ∧ e.expression.referenced = [] := by
  have hne : t.delimiter ≠ [] := by simp [hdelimiter]
  obtain ⟨fs, hfs, hreadable⟩ := readable_of_toExpression false hne
    (fun p hp => Param.hasPattern_of_wildcard (hpatterns p hp)) h
  obtain rfl := fragmentsFrom_eq hfs
  have hend : ∀ g, Overlooks D false false (!o.sensitive) 63 g g ['$'] := fun g =>
    ⟨fun _ _ => rfl, _, Expression.reads_textEnd, overlooksRuns_textEnd D, by simp, by simp⟩
  have hbody := overlooks_fragments (k := 57) (g := 0) (l := ⟨t.delimiter, o.loose⟩) hdelimiter
    hloose hD hreadable fun p hp hc => hpatterns p (mem_paramsOf.2 ⟨hp, hc⟩)
  have hrest := hbody.append
    ((overlooks_tail (l := ⟨t.delimiter, o.loose⟩) hdelimiter hloose hD o.trailing).append (hend _))
  obtain ⟨ps, hps, hpsD, -, -⟩ := hrest.pieces
  have hread := (Expression.reads_textStart.append hps hrest.quiet).read rfl
  have hsource : t.source o = .ok (Expression.switchSource (!o.sensitive) ++ (['^'] ++
      (t.parts.flatMap (Part.fragment ⟨t.delimiter, o.loose⟩) ++ ((if o.trailing then
        ['(', '?', ':'] ++ Literal.source ⟨t.delimiter, o.loose⟩ t.delimiter ++ [')', '?'] else
          []) ++ ['$'])))) := by
    have hswitch : o.flags.inlineSwitch = Expression.switchSource (!o.sensitive) :=
      Expression.inlineSwitch_eq (by simp [ExpressionOptions.flags])
    simp only [source, hfs, hswitch, Except.map, List.flatMap_def, List.append_assoc, hstart,
      hfinish, if_true]
  simp only [toExpression, hsource, hread] at h
  cases h
  exact ⟨((overlooksRuns_textStart D).append hpsD).branch (by simp), rfl⟩

end Template

end PathTemplate
