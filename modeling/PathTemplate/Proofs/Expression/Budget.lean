import PathTemplate.Proofs.Runs.Fragment

/-!
# What attempts spend

Going back costs one unit of the budget that a search has.  A search in literal text with runs of
delimiters spends three units for each character of the subject, at most.

* `Outcome.Spends` — how much of the budget is spent, at most;
* `IsThrifty` — attempts that spend two units for each character that is left, if what follows does;
* `Node.StridesBy.isThrifty_run` — a run of delimiters is thrifty: rounds that are taken back have
  taken characters;
* `Expression.Saves` — texts that are read as thrifty pieces;
* `Expression.Saves.find_ne_gaveUp` — a search for the whole of a text does not give up if the
  text is short enough.
-/

namespace PathTemplate

open Expression (Reads ReadsOne Piece branchOf isQuiet)

/-- At most `c` units of the budget `b` are spent; without a result, fewer than `c` are there. -/
def Outcome.Spends (c b : Nat) : Outcome → Prop
  | found _ b' | failed b' => b ≤ b' + c
  | exhausted => b < c

/-- Going on spends two units for each character that is left, and one more. -/
def Onward.IsThrifty (k : Onward) : Prop := ∀ s b, (k s b).Spends (2 * s.left + 1) b

/-- An attempt is thrifty if what follows is. -/
def IsThrifty (f : Onward → Onward) : Prop := ∀ k : Onward, k.IsThrifty → (f k).IsThrifty

section

variable {o : Outcome} {other : Nat → Outcome} {k : Onward} {f g : Onward → Onward} {b c c' : Nat}
  {s : State}

namespace Outcome

theorem spends_fail (b : Nat) : (fail b).Spends 1 b := by
  cases b with
  | zero => exact Nat.one_pos
  | succ b => exact Nat.le_refl _

theorem Spends.mono (h : o.Spends c b) (hc : c ≤ c') : o.Spends c' b := by
  cases o with
  | found s b' | failed b' => exact Nat.le_trans h (Nat.add_le_add_left hc b')
  | exhausted => exact Nat.lt_of_lt_of_le h hc

/-- A unit that is spent before. -/
theorem Spends.succ (h : o.Spends c b) : o.Spends (c + 1) (b + 1) := by
  cases o with
  | found s b' | failed b' => exact Nat.succ_le_succ h
  | exhausted => exact Nat.succ_lt_succ h

theorem Spends.orElse (h : o.Spends c b) (hother : ∀ b, (other b).Spends c' b) :
    (o.orElse other).Spends (c + c') b := by
  cases o with
  | found s b' => exact h.mono (Nat.le_add_right c c')
  | exhausted => exact h.mono (Nat.le_add_right c c')
  | failed b₁ =>
    have hb : b ≤ b₁ + c := h
    have ho := hother b₁
    show (other b₁).Spends (c + c') b
    cases hb₁ : other b₁ with
    | found s b' | failed b' =>
      have ho' : b₁ ≤ b' + c' := by rwa [hb₁] at ho
      show b ≤ b' + (c + c')
      omega
    | exhausted =>
      have ho' : b₁ < c' := by rwa [hb₁] at ho
      show b < c + c'
      omega

end Outcome

theorem isThrifty_found : Onward.IsThrifty .found := fun _ _ => Nat.le_add_right _ _

theorem IsThrifty.comp (hf : IsThrifty f) (hg : IsThrifty g) : IsThrifty fun k => f (g k) :=
  fun k hk => hf _ (hg k hk)

/-! ### pieces -/

namespace Node

variable {n a d : Node} {ns : List Node} {step : Cursor → Option Cursor}

/-- From every place there is one way at most, and it takes a character or more; nothing is
captured. -/
structure StridesBy (n : Node) (step : Cursor → Option Cursor) : Prop extends
    n.StraightBy step where
  left_lt : ∀ p q, step p = some q → q.left < p.left

theorem stridesBy_char (c : Char) (i : Bool) :
    (char c i).StridesBy fun p => (State.advance? (matchesChar c i) ⟨p, []⟩).map State.pos where
  toStraightBy := straightBy_char c i
  left_lt p q h := by
    obtain ⟨before, after⟩ := p
    cases after with
    | nil => simp [State.advance?] at h
    | cons d after =>
      simp only [State.advance?, Option.map_eq_some_iff] at h
      obtain ⟨s, hs, rfl⟩ := h
      split at hs
      · cases hs
        exact Nat.lt_succ_self _
      · cases hs

theorem exists_stridesBy_seqAll (hne : ns ≠ []) (h : ∀ n ∈ ns, ∃ c i, n = char c i) :
    ∃ step, (seqAll ns).StridesBy step := by
  fun_induction seqAll ns with
  | case1 => exact absurd rfl hne
  | case2 a b =>
    obtain ⟨c, i, hc⟩ := h _ (List.mem_singleton_self _)
    cases hc
  | case3 a _ =>
    obtain ⟨c, i, rfl⟩ := h a (List.mem_singleton_self _)
    exact ⟨_, stridesBy_char c i⟩
  | case4 a rest _ hrest ih =>
    obtain ⟨c, i, rfl⟩ := h a List.mem_cons_self
    obtain ⟨g, hg⟩ := ih (by rintro rfl; simp at hrest) fun n hn => h n (List.mem_cons_of_mem _ hn)
    refine ⟨_, (stridesBy_char c i).toStraightBy.seq hg.toStraightBy, fun p q hq => ?_⟩
    obtain ⟨r, hr, hq⟩ := Option.bind_eq_some_iff.1 hq
    exact (hg.left_lt r q hq).trans ((stridesBy_char c i).left_lt p r hr)

theorem StraightBy.attempt_of_none (h : n.StraightBy step) (hs : step s.pos = none) :
    n.attempt k s b = .fail b := by
  rw [h.attempt, hs]
  rfl

theorem StraightBy.attempt_of_some (h : n.StraightBy step) {q : Cursor} (hs : step s.pos = some q) :
    n.attempt k s b = k (s.at q) b := by
  rw [h.attempt, hs]
  rfl

theorem StridesBy.isThrifty (h : n.StridesBy step) : IsThrifty n.attempt := by
  intro k hk s b
  cases hs : step s.pos with
  | none =>
    rw [h.attempt_of_none hs]
    exact (Outcome.spends_fail b).mono (by omega)
  | some q =>
    have hlt : q.left < s.left := h.left_lt _ _ hs
    rw [h.attempt_of_some hs]
    exact (hk (s.at q) b).mono (by simp only [State.at, State.left] at *; omega)

theorem isThrifty_assertion (a : Assertion) : IsThrifty (assertion a).attempt := by
  intro k hk s b
  rw [attempt]
  split
  · exact hk s b
  · exact (Outcome.spends_fail b).mono (by omega)

/-- Looking for a delimiter costs one unit: when it is there, or when it is not and what follows
comes next. -/
theorem StraightBy.absent_spends (h : d.StraightBy step) (hk : k.IsThrifty) (s : State) (b : Nat) :
    ((look .ahead false d).attempt k s b).Spends (2 * s.left + 2) b ∧
      ((step s.pos).isSome = true → ((look .ahead false d).attempt k s b).Spends 1 b) := by
  simp only [Node.attempt]
  cases hs : step s.pos with
  | none =>
    rw [h.attempt_of_none hs]
    refine ⟨?_, by simp⟩
    cases b with
    | zero => exact Nat.succ_pos _
    | succ b => exact (hk s b).succ
  | some q =>
    rw [h.attempt_of_some hs]
    exact ⟨(Outcome.spends_fail b).mono (by omega), fun _ => Outcome.spends_fail b⟩

/-- Each round but the last is taken back once, at the cost of one unit, and it has taken a
character. -/
theorem StridesBy.many_spends (h : d.StridesBy step) (hk : k.IsThrifty) (n : Nat) (s : State)
    (b : Nat) :
    (Attempt.many d.attempt true ((look .ahead false d).attempt k) n s b).Spends
      (2 * s.left + 3) b := by
  induction n generalizing s b with
  | zero => exact (h.absent_spends hk s b).1.mono (by omega)
  | succ n ih =>
    rw [Attempt.many, Attempt.prefer, if_pos rfl]
    cases hs : step s.pos with
    | none =>
      rw [h.attempt_of_none hs]
      exact ((Outcome.spends_fail b).orElse fun b => (h.absent_spends hk s b).1).mono (by omega)
    | some q =>
      have hlt : (s.at q).left < s.left := h.left_lt _ _ hs
      rw [h.attempt_of_some hs, if_pos hlt]
      have hstop : ∀ b, ((look .ahead false d).attempt k s b).Spends 1 b := fun b =>
        (h.absent_spends hk s b).2 (by simp [hs])
      exact ((ih (s.at q) b).orElse hstop).mono (by omega)

theorem StridesBy.isThrifty_run (h : d.StridesBy step) :
    IsThrifty (attemptAll [loop d 1 none true, look .ahead false d]) := by
  intro k hk s b
  show (d.attempt
    (fun s b => Attempt.many d.attempt true ((look .ahead false d).attempt k) s.left s b) s
    b).Spends _ b
  cases hs : step s.pos with
  | none =>
    rw [h.attempt_of_none hs]
    exact (Outcome.spends_fail b).mono (by omega)
  | some q =>
    have hlt : (s.at q).left < s.left := h.left_lt _ _ hs
    rw [h.attempt_of_some hs]
    exact (h.many_spends hk _ (s.at q) b).mono (by omega)

end Node

end

/-! ### texts -/

namespace Expression

variable {ic : Bool} {k g : Nat} {x y D : Text} {ps : List Piece} {e : Expression}

theorem isQuiet_quote (t : Text) {rest : Text} (h : isQuiet rest = true) :
    isQuiet (quote t ++ rest) = true := by
  cases t with
  | nil => exact h
  | cons c t =>
    rw [quote_cons, List.append_assoc]
    exact isQuiet_quoteChar c _

theorem exists_reads_quote (ic : Bool) (t : Text) :
    ∃ ps, (∀ k g, Reads ic k g g (quote t) ps) ∧
      (∀ n ∈ ps.map Piece.node, ∃ c i, n = Node.char c i) ∧
      (t ≠ [] → (branchOf ps).repeatable = true) := by
  induction t with
  | nil => exact ⟨[], fun _ _ => reads_nil, by simp, fun h => absurd rfl h⟩
  | cons c t ih =>
    obtain ⟨ps, hps, hchars, -⟩ := ih
    obtain ⟨i, -, hread⟩ := exists_readsOne_quoteChar ic c
    refine ⟨.plain (.char c i) true :: ps, fun k g => ?_, ?_, fun _ => ?_⟩
    · exact ((hread k g).reads (by simp [Piece.plain])).append (hps k g) fun rest => isQuiet_quote t
    · rintro n hn
      rcases List.mem_cons.1 hn with rfl | hn
      · exact ⟨c, i, rfl⟩
      · exact hchars n hn
    · show (branchOf ([.plain (.char c i) true] ++ ps)).repeatable = true
      exact branchOf_append_repeatable (.inl rfl)

theorem node_branchOf_of_chars (h : ∀ n ∈ ps.map Piece.node, ∃ c i, n = Node.char c i) :
    (branchOf ps).node = .seqAll (ps.map Piece.node) := by
  match ps with
  | [] => rfl
  | [p] =>
    obtain ⟨c, i, hc⟩ := h p.node (by simp)
    show p.node = .seqAll [p.node]
    rw [hc]
    rfl
  | p :: q :: ps =>
    rw [branchOf_cons_cons]
    rfl

/-- The text is read as pieces that are thrifty, and that arranging does not change. -/
structure Saves (ic : Bool) (k g : Nat) (x : Text) : Prop where
  quiet : ∀ rest, isQuiet rest = true → isQuiet (x ++ rest) = true
  pieces :
    ∃ ps, Reads ic k g g x ps ∧ (∀ n ∈ ps.map Piece.node, n.IsSteady) ∧
      IsThrifty (Node.attemptAll (ps.map Piece.node))

theorem isHard_branchOf_of_chars (refs : List Nat)
    (h : ∀ n ∈ ps.map Piece.node, ∃ c i, n = Node.char c i) :
    (branchOf ps).node.isHard refs = false := by
  rw [isHard_branchOf, List.any_eq_false]
  intro n hn
  obtain ⟨c, i, rfl⟩ := h n hn
  simp [Node.isHard]

theorem saves_nil : Saves ic k g [] := ⟨fun _ h => h, [], reads_nil, by simp, fun _ hk => hk⟩

theorem Saves.append (hx : Saves ic k g x) (hy : Saves ic k g y) : Saves ic k g (x ++ y) where
  quiet rest h := by
    rw [List.append_assoc]
    exact hx.quiet _ (hy.quiet _ h)
  pieces := by
    obtain ⟨ps, hps, hsteady, hthrifty⟩ := hx.pieces
    obtain ⟨qs, hqs, hsteady', hthrifty'⟩ := hy.pieces
    refine ⟨ps ++ qs, hps.append hqs hy.quiet, fun n hn => ?_, fun k hk => ?_⟩
    · rw [List.map_append, List.mem_append] at hn
      exact hn.elim (hsteady n) (hsteady' n)
    · rw [List.map_append, Node.attemptAll_append]
      exact hthrifty.comp hthrifty' k hk

theorem saves_quoteChar (ic : Bool) (k g : Nat) (c : Char) : Saves ic k g (quoteChar c) := by
  obtain ⟨i, -, hread⟩ := exists_readsOne_quoteChar ic c
  exact ⟨fun rest _ => isQuiet_quoteChar c rest, [.plain (.char c i) true],
    (hread k g).reads (by simp [Piece.plain]), by simpa [Piece.plain] using Node.isSteady_char c i,
    (Node.stridesBy_char c i).isThrifty⟩

theorem saves_delimiterRun (hD : D ≠ []) (ic : Bool) (k g : Nat) :
    Saves ic (k + 1) g (delimiterRun D) := by
  obtain ⟨ps, hread, hchars, hsolid⟩ := exists_reads_quote ic D
  have hps : ps.map Piece.node ≠ [] := by simpa using ne_nil_of_repeatable (hsolid hD)
  have hnode := node_branchOf_of_chars hchars
  obtain ⟨step, hstep⟩ := Node.exists_stridesBy_seqAll hps hchars
  rw [← hnode] at hstep
  have hsteady : (branchOf ps).node.IsSteady := isSteady_branchOf fun n hn => by
    obtain ⟨c, i, rfl⟩ := hchars n hn
    exact Node.isSteady_char c i
  have htext : delimiterRun D =
      ['(', '?', ':'] ++ quote D ++ [')'] ++ ['+'] ++ (['(', '?', '!'] ++ quote D ++ [')']) := by
    simp [delimiterRun]
  rw [htext]
  refine ⟨fun _ _ => rfl, _,
    ((hread k g).group.repeated (hsolid hD) repeats_some).append (hread k g).absent fun _ _ => rfl,
    ?_, hstep.isThrifty_run⟩
  intro n hn
  rcases List.mem_pair.1 hn with rfl | rfl
  · exact hsteady.loop (by simp) true
  · exact Node.IsStraight.isSteady_look ⟨step, hstep.toStraightBy⟩
      (isHard_branchOf_of_chars [] hchars) .ahead false

theorem saves_loosenFrom (hD : D ≠ []) (ic : Bool) (k g skip : Nat) (inRun : Bool) (t : Text) :
    Saves ic (k + 1) g (loosenFrom D skip inRun t) := by
  refine loosenFrom_induction (P := Saves ic (k + 1) g) saves_nil (fun x hx => ?_)
    (fun c rest x _ hx => ?_) skip inRun t
  · exact (saves_delimiterRun hD ic k g).append hx
  · exact (saves_quoteChar ic (k + 1) g c).append hx

/-! ### searches -/

/-- Where an expression begins with the start of a text, each later place costs one unit. -/
theorem firstAttempt_later {n : Node} (hn : ∀ k s b, s.pos.before ≠ [] → n.attempt k s b = .fail b)
    {before after : Text} {b : Nat} (hbefore : before ≠ []) (hb : after.length < b) :
    firstAttempt n before after b ≠ .gaveUp := by
  induction after generalizing before b with
  | nil =>
    obtain ⟨b, rfl⟩ := Nat.exists_eq_succ_of_ne_zero (Nat.ne_of_gt hb)
    unfold firstAttempt
    rw [hn _ _ _ hbefore]
    simp [Outcome.fail]
  | cons c after ih =>
    obtain ⟨b, rfl⟩ := Nat.exists_eq_succ_of_ne_zero (Nat.ne_of_gt (Nat.zero_lt_of_lt hb))
    unfold firstAttempt
    rw [hn _ _ _ hbefore]
    exact ih (by simp) (Nat.lt_of_succ_lt_succ hb)

theorem firstAttempt_ne_gaveUp {n : Node} {f : Onward → Onward} {t : Text} {b : Nat}
    (hn : ∀ k s b, n.attempt k s b = if Assertion.textStart.holds s.pos then f k s b else .fail b)
    (hf : IsThrifty f) (hb : 3 * t.length < b) : firstAttempt n [] t b ≠ .gaveUp := by
  have hlater : ∀ k s b, s.pos.before ≠ [] → n.attempt k s b = .fail b := fun k s b hs => by
    rw [hn, if_neg (by simpa [Assertion.holds] using hs)]
  have hspends : (f .found ⟨⟨[], t⟩, []⟩ b).Spends (2 * t.length + 1) b := hf _ isThrifty_found _ b
  unfold firstAttempt
  rw [hn, if_pos (by rfl)]
  cases hattempt : f .found ⟨⟨[], t⟩, []⟩ b with
  | found s b' => simp
  | exhausted =>
    have hlt : b < 2 * t.length + 1 := by rwa [hattempt] at hspends
    omega
  | failed b' =>
    have hle : b ≤ b' + (2 * t.length + 1) := by rwa [hattempt] at hspends
    cases t with
    | nil => simp
    | cons c t =>
      rw [List.length_cons] at hb hle
      exact firstAttempt_later hlater (by simp) (by omega)

theorem search_ne_gaveUp_of_isHard_eq_false (h : e.isHard = false) (c : Cursor) :
    e.search c ≠ .gaveUp := by
  unfold search
  rw [if_neg (by simp [h])]
  split <;> simp

theorem find_ne_gaveUp_of_isHard_eq_false (h : e.isHard = false) (t : Text) : e.find t ≠ .gaveUp :=
  search_ne_gaveUp_of_isHard_eq_false h _

/-- The pieces between the start and the end of a text. -/
def framed (ps : List Piece) : List Piece :=
  .plain (.assertion .textStart) false :: (ps ++ [.plain (.assertion .textEnd) false])

theorem forall_framed {P : Node → Prop}
    (hassertion : ∀ a, Node.isSided a = false → P (.assertion a))
    (hps : ∀ n ∈ ps.map Piece.node, P n) : ∀ n ∈ (framed ps).map Piece.node, P n := by
  intro n hn
  simp only [framed, List.map_cons, List.map_append, List.map_nil, List.mem_cons, List.mem_append,
    List.not_mem_nil, or_false] at hn
  rcases hn with rfl | hn | rfl
  · exact hassertion _ rfl
  · exact hps n hn
  · exact hassertion _ rfl

/-- An expression of whole texts is the branch of its pieces, between the start and the end of a
text. -/
theorem root_of_anchored {flags : Flags} (h : Reads ic 63 0 g x ps)
    (hquiet : ∀ rest, isQuiet rest = true → isQuiet (x ++ rest) = true)
    (hflags : flags.sensitive = !ic) (he : anchored flags x = .ok e) :
    e.referenced = [] ∧ e.root = (branchOf (framed ps)).node := by
  have hend : ∀ rest, isQuiet rest = true → isQuiet (['$'] ++ rest) = true := fun _ _ => rfl
  have hreads := reads_textStart.append (h.append reads_textEnd hend) fun rest hrest => by
    rw [List.append_assoc]
    exact hquiet _ (hend rest hrest)
  have hread := hreads.read rfl
  rw [anchored, inlineSwitch_eq hflags, List.append_assoc, List.append_assoc] at he
  obtain rfl := Except.ok.inj (hread.symm.trans he)
  exact ⟨rfl, rfl⟩

/-- An expression of whole texts that is thrifty gives up on long texts only. -/
theorem Saves.find_ne_gaveUp {flags : Flags} (h : Saves ic 63 0 x) (hflags : flags.sensitive = !ic)
    (he : anchored flags x = .ok e) {t : Text} (ht : 3 * t.length < budget) :
    e.find t ≠ .gaveUp := by
  obtain ⟨ps, hps, hsteady, hthrifty⟩ := h.pieces
  obtain ⟨hrefs, hroot⟩ := root_of_anchored hps h.quiet hflags he
  have hsteady' : e.root.IsSteady := by
    rw [hroot]
    exact isSteady_branchOf (forall_framed (fun a _ => Node.isSteady_assertion a) hsteady)
  cases hhard : e.isHard with
  | false => exact find_ne_gaveUp_of_isHard_eq_false hhard t
  | true =>
    unfold find search
    rw [if_pos hhard, hrefs]
    refine firstAttempt_ne_gaveUp
      (f := Node.attemptAll ((ps ++ [Piece.plain (.assertion .textEnd) false]).map Piece.node))
      (fun k s b => ?_) (fun k hk => ?_) ht
    · rw [hsteady'.arranged, hroot, attempt_branchOf]
      rfl
    · rw [List.map_append, Node.attemptAll_append]
      exact hthrifty.comp (Node.isThrifty_assertion .textEnd) k hk

end Expression

end PathTemplate
