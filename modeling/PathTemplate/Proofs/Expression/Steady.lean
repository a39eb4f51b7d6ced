import PathTemplate.Proofs.Expression.Attempt
import Mathlib

/-!
# Arranging that changes no attempt

A piece that is marked is matched in its first way.  If it has one way at most, this is no change,
and neither is what arranging does to an expression in which all pieces that can be marked are of
this kind.

* `Node.IsStraight` — there is one way at most, and nothing is captured;
* `Node.IsSteady` — arranging changes no attempt;
* `IsSteady.seq`, `IsSteady.group`, `IsSteady.loop`, `IsSteady.look` — how steady expressions are
  put together;
* `Node.attemptAll` — attempts of a sequence of pieces.
-/

namespace PathTemplate

/-- The state at another place. -/
def State.at (s : State) (p : Cursor) : State := { s with pos := p }

namespace Node

variable {n a b : Node} {k : Onward} {s : State} {budget : Nat}

/-! ### one way at most -/

/-- From every place there is one way at most, given by `step`, and nothing is captured. -/
structure StraightBy (n : Node) (step : Cursor → Option Cursor) : Prop where
  ways : ∀ s, n.ways s = ((step s.pos).map s.at).toList
  attempt : ∀ k s b, n.attempt k s b = k.orFail ((step s.pos).map s.at) b
  groups : n.groups = []

/-- From every place there is one way at most, and nothing is captured. -/
def IsStraight (n : Node) : Prop := ∃ step, n.StraightBy step

theorem isStraight_empty : empty.IsStraight := ⟨some, fun _ => rfl, fun _ _ _ => rfl, rfl⟩

theorem isStraight_assertion (a : Assertion) : (assertion a).IsStraight := by
  refine ⟨fun p => if a.holds p then some p else none, fun s => ?_, fun k s b => ?_, rfl⟩
  · unfold ways
    split <;> simp [State.at]
  · unfold attempt
    split <;> simp [Onward.orFail, State.at]

theorem advance?_eq (p : Char → Bool) (s : State) :
    s.advance? p = ((State.advance? p ⟨s.pos, []⟩).map State.pos).map s.at := by
  obtain ⟨⟨before, after⟩, captures⟩ := s
  cases after with
  | nil => rfl
  | cons c after =>
    simp only [State.advance?]
    split <;> rfl

theorem straightBy_char (c : Char) (i : Bool) :
    (char c i).StraightBy fun p => (State.advance? (matchesChar c i) ⟨p, []⟩).map State.pos :=
  ⟨fun s => by rw [← advance?_eq, ways], fun k s b => by rw [← advance?_eq, attempt], rfl⟩

theorem isStraight_char (c : Char) (i : Bool) : (char c i).IsStraight := ⟨_, straightBy_char c i⟩

theorem isStraight_oneOf (set : CharSet) : (oneOf set).IsStraight :=
  ⟨fun p => (State.advance? set.has ⟨p, []⟩).map State.pos, fun s => by rw [← advance?_eq, ways],
    fun k s b => by rw [← advance?_eq, attempt], rfl⟩

theorem StraightBy.seq {f g : Cursor → Option Cursor} (hf : a.StraightBy f) (hg : b.StraightBy g) :
    (seq a b).StraightBy fun p => (f p).bind g := by
  refine ⟨fun s => ?_, fun k s budget => ?_, by simp [Node.groups, hf.groups, hg.groups]⟩
  · rw [Node.ways, hf.ways]
    cases hp : f s.pos with
    | none => rfl
    | some p =>
      have hbs := hg.ways (s.at p)
      cases hq : g p with
      | none => simp_all [State.at, distinct, distinctFrom]
      | some q => simp_all [State.at, distinct, distinctFrom]
  · rw [Node.attempt, hf.attempt]
    cases hp : f s.pos with
    | none => rfl
    | some p => exact hg.attempt k (s.at p) budget

theorem IsStraight.seq (ha : a.IsStraight) (hb : b.IsStraight) : (seq a b).IsStraight := by
  obtain ⟨f, hf⟩ := ha
  obtain ⟨g, hg⟩ := hb
  exact ⟨_, hf.seq hg⟩

/-- Marking a piece with one way changes no attempt. -/
theorem IsStraight.asUnit (h : n.IsStraight) : n.asUnit.attempt = n.attempt := by
  have hunit : (unit n).attempt = n.attempt := by
    obtain ⟨step, h⟩ := h
    funext k s budget
    rw [attempt, h.ways, h.attempt, h.groups]
    cases step s.pos <;> rfl
  cases n
  all_goals first
    | rfl
    | exact hunit

/-! ### expressions that stay the same -/

/-- Arranging changes no attempt of the expression, where every way of it may be needed, nor does
marking it, if it can be marked. -/
structure IsSteady (n : Node) : Prop where
  arranged : ∀ spot, (n.arrange [] true spot).attempt = n.attempt
  straight : n.isSettled [] = true → n.IsStraight

theorem isSettled_seq (h : (seq a b).isSettled [] = true) :
    a.isSettled [] = true ∧ b.isSettled [] = true := by
  simp only [isSettled, isHard, width?, Bool.and_eq_true, Bool.not_eq_true', Bool.or_eq_false_iff,
    Option.bind_eq_bind] at h ⊢
  obtain ⟨⟨ha, hb⟩, hw⟩ := h
  refine ⟨⟨ha, ?_⟩, hb, ?_⟩
  · cases hwa : a.width? with
    | none => simp [hwa] at hw
    | some i => rfl
  · cases hwb : b.width? with
    | none => simp [hwb] at hw
    | some i => rfl

theorem IsSteady.seq (ha : a.IsSteady) (hb : b.IsSteady) : (seq a b).IsSteady := by
  refine ⟨fun spot => ?_, fun h => ?_⟩
  · have hmarked : ∀ spot, a.isSettled [] = true →
        (Node.seq a.asUnit (b.arrange [] true spot)).attempt = (Node.seq a b).attempt := by
      intro spot h
      funext k s budget
      simp only [attempt, (ha.straight h).asUnit, hb.arranged]
    unfold arrange
    split
    · rename_i h
      simp at h
    split
    · rename_i h
      simp only [Bool.and_eq_true] at h
      exact hmarked _ h.2
    split
    · rename_i h
      simp at h
    split
    · rename_i h
      simp only [Bool.true_and] at h
      exact hmarked _ (isSettled_seq h).1
    · funext k s budget
      simp only [attempt, ha.arranged, hb.arranged]
  · obtain ⟨hsa, hsb⟩ := isSettled_seq h
    exact (ha.straight hsa).seq (hb.straight hsb)

theorem isSteady_of_isStraight (h : n.IsStraight)
    (hn : ∀ spot, n.arrange [] true spot = n.asUnit ∨ n.arrange [] true spot = n) : n.IsSteady := by
  refine ⟨fun spot => ?_, fun _ => h⟩
  rcases hn spot with heq | heq <;> rw [heq]
  exact h.asUnit

theorem isSteady_empty : empty.IsSteady :=
  isSteady_of_isStraight isStraight_empty fun spot => .inl (by unfold arrange; split <;> rfl)

theorem isSteady_char (c : Char) (i : Bool) : (char c i).IsSteady :=
  isSteady_of_isStraight (isStraight_char c i) fun spot => .inl (by unfold arrange; split <;> rfl)

theorem isSteady_oneOf (set : CharSet) : (oneOf set).IsSteady :=
  isSteady_of_isStraight (isStraight_oneOf set) fun spot => .inl (by unfold arrange; split <;> rfl)

theorem isSteady_assertion (a : Assertion) : (assertion a).IsSteady :=
  isSteady_of_isStraight (isStraight_assertion a) fun spot =>
  .inl (by unfold arrange; split <;> rfl)

/-- A group around something hard is never marked. -/
theorem IsSteady.group (ha : a.IsSteady) (hhard : a.isHard [] = true) (i : Nat) :
    (group i a).IsSteady := by
  have hsettled : (Node.group i a).isSettled [] = false := by simp [isSettled, isHard, hhard]
  refine ⟨fun spot => ?_, fun h => by rw [hsettled] at h; cases h⟩
  have harrange : (Node.group i a).arrange [] true spot = .group i (a.arrange [] true .whole) := by
    conv_lhs => unfold arrange
    simp [hsettled]
  funext k s budget
  rw [harrange, attempt, attempt, ha.arranged]

/-- A loop is never marked, unless it has a fixed number of rounds. -/
theorem IsSteady.loop (ha : a.IsSteady) {lo : Nat} {hi : Option Nat} (hhi : hi ≠ some lo)
    (greedy : Bool) : (loop a lo hi greedy).IsSteady := by
  have hsettled : (Node.loop a lo hi greedy).isSettled [] = false := by
    simp [isSettled, width?, hhi]
  refine ⟨fun spot => ?_, fun h => by rw [hsettled] at h; cases h⟩
  have harrange : (Node.loop a lo hi greedy).arrange [] true spot =
      .loop (a.arrange [] true .whole) lo hi greedy := by
    conv_lhs => unfold arrange
    simp [hsettled]
  funext k s budget
  rw [harrange, attempt, attempt, ha.arranged]

/-- Where only the first way counts, all of a piece is marked that is not hard. -/
theorem arrange_whole (h : n.isHard [] = false) : n.arrange [] false .whole = n.asUnit := by
  unfold arrange
  split <;> simp [h, asUnit]

theorem IsStraight.isSteady_look (ha : a.IsStraight) (hhard : a.isHard [] = false) (d : Direction)
    (positive : Bool) : (look d positive a).IsSteady := by
  have hsettled : (look d positive a).isSettled [] = false := rfl
  refine ⟨fun spot => ?_, fun h => by rw [hsettled] at h; cases h⟩
  have harrange : (look d positive a).arrange [] true spot = look d positive a.asUnit := by
    conv_lhs => unfold arrange
    simp [hsettled, isHard, arrange_whole hhard]
  funext k s budget
  simp only [harrange, attempt, ha.asUnit]

theorem isSteady_look (d : Direction) (positive : Bool) (c : Char) (i : Bool) :
    (look d positive (char c i)).IsSteady :=
  (isStraight_char c i).isSteady_look rfl d positive

/-! ### sequences of pieces -/

/-- Attempts of pieces one after the other. -/
def attemptAll (ns : List Node) (k : Onward) : Onward := ns.foldr attempt k

@[simp] theorem attemptAll_nil (k : Onward) : attemptAll [] k = k := rfl

theorem attemptAll_cons (n : Node) (ns : List Node) (k : Onward) :
    attemptAll (n :: ns) k = n.attempt (attemptAll ns k) :=
  rfl

@[simp] theorem attemptAll_singleton (n : Node) (k : Onward) : attemptAll [n] k = n.attempt k := rfl

theorem attemptAll_append (ms ns : List Node) (k : Onward) :
    attemptAll (ms ++ ns) k = attemptAll ms (attemptAll ns k) :=
  List.foldr_append

theorem attempt_seqAll (ns : List Node) : (seqAll ns).attempt = attemptAll ns := by
  fun_induction seqAll ns with
  | case1 => rfl
  | case2 a b => rfl
  | case3 a _ => rfl
  | case4 a rest _ _ ih =>
    funext k s budget
    rw [attempt, ih, attemptAll_cons]

theorem isHard_seqAll (refs : List Nat) (ns : List Node) :
    (seqAll ns).isHard refs = ns.any (isHard refs) := by
  fun_induction seqAll ns with
  | case1 => rfl
  | case2 a b => simp [isHard]
  | case3 a _ => simp
  | case4 a rest _ _ ih => simp [isHard, ih]

theorem isSteady_seqAll {ns : List Node} (h : ∀ n ∈ ns, n.IsSteady) : (seqAll ns).IsSteady := by
  fun_induction seqAll ns with
  | case1 => exact isSteady_empty
  | case2 a b => exact (h _ (List.mem_singleton_self _)).seq isSteady_empty
  | case3 a _ => exact h a (List.mem_singleton_self _)
  | case4 a rest _ _ ih =>
    exact (h a List.mem_cons_self).seq (ih fun n hn => h n (List.mem_cons_of_mem _ hn))

end Node

end PathTemplate
