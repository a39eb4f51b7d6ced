import PathTemplate.Proofs.Expression.Arrange

/-!
# Senses of expressions

What an expression matches, put together from what its parts match, whatever tree it is read as.

* `Sense` — between which places there is a match, with which captures;
* `Sense.nothing`, `Sense.one`, `Sense.seq`, `Sense.either`, `Sense.captured`, `Sense.rounds`,
  `Sense.absent`, `Sense.present` — one for each form;
* `Sense.IsSilent` — matches lead on over a text, without captures; `Captures.Within` — there are
  captures of some groups;
* `Node.matches_seqAll`, `Node.isRegular_seqAll`, `Node.groups_seqAll` — sequences of pieces have
  what their pieces have in common.
-/

namespace PathTemplate

/-- Between which places there is a match, with which captures. -/
abbrev Sense := Cursor → Cursor → Captures → Prop

namespace Sense

/-- Nothing is taken. -/
def nothing : Sense := fun p q w => q = p ∧ w = []

/-- One character that passes a test. -/
def one (test : Char → Bool) : Sense := fun p q w => ∃ d, test d = true ∧ p.Takes [d] q ∧ w = []

/-- A condition on a place. -/
def place (a : Assertion) : Sense := fun p q w => a.holds p = true ∧ q = p ∧ w = []

/-- One after the other. -/
def seq (R S : Sense) : Sense := fun p q w => ∃ r u v, R p r u ∧ S r q v ∧ w = v ++ u

/-- What is matched is captured, too. -/
def captured (i : Nat) (R : Sense) : Sense := fun p q w => ∃ u, R p q u ∧ w = (i, some ⟨p, q⟩) :: u

/-- At least `lo` and at most `hi` rounds. -/
def rounds (lo : Nat) (hi : Option Nat) (R : Sense) : Sense :=
  fun p q w => ∃ n, (∀ h ∈ hi, n ≤ h - lo) ∧ Iterates R (lo + n) p q w

/-- Nothing is taken, and there is no match at the place. -/
def absent (R : Sense) : Sense := fun p q w => q = p ∧ w = [] ∧ ∀ r u, ¬R p r u

/-- One or the other. -/
def either (R S : Sense) : Sense := fun p q w => R p q w ∨ S p q w

/-- Nothing is taken, and there is a match at the place. -/
def present (R : Sense) : Sense := fun p q w => q = p ∧ ∃ r, R p r w

variable {R S T : Sense}

theorem ext (h : ∀ p q w, R p q w ↔ S p q w) : R = S := by
  funext p q w
  exact propext (h p q w)

@[simp] theorem nothing_seq : nothing.seq S = S := by
  refine ext fun p q w => ⟨?_, fun h => ⟨p, [], w, ⟨rfl, rfl⟩, h, by simp⟩⟩
  rintro ⟨r, u, v, ⟨rfl, rfl⟩, h, rfl⟩
  simpa using h

@[simp] theorem seq_nothing : R.seq nothing = R := by
  refine ext fun p q w => ⟨?_, fun h => ⟨q, w, [], h, ⟨rfl, rfl⟩, rfl⟩⟩
  rintro ⟨r, u, v, h, ⟨rfl, rfl⟩, rfl⟩
  exact h

theorem seq_assoc : (R.seq S).seq T = R.seq (S.seq T) := by
  refine ext fun p q w => ⟨?_, ?_⟩
  · rintro ⟨r, u, v, ⟨r', u', v', h₁, h₂, rfl⟩, h₃, rfl⟩
    exact ⟨r', u', v ++ v', h₁, ⟨r, v', v, h₂, h₃, rfl⟩, by simp⟩
  · rintro ⟨r, u, v, h₁, ⟨r', u', v', h₂, h₃, rfl⟩, rfl⟩
    exact ⟨r', u' ++ u, v', ⟨r, u, u', h₁, h₂, rfl⟩, h₃, by simp⟩

theorem optional_iff {p q : Cursor} {w : Captures} :
    R.rounds 0 (some 1) p q w ↔ (q = p ∧ w = []) ∨ R p q w := by
  constructor
  · rintro ⟨n, hn, h⟩
    have hn' := hn 1 rfl
    interval_cases n
    · exact .inl h
    · obtain ⟨r, u, v, hu, ⟨rfl, rfl⟩, rfl⟩ := h
      exact .inr hu
  · rintro (⟨rfl, rfl⟩ | h)
    · exact ⟨0, by simp, .zero q⟩
    · exact ⟨1, by simp, .one h⟩

/-! ### matches without captures -/

/-- Matches lead on over a text, without captures. -/
def IsSilent (R : Sense) : Prop := ∀ p q w, R p q w → w = [] ∧ ∃ v, p.Takes v q

theorem isSilent_nothing : nothing.IsSilent := by
  rintro p q w ⟨rfl, rfl⟩
  exact ⟨rfl, [], .refl q⟩

theorem isSilent_one (test : Char → Bool) : (one test).IsSilent := by
  rintro p q w ⟨d, -, h, rfl⟩
  exact ⟨rfl, [d], h⟩

theorem isSilent_place (a : Assertion) : (place a).IsSilent := by
  rintro p q w ⟨-, rfl, rfl⟩
  exact ⟨rfl, [], .refl q⟩

theorem isSilent_absent : R.absent.IsSilent := by
  rintro p q w ⟨rfl, rfl, -⟩
  exact ⟨rfl, [], .refl q⟩

theorem IsSilent.seq (hR : R.IsSilent) (hS : S.IsSilent) : (R.seq S).IsSilent := by
  rintro p q w ⟨r, u, v, hu, hv, rfl⟩
  obtain ⟨rfl, x, hx⟩ := hR _ _ _ hu
  obtain ⟨rfl, y, hy⟩ := hS _ _ _ hv
  exact ⟨rfl, x ++ y, hx.trans hy⟩

theorem IsSilent.either (hR : R.IsSilent) (hS : S.IsSilent) : (R.either S).IsSilent :=
  fun p q w h => h.elim (hR p q w) (hS p q w)

theorem IsSilent.present (hR : R.IsSilent) : R.present.IsSilent := by
  rintro p q w ⟨rfl, r, h⟩
  exact ⟨(hR _ _ _ h).1, [], .refl q⟩

theorem IsSilent.rounds (hR : R.IsSilent) (lo : Nat) (hi : Option Nat) :
    (R.rounds lo hi).IsSilent := by
  rintro p q w ⟨n, -, h⟩
  have hiterates : ∀ {n : Nat} {p q : Cursor} {w : Captures}, Iterates R n p q w →
      w = [] ∧ ∃ v, p.Takes v q := by
    intro n
    induction n with
    | zero =>
      rintro p q w ⟨rfl, rfl⟩
      exact ⟨rfl, [], .refl q⟩
    | succ n ih =>
      rintro p q w ⟨r, u, v, hu, hv, rfl⟩
      obtain ⟨rfl, x, hx⟩ := hR _ _ _ hu
      obtain ⟨rfl, y, hy⟩ := ih hv
      exact ⟨rfl, x ++ y, hx.trans hy⟩
  exact hiterates h

end Sense

/-! ### captures of some groups -/

/-- There are captures of groups after `g` only, up to `g'`. -/
def Captures.Within (g g' : Nat) (w : Captures) : Prop := ∀ i, w.lookup i ≠ none → g < i ∧ i ≤ g'

theorem Captures.within_nil (g g' : Nat) : Captures.Within g g' [] := fun _ h => absurd rfl h

theorem Captures.within_singleton (g : Nat) (s : Option Span) :
    Captures.Within g (g + 1) [(g + 1, s)] := by
  intro i hi
  have hi' : i = g + 1 := by
    by_contra hne
    have hb : (i == g + 1) = false := by simpa using hne
    simp [List.lookup_cons, hb] at hi
  omega

theorem Captures.Within.append {g m g' : Nat} {u w : Captures} (hu : Captures.Within g m u)
    (hw : Captures.Within m g' w) (h₁ : g ≤ m) (h₂ : m ≤ g') : Captures.Within g g' (w ++ u) := by
  intro i hi
  by_cases h : w.lookup i = none
  · have := hu i (by simpa [List.lookup_append, h] using hi)
    omega
  · have := hw i h
    omega

/-- Captures of other groups do not matter. -/
theorem Captures.Within.get?_append_left {g g' i : Nat} {u w : Captures}
    (hu : Captures.Within g g' u) (hi : ¬(g < i ∧ i ≤ g')) : Captures.get? (w ++ u) i = w.get? i :=
  Node.get?_append_left (by by_contra h; exact hi (hu i h))

theorem Captures.Within.get?_append_right {g g' i : Nat} {u w : Captures}
    (hw : Captures.Within g g' w) (hi : ¬(g < i ∧ i ≤ g')) : Captures.get? (w ++ u) i = u.get? i :=
  Node.get?_append_right (by by_contra h; exact hi (hw i h))

namespace Node

/-! ### sequences of pieces -/

theorem matchesAll_append (ms ns : List Node) :
    MatchesAll (ms ++ ns) = Sense.seq (MatchesAll ms) (MatchesAll ns) :=
  Sense.ext fun _ _ _ => matchesAll_append_iff

theorem matchesAll_singleton (n : Node) : MatchesAll [n] = n.Matches :=
  Sense.ext fun _ _ _ => matchesAll_singleton_iff

theorem matches_seqAll (ns : List Node) : (seqAll ns).Matches = MatchesAll ns :=
  Sense.ext fun _ _ _ => seqAll_matches ns

theorem isRegular_seqAll {ns : List Node} (h : ∀ n ∈ ns, n.isRegular = true) :
    (seqAll ns).isRegular = true := by
  fun_induction seqAll ns with
  | case1 => rfl
  | case2 a b => simpa [isRegular] using h
  | case3 a _ => simpa using h
  | case4 a rest _ _ ih =>
    have hrest := ih fun n hn => h n (List.mem_cons_of_mem _ hn)
    simp [isRegular, h a (List.mem_cons_self ..), hrest]

theorem groups_seqAll (ns : List Node) : (seqAll ns).groups = ns.flatMap groups := by
  fun_induction seqAll ns with
  | case1 => rfl
  | case2 a b => simp [groups]
  | case3 a _ => simp
  | case4 a rest _ _ ih => simp [groups, ih]

theorem groups_altAll (ns : List Node) : (altAll ns).groups = ns.flatMap groups := by
  fun_induction altAll ns with
  | case1 => rfl
  | case2 a => simp
  | case3 a rest _ ih => simp [groups, ih]

theorem isLinear_of_groups_eq_nil {n : Node} (hr : n.isRegular = true) (hg : n.groups = []) :
    n.isLinear = true := by
  induction n with
  | seq a b iha ihb =>
    simp only [isRegular, groups, Bool.and_eq_true, List.append_eq_nil_iff] at hr hg
    simp [isLinear, iha hr.1 hg.1, ihb hr.2 hg.2, hg.1]
  | alt a b iha ihb =>
    simp only [isRegular, groups, Bool.and_eq_true, List.append_eq_nil_iff] at hr hg
    simp [isLinear, iha hr.1 hg.1, ihb hr.2 hg.2]
  | group i a ih => cases hg
  | loop a lo hi greedy ih =>
    simp only [isRegular, groups] at hr hg
    simp [isLinear, ih hr hg, hg]
  | look d positive a ih => exact ih hr hg
  | empty | char c i | oneOf s | assertion a => rfl
  | _ => cases hr

theorem isSilent_of_groups_eq_nil {n : Node} (hr : n.isRegular = true) (hg : n.groups = []) :
    Sense.IsSilent n.Matches := by
  intro p q w h
  refine ⟨?_, h.takes⟩
  induction n generalizing p q w with
  | seq a b iha ihb =>
    simp only [isRegular, groups, Bool.and_eq_true, List.append_eq_nil_iff] at hr hg
    obtain ⟨r, u, v, hu, hv, rfl⟩ := h
    rw [iha hr.1 hg.1 _ _ _ hu, ihb hr.2 hg.2 _ _ _ hv, List.append_nil]
  | alt a b iha ihb =>
    simp only [isRegular, groups, Bool.and_eq_true, List.append_eq_nil_iff] at hr hg
    exact h.elim (iha hr.1 hg.1 _ _ _) (ihb hr.2 hg.2 _ _ _)
  | group i a ih => cases hg
  | loop a lo hi greedy ih =>
    obtain ⟨n, -, h⟩ := h
    have hiterates :
        ∀ {n : Nat} {p q : Cursor} {w : Captures}, Iterates a.Matches n p q w → w = [] := by
      intro n
      induction n with
      | zero => exact fun h => h.2
      | succ n ihn =>
        rintro p q w ⟨r, u, v, hu, hv, rfl⟩
        rw [ih hr hg _ _ _ hu, ihn hv, List.append_nil]
    exact hiterates h
  | look d positive a ih =>
    cases positive with
    | true =>
      obtain ⟨-, o, -, r, h⟩ := h
      exact ih hr hg _ _ _ h
    | false => exact h.2.1
  | char c i | oneOf s =>
    obtain ⟨d, -, -, hw⟩ := h
    exact hw
  | assertion a => exact h.2.2
  | empty => exact h.2
  | _ => cases hr

/-- The groups of the pieces capture once each, and have the numbers after `g`, up to `g'`. -/
def NumberedAll (g g' : Nat) : List Node → Prop
  | [] => g ≤ g'
  | n :: ns =>
    ∃ m, g ≤ m ∧ n.isLinear = true ∧ (∀ i ∈ n.groups, g < i ∧ i ≤ m) ∧ NumberedAll m g' ns

theorem NumberedAll.le {g g' : Nat} {ns : List Node} (h : NumberedAll g g' ns) : g ≤ g' := by
  induction ns generalizing g with
  | nil => exact h
  | cons n ns ih =>
    obtain ⟨m, hm, -, -, h⟩ := h
    exact Nat.le_trans hm (ih h)

theorem NumberedAll.groups {g g' : Nat} {ns : List Node} (h : NumberedAll g g' ns) :
    ∀ i ∈ ns.flatMap Node.groups, g < i ∧ i ≤ g' := by
  induction ns generalizing g with
  | nil => simp
  | cons n ns ih =>
    obtain ⟨m, hm, -, hn, h⟩ := h
    intro i hi
    rw [List.flatMap_cons, List.mem_append] at hi
    have := h.le
    rcases hi with hi | hi
    · have := hn i hi
      omega
    · have := ih h i hi
      omega

theorem NumberedAll.append {g m g' : Nat} {ms ns : List Node} (h₁ : NumberedAll g m ms)
    (h₂ : NumberedAll m g' ns) : NumberedAll g g' (ms ++ ns) := by
  induction ms generalizing g with
  | nil =>
    cases ns with
    | nil => exact Nat.le_trans h₁ h₂
    | cons n ns =>
      obtain ⟨m', hm, hl, hg, h⟩ := h₂
      exact ⟨m', Nat.le_trans h₁ hm, hl,
        fun i hi => ⟨Nat.lt_of_le_of_lt h₁ (hg i hi).1, (hg i hi).2⟩, h⟩
  | cons n ms ih =>
    obtain ⟨m', hm, hl, hg, h⟩ := h₁
    exact ⟨m', hm, hl, hg, ih h⟩

theorem NumberedAll.isLinear_seqAll {g g' : Nat} {ns : List Node} (h : NumberedAll g g' ns) :
    (seqAll ns).isLinear = true := by
  fun_induction seqAll ns generalizing g with
  | case1 => rfl
  | case2 a b =>
    obtain ⟨m, -, hl, -, -⟩ := h
    simpa [isLinear, Node.groups] using hl
  | case3 a _ =>
    obtain ⟨m, -, hl, -, -⟩ := h
    exact hl
  | case4 a rest _ _ ih =>
    obtain ⟨m, -, hl, hg, h⟩ := h
    have hapart : ∀ i ∈ a.groups, i ∉ (seqAll rest).groups := by
      intro i hi hi'
      rw [groups_seqAll] at hi'
      have := hg i hi
      have := h.groups i hi'
      omega
    simp only [isLinear, hl, ih h, Bool.and_self, Bool.true_and, List.all_eq_true,
      Bool.not_eq_true', List.contains_eq_mem, decide_eq_false_iff_not]
    exact hapart

end Node

end PathTemplate
