import PathTemplate.Proofs.Expression.Arrange
import PathTemplate.Proofs.Expression.Steady
import PathTemplate.Proofs.Runs.Squeeze
import Mathlib

/-!
# Attempts beside each other

Attempts in two texts that differ only in how long runs of delimiters are come to the same end, in
places beside each other, unless the budget of one of them is spent.

* `Mirror` — two states at places beside each other, with captures beside each other;
* `Outcome.Mirrors`, `Onward.Mirrors` — outcomes that agree, and ways to go on that have such
  outcomes;
* `IgnoresRuns` — attempts that go on in the same way, whatever follows;
* `IgnoresRuns.between` — so do repetitions of such attempts;
* `ignoresRuns_run` — and a run of delimiters, all of which are taken.
-/

namespace PathTemplate

/-- Two stretches begin and end beside each other. -/
structure Span.Level (D : Char) (u u' : Text) (s s' : Span) : Prop where
  start : PathTemplate.Level D u u' s.start s'.start
  stop : PathTemplate.Level D u u' s.stop s'.stop

/-- Two states are at places beside each other, and so are their captures. -/
structure Mirror (D : Char) (u u' : Text) (s s' : State) : Prop where
  pos : Level D u u' s.pos s'.pos
  captures :
    List.Forall₂ (fun x x' => x.1 = x'.1 ∧ Option.Rel (Span.Level D u u') x.2 x'.2) s.captures
      s'.captures

/-- Both attempts found a match, at states beside each other, or both failed, unless one was given
up. -/
def Outcome.Mirrors (D : Char) (u u' : Text) : Outcome → Outcome → Prop
  | found s _, found s' _ => Mirror D u u' s s'
  | failed _, failed _ => True
  | exhausted, _ | _, exhausted => True
  | _, _ => False

/-- From states beside each other, both ways to go on come to the same end. -/
def Onward.Mirrors (D : Char) (u u' : Text) (k k' : Onward) : Prop :=
  ∀ s s' b b', Mirror D u u' s s' → (k s b).Mirrors D u u' (k' s' b')

/-- What is attempted in front of something comes to the same end in all texts that differ only in
the length of runs. -/
def IgnoresRuns (D : Char) (f : Onward → Onward) : Prop :=
  ∀ u u' k k', Onward.Mirrors D u u' k k' → Onward.Mirrors D u u' (f k) (f k')

section

variable {D c : Char} {u u' : Text} {o o' : Outcome} {s s' t t' : State} {k k' : Onward}
  {f g : Onward → Onward}

/-! ### states and outcomes -/

theorem Mirror.symm (h : Mirror D u u' s s') : Mirror D u' u s' s := by
  refine ⟨h.pos.symm, h.captures.flip.imp fun x x' hx => ⟨hx.1.symm, ?_⟩⟩
  obtain ⟨-, hx⟩ := hx
  rcases x with ⟨i, s⟩
  rcases x' with ⟨i', s'⟩
  cases hx with
  | none => exact .none
  | some hs => exact .some ⟨hs.start.symm, hs.stop.symm⟩

theorem Mirror.left_lt_iff (h : Mirror D u u' s s') (h' : Mirror D u u' t t') :
    t.left < s.left ↔ t'.left < s'.left :=
  h.pos.left_lt_iff h'.pos

theorem Mirror.left_eq_zero (h : Mirror D u u' s s') (hs : s.left = 0) : s'.left = 0 := by
  have hnil : s.pos.after = [] := List.length_eq_zero_iff.1 hs
  have hhead := h.pos.head?_eq
  rw [hnil] at hhead
  exact List.length_eq_zero_iff.2 (List.head?_eq_none_iff.1 hhead.symm)

/-- A group has captures in both states or in none of them, and they are beside each other. -/
theorem Mirror.capture? (h : Mirror D u u' s s') (i : Nat) :
    Option.Rel (Span.Level D u u') (s.capture? i) (s'.capture? i) := by
  have hlookup : ∀ {w w' : Captures},
      List.Forall₂ (fun x x' => x.1 = x'.1 ∧ Option.Rel (Span.Level D u u') x.2 x'.2) w w' →
      Option.Rel (Span.Level D u u') (w.lookup i).join (w'.lookup i).join := by
    intro w w' hw
    induction hw with
    | nil => exact .none
    | @cons x x' w w' hx _ ih =>
      obtain ⟨j, s⟩ := x
      obtain ⟨j', s'⟩ := x'
      obtain ⟨rfl, hs⟩ := hx
      rw [List.lookup_cons, List.lookup_cons]
      cases i == j with
      | true => exact hs
      | false => exact ih
  exact hlookup h.captures

theorem Mirror.capture?_eq_none_iff (h : Mirror D u u' s s') (i : Nat) :
    s.capture? i = none ↔ s'.capture? i = none := by
  have hrel := h.capture? i
  cases hs : s.capture? i <;> cases hs' : s'.capture? i <;> rw [hs, hs'] at hrel <;> simp_all

theorem Mirror.level_of_capture? (h : Mirror D u u' s s') {i : Nat} {x x' : Span}
    (hx : s.capture? i = some x) (hx' : s'.capture? i = some x') : x.Level D u u' x' := by
  have hrel := h.capture? i
  rw [hx, hx'] at hrel
  cases hrel
  assumption

theorem Mirror.capture (h : Mirror D u u' s s') (ht : Mirror D u u' t t') (i : Nat) :
    Mirror D u u' (t.capture i s.pos) (t'.capture i s'.pos) :=
  ⟨ht.pos, .cons ⟨rfl, .some ⟨h.pos, ht.pos⟩⟩ ht.captures⟩

namespace Outcome

theorem Mirrors.symm (h : o.Mirrors D u u' o') : o'.Mirrors D u' u o := by
  cases o <;> cases o' <;> first | exact h.elim | trivial | exact Mirror.symm h

theorem mirrors_fail (D : Char) (u u' : Text) (b b' : Nat) : (fail b).Mirrors D u u' (fail b') := by
  cases b <;> cases b' <;> trivial

theorem Mirrors.orElse {other other' : Nat → Outcome} (h : o.Mirrors D u u' o')
    (hother : ∀ b b', (other b).Mirrors D u u' (other' b')) :
    (o.orElse other).Mirrors D u u' (o'.orElse other') := by
  cases o with
  | found s b =>
    cases o' with
    | found s' b' => exact h
    | failed b' => exact h.elim
    | exhausted => trivial
  | failed b =>
    cases o' with
    | found s' b' => exact h.elim
    | failed b' => exact hother b b'
    | exhausted => cases hb : other b <;> simp [Outcome.orElse, hb, Mirrors]
  | exhausted => cases o' <;> trivial

end Outcome

/-! ### repetition -/

theorem Onward.Mirrors.prefer_at {further further' stop stop' : Onward}
    (h : ∀ b b', (further s b).Mirrors D u u' (further' s' b'))
    (h' : ∀ b b', (stop s b).Mirrors D u u' (stop' s' b')) (greedy : Bool) (b b' : Nat) :
    (Attempt.prefer greedy further stop s b).Mirrors D u u'
      (Attempt.prefer greedy further' stop' s' b') := by
  unfold Attempt.prefer
  split
  · exact (h b b').orElse h'
  · exact (h' b b').orElse h

/-- The outcome is that of `o₁`, unless the budget is spent. -/
def Outcome.Echoes (o o₁ : Outcome) : Prop :=
  o = exhausted ∨ (∃ t b b₁, o = found t b ∧ o₁ = found t b₁) ∨ ∃ b b₁, o = failed b ∧
  o₁ = failed b₁

namespace Outcome

variable {o₁ o₁' o₂ : Outcome}

theorem Echoes.refl (o : Outcome) : o.Echoes o := by
  cases o with
  | found t b => exact .inr (.inl ⟨t, b, b, rfl, rfl⟩)
  | failed b => exact .inr (.inr ⟨b, b, rfl, rfl⟩)
  | exhausted => exact .inl rfl

theorem Echoes.trans (h : o.Echoes o₁) (h' : o₁.Echoes o₂) : o.Echoes o₂ := by
  rcases h with h | ⟨t, b, b₁, h, rfl⟩ | ⟨b, b₁, h, rfl⟩
  · exact .inl h
  · rcases h' with h' | ⟨t', b', b₂, h', rfl⟩ | ⟨b', b₂, h', rfl⟩
    · cases h'
    · cases h'
      exact .inr (.inl ⟨_, b, b₂, h, rfl⟩)
    · cases h'
  · rcases h' with h' | ⟨t', b', b₂, h', rfl⟩ | ⟨b', b₂, h', rfl⟩
    · cases h'
    · cases h'
    · exact .inr (.inr ⟨b, b₂, h, rfl⟩)

/-- Going back costs a part of the budget, and nothing else. -/
theorem fail_orElse_echoes (other : Nat → Outcome) (b : Nat) :
    ∃ b₁, ((fail b).orElse other).Echoes (other b₁) := by
  cases b with
  | zero => exact ⟨0, .inl rfl⟩
  | succ b => exact ⟨b, .refl _⟩

theorem Mirrors.of_echoes (h : o₁.Mirrors D u u' o₁') (ho : o.Echoes o₁) (ho' : o'.Echoes o₁') :
    o.Mirrors D u u' o' := by
  rcases ho with rfl | ⟨t, b, b₁, rfl, rfl⟩ | ⟨b, b₁, rfl, rfl⟩
  · trivial
  all_goals
    rcases ho' with rfl | ⟨t', b', b₁', rfl, rfl⟩ | ⟨b', b₁', rfl, rfl⟩
    · trivial
    · exact h
    · exact h

end Outcome

/-- A way to go on that never finds anything is of no use, however it is preferred. -/
theorem Attempt.prefer_stuck {further stop : Onward} (greedy : Bool)
    (h : ∀ b t b', further s b ≠ .found t b') (b : Nat) :
    ∃ b₁, (Attempt.prefer greedy further stop s b).Echoes (stop s b₁) := by
  unfold Attempt.prefer
  split
  · cases hf : further s b with
    | found t b' => exact absurd hf (h b t b')
    | failed b₁ => exact ⟨b₁, .refl _⟩
    | exhausted => exact ⟨b, .inl rfl⟩
  · refine ⟨b, ?_⟩
    cases hs : stop s b with
    | found t b' => exact .refl _
    | exhausted => exact .inl rfl
    | failed b₁ =>
      cases hf : further s b₁ with
      | found t b' => exact absurd hf (h b₁ t b')
      | failed b₂ => exact .inr (.inr ⟨b₂, b₁, hf, rfl⟩)
      | exhausted => exact .inl hf

/-- So is stopping, if nothing is found there. -/
theorem Attempt.prefer_further {further stop : Onward} (greedy : Bool)
    (h : ∀ b t b', stop s b ≠ .found t b') (b : Nat) :
    ∃ b₁, (Attempt.prefer greedy further stop s b).Echoes (further s b₁) := by
  have hswap : Attempt.prefer greedy further stop = Attempt.prefer (!greedy) stop further := by
    cases greedy <;> rfl
  rw [hswap]
  exact Attempt.prefer_stuck (!greedy) h b

/-- What is found is found by what follows. -/
def IsReached (f : Onward → Onward) : Prop :=
  ∀ k s b t b', f k s b = .found t b' → ∃ r b₁, k r b₁ = .found t b'

theorem Attempt.many_mirrors {round : Onward → Onward} (greedy : Bool)
    (hround : IgnoresRuns D round) (hreached : IsReached round) (h : Onward.Mirrors D u u' k k')
    {n n' : Nat} (hs : Mirror D u u' s s') (hn : s.left ≤ n) (hn' : s'.left ≤ n') (b b' : Nat) :
    (Attempt.many round greedy k n s b).Mirrors D u u' (Attempt.many round greedy k' n' s' b') := by
  -- without characters that are left, no further round counts
  have hstuck : ∀ {k : Onward} {n : Nat} {s : State}, s.left = 0 → ∀ b, ∃ b₁,
      (Attempt.many round greedy k n s b).Echoes (k s b₁) := by
    intro k n s hleft b
    cases n with
    | zero => exact ⟨b, .refl _⟩
    | succ n =>
      refine Attempt.prefer_stuck greedy (fun b t b' hf => ?_) b
      obtain ⟨r, b₁, hr⟩ := hreached _ _ _ _ _ hf
      rw [if_neg (by omega)] at hr
      exact Outcome.fail_ne_found hr
  induction n generalizing n' s s' b b' with
  | zero =>
    have hleft : s.left = 0 := Nat.le_zero.1 hn
    obtain ⟨b₁, hb₁⟩ := hstuck (k := k') (n := n') (hs.left_eq_zero hleft) b'
    exact (h s s' b b₁ hs).of_echoes (.refl _) hb₁
  | succ n ih =>
    cases n' with
    | zero =>
      have hleft : s.left = 0 := hs.symm.left_eq_zero (Nat.le_zero.1 hn')
      obtain ⟨b₁, hb₁⟩ := hstuck (k := k) (n := n + 1) hleft b
      exact (h s s' b₁ b' hs).of_echoes hb₁ (.refl _)
    | succ n' =>
      refine Onward.Mirrors.prefer_at
        (fun b b' => hround u u' _ _ (fun t t' b b' ht => ?_) s s' b b' hs)
        (fun b b' => h s s' b b' hs) greedy b b'
      by_cases hlt : t.left < s.left
      · rw [if_pos hlt, if_pos ((hs.left_lt_iff ht).1 hlt)]
        have := (hs.left_lt_iff ht).1 hlt
        exact ih ht (by omega) (by omega) b b'
      · rw [if_neg hlt, if_neg fun hlt' => hlt ((hs.left_lt_iff ht).2 hlt')]
        exact Outcome.mirrors_fail D u u' b b'

/-- Repetition of what comes to the same end comes to the same end. -/
theorem IgnoresRuns.between {round : Onward → Onward} (hround : IgnoresRuns D round)
    (hreached : IsReached round) (greedy : Bool) (lo : Nat) (hi : Option Nat) :
    IgnoresRuns D fun k => Attempt.between round greedy k lo hi := by
  intro u u' k k' h
  have hexactly : ∀ {k k' : Onward} (n : Nat), Onward.Mirrors D u u' k k' →
      Onward.Mirrors D u u' (Attempt.exactly round k n) (Attempt.exactly round k' n) := by
    intro k k' n h
    induction n with
    | zero => exact h
    | succ n ih => exact hround u u' _ _ ih
  have hupTo : ∀ n, Onward.Mirrors D u u' (Attempt.upTo round greedy k n)
      (Attempt.upTo round greedy k' n) := by
    intro n
    induction n with
    | zero => exact h
    | succ n ih =>
      intro s s' b b' hs
      exact Onward.Mirrors.prefer_at (fun b b' => hround u u' _ _ ih s s' b b' hs)
        (fun b b' => h s s' b b' hs) greedy b b'
  refine hexactly lo ?_
  cases hi with
  | some hi => exact hupTo (hi - lo)
  | none =>
    intro s s' b b' hs
    exact Attempt.many_mirrors greedy hround hreached h hs (Nat.le_refl _) (Nat.le_refl _) b b'

/-! ### pieces -/

theorem IgnoresRuns.comp (hf : IgnoresRuns D f) (hg : IgnoresRuns D g) :
    IgnoresRuns D fun k => f (g k) :=
  fun u u' _ _ h => hf u u' _ _ (hg u u' _ _ h)

theorem IgnoresRuns.group {n : Node} (h : IgnoresRuns D n.attempt) (i : Nat) :
    IgnoresRuns D (Node.group i n).attempt := by
  intro u u' k k' hk s s' b b' hs
  exact h u u' _ _ (fun t t' b b' ht => hk _ _ b b' (hs.capture ht i)) s s' b b' hs

/-- One character further, unless it may be a delimiter. -/
theorem Mirror.advance {test : Char → Bool} (hs : Mirror D u u' s s')
    (htest : s.pos.after.head? = some D → test D = false) (hk : Onward.Mirrors D u u' k k')
    (b b' : Nat) :
    (k.orFail (s.advance? test) b).Mirrors D u u' (k'.orFail (s'.advance? test) b') := by
  have hhead := hs.pos.head?_eq
  obtain ⟨⟨x, y⟩, w⟩ := s
  obtain ⟨⟨x', y'⟩, w'⟩ := s'
  cases y with
  | nil =>
    obtain rfl : y' = [] := List.head?_eq_none_iff.1 hhead.symm
    exact Outcome.mirrors_fail D u u' b b'
  | cons c y =>
    obtain ⟨y', rfl⟩ := List.head?_eq_some_iff.1 hhead.symm
    cases htc : test c with
    | false =>
      simp only [State.advance?, htc, Bool.false_eq_true, if_false]
      exact Outcome.mirrors_fail D u u' b b'
    | true =>
      have hc : c ≠ D := by
        rintro rfl
        rw [htest rfl] at htc
        cases htc
      obtain ⟨q', hq', hlevel⟩ := hs.pos.step hc (q := ⟨c :: x, y⟩) ⟨rfl, rfl⟩
      obtain rfl : q' = ⟨c :: x', y'⟩ := hq'.unique ⟨rfl, rfl⟩
      simp only [State.advance?, htc, if_true]
      exact hk _ _ b b' ⟨hlevel, hs.captures⟩

theorem ignoresRuns_char {i : Bool} (hc : matchesChar c i D = false) :
    IgnoresRuns D (Node.char c i).attempt :=
  fun _ _ _ _ hk _ _ b b' hs => hs.advance (fun _ => hc) hk b b'

theorem ignoresRuns_textStart : IgnoresRuns D (Node.assertion .textStart).attempt := by
  intro u u' k k' hk s s' b b' hs
  have hholds : Assertion.textStart.holds s.pos = Assertion.textStart.holds s'.pos := by
    rw [Bool.eq_iff_iff]
    simpa [Assertion.holds] using hs.pos.atStart
  simp only [Node.attempt, hholds]
  split
  · exact hk s s' b b' hs
  · exact Outcome.mirrors_fail D u u' b b'

theorem ignoresRuns_textEnd : IgnoresRuns D (Node.assertion .textEnd).attempt := by
  intro u u' k k' hk s s' b b' hs
  have hholds : Assertion.textEnd.holds s.pos = Assertion.textEnd.holds s'.pos := by
    rw [Bool.eq_iff_iff]
    simp only [Assertion.holds, List.isEmpty_iff]
    rw [← List.head?_eq_none_iff, hs.pos.head?_eq, List.head?_eq_none_iff]
  simp only [Node.attempt, hholds]
  split
  · exact hk s s' b b' hs
  · exact Outcome.mirrors_fail D u u' b b'

/-! ### delimiters -/

/-- The expression `char D i` stands for the delimiter and nothing else. -/
def IsOnly (D : Char) (i : Bool) : Prop := ∀ c, matchesChar D i c = true ↔ c = D

theorem IsOnly.attempt_char {i : Bool} (hi : IsOnly D i) {x y : Text} {w : List (Nat × Option Span)}
    (b : Nat) : (Node.char D i).attempt k ⟨⟨x, D :: y⟩, w⟩ b = k ⟨⟨D :: x, y⟩, w⟩ b := by
  simp only [Node.attempt, State.advance?, (hi D).2 rfl, if_true, Onward.orFail]

theorem IsOnly.attempt_char_of_ne {i : Bool} (hi : IsOnly D i) (hs : s.pos.after.head? ≠ some D)
    (b : Nat) : (Node.char D i).attempt k s b = .fail b := by
  obtain ⟨⟨x, y⟩, w⟩ := s
  cases y with
  | nil => rfl
  | cons c y =>
    have hc : matchesChar D i c = false := by
      rw [Bool.eq_false_iff, Ne, hi c]
      rintro rfl
      exact hs rfl
    simp only [Node.attempt, State.advance?, hc, Bool.false_eq_true, if_false, Onward.orFail]

theorem IsOnly.attempt_absent {i : Bool} (hi : IsOnly D i) (b : Nat) :
    (Node.look .ahead false (.char D i)).attempt k s b =
      if s.pos.after.head? = some D then .fail b else (Outcome.fail b).orElse (k s) := by
  unfold Node.attempt
  dsimp only
  split_ifs with h
  · obtain ⟨⟨x, y⟩, w⟩ := s
    obtain ⟨y, rfl⟩ := List.head?_eq_some_iff.1 h
    rw [hi.attempt_char]
  · rw [hi.attempt_char_of_ne h]
    cases b <;> rfl

theorem ignoresRuns_outside {i : Bool} (hi : IsOnly D i) (set : CharSet) :
    IgnoresRuns D (Node.attemptAll [.look .ahead false (.char D i), .oneOf set]) := by
  intro u u' k k' hk s s' b b' hs
  simp only [Node.attemptAll_cons, Node.attemptAll_nil, hi.attempt_absent, ← hs.pos.head?_eq]
  split
  · exact Outcome.mirrors_fail D u u' b b'
  · rename_i h
    exact (Outcome.mirrors_fail D u u' b b').orElse fun b b' => hs.advance (fun h' => absurd h' h)
      hk b b'

theorem Cursor.pastRun_cons (x y : Text) :
    Cursor.pastRun D ⟨x, D :: y⟩ = Cursor.pastRun D ⟨D :: x, y⟩ := by
  simp [Cursor.pastRun]

theorem Cursor.pastRun_of_ne {p : Cursor} (h : p.after.head? ≠ some D) : p.pastRun D = p := by
  obtain ⟨x, y⟩ := p
  cases y with
  | nil => rfl
  | cons c y =>
    have hc : c ≠ D := fun hc => h (by rw [hc]; rfl)
    simp [Cursor.pastRun, hc]

/-- Of the delimiters that follow, all are taken, if stopping before the last one is of no use. -/
theorem IsOnly.many_echoes {i : Bool} (hi : IsOnly D i) {stop : Onward}
    (hstop : ∀ s b t b', s.pos.after.head? = some D → stop s b ≠ .found t b') {n : Nat}
    (hn : s.left ≤ n) (b : Nat) :
    ∃ b₁, (Attempt.many (Node.char D i).attempt true stop n s b).Echoes
      (stop (s.at (s.pos.pastRun D)) b₁) := by
  have hhere : ∀ {s : State}, s.pos.after.head? ≠ some D → s.at (s.pos.pastRun D) = s := by
    intro s h
    rw [Cursor.pastRun_of_ne h, State.at]
  induction n generalizing s b with
  | zero =>
    have hnil : s.pos.after = [] := List.length_eq_zero_iff.1 (Nat.le_zero.1 hn)
    rw [hhere (by simp [hnil])]
    exact ⟨b, .refl _⟩
  | succ n ih =>
    obtain ⟨onward, hmany, honward⟩ : ∃ onward : Onward, (∀ b, Attempt.many (Node.char D i).attempt
            true stop (n + 1) s b = Attempt.prefer true ((Node.char D i).attempt onward) stop s b) ∧
        ∀ t b, t.left < s.left →
          onward t b = Attempt.many (Node.char D i).attempt true stop n t b :=
      ⟨_, fun _ => rfl, fun t b h => if_pos h⟩
    rw [hmany]
    by_cases h : s.pos.after.head? = some D
    · obtain ⟨b₁, hb₁⟩ : ∃ b₁, (Attempt.prefer true ((Node.char D i).attempt onward) stop s
          b).Echoes ((Node.char D i).attempt onward s b₁) :=
        Attempt.prefer_further true (fun b t b' => hstop s b t b' h) b
      obtain ⟨⟨x, y⟩, w⟩ := s
      obtain ⟨y, rfl⟩ := List.head?_eq_some_iff.1 h
      rw [hi.attempt_char, honward _ _ (by simp [State.left, Cursor.left])] at hb₁
      obtain ⟨b₂, hb₂⟩ := ih (s := ⟨⟨D :: x, y⟩, w⟩) (by simpa [State.left, Cursor.left] using hn)
        b₁
      rw [← Cursor.pastRun_cons] at hb₂
      exact ⟨b₂, hb₁.trans hb₂⟩
    · rw [hhere h]
      refine Attempt.prefer_stuck true (fun b t b' => ?_) b
      rw [hi.attempt_char_of_ne h]
      exact Outcome.fail_ne_found

/-- A run of delimiters comes to its end in both texts. -/
theorem ignoresRuns_run {i : Bool} (hi : IsOnly D i) :
    IgnoresRuns D
      (Node.attemptAll [.loop (.char D i) 1 none true, .look .ahead false (.char D i)]) := by
  intro u u' k k' hk s s' b b' hs
  have hrun : ∀ {k : Onward} {s : State}, s.pos.after.head? = some D → ∀ b, ∃ b₁,
      (Node.attemptAll [.loop (.char D i) 1 none true, .look .ahead false (.char D i)] k s b).Echoes
        (k (s.at (s.pos.pastRun D)) b₁) := by
    intro k s h b
    have hstop : ∀ s b t b', s.pos.after.head? = some D →
        (Node.look .ahead false (.char D i)).attempt k s b ≠ .found t b' := by
      intro s b t b' h
      rw [hi.attempt_absent, if_pos h]
      exact Outcome.fail_ne_found
    obtain ⟨⟨x, y⟩, w⟩ := s
    obtain ⟨y, rfl⟩ := List.head?_eq_some_iff.1 h
    obtain ⟨b₁, hb₁⟩ := hi.many_echoes hstop (s := ⟨⟨D :: x, y⟩, w⟩) (Nat.le_refl _) b
    -- where the run ends, no delimiter follows
    have hend :
        (State.at ⟨⟨D :: x, y⟩, w⟩ (Cursor.pastRun D ⟨x, D :: y⟩)).pos.after.head? ≠ some D :=
      Level.head?_pastRun D _
    rw [← Cursor.pastRun_cons, hi.attempt_absent, if_neg hend] at hb₁
    obtain ⟨b₂, hb₂⟩ := Outcome.fail_orElse_echoes
      (k (State.at ⟨⟨D :: x, y⟩, w⟩ (Cursor.pastRun D ⟨x, D :: y⟩))) b₁
    refine ⟨b₂, Outcome.Echoes.trans ?_ hb₂⟩
    simp only [Node.attemptAll_cons, Node.attemptAll_nil]
    rw [Node.attempt, Attempt.between, Attempt.exactly, Attempt.exactly]
    beta_reduce
    rwa [hi.attempt_char]
  have hnone : ∀ {k : Onward} {s : State}, s.pos.after.head? ≠ some D →
      ∀ b, Node.attemptAll [.loop (.char D i) 1 none true, .look .ahead false (.char D i)] k s b =
        .fail b := by
    intro k s h b
    simp only [Node.attemptAll_cons, Node.attemptAll_nil]
    rw [Node.attempt, Attempt.between, Attempt.exactly]
    exact hi.attempt_char_of_ne h b
  by_cases h : s.pos.after.head? = some D
  · obtain ⟨b₁, hb₁⟩ := hrun (k := k) h b
    obtain ⟨b₁', hb₁'⟩ := hrun (k := k') (hs.pos.head?_eq ▸ h) b'
    have hpast : Mirror D u u' (s.at (s.pos.pastRun D)) (s'.at (s'.pos.pastRun D)) :=
      ⟨hs.pos.pastRun h, hs.captures⟩
    exact (hk _ _ b₁ b₁' hpast).of_echoes hb₁ hb₁'
  · rw [hnone h, hnone fun h' => h (hs.pos.head?_eq.trans h')]
    exact Outcome.mirrors_fail D u u' b b'

end

end PathTemplate
