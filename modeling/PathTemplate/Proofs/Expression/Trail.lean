import PathTemplate.Proofs.Expression.Skips

/-!
# Where comments end

What follows a text can belong to a comment that the text leaves open.

* `Closed` — nothing follows, or a closing parenthesis;
* `trail` — what is being left out at the end of a text of inert characters, blanks and comments;
* `skipBlank_cases` — what is skipped ends inside of the text, or a line comment goes on beyond it;
* `Sealed` — no comment goes on beyond the text; `Fades` — a line comment does;
* `Sealed.skips`, `Skips.trail` — both are kept by what readers skip.
-/

namespace PathTemplate.Expression

/-- Nothing follows, or a closing parenthesis. -/
def Closed (u : Text) : Prop := ∀ c ∈ u.head?, c = ')'

/-- What is being left out at the end of a text, if it has inert characters, blanks and comments
only. -/
def trail (free : Bool) : Skipping → Text → Option Skipping
  | .nothing, [] => some .nothing
  | .nothing, '(' :: '?' :: '#' :: rest => trail free .remark rest
  | .nothing, c :: rest =>
    if free ∧ c = '#' then trail free .line rest
    else if isInert c then trail free .nothing rest
    else none
  | .line, [] => some .line
  | .line, c :: rest => trail free (if c = '\n' then .nothing else .line) rest
  | .remark, [] => some .remark
  | .remark, ['\\'] => some .remark
  | .remark, '\\' :: _ :: rest => trail free .remark rest
  | .remark, c :: rest => trail free (if c = ')' then .nothing else .remark) rest

/-- No comment goes on beyond the text. -/
def Sealed (sw : Switches) (t : Text) : Prop :=
  ∀ k ∈ trail sw.freeSpacing .nothing t, k = .nothing

/-- A line comment goes on beyond the text, or nothing is left of it. -/
def Fades (sw : Switches) (t : Text) : Prop :=
  t = [] ∨ trail sw.freeSpacing .nothing t = some .line

variable {free : Bool} {k : Skipping} {sw : Switches} {t u r : Text} {c : Char}

theorem closed_nil : Closed [] := by simp [Closed]

theorem closed_paren (u : Text) : Closed (')' :: u) := by simp [Closed]

theorem sealed_nil (sw : Switches) : Sealed sw [] := by
  rintro k ⟨⟩
  rfl

/-- Closed text has no part in what begins a comment in parentheses. -/
theorem exists_remark_of_append (hu : Closed u) (h : t ++ u = '?' :: '#' :: r) :
    ∃ r', t = '?' :: '#' :: r' := by
  rcases t with _ | ⟨d, _ | ⟨d', t⟩⟩
  · have := hu '?' (by simp_all)
    cases this
  · have := hu '#' (by simp_all)
    cases this
  · simp only [List.cons_append, List.cons.injEq] at h
    exact ⟨t, by rw [h.1, h.2.1]⟩

/-! ### one character after the other -/

/-- Outside of comments, a character that begins none in parentheses. -/
theorem trail_nothing_cons (h : ∀ r, c = '(' → t ≠ '?' :: '#' :: r) :
    trail free .nothing (c :: t) =
      if free ∧ c = '#' then trail free .line t
      else if isInert c then trail free .nothing t
      else none := by
  rw [trail]
  simpa using h

theorem skipFrom_nothing_cons (h : ∀ r, c = '(' → t ≠ '?' :: '#' :: r) :
    skipFrom free .nothing (c :: t) =
      if free ∧ c = '#' then skipFrom free .line t
      else if free ∧ (c = ' ' ∨ c = '\t' ∨ c = '\r' ∨ c = '\n') then skipFrom free .nothing t
      else .ok (c :: t) := by
  rw [skipFrom]
  simpa using h

theorem trail_remark_cons (hc : c ≠ '\\') (t : Text) :
    trail free .remark (c :: t) = trail free (if c = ')' then .nothing else .remark) t := by
  rw [trail]
  · exact fun h => absurd h hc
  · exact fun _ _ h => absurd h hc

theorem skipFrom_remark_cons (hc : c ≠ '\\') (t : Text) :
    skipFrom free .remark (c :: t) = skipFrom free (if c = ')' then .nothing else .remark) t := by
  rw [skipFrom]
  · exact fun h => absurd h hc
  · exact fun _ _ h => absurd h hc

theorem trail_cons (hc : isInert c = true) (t : Text) :
    trail free .nothing (c :: t) = trail free .nothing t := by
  obtain ⟨-, -, -, hopen, -, hline⟩ := isInert_iff.1 hc
  rw [trail_nothing_cons fun _ h => absurd h hopen, if_neg fun h => hline h.2, if_pos hc]

/-- A comment begins with `#`. -/
theorem sealed_of_not_mem (ht : '#' ∉ t) : Sealed sw t := by
  unfold Sealed
  induction t with
  | nil => exact sealed_nil sw
  | cons c t ih =>
    simp only [List.mem_cons, not_or] at ht
    rw [trail_nothing_cons (by rintro r - rfl; simp at ht), if_neg fun h => ht.1 h.2.symm]
    split
    · exact ih ht.2
    · simp

theorem trail_line (hu : '\n' ∉ u) : trail free .line u = some .line := by
  induction u with
  | nil => rfl
  | cons c u ih =>
    simp only [List.mem_cons, not_or] at hu
    rw [trail, if_neg (Ne.symm hu.1)]
    exact ih hu.2

theorem skipFrom_line (hu : '\n' ∉ u) : skipFrom free .line u = .ok [] := by
  induction u with
  | nil => rfl
  | cons c u ih =>
    simp only [List.mem_cons, not_or] at hu
    rw [skipFrom, if_neg (Ne.symm hu.1)]
    exact ih hu.2

/-- A line comment goes on up to the end of the line. -/
theorem trail_append (h : trail free k t = some .line) (hu : '\n' ∉ u) :
    trail free k (t ++ u) = some .line := by
  fun_induction trail free k t with
  | case1 => cases h
  | case2 rest ih => exact ih h
  | case3 c rest hne hc ih =>
    rw [List.cons_append, trail_nothing_cons fun _ hopen => by simp [hopen] at hc, if_pos hc]
    exact ih h
  | case4 c rest hne hc hinert ih =>
    rw [List.cons_append, trail_cons hinert]
    exact ih h
  | case5 => cases h
  | case6 => exact trail_line hu
  | case7 c rest ih => exact ih h
  | case8 => cases h
  | case9 => cases h
  | case10 c rest ih => exact ih h
  | case11 c rest hlast hescape ih =>
    rw [List.cons_append, trail_remark_cons (ne_backslash hlast hescape)]
    exact ih h

/-! ### what is skipped -/

/-- What is skipped ends inside of the text, whatever closed text follows, or a line comment goes on
beyond it. -/
theorem skipFrom_cases (h : skipFrom free k t = .ok r) :
    (trail free k t = trail free .nothing r ∧
        ∀ u, Closed u → skipFrom free k (t ++ u) = .ok (r ++ u)) ∨
      (r = [] ∧ trail free k t = some .line ∧
        ∀ u, '\n' ∉ u → skipFrom free k (t ++ u) = .ok []) := by
  fun_induction skipFrom free k t with
  | case1 =>
    cases h
    refine .inl ⟨rfl, fun u hu => ?_⟩
    cases u with
    | nil => rfl
    | cons c u =>
      obtain rfl := hu c rfl
      simp [skipFrom]
  | case2 rest ih => exact ih h
  | case3 c rest hne hc ih =>
    have hopen : ∀ {t : Text} r, c = '(' → t ≠ '?' :: '#' :: r := fun _ h => by simp [h] at hc
    rw [trail_nothing_cons hopen, if_pos hc]
    simp only [List.cons_append, skipFrom_nothing_cons hopen, if_pos hc]
    exact ih h
  | case4 c rest hne hc hblank ih =>
    have hinert : isInert c = true := by
      rcases hblank.2 with rfl | rfl | rfl | rfl <;> decide
    have hopen : ∀ {t : Text} r, c = '(' → t ≠ '?' :: '#' :: r := fun _ h => by simp [h] at hblank
    rw [trail_cons hinert]
    simp only [List.cons_append, skipFrom_nothing_cons hopen, if_neg hc, if_pos hblank]
    exact ih h
  | case5 c rest hne hc hblank =>
    cases h
    refine .inl ⟨rfl, fun u hu => ?_⟩
    have hopen : ∀ r, c = '(' → rest ++ u ≠ '?' :: '#' :: r := by
      intro r hc h
      obtain ⟨rest', h⟩ := exists_remark_of_append hu h
      exact hne rest' hc h
    rw [List.cons_append, skipFrom_nothing_cons hopen, if_neg hc, if_neg hblank]
  | case6 =>
    cases h
    exact .inr ⟨rfl, rfl, fun u hu => skipFrom_line hu⟩
  | case7 c rest ih => exact ih h
  | case8 => cases h
  | case9 => cases h
  | case10 c rest ih => exact ih h
  | case11 c rest hlast hescape ih =>
    have hc := ne_backslash hlast hescape
    rw [trail_remark_cons hc]
    simp only [List.cons_append, skipFrom_remark_cons hc]
    exact ih h

theorem trail_of_skipFrom_error {e : Fault} (h : skipFrom free k t = .error e) :
    trail free k t = some .remark := by
  fun_induction skipFrom free k t with
  | case1 => cases h
  | case2 rest ih => exact ih h
  | case3 c rest hne hc ih =>
    rw [trail_nothing_cons (fun _ h => by simp [h] at hc), if_pos hc]
    exact ih h
  | case4 c rest hne hc hblank ih =>
    rw [trail_cons (by rcases hblank.2 with rfl | rfl | rfl | rfl <;> decide)]
    exact ih h
  | case5 => cases h
  | case6 => cases h
  | case7 c rest ih => exact ih h
  | case8 => rfl
  | case9 => rfl
  | case10 c rest ih => exact ih h
  | case11 c rest hlast hescape ih =>
    rw [trail_remark_cons (ne_backslash hlast hescape)]
    exact ih h

/-- What is skipped is not looked at again. -/
theorem head_of_skipFrom (h : skipFrom free k t = .ok (c :: r)) :
    (∀ r', c = '(' → r ≠ '?' :: '#' :: r') ∧ ¬(free = true ∧ c = '#') ∧
      ¬(free = true ∧ (c = ' ' ∨ c = '\t' ∨ c = '\r' ∨ c = '\n')) := by
  fun_induction skipFrom free k t with
  | case5 c rest hne hc hblank =>
    cases h
    exact ⟨hne, hc, hblank⟩
  | case1 | case6 | case8 | case9 => cases h
  | case2 _ ih | case3 _ _ _ _ ih | case4 _ _ _ _ _ ih | case7 _ _ ih | case10 _ _ ih
  | case11 _ _ _ _ ih => exact ih h

theorem skipBlank_cases (h : skipBlank sw t = .ok r) :
    (trail sw.freeSpacing .nothing t = trail sw.freeSpacing .nothing r ∧
        ∀ u, Closed u → skipBlank sw (t ++ u) = .ok (r ++ u)) ∨
      (r = [] ∧ trail sw.freeSpacing .nothing t = some .line ∧
        ∀ u, '\n' ∉ u → skipBlank sw (t ++ u) = .ok []) := skipFrom_cases h

/-- Where something is left, what is skipped ends inside of the text. -/
theorem skipBlank_append (h : skipBlank sw t = .ok r) (hr : r ≠ []) (hu : Closed u) :
    skipBlank sw (t ++ u) = .ok (r ++ u) := by
  rcases skipBlank_cases h with ⟨-, hall⟩ | ⟨hnil, -⟩
  · exact hall u hu
  · exact absurd hnil hr

theorem skipBlank_skipBlank (h : skipBlank sw t = .ok r) : skipBlank sw r = .ok r := by
  cases r with
  | nil => rfl
  | cons c r =>
    obtain ⟨h₁, h₂, h₃⟩ := head_of_skipFrom h
    rw [skipBlank, skipFrom_nothing_cons h₁, if_neg h₂, if_neg h₃]

/-! ### texts that end without a comment, and texts that do not -/

/-- What stands for nothing is left out, whatever closed text follows. -/
theorem Sealed.exists_skipBlank (ht : Sealed sw t) :
    ∃ r, skipBlank sw t = .ok r ∧ ∀ u, Closed u → skipBlank sw (t ++ u) = .ok (r ++ u) := by
  cases h : skipBlank sw t with
  | error e => cases ht _ (trail_of_skipFrom_error h)
  | ok r =>
    refine ⟨r, rfl, ?_⟩
    rcases skipBlank_cases h with ⟨-, hall⟩ | ⟨-, hline, -⟩
    · exact hall
    · cases ht _ hline

theorem Sealed.skips (ht : Sealed sw t) (h : Skips sw t r) : Sealed sw r := by
  induction h with
  | refl t => exact ht
  | inert hc _ ih =>
    refine ih ?_
    rwa [Sealed, trail_cons hc] at ht
  | blank hblank _ ih =>
    rcases skipBlank_cases hblank with ⟨htrail, -⟩ | ⟨rfl, -, -⟩
    · refine ih ?_
      rwa [Sealed, htrail] at ht
    · exact ih (sealed_nil _)

theorem Skips.eq_nil (h : Skips sw t r) (ht : t = []) : r = [] := by
  induction h with
  | refl t => exact ht
  | inert => cases ht
  | blank hblank _ ih =>
    subst ht
    cases hblank
    exact ih rfl

/-- A comment that is open at the end is still to come, unless it was left out. -/
theorem Skips.trail (h : Skips sw t r) (ht : Expression.trail sw.freeSpacing .nothing t = some k) :
    Expression.trail sw.freeSpacing .nothing r = some k ∨ (r = [] ∧ k = .line) := by
  induction h with
  | refl t => exact .inl ht
  | inert hc _ ih => exact ih (by rwa [trail_cons hc] at ht)
  | blank hblank hskips ih =>
    rcases skipBlank_cases hblank with ⟨htrail, -⟩ | ⟨rfl, hline, -⟩
    · exact ih (htrail ▸ ht)
    · rw [hline] at ht
      cases ht
      exact .inr ⟨hskips.eq_nil rfl, rfl⟩

end PathTemplate.Expression
