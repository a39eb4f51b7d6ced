import PathTemplate.Proofs.Expression.Lexical

/-!
# What readers skip

Between two parts of an expression there are comments, blanks under free spacing, and signs for
repetition.

* `Skips` — there are only such things, and inert characters, between two places;
* `skips_of_quantified` — how often a piece is repeated is skipped;
* `Draft.passes_of_switchesFrom` — so are flags.
-/

namespace PathTemplate.Expression

/-- Only inert characters, and what stands for nothing, are between a place and a later one. -/
inductive Skips (sw : Switches) : Text → Text → Prop where
  | refl (t : Text) : Skips sw t t
  | inert {c : Char} {t rest : Text} (hc : isInert c = true) (h : Skips sw t rest) :
      Skips sw (c :: t) rest
  | blank {t t' rest : Text} (ht : skipBlank sw t = .ok t') (h : Skips sw t' rest) : Skips sw t rest

variable {sw : Switches} {t rest rest' : Text} {c : Char}

theorem Skips.trans (h : Skips sw t rest) (h' : Skips sw rest rest') : Skips sw t rest' := by
  induction h with
  | refl t => exact h'
  | inert hc _ ih => exact .inert hc (ih h')
  | blank ht _ ih => exact .blank ht (ih h')

theorem Passes.skips (h : Passes t rest) : Skips sw t rest := by
  obtain ⟨x, rfl, hx⟩ := h
  induction x with
  | nil => exact .refl rest
  | cons c x ih =>
    obtain ⟨hc, hx⟩ := List.forall_mem_cons.1 hx
    exact .inert hc (ih hx)

theorem ne_backslash (hlast : c = '\\' → t ≠ []) (hescape : ∀ d r, c = '\\' → t ≠ d :: r) :
    c ≠ '\\' := by
  intro hc
  cases t with
  | nil => exact hlast hc rfl
  | cons d r => exact hescape d r hc rfl

theorem skipBlank_mark (sw : Switches) (t : Text) : skipBlank sw ('?' :: t) = .ok ('?' :: t) := by
  simp [skipBlank, skipFrom]

/-! ### repetition -/

theorem passes_of_lower? {lo : Nat} (h : lower? t = some (lo, rest)) : Passes t rest := by
  unfold lower? at h
  split at h
  · cases h
    exact .refl _
  · exact passes_of_decimal? h

theorem skips_of_upper? {lo : Nat} {hi : Option Nat} (h : upper? sw lo t = some (hi, rest)) :
    Skips sw t rest := by
  unfold upper? at h
  split at h
  · cases h
    exact .refl _
  · split at h
    · cases h
    · rename_i hblank
      refine .inert (by decide) (.blank hblank ?_)
      split at h
      · rename_i hnumber
        cases h
        exact (passes_of_decimal? hnumber).skips
      · cases h
        exact .refl _
  · cases h

theorem skips_of_bounds? {lo : Nat} {hi : Option Nat} (h : bounds? sw t = some (lo, hi, rest)) :
    Skips sw t rest := by
  unfold bounds? at h
  split at h
  · cases h
  · rename_i hblank
    refine .blank hblank ?_
    split at h
    · cases h
    · rename_i hlower
      refine (passes_of_lower? hlower).skips.trans ?_
      split at h
      · cases h
      · rename_i hblank
        refine .blank hblank ?_
        split at h
        · cases h
        · rename_i hupper
          refine (skips_of_upper? hupper).trans ?_
          split at h
          · rename_i hblank
            cases h
            exact .blank hblank (.inert (by decide) (.refl _))
          · cases h

theorem skips_of_count? {lo : Nat} {hi : Option Nat} (h : count? sw t = some (lo, hi, rest)) :
    Skips sw t rest := by
  unfold count? at h
  split at h
  case h_4 => exact .inert (by decide) (skips_of_bounds? h)
  case h_5 => cases h
  all_goals
    cases h
    exact .inert (by decide) (.refl _)

theorem skips_takeChar (hc : isInert c = true) (t : Text) : Skips sw t (takeChar c t).2 := by
  unfold takeChar
  split
  · exact .refl []
  · split
    · rename_i hd
      exact .inert (hd ▸ hc) (.refl _)
    · exact .refl _

theorem skips_of_quantified {p q : Piece} (h : quantified sw p t = .ok (q, rest)) :
    Skips sw t rest := by
  unfold quantified at h
  split at h
  · cases h
  · rename_i hblank
    refine .blank hblank ?_
    split at h
    · cases h
      exact .refl _
    · rename_i hcount
      refine (skips_of_count? hcount).trans ?_
      split at h
      · cases h
      · split at h
        · cases h
        · split at h
          · cases h
          · rename_i hblank
            refine .blank hblank ?_
            cases h
            exact (skips_takeChar (by decide) _).trans (skips_takeChar (by decide) _)

/-! ### flags -/

/-- Flags are inert, up to what ends them. -/
theorem Draft.passes_of_switchesFrom {sw' : Switches} {off group : Bool}
    (h : Draft.switchesFrom sw off c t = .ok (sw', group, rest)) :
    Passes t ((if group then ':' else ')') :: rest) := by
  induction t generalizing sw off c with
  | nil => cases h
  | cons a t ih =>
    unfold Draft.switchesFrom at h
    split at h
    · rename_i hblank
      refine .cons ?_ (ih h)
      rcases hblank.2 with rfl | rfl | rfl | rfl <;> decide
    · split at h
      all_goals first
        | exact .cons (by decide) (ih h)
        | (split at h <;> first
            | exact .cons (by decide) (ih h)
            | (cases h; done)
            | (cases h; exact .refl _))
        | cases h

end PathTemplate.Expression
