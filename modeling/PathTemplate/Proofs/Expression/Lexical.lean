import PathTemplate.Expression.Reader
import PathTemplate.Proofs.Unicode.Script
import Mathlib

/-!
# What readers pass over

Escapes, names and numbers are made of characters that have no meaning for groups and classes.

* `isInert` — a character that starts neither a group, a class, an escape nor a comment, and ends
  none of them;
* `Passes` — there are only such characters between two places;
* `Escape.passes_of_read` — what an escape takes after its first character.
-/

namespace PathTemplate.Expression

/-- The character starts neither a group, a class, an escape nor a comment, and ends none of
them. -/
def isInert (c : Char) : Bool := !(['\\', '[', ']', '(', ')', '#'].contains c)

/-- Only inert characters are between a place and a later one. -/
def Passes (t rest : Text) : Prop := ∃ x, t = x ++ rest ∧ ∀ c ∈ x, isInert c = true

variable {t rest rest' : Text} {c : Char} {sw : Switches}

theorem Passes.refl (t : Text) : Passes t t := ⟨[], rfl, by simp⟩

theorem Passes.trans (h : Passes t rest) (h' : Passes rest rest') : Passes t rest' := by
  obtain ⟨x, rfl, hx⟩ := h
  obtain ⟨y, rfl, hy⟩ := h'
  refine ⟨x ++ y, by rw [List.append_assoc], fun c hc => ?_⟩
  exact (List.mem_append.1 hc).elim (hx c) (hy c)

theorem Passes.cons (hc : isInert c = true) (h : Passes t rest) : Passes (c :: t) rest := by
  obtain ⟨x, rfl, hx⟩ := h
  exact ⟨c :: x, rfl, by simpa [hc] using hx⟩

theorem Passes.append (h : ∀ c ∈ t, isInert c = true) (rest : Text) : Passes (t ++ rest) rest :=
  ⟨t, rfl, h⟩

/-! ### inert characters -/

theorem isInert_iff :
    isInert c = true ↔ c ≠ '\\' ∧ c ≠ '[' ∧ c ≠ ']' ∧ c ≠ '(' ∧ c ≠ ')' ∧ c ≠ '#' := by
  simp [isInert]

/-- A test that fails on the others passes inert characters only. -/
theorem isInert_of_test {p : Char → Bool}
    (hp : ['\\', '[', ']', '(', ')', '#'].all (fun c => !p c) = true) (h : p c = true) :
    isInert c = true := by
  by_contra hc
  have hmem : c ∈ ['\\', '[', ']', '(', ')', '#'] := by
    by_contra hmem
    exact hc (by simpa [isInert] using hmem)
  have := List.all_eq_true.1 hp c hmem
  simp [h] at this

theorem isInert_of_isAsciiDigit (h : Unicode.isAsciiDigit c = true) : isInert c = true :=
  isInert_of_test (by decide) h

theorem isInert_of_isNameChar (h : isNameChar c = true) : isInert c = true :=
  isInert_of_test (by decide +kernel) h

theorem isInert_of_isWritten (h : Unicode.Script.isWritten c = true) : isInert c = true :=
  isInert_of_test (by decide) h

theorem isInert_of_hexDigit (h : (Hex.value? c).isSome = true) : isInert c = true :=
  isInert_of_test (p := fun c => (Hex.value? c).isSome) (by decide) h

theorem passes_dropWhile {p : Char → Bool} (hp : ∀ {c}, p c = true → isInert c = true) (t : Text) :
    Passes t (t.dropWhile p) :=
  ⟨t.takeWhile p, List.takeWhile_append_dropWhile.symm, fun _ hc => hp (List.mem_takeWhile_imp hc)⟩

/-! ### numbers and names -/

theorem passes_of_decimal? {n : Nat} (h : decimal? t = some (n, rest)) : Passes t rest := by
  unfold decimal? at h
  dsimp only at h
  split at h
  · cases h
    exact passes_dropWhile isInert_of_isAsciiDigit t
  · cases h

theorem groupName?_eq_some {close : Char} {name : Text}
    (h : groupName? close t = some (name, rest)) :
    t = name ++ close :: rest ∧ ∀ c ∈ name, isNameChar c = true := by
  unfold groupName? at h
  split at h
  · cases h
  · rename_i d rest' hdrop _
    split at h
    · rename_i hd
      cases h
      refine ⟨?_, fun c hc => List.mem_takeWhile_imp hc⟩
      rw [← hd, ← hdrop, List.takeWhile_append_dropWhile]
    · cases h
  · cases h

theorem passes_of_groupName? {close : Char} {name : Text}
    (h : groupName? close t = some (name, rest)) : Passes t (close :: rest) := by
  obtain ⟨rfl, hname⟩ := groupName?_eq_some h
  exact .append (fun c hc => isInert_of_isNameChar (hname c hc)) (close :: rest)

namespace Reference

variable {r : Reference}

theorem passes_of_named {close : Char} (hclose : isInert close = true)
    (h : named close t = .ok (r, rest)) : Passes t rest := by
  unfold named at h
  split at h
  · split at h
    · rename_i hnumber
      split at h
      · rename_i hsign
        cases h
        exact .cons (by decide)
          ((passes_of_decimal? hnumber).trans (.cons (hsign ▸ hclose) (.refl _)))
      · cases h
    · cases h
  · split at h
    · rename_i hname
      cases h
      exact (passes_of_groupName? hname).trans (.cons hclose (.refl _))
    · cases h

theorem passes_of_asked? (h : asked? t = .ok (some (r, rest))) : Passes t rest := by
  unfold asked? at h
  split at h
  · cases h
  · obtain ⟨_, hnamed, heq⟩ := exists_of_map_eq_ok h
    cases heq
    exact .cons (by decide) (passes_of_named (by decide) hnamed)
  · obtain ⟨_, hnamed, heq⟩ := exists_of_map_eq_ok h
    cases heq
    exact .cons (by decide) (passes_of_named (by decide) hnamed)
  · split at h
    · split at h
      · rename_i hnumber
        cases h
        exact passes_of_decimal? hnumber
      · cases h
    · cases h

end Reference

/-! ### properties -/

/-- A text that is spelled out has no characters but those of the spelling. -/
theorem isInert_of_ofList_eq {name : Text} {s : String} (h : String.ofList name = s)
    (hs : s.toList.all isInert = true) : ∀ c ∈ name, isInert c = true := by
  rw [← h, String.toList_ofList] at hs
  exact List.all_eq_true.1 hs

theorem isInert_of_categories? {name : Text} {gs : List Unicode.Category}
    (h : CharSet.categories? (String.ofList name) = some gs) : ∀ c ∈ name, isInert c = true := by
  unfold CharSet.categories? at h
  split at h
  all_goals first
    | cases h; done
    | (refine isInert_of_ofList_eq ‹_› ?_; decide +kernel)

theorem isInert_of_general? {name : Text} {s : CharSet}
    (h : CharSet.general? (String.ofList name) = some s) : ∀ c ∈ name, isInert c = true := by
  unfold CharSet.general? at h
  split at h
  case h_4 =>
    obtain ⟨gs, hgs, -⟩ := Option.map_eq_some_iff.1 h
    exact isInert_of_categories? hgs
  all_goals
    refine isInert_of_ofList_eq ‹_› ?_
    decide +kernel

theorem isInert_of_script {name : Text} {s : Unicode.Script}
    (h : Unicode.Script.named? name = some s) : ∀ c ∈ name, isInert c = true := by
  have hmem := List.mem_of_find?_eq_some h
  have hname : name ∈ s.names := by simpa using List.find?_some h
  exact fun c hc => isInert_of_isWritten (Unicode.Script.isWritten_names s hmem name hname c hc)

theorem isInert_of_property? {name : Text} {s : CharSet} (h : CharSet.property? name = some s) :
    ∀ c ∈ name, isInert c = true := by
  unfold CharSet.property? at h
  split at h
  case h_10 =>
    rcases (Option.orElse_eq_some _ _ _).1 h with h | ⟨-, h⟩
    · exact isInert_of_general? h
    · obtain ⟨s', hs', -⟩ := Option.map_eq_some_iff.1 h
      exact isInert_of_script hs'
  all_goals
    refine isInert_of_ofList_eq ‹_› ?_
    decide +kernel

theorem isInert_of_propertyValue? {property value : Text} {s : CharSet}
    (h : CharSet.propertyValue? property value = some s) :
    (∀ c ∈ property, isInert c = true) ∧ ∀ c ∈ value, isInert c = true := by
  have hscript : ∀ {f : Unicode.Script → CharSet}, (Unicode.Script.named? value).map f = some s →
      ∀ c ∈ value, isInert c = true := by
    intro f hf
    obtain ⟨s', hs', -⟩ := Option.map_eq_some_iff.1 hf
    exact isInert_of_script hs'
  unfold CharSet.propertyValue? at h
  split at h
  case h_7 => cases h
  case h_1 hproperty | h_2 hproperty =>
    exact ⟨isInert_of_ofList_eq hproperty (by decide +kernel), isInert_of_general? h⟩
  case h_3 hproperty | h_4 hproperty =>
    exact ⟨isInert_of_ofList_eq hproperty (by decide +kernel),
      hscript (by rwa [CharSet.script?] at h)⟩
  all_goals
    rename_i hproperty
    exact ⟨isInert_of_ofList_eq hproperty (by decide +kernel),
      hscript (by rwa [CharSet.scriptUse?] at h)⟩

/-- What is left out of the name of a property is inert. -/
theorem isInert_of_propertyKey {name : Text}
    (h : ∀ c ∈ CharSet.propertyKey name, isInert c = true) : ∀ c ∈ name, isInert c = true := by
  have hkey :
      ∀ {t : Text}, (∀ c ∈ (t.filter fun c => Unicode.isAscii c ∧ c ≠ ' ' ∧ c ≠ '-' ∧ c ≠ '_').map
          Char.toLower, isInert c = true) → ∀ c ∈ t, isInert c = true := by
    intro t ht c hc
    by_cases hkept : Unicode.isAscii c ∧ c ≠ ' ' ∧ c ≠ '-' ∧ c ≠ '_'
    · have hlower := ht c.toLower
        (List.mem_map_of_mem (List.mem_filter.2 ⟨hc, by simpa using hkept⟩))
      exact isInert_of_test (p := fun c => isInert c.toLower) (by decide) hlower
    · exact isInert_of_test
        (p := fun c => !decide (Unicode.isAscii c ∧ c ≠ ' ' ∧ c ≠ '-' ∧ c ≠ '_')) (by decide)
        (by rw [decide_eq_false hkept]; rfl)
  unfold CharSet.propertyKey at h
  dsimp only at h
  split at h
  · rename_i i s rest
    split at h
    · rename_i his
      intro c hc
      rcases List.mem_cons.1 hc with rfl | hc
      · exact isInert_of_test (p := fun c => c.toLower = 'i') (by decide) (by simpa using his.1)
      · rcases List.mem_cons.1 hc with rfl | hc
        · exact isInert_of_test (p := fun c => c.toLower = 's') (by decide) (by simpa using his.2.1)
        · exact hkey h c hc
    · exact hkey h
  · exact hkey h

theorem isInert_of_named? {name : Text} {s : CharSet} (h : CharSet.named? name = some s) :
    ∀ c ∈ name, isInert c = true := by
  unfold CharSet.named? at h
  dsimp only at h
  split at h
  · exact isInert_of_propertyKey (isInert_of_property? h)
  · rename_i sign value hdrop
    obtain ⟨hproperty, hvalue⟩ := isInert_of_propertyValue? h
    have hsign : isInert sign = true := by
      have hhead := List.head?_dropWhile_not (fun c => !(decide (c = ':') || decide (c = '='))) name
      rw [hdrop] at hhead
      simp only [List.head?_cons, Bool.not_eq_false'] at hhead
      exact isInert_of_test (p := fun c => decide (c = ':') || decide (c = '=')) (by decide) hhead
    intro c hc
    rw [← List.takeWhile_append_dropWhile (p := fun c => !(decide (c = ':') || decide (c = '=')))
        (l := name), hdrop] at hc
    rcases List.mem_append.1 hc with hc | hc
    · exact isInert_of_propertyKey hproperty c hc
    · rcases List.mem_cons.1 hc with rfl | hc
      · exact hsign
      · exact isInert_of_propertyKey hvalue c hc

/-! ### escapes -/

namespace Escape

variable {e : Escape} {inClass : Bool}

theorem passes_of_hex {count : Nat} (h : hex sw count t = .ok (e, rest)) : Passes t rest := by
  unfold hex at h
  split at h
  · rename_i n hn
    obtain ⟨_, -, h⟩ := exists_of_map_eq_ok h
    cases h
    split at hn
    · unfold Hex.number? at hn
      split at hn
      · rename_i hdigits
        refine ⟨t.take count, (List.take_append_drop count t).symm, fun c hc => ?_⟩
        exact isInert_of_hexDigit (List.all_eq_true.1 hdigits.2 c hc)
      · cases hn
    · cases hn
  · split at h
    · rename_i digits _
      split at h
      · rename_i hdrop
        dsimp only at h
        split at h
        · cases h
        · obtain ⟨_, -, h⟩ := exists_of_map_eq_ok h
          cases h
          have hpasses := passes_dropWhile (p := fun c => (Hex.value? c).isSome) isInert_of_hexDigit
            digits
          rw [hdrop] at hpasses
          exact .cons (by decide) (hpasses.trans (.cons (by decide) (.refl _)))
      · cases h
    · cases h

theorem passes_of_property {negated : Bool} (h : property sw negated t = .ok (e, rest)) :
    Passes t rest := by
  unfold property at h
  dsimp only at h
  split at h
  · cases h
  · rename_i name
    split at h
    · rename_i d after hdrop
      split at h
      · rename_i hname
        cases h
        have hd : d = '\x7d' := by
          have hhead := List.head?_dropWhile_not (fun c => decide (c ≠ '\x7d')) name
          rw [hdrop] at hhead
          simpa using hhead
        have hpasses : Passes name (d :: rest) := by
          rw [← hdrop]
          exact ⟨_, List.takeWhile_append_dropWhile.symm, isInert_of_named? hname⟩
        exact .cons (by decide) (hpasses.trans (.cons (by rw [hd]; decide) (.refl _)))
      · cases h
    · cases h
  · rename_i d after _
    split at h
    · rename_i hname
      cases h
      exact .cons (isInert_of_named? hname d (List.mem_singleton_self d)) (.refl _)
    · cases h

theorem passes_of_outside (h : outside c t = .ok (some (e, rest))) : Passes t rest := by
  unfold outside at h
  split at h
  case h_1 | h_2 =>
    obtain ⟨_, hnamed, heq⟩ := exists_of_map_eq_ok h
    cases heq
    exact .cons (by decide) (Reference.passes_of_named (by decide) hnamed)
  all_goals first
    | cases h; exact .refl _
    | cases h

/-- After its first character, an escape takes inert characters only. -/
theorem passes_of_read (h : read sw inClass c t = .ok (e, rest)) : Passes t rest := by
  unfold read at h
  split at h
  · rename_i hc
    split at h
    · rename_i hn
      cases h
      -- the digits after the first one
      unfold decimal? at hn
      dsimp only at hn
      split at hn
      · cases hn
        rw [List.dropWhile_cons_of_pos hc]
        exact passes_dropWhile isInert_of_isAsciiDigit t
      · cases hn
    · cases h
  · split at h
    · cases h
    · rename_i ho
      cases h
      split at ho
      · cases ho
      · exact passes_of_outside ho
    · split at h
      all_goals first
        | exact passes_of_hex h
        | exact passes_of_property h
        | (cases h; exact .refl _)
        | (split at h <;> cases h; exact .refl _)

end Escape

end PathTemplate.Expression
