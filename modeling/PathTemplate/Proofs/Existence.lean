import PathTemplate.Proofs.Readable
import PathTemplate.Proofs.Template.Writable

/-!
# When templates have expressions

* `Template.exists_toExpression_iff` — a template with patterns that are expressions of their own
  has an expression if its parts have, and if no group of literal text with a modifier is empty;
* `Template.fragments_of_hasPattern` — without strictness, its parts have expressions unless
  nothing separates the values of a parameter;
* `Path.expression_of_isPatternless` — so it is for template texts without patterns, and these are
  the only errors.
-/

namespace PathTemplate

open Expression (Literal)

/-- Literal text around nothing is empty in an expression only if it is empty. -/
theorem Expression.Literal.source_append_ne_nil_iff (l : Literal) (s t : Text) :
    l.source s ++ l.source t ≠ [] ↔ s ++ t ≠ [] := by
  have hsource : ∀ x : Text, l.source x = [] ↔ x = [] := by
    intro x
    refine ⟨fun h => by_contra fun hx => l.source_ne_nil hx h, ?_⟩
    rintro rfl
    cases hl : l.loose <;> simp [source, hl, quote, loosen, loosenFrom]
  rw [ne_eq, ne_eq, List.append_eq_nil_iff, List.append_eq_nil_iff, hsource, hsource]

namespace Template

variable {o : ExpressionOptions} {t : Template}

/-- A template has an expression if and only if its parts have, and no group of literal text with a
modifier is empty. -/
theorem exists_toExpression_iff (hD : t.delimiter ≠ [])
    (hpattern : ∀ p ∈ t.params, p.HasPattern (!o.sensitive) t.delimiter) :
    (∃ e, t.toExpression o = .ok e) ↔
    (∃ fs, t.fragments o.flags ⟨t.delimiter, o.loose⟩ = .ok fs) ∧
      ∀ p ∈ t.allParams, p.isCapturing = false → p.modifier ≠ none → p.before ++ p.after ≠ [] := by
  constructor
  · rintro ⟨e, he⟩
    obtain ⟨fs, hfs, hreadable⟩ := readable_of_toExpression false hD hpattern he
    refine ⟨⟨fs, hfs⟩, fun p hp hc hm => ?_⟩
    exact (Literal.source_append_ne_nil_iff _ _ _).1 ((hreadable p (mem_allParams.1 hp)).text hc hm)
  · rintro ⟨⟨fs, hfs⟩, htext⟩
    obtain ⟨e, he, -⟩ := exists_pathExpression false (Expression.patternSense (!o.sensitive)) hD
        hfs fun p hp =>
      { pattern := fun hc g x hx =>
          Expression.denotes_hasPattern hD (hpattern p (mem_paramsOf.2 ⟨hp, hc⟩)) hx
        between := between_ne_nil hfs hp
        text := fun hc hm => (Literal.source_append_ne_nil_iff _ _ _).2
          (htext p (mem_allParams.2 hp) hc hm) }
    exact ⟨_, he⟩

/-- Without strictness, the parts of such a template have expressions, unless nothing separates the
values of a parameter. -/
theorem fragments_of_hasPattern {flags : Flags} {loose : Bool} (hstrict : flags.strict = false)
  (hD : t.delimiter ≠ [])
    (hpattern : ∀ p ∈ t.params, p.HasPattern (!flags.sensitive) t.delimiter) :
    t.fragments flags ⟨t.delimiter, loose⟩ = match t.params.find? Param.lacksSeparator with
      | some p => .error (.missingSeparator p.name)
      | none => .ok (t.parts.map (Part.fragment ⟨t.delimiter, loose⟩)) := by
  refine fragmentsFrom_eq_of_values hstrict rfl fun p hp => ?_
  have hvalue :
      Expression.Denotes false false (!flags.sensitive) 60 0 0 (p.valueSource t.delimiter) _ :=
    Expression.denotes_valueSource (l := ⟨t.delimiter, loose⟩) hD fun x hx =>
      Expression.denotes_hasPattern hD (hpattern p hp) hx
  obtain ⟨e, he, -⟩ := Expression.exists_anchored flags (hvalue.weaken (show 60 ≤ 63 by omega))
    (by simp)
  exact ⟨e, he⟩

theorem find?_lacksSeparator_eq_none_iff {ps : List Param} :
    ps.find? Param.lacksSeparator = none ↔ ∀ p ∈ ps, p.isRepeating = true → p.between ≠ [] := by
  simp [List.find?_eq_none, Param.lacksSeparator]

end Template

namespace Path

/-- A template text without patterns has an expression, except for two causes, if the check is not
strict: nothing separates the values of a parameter, or there is a modifier after an empty group.
The first parameter without a separator is what the error names; only if there is none, the
expression as a whole is refused. -/
theorem expression_of_isPatternless {o : ExpressionOptions} {s : Text} {t : Template}
  (hstrict : o.strict = false)
    (hs : Lexeme.IsPatternless s) (ht : parse o.parse s = .ok t) :
    ((∃ e, (pattern s).expression o = .ok e) ↔
    (∀ p ∈ t.params, p.isRepeating = true → p.between ≠ []) ∧
      ∀ p ∈ t.allParams, p.isCapturing = false → p.modifier ≠ none → p.before ++ p.after ≠ []) ∧
    ∀ err, (pattern s).expression o = .error err → match t.params.find? Param.lacksSeparator with
      | some p => err = .expression (.missingSeparator p.name)
      | none => ∃ source cause, err = .expression (.unreadable source cause) := by
  have hresolve : (pattern s).resolve o.parse = .ok (.inl t) := by simp [resolve, ht, Except.map]
  have hD := delimiter_ne_nil hresolve
  have hpattern : ∀ p ∈ t.params, p.HasPattern (!o.sensitive) t.delimiter := fun p hp =>
    Param.hasPattern_of_wildcard (Template.pattern_of_isPatternless hs (parse_eq_ok_iff.1 ht).2 p
    (List.mem_of_mem_filter hp))
  have hexpression : (pattern s).expression o = lift .expression (t.toExpression o) := by
    simp [expression, hresolve]
  have hfragments := @Template.fragments_of_hasPattern t o.flags o.loose hstrict hD hpattern
  constructor
  · simp only [hexpression, lift_eq_ok_iff]
    rw [Template.exists_toExpression_iff hD hpattern, hfragments,
      ← Template.find?_lacksSeparator_eq_none_iff]
    refine and_congr_left fun _ => ?_
    cases t.params.find? Param.lacksSeparator <;> simp
  · intro err herr
    rw [hexpression, Template.toExpression, Template.source, hfragments] at herr
    cases hfind : t.params.find? Param.lacksSeparator with
    | some p =>
      simp only [hfind, Except.map, lift, Except.error.injEq] at herr
      exact herr.symm
    | none =>
      simp only [hfind, Except.map] at herr
      split at herr
      · rename_i cause _
        simp only [lift, Except.error.injEq] at herr
        exact ⟨_, cause, herr.symm⟩
      · cases herr

theorem expression_of_isPatternless_rest :
    (∃ e, (pattern "/:lang\x7b-:region\x7d?\x7b/:rest\x7d*".toList).expression {} = .ok e) ∧
    (pattern "/:lang\x7b:region\x7d?\x7b:rest\x7d*\x7b\x7d+".toList).expression {} =
      .error (.expression (.missingSeparator "rest".toList)) := by
  have hparse : Path.parse {} "/:lang\x7b-:region\x7d?\x7b/:rest\x7d*".toList =
      .ok ⟨[.text ['/'], .param { name := "lang".toList },
            .param { name := "region".toList, before := ['-'], modifier := some .optional },
            .param { name := "rest".toList, before := ['/'], modifier := some .zeroOrMore,
                     separator := some ['/'] }], ['/']⟩ := by
    cbv
  have hparse' : Path.parse {} "/:lang\x7b:region\x7d?\x7b:rest\x7d*\x7b\x7d+".toList =
      .ok ⟨[.text ['/'], .param { name := "lang".toList },
            .param { name := "region".toList, modifier := some .optional },
            .param { name := "rest".toList, modifier := some .zeroOrMore, separator := some [] },
            .param { name := [], modifier := some .oneOrMore, separator := some [] }], ['/']⟩ := by
    cbv
  constructor
  · exact (expression_of_isPatternless rfl (by decide +kernel) hparse).1.2 ⟨by decide, by decide⟩
  · -- there is also an empty group with a modifier, but the separator is looked for first
    have hs : Lexeme.IsPatternless "/:lang\x7b:region\x7d?\x7b:rest\x7d*\x7b\x7d+".toList := by
      decide +kernel
    obtain ⟨hiff, herror⟩ := expression_of_isPatternless (o := {}) rfl hs hparse'
    cases h : (pattern "/:lang\x7b:region\x7d?\x7b:rest\x7d*\x7b\x7d+".toList).expression {} with
    | ok e => exact absurd (hiff.1 ⟨e, h⟩).1 (by decide)
    | error err => rw [show err = _ from herror err h]

end Path

end PathTemplate
