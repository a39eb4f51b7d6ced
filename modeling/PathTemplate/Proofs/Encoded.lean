import PathTemplate.Proofs.Accept
import PathTemplate.Proofs.Segment.Build
import PathTemplate.Proofs.Template.Writable
import PathTemplate.Proofs.Text.Percent

/-!
# Values that are encoded are accepted

What the codec of URI components writes has no delimiter `/` in it and is empty only for the empty
text. So a builder with default options accepts all values of the right shape that are not empty, if
no pattern is written out.

* `Template.accepts_of_isOpen`, `Builder.build_of_isOpen` — a builder writes values that have no
  delimiter in them when they are encoded, if parameters have no patterns of their own;
* `Percent.isOpenValue_encode`, `ParamValue.isOpen_encoded` — so it is for URI components;
* `Path.build_of_isPatternless` — the builder of a template text without patterns writes such
  values.
-/

namespace PathTemplate

/-! ### open values -/

/-- A value after its texts have been encoded. -/
def ParamValue.recoded (encode : Option Codec) : ParamValue → ParamValue
  | single x => single (recode encode x)
  | multiple xs => multiple (xs.map (recode encode))

section

variable {o : BuildOptions} {t : Template} {D : Char} {p : Param} {v : ParamValue}

theorem Param.checkedTexts_eq (encode : Option Codec) (p : Param) (v : ParamValue) :
    p.checkedTexts encode v = p.checkedTexts none (v.recoded encode) := by
  cases v <;> simp [checkedTexts, ParamValue.recoded, recode]

theorem Param.suits_recoded_iff {encode : Option Codec} :
    p.Suits (some (v.recoded encode)) ↔ p.Suits (some v) := by
  cases v <;> simp [Suits, ParamValue.recoded]

/-- The texts of a value pass the check if the value is open when it is encoded, unless the budget
is spent. -/
theorem Template.accepts_of_isOpen (hdelimiter : t.delimiter = [D]) (hD : IsAlone D)
    {fs : List Text} (hfs : t.fragments o.flags ⟨t.delimiter, o.loose⟩ = .ok fs) (hp : p ∈ t.params)
    (hpattern : p.pattern = none ∨ p.pattern = some (Expression.stretch t.delimiter))
    (hvalidate : o.validate = true) {check : Option Expression}
    (hsegment : segment o ⟨t.delimiter, o.loose⟩ (.param p) = .ok (.param p check))
    (hsuits : p.Suits (some v)) (hopen : (v.recoded o.encode).IsOpen D) {y : Text}
    (hy : y ∈ p.checkedTexts o.encode v) :
    Segment.accepts check y = .ok true ∨
    Segment.accepts check y = .error (.expression .gaveUp) := by
  have hne : t.delimiter ≠ [] := by simp [hdelimiter]
  obtain ⟨hpart, hc⟩ := mem_paramsOf.1 hp
  have hreadable : Readable false (!o.sensitive) 58 ⟨t.delimiter, o.loose⟩
      (Expression.patternSense (!o.sensitive)) p :=
    { pattern := fun _ g x hx =>
        Expression.denotes_hasPattern hne (Param.hasPattern_of_wildcard hpattern) hx
      between := between_ne_nil hfs hpart
      text := fun hc' => by simp [hc] at hc' }
  obtain ⟨e, he, hregular, hmatches⟩ := exists_segment hne hreadable hc hvalidate
  rw [he] at hsegment
  cases hsegment
  rw [Param.checkedTexts_eq] at hy
  obtain ⟨w, hw⟩ := Param.exists_checkSense (l := ⟨t.delimiter, o.loose⟩) hdelimiter hD hc
    (Param.valueSense_of_wildcard (l := ⟨t.delimiter, o.loose⟩) hne hpattern)
    (Param.suits_recoded_iff.2 hsuits) hopen hy
  exact Segment.accepts_of_sense hregular hmatches hw

/-- Values of the right shape that are open when they are encoded are written by a builder that
checks them, unless its budget is spent. -/
theorem Builder.build_of_isOpen {b : Builder} {params : Params} (hdelimiter : t.delimiter = [D])
    (hD : IsAlone D)
    (hpatterns :
      ∀ p ∈ t.params, p.pattern = none ∨ p.pattern = some (Expression.stretch t.delimiter))
    (hvalidate : o.validate = true) (hb : t.toBuilder o = .ok b)
    (hsuits : ∀ p ∈ t.params, p.Suits (params.get? p.name))
    (hopen : ∀ p ∈ t.params, ∀ v, params.get? p.name = some v → (v.recoded o.encode).IsOpen D) :
    b.build params = .error (.expression .gaveUp) ∨ ∃ u, b.build params = .ok u := by
  cases hbuild : b.build params with
  | ok u => exact .inr ⟨u, rfl⟩
  | error e =>
    -- only a check can have failed, and none refuses such a text
    obtain ⟨p, hp, check, v, y, hsegment, hv, hy, hacc⟩ := exists_checked_of_error hb hsuits hbuild
    obtain ⟨fs, hfs⟩ := Template.exists_fragments_of_toBuilder hb
    left
    rcases Template.accepts_of_isOpen hdelimiter hD hfs hp (hpatterns p hp) hvalidate hsegment
      (hv ▸ hsuits p hp) (hopen p hp v hv) hy with hok | hgave
    · simp [hok] at hacc
    · rw [hgave] at hacc
      rcases hacc with hacc | hacc <;> cases hacc
      rfl

end

/-! ### URI components -/

/-- An encoded text may stand for a parameter without a pattern, if it is not empty. -/
theorem Percent.isOpenValue_encode {x : Text} (hx : x ≠ []) : IsOpenValue '/' (encode x) := by
  have hmark : ∀ c, isKept c = false → c ≠ '%' → c ∉ encode x := by
    intro c hkept hne hmem
    rcases mem_encode hmem with h | h
    · simp [hkept] at h
    · exact hne h
  exact ⟨fun h => hx (encode_eq_nil_iff.1 h), hmark '/' rfl (by decide), hmark '\n' rfl (by decide)⟩

theorem ParamValue.isOpen_encoded {v : ParamValue} (hv : ∀ x ∈ v.texts, x ≠ []) :
    (v.recoded (some .uriComponent)).IsOpen '/' := by
  cases v with
  | single x => exact Percent.isOpenValue_encode (hv x (by simp [texts]))
  | multiple xs =>
    intro y hy
    obtain ⟨x, hx, rfl⟩ := List.mem_map.1 hy
    exact Percent.isOpenValue_encode (hv x hx)

namespace Path

/-- With default options, the builder of a template text without patterns writes all values of the
right shape that are not empty, unless its budget is spent: no encoded value is refused. -/
theorem build_of_isPatternless {s : Text} {b : Builder} {params : Params}
    (hs : Lexeme.IsPatternless s) (hb : (pattern s).builder {} = .ok b)
    (hvalues : ∀ p ∈ b.keys, p.Suits (params.get? p.name) ∧
      ∀ v ∈ params.get? p.name, ∀ x ∈ v.texts, x ≠ []) :
    b.build params = .error (.expression .gaveUp) ∨ ∃ u, b.build params = .ok u := by
  obtain ⟨t, ht, hbuilder⟩ : ∃ t, parse {} s = .ok t ∧ t.toBuilder {} = .ok b := by
    simp only [builder, resolve] at hb
    cases ht : parse {} s with
    | error e =>
      rw [ht] at hb
      cases hb
    | ok t =>
      rw [ht] at hb
      exact ⟨t, rfl, lift_eq_ok_iff.1 hb⟩
  obtain ⟨-, hparse⟩ := parse_eq_ok_iff.1 ht
  have hdelimiter : t.delimiter = ['/'] := by
    obtain ⟨_, _, _, hd⟩ := Template.exists_areRead hparse
    exact hd
  rw [Template.keys_of_toBuilder hbuilder] at hvalues
  exact Builder.build_of_isOpen hdelimiter (isAlone_of_isCaseless rfl)
    (fun p hp => Template.pattern_of_isPatternless hs hparse p (List.mem_of_mem_filter hp)) rfl
    hbuilder (fun p hp => (hvalues p hp).1) fun p hp v hv => ParamValue.isOpen_encoded
    ((hvalues p hp).2 v hv)

theorem build_of_isPatternless_rest :
    ∃ b u, (pattern "/:lang\x7b-:region\x7d?\x7b/:rest\x7d*".toList).builder {} = .ok b ∧
      b.build (.ofList [("lang".toList, .single "é/\n".toList),
              ("rest".toList, .multiple ["a/b".toList, "?".toList])]) = .ok u := by
  have hparse : Path.parse {} "/:lang\x7b-:region\x7d?\x7b/:rest\x7d*".toList =
      .ok ⟨[.text ['/'], .param { name := "lang".toList },
            .param { name := "region".toList, before := ['-'], modifier := some .optional },
            .param { name := "rest".toList, before := ['/'], modifier := some .zeroOrMore,
                     separator := some ['/'] }], ['/']⟩ := by
    cbv
  obtain ⟨b, hb⟩ := exists_ok_of_isSome
    (x := (pattern "/:lang\x7b-:region\x7d?\x7b/:rest\x7d*".toList).builder {}) (by decide +kernel)
  have hkeys : b.keys =
      [{ name := "lang".toList },
        { name := "region".toList, before := ['-'], modifier := some .optional },
        { name := "rest".toList, before := ['/'], modifier := some .zeroOrMore,
          separator := some ['/'] }] := by
    have hbuilder := hb
    simp only [builder, resolve, hparse, Except.map, lift_eq_ok_iff] at hbuilder
    exact Template.keys_of_toBuilder hbuilder
  have hvalues : ∀ p ∈ b.keys, p.Suits ((Params.ofList [("lang".toList, .single "é/\n".toList),
            ("rest".toList, .multiple ["a/b".toList, "?".toList])]).get? p.name) ∧
      ∀ v ∈ (Params.ofList [("lang".toList, .single "é/\n".toList),
            ("rest".toList, .multiple ["a/b".toList, "?".toList])]).get? p.name,
        ∀ x ∈ v.texts, x ≠ [] := by
    rw [hkeys]
    decide +kernel
  -- the budget is not spent on these values
  obtain ⟨u, hu⟩ := (build_of_isPatternless (by decide +kernel) hb hvalues).resolve_left
    (ne_error_of_bind (Builder.build · _) hb (by decide +kernel))
  exact ⟨b, u, hb, hu⟩

end Path

end PathTemplate
