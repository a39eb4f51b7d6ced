import PathTemplate.Proofs.Runs.Values

/-!
# The length of runs does not matter

A loose matcher for whole paths finds the same in two texts that differ only in how long runs of
delimiters are. `D` is the delimiter, one character with no other form.

* `Expression.attempt_of_find` — whether an expression of whole texts is found, the attempt at the
  start decides;
* `Expression.find_of_squeeze_eq` — it is found in both texts or in none of them, at places beside
  each other;
* `Path.run_of_squeeze_eq` — so is a path, and its parameters have the same values.
-/

namespace PathTemplate

section

variable {D : Char} {u u' : Text}

namespace Expression

/-- A search for an expression of whole texts that is hard comes to the end that the attempt at the
start comes to. -/
theorem attempt_of_find {e : Expression} (hr : e.root.isRegular = true) (ha : e.root.IsAnchored)
    (hs : e.root.IsSteady) (hrefs : e.referenced = []) (hhard : e.root.isHard [] = true) :
    (∀ m, e.find u = .found m →
      ∃ b, e.root.attempt .found ⟨.start u, []⟩ budget = .found m.finish b) ∧
    (e.find u = .none → ∃ b, e.root.attempt .found ⟨.start u, []⟩ budget = .failed b) := by
  have hfind : e.find u = firstAttempt (e.root.arrange [] true .whole) [] u budget := by
    unfold find search isHard
    rw [hrefs, if_pos hhard]
    rfl
  have hlater : ∀ {c : Char} {after : Text} {b : Nat} {m : Match},
      firstAttempt (e.root.arrange [] true .whole) [c] after b ≠ .found m := by
    intro c after b m h
    obtain ⟨⟨v, hv⟩, hreaches, -, -⟩ := (firstAttempt_spec hr (Node.arrange_arranges hr true .whole)
      _ _ _).1 m h
    have hbefore := hv.before
    rw [(ha _ _ hreaches).1] at hbefore
    simp at hbefore
  rw [hfind, ← hs.arranged .whole]
  unfold firstAttempt Cursor.start
  split
  · rename_i s b h
    exact ⟨fun m hm => ⟨b, by cases hm; exact h⟩, fun hm => by cases hm⟩
  · exact ⟨fun m hm => (by cases hm), fun hm => by cases hm⟩
  · rename_i b h
    refine ⟨fun m hm => ?_, fun _ => ⟨b, h⟩⟩
    split at hm
    · cases hm
    · exact absurd hm hlater

/-- An expression of whole texts that ignores the length of runs is found in both texts or in none
of them, unless a budget is spent. -/
theorem find_of_squeeze_eq {e : Expression} (he : OverlooksRuns D [e.root]) (ha : e.root.IsAnchored)
    (hrefs : e.referenced = []) (hu : squeeze D u = squeeze D u') (hne : u ≠ u')
    (hgave : e.find u ≠ .gaveUp) (hgave' : e.find u' ≠ .gaveUp) :
    (e.find u = .none ∧ e.find u' = .none) ∨
    ∃ m m', e.find u = .found m ∧ e.find u' = .found m' ∧ Mirror D u u' m.finish m'.finish := by
  have hr := he.regular e.root (by simp)
  cases hhard : e.root.isHard [] with
  | true =>
    obtain ⟨hfound, hnone⟩ := attempt_of_find (u := u) hr ha (he.steady _ (by simp)) hrefs hhard
    obtain ⟨hfound', hnone'⟩ := attempt_of_find (u := u') hr ha (he.steady _ (by simp)) hrefs hhard
    have hmirrors : (e.root.attempt .found ⟨.start u, []⟩ budget).Mirrors D u u'
        (e.root.attempt .found ⟨.start u', []⟩ budget) :=
      he.ignores u u' .found .found (fun _ _ _ _ hs => by exact hs) _ _ _ _ ⟨.start hu, .nil⟩
    cases hfind : e.find u with
    | gaveUp => exact absurd hfind hgave
    | none =>
      obtain ⟨b, hb⟩ := hnone hfind
      cases hfind' : e.find u' with
      | gaveUp => exact absurd hfind' hgave'
      | none => exact .inl ⟨rfl, rfl⟩
      | found m' =>
        obtain ⟨b', hb'⟩ := hfound' m' hfind'
        rw [hb, hb'] at hmirrors
        exact hmirrors.elim
    | found m =>
      obtain ⟨b, hb⟩ := hfound m hfind
      cases hfind' : e.find u' with
      | gaveUp => exact absurd hfind' hgave'
      | none =>
        obtain ⟨b', hb'⟩ := hnone' hfind'
        rw [hb, hb'] at hmirrors
        exact hmirrors.elim
      | found m' =>
        obtain ⟨b', hb'⟩ := hfound' m' hfind'
        rw [hb, hb'] at hmirrors
        exact .inr ⟨m, m', rfl, rfl, hmirrors⟩
  | false =>
    -- only a text without delimiters is matched, and there is no other text like it
    have hdry : ∀ {u m}, e.find u = .found m → D ∉ u := by
      intro u m h
      obtain ⟨hstart, hfinish, hleft⟩ := find_found hr ha h
      obtain ⟨w, hw⟩ := hleft.reaches
      obtain ⟨v, hv, hvD⟩ := he.dry_one hhard _ _ _ hw
      rw [hstart, hfinish] at hv
      have hafter := hv.after
      rw [show (Cursor.start u).after = u from rfl, show (Cursor.finish u).after = [] from rfl,
        List.append_nil] at hafter
      rwa [hafter]
    cases hfind : e.find u with
    | gaveUp => exact absurd hfind hgave
    | found m => exact absurd (eq_of_squeeze_eq (hdry hfind) hu) hne
    | none =>
      cases hfind' : e.find u' with
      | gaveUp => exact absurd hfind' hgave'
      | none => exact .inl ⟨rfl, rfl⟩
      | found m' => exact absurd (eq_of_squeeze_eq (hdry hfind') hu.symm).symm hne

end Expression

/-! ### paths -/

theorem Matcher.find_of_run_ne {m : Matcher} (h : m.run u ≠ .error .gaveUp) :
    m.expression.expression.find u ≠ .gaveUp ∧
    (m.expression.expression.find u = .none ∨ ∃ f, m.run u = .ok (some f)) := by
  cases hfind : m.expression.expression.find u with
  | gaveUp => exact absurd (run_gaveUp hfind) h
  | none => exact ⟨by simp, .inl rfl⟩
  | found mt =>
    rcases run_of_find hfind with hgave | ⟨f, hf, -⟩
    · exact absurd hgave h
    · exact ⟨by simp, .inr ⟨f, hf⟩⟩

variable {o : ExpressionOptions} {t : Template} {e : PathExpression} {decode : Option Codec}
  {separators : List (Option Expression)} {mt mt' : Match} {es es' : List (Text × ParamValue)}

/-- Between the start of a text and its end there is a template with nothing before or after it. -/
theorem Template.pathSense_eq_wholly (hstart : o.start = true) (hfinish : o.finish = true)
    (σ : Text → Sense) (t : Template) :
    t.pathSense o σ =
      Expression.wholly ((sense ⟨t.delimiter, o.loose⟩ (!o.sensitive) σ 0 t.parts).seq
          (tailSense ⟨t.delimiter, o.loose⟩ (!o.sensitive) o.trailing)) := by
  rw [pathSense, Expression.wholly, Sense.seq_assoc, endSense, hstart, hfinish]
  rfl

/-- The captures of a match are values of the parameters. -/
theorem Template.valuesSense_of_find (hdelimiter : t.delimiter = [D])
    (hpatterns :
      ∀ p ∈ t.params, p.pattern = none ∨ p.pattern = some (Expression.stretch t.delimiter))
    (he : t.toExpression o = .ok e) (hfind : e.expression.find u = .found mt) {i : Nat} {p : Param}
    {s : Span} (hp : t.params[i]? = some p) (hs : mt.finish.capture? (0 + 1 + i) = some s) :
    p.valuesSense ⟨t.delimiter, o.loose⟩ (!o.sensitive) (Expression.patternSense (!o.sensitive))
      s.start s.stop [] := by
  have hne : t.delimiter ≠ [] := by simp [hdelimiter]
  have hwild : ∀ p ∈ t.params, p.HasPattern (!o.sensitive) t.delimiter :=
    fun p hp => Param.hasPattern_of_wildcard (hpatterns p hp)
  obtain ⟨-, -, -, hregular, hlinear, hmatches⟩ := t.toExpression_spec hne hwild he
  obtain ⟨w, hw, hc⟩ := ((Expression.search_spec hregular _).1 mt hfind).captures hlinear
  rw [hmatches] at hw
  obtain ⟨⟨-, b, c, hlays, -, -⟩, -⟩ := Template.splits_of_pathSense hne hwild hw
  exact hlays.valuesSense hp (by rw [← hc]; exact hs)

theorem Mirror.collects_eq (hdelimiter : t.delimiter = [D]) (hD : IsAlone D)
    (hloose : o.loose = true)
    (hpatterns :
      ∀ p ∈ t.params, p.pattern = none ∨ p.pattern = some (Expression.stretch t.delimiter))
    (he : t.toExpression o = .ok e)
    (hs : List.Forall₂ (fun p s => Matcher.separator o.flags ⟨t.delimiter, o.loose⟩ p = .ok s)
      t.params separators) (hfind : e.expression.find u = .found mt)
    (hfind' : e.expression.find u' = .found mt') (h : Mirror D u u' mt.finish mt'.finish)
    (hes : Matcher.Collects decode mt.finish.capture? 0 (t.params.zip separators) es)
    (hes' : Matcher.Collects decode mt'.finish.capture? 0 (t.params.zip separators) es') :
    es = es' := by
  refine hes.unique hes' h.capture?_eq_none_iff
    fun i p separator s s' v v' hi hcapture hcapture' => ?_
  obtain ⟨hp, hseparator⟩ : t.params[i]? = some p ∧ separators[i]? = some separator := by
    simpa [List.getElem?_zip_eq_some] using hi
  have hs' : Matcher.separator o.flags ⟨t.delimiter, o.loose⟩ p = .ok separator := by
    obtain ⟨hi₁, rfl⟩ := List.getElem?_eq_some_iff.1 hp
    obtain ⟨hi₂, rfl⟩ := List.getElem?_eq_some_iff.1 hseparator
    exact (List.forall₂_iff_get.1 hs).2 i hi₁ hi₂
  have hvalue : p.valueSense ⟨t.delimiter, o.loose⟩ (!o.sensitive)
        (Expression.patternSense (!o.sensitive)) = .stretch (!o.sensitive) t.delimiter :=
    Param.valueSense_of_wildcard (l := ⟨t.delimiter, o.loose⟩) (by simp [hdelimiter])
      (hpatterns p (List.mem_of_getElem? hp))
  exact Param.value_eq_of_level (l := ⟨t.delimiter, o.loose⟩) hdelimiter hloose hD hvalue
    (by simp [ExpressionOptions.flags]) hs' (h.level_of_capture? hcapture hcapture')
    (Template.valuesSense_of_find hdelimiter hpatterns he hfind hp hcapture)
    (Template.valuesSense_of_find hdelimiter hpatterns he hfind' hp hcapture')

namespace Path

/-- A loose matcher for whole paths, without patterns that are written out, matches both of two
texts that differ only in the length of runs of delimiters, with the same values, or none of them;
unless a budget is spent. -/
theorem run_of_squeeze_eq {mo : MatchOptions} {path : Path} {t : Template} {m : Matcher}
    (hpath : path.resolve mo.expression.parse = .ok (.inl t)) (hdelimiter : t.delimiter = [D])
    (hD : IsAlone D)
    (hpatterns :
      ∀ p ∈ t.params, p.pattern = none ∨ p.pattern = some (Expression.stretch t.delimiter))
    (hloose : mo.expression.loose = true) (hstart : mo.expression.start = true)
    (hfinish : mo.expression.finish = true) (hm : path.matcher mo = .ok m)
    (hu : squeeze D u = squeeze D u') (hrun : m.run u ≠ .error .gaveUp)
    (hrun' : m.run u' ≠ .error .gaveUp) :
    (m.run u = .ok none ∧ m.run u' = .ok none) ∨
    ∃ f f', m.run u = .ok (some f) ∧ m.run u' = .ok (some f') ∧ f.params = f'.params := by
  have hne := delimiter_ne_nil hpath
  obtain ⟨e, separators, he, rfl, hs⟩ := exists_of_matcher hpath hm
  obtain ⟨hroot, hrefs⟩ := Template.overlooksRuns_root hstart hfinish hloose hdelimiter hD hpatterns
    he
  obtain ⟨hkeys, hflags, -, -, -, hmatches⟩ :=
    t.toExpression_spec hne (fun p hp => Param.hasPattern_of_wildcard (hpatterns p hp)) he
  rw [hkeys, hflags] at hs
  have hanchored : e.expression.root.IsAnchored :=
    Expression.isAnchored_of_wholly
    (hmatches.trans (Template.pathSense_eq_wholly hstart hfinish _ t))
  obtain ⟨hgave, hfound⟩ := Matcher.find_of_run_ne hrun
  obtain ⟨hgave', hfound'⟩ := Matcher.find_of_run_ne hrun'
  by_cases hsame : u = u'
  · subst hsame
    exact hfound.imp (fun h => ⟨Matcher.run_none h, Matcher.run_none h⟩)
      fun ⟨f, hf⟩ => ⟨f, f, hf, hf, rfl⟩
  rcases Expression.find_of_squeeze_eq hroot hanchored hrefs hu hsame hgave hgave' with
    ⟨hnone, hnone'⟩ | ⟨mt, mt', hfind, hfind', hmirror⟩
  · exact .inl ⟨Matcher.run_none hnone, Matcher.run_none hnone'⟩
  · -- both matches are those whose captures are collected
    obtain ⟨f, hf⟩ := hfound.resolve_left (by simp [hfind])
    obtain ⟨f', hf'⟩ := hfound'.resolve_left (by simp [hfind'])
    refine .inr ⟨f, f', hf, hf', ?_⟩
    obtain ⟨_, es, hmt, rfl, hes⟩ := Matcher.exists_of_run hf
    obtain ⟨_, es', hmt', rfl, hes'⟩ := Matcher.exists_of_run hf'
    obtain rfl := Verdict.found.inj (hfind.symm.trans hmt)
    obtain rfl := Verdict.found.inj (hfind'.symm.trans hmt')
    rw [hkeys] at hes hes'
    rw [hmirror.collects_eq hdelimiter hD hloose hpatterns he hs hfind hfind' hes hes']

theorem run_of_squeeze_eq_rest :
    ∃ m f f', (pattern "/:lang\x7b-:region\x7d?\x7b/:rest\x7d*".toList).matcher {} = .ok m ∧
      m.run "/en/a/b".toList = .ok (some f) ∧ m.run "//en///a//b".toList = .ok (some f') ∧
      f.params = f'.params := by
  have hparse : Path.parse {} "/:lang\x7b-:region\x7d?\x7b/:rest\x7d*".toList =
      .ok ⟨[.text ['/'], .param { name := "lang".toList },
            .param { name := "region".toList, before := ['-'], modifier := some .optional },
            .param { name := "rest".toList, before := ['/'], modifier := some .zeroOrMore,
                     separator := some ['/'] }], ['/']⟩ := by
    cbv
  obtain ⟨m, hm⟩ := exists_ok_of_isSome
    (x := (pattern "/:lang\x7b-:region\x7d?\x7b/:rest\x7d*".toList).matcher {}) (by decide +kernel)
  -- both texts are found without the budget being spent
  obtain ⟨g, hg⟩ : ∃ g, m.run "/en/a/b".toList = .ok (some g) :=
    exists_ok_some_of_bind (Matcher.run · "/en/a/b".toList) hm (by decide +kernel)
  have hrun : m.run "/en/a/b".toList ≠ .error .gaveUp :=
    ne_error_of_bind (Matcher.run · "/en/a/b".toList) hm (by decide +kernel)
  have hrun' : m.run "//en///a//b".toList ≠ .error .gaveUp :=
    ne_error_of_bind (Matcher.run · "//en///a//b".toList) hm (by decide +kernel)
  rcases run_of_squeeze_eq (D := '/') (resolve_pattern hparse) (by rfl) (isAlone_of_isCaseless rfl)
    (by decide +kernel) (by rfl) (by rfl) (by rfl) hm (by decide +kernel) hrun hrun' with
    ⟨hnone, -⟩ | ⟨f, f', hf, hf', hparams⟩
  · cases hg.symm.trans hnone
  · exact ⟨m, f, f', hm, hf, hf', hparams⟩

end Path

end

end PathTemplate
