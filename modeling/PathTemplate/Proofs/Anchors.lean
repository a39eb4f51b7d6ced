import PathTemplate.Proofs.Agreement
import PathTemplate.Proofs.Shape

/-!
# Anchors and strictness

What matches does not depend on the strict check, and it still matches where less is asked of its
ends.

* `ExpressionOptions.Relaxes` — options of one setting, one of which asks less of the ends of a
  match;
* `Template.pathSense_of_relaxes` — what has the sense of a template has its relaxed sense, too;
* `Expression.find_of_reaches` — a search finds what is matched somewhere, unless its budget is
  spent;
* `Template.toExpression_of_strict`, `Path.run_of_strict` — the strict check leaves expressions
  and matchers as they are;
* `Path.run_of_relaxes` — a relaxed matcher finds a match where there was one.
-/

namespace PathTemplate

/-- Options of one setting, where the first may start or end a match at more places, or let a
delimiter follow. -/
structure ExpressionOptions.Relaxes (o' o : ExpressionOptions) : Prop where
  setting : o'.setting = o.setting
  start : o'.start = true → o.start = true
  finish : o'.finish = true → o.finish = true
  trailing : o.trailing = true → o'.trailing = true

/-! ### senses -/

theorem Sense.seq_mono {R R' S S' : Sense} (hR : ∀ p q w, R p q w → R' p q w)
    (hS : ∀ p q w, S p q w → S' p q w) (p q : Cursor) (w : Captures) (h : R.seq S p q w) :
    R'.seq S' p q w := by
  obtain ⟨r, u, v, hu, hv, rfl⟩ := h
  exact ⟨r, u, v, hR p r u hu, hS r q v hv, rfl⟩

namespace Template

variable {o o' : ExpressionOptions}

theorem endSense_of_finish {D : Text} {ic finish finish' : Bool}
    (h : finish' = true → finish = true) :
    ∀ p q w, endSense D ic finish p q w → endSense D ic finish' p q w := by
  intro p q w hend
  cases finish' with
  | true => rwa [h rfl] at hend
  | false =>
    cases finish with
    | false => exact hend
    | true =>
      obtain ⟨hplace, rfl, rfl⟩ := hend
      exact ⟨rfl, q, .inr ⟨hplace, rfl, rfl⟩⟩

theorem tailSense_of_trailing {l : Expression.Literal} {ic trailing trailing' : Bool}
    (h : trailing = true → trailing' = true) :
    ∀ p q w, tailSense l ic trailing p q w → tailSense l ic trailing' p q w := by
  intro p q w htail
  cases trailing with
  | true => rwa [h rfl]
  | false =>
    cases trailing' with
    | false => exact htail
    | true => exact Sense.optional_iff.2 (.inl htail)

/-- What has the sense of a template also has its sense under relaxed options. -/
theorem pathSense_of_relaxes (h : o'.Relaxes o) (σ : Text → Sense) (t : Template) :
    ∀ p q w, t.pathSense o σ p q w → t.pathSense o' σ p q w := by
  have hsensitive : o'.sensitive = o.sensitive := congrArg Setting.sensitive h.setting
  have hloose : o'.loose = o.loose := congrArg Setting.loose h.setting
  have hstart : ∀ p q w, (if o.start then Sense.place .textStart else .nothing) p q w →
      (if o'.start then Sense.place .textStart else .nothing) p q w := by
    intro p q w hplace
    cases hs : o'.start with
    | true => simpa [h.start hs] using hplace
    | false =>
      cases hs' : o.start with
      | false => simpa [hs'] using hplace
      | true =>
        obtain ⟨-, rfl, rfl⟩ : Sense.place .textStart p q w := by simpa [hs'] using hplace
        exact ⟨rfl, rfl⟩
  unfold pathSense
  rw [hsensitive, hloose]
  exact Sense.seq_mono hstart (Sense.seq_mono (fun _ _ _ h => h)
    (Sense.seq_mono (tailSense_of_trailing h.trailing) (endSense_of_finish h.finish)))

/-! ### the strict check -/

theorem exists_of_toExpression {t : Template} {e : PathExpression} (h : t.toExpression o = .ok e) :
    ∃ source expression, t.source o = .ok source ∧ Expression.read source = .ok expression ∧
      e = ⟨expression, t.params, o.flags⟩ := by
  unfold toExpression at h
  split at h
  · cases h
  · rename_i source hsource
    split at h
    · cases h
    · rename_i expression hread
      cases h
      exact ⟨source, expression, hsource, hread, rfl⟩

/-- An expression does not depend on the strict check, where it passes. -/
theorem toExpression_of_strict {t : Template} {e e' : PathExpression} {strict : Bool}
    (he : t.toExpression o = .ok e) (he' : t.toExpression { o with strict } = .ok e') :
    e'.expression = e.expression ∧ e'.keys = e.keys ∧ e'.flags.sensitive = e.flags.sensitive := by
  obtain ⟨_, expression, hsource, hread, rfl⟩ := exists_of_toExpression he
  obtain ⟨_, expression', hsource', hread', rfl⟩ := exists_of_toExpression he'
  obtain ⟨fs, hfs, rfl⟩ := exists_of_map_eq_ok hsource
  obtain ⟨fs', hfs', rfl⟩ := exists_of_map_eq_ok hsource'
  obtain rfl := fragmentsFrom_eq hfs
  obtain rfl := fragmentsFrom_eq hfs'
  have hsame : expression' = expression := by
    have hread'' := hread'.symm.trans hread
    cases hread''
    rfl
  exact ⟨hsame, rfl, rfl⟩

end Template

/-! ### searches -/

/-- A search finds what matches somewhere, unless its budget is spent. -/
theorem Expression.find_of_reaches {e : Expression} (hr : e.root.isRegular = true) {u v : Text}
    {p q : Cursor} (hp : (Cursor.start u).Takes v p) (h : e.root.Reaches p q) :
    e.find u = .gaveUp ∨ ∃ m, e.find u = .found m := by
  cases hfind : e.find u with
  | gaveUp => exact .inl rfl
  | found m => exact .inr ⟨m, rfl⟩
  | none => exact absurd h ((search_spec hr _).2 hfind v p hp q)

/-- What an expression finds, a relaxed expression finds, unless its budget is spent. -/
theorem Template.find_of_relaxes {o o' : ExpressionOptions} {t : Template} {e e' : PathExpression}
    {u : Text} {m : Match} (hD : t.delimiter ≠ [])
    (hpattern : ∀ p ∈ t.params, p.HasPattern (!o.sensitive) t.delimiter) (h : o'.Relaxes o)
    (he : t.toExpression o = .ok e) (he' : t.toExpression o' = .ok e')
    (hfind : e.expression.find u = .found m) :
    e'.expression.find u = .gaveUp ∨ ∃ m', e'.expression.find u = .found m' := by
  have hsensitive : o'.sensitive = o.sensitive := congrArg Setting.sensitive h.setting
  obtain ⟨-, -, -, hr, -, hm⟩ := toExpression_spec hD hpattern he
  obtain ⟨-, -, -, hr', -, hm'⟩ := toExpression_spec hD (hsensitive ▸ hpattern) he'
  have hleft := (Expression.search_spec hr _).1 m hfind
  obtain ⟨v, hv⟩ := hleft.takes
  obtain ⟨w, hw⟩ := hleft.reaches
  have hw' : e'.expression.root.Matches m.start m.finish.pos w := by
    rw [hm', hsensitive]
    rw [hm] at hw
    exact pathSense_of_relaxes h _ t _ _ _ hw
  exact Expression.find_of_reaches hr' hv ⟨w, hw'⟩

namespace Path

variable {mo : MatchOptions} {path : Path} {t : Template} {m : Matcher}

theorem run_of_strict (hpath : path.resolve mo.expression.parse = .ok (.inl t))
    (hm : path.matcher mo = .ok m) {strict : Bool} {m' : Matcher}
    (hm' : path.matcher ⟨{ mo.expression with strict }, mo.decode⟩ = .ok m') (u : Text) :
    m'.run u = m.run u := by
  have hpath' : path.resolve
        (MatchOptions.mk { mo.expression with strict } mo.decode).expression.parse = .ok (.inl t) :=
    hpath
  obtain ⟨e, separators, he, rfl, hs⟩ := exists_of_matcher hpath hm
  obtain ⟨e', separators', he', rfl, hs'⟩ := exists_of_matcher hpath' hm'
  obtain ⟨hexpression, hkeys, hsensitive⟩ := Template.toExpression_of_strict he he'
  have hseparators : separators' = separators := by
    have hsame : Matcher.separator e'.flags ⟨t.delimiter, mo.expression.loose⟩ =
        Matcher.separator e.flags ⟨t.delimiter, mo.expression.loose⟩ := by
      funext p
      simp only [Matcher.separator, Flags.inlineSwitch, hsensitive]
    rw [hkeys, hsame] at hs'
    exact Except.ok.inj ((mapM_eq_ok_iff.2 hs').symm.trans (mapM_eq_ok_iff.2 hs))
  simp only [Matcher.run, PathExpression.find, hexpression, hkeys, hseparators]

/-- Where a matcher finds a match, a matcher with relaxed options finds one, too, unless its budget
is spent; and the strict check does not change what is found. -/
theorem run_of_relaxes (hpath : path.resolve mo.expression.parse = .ok (.inl t))
    (hpattern : ∀ p ∈ t.params, p.HasPattern (!mo.expression.sensitive) t.delimiter)
    (hm : path.matcher mo = .ok m) :
    (∀ mo' : MatchOptions, mo'.expression.Relaxes mo.expression →
      ∃ m', path.matcher mo' = .ok m' ∧
        ∀ u f, m.run u = .ok (some f) →
          m'.run u = .error .gaveUp ∨ ∃ f', m'.run u = .ok (some f')) ∧
    ∀ strict m', path.matcher ⟨{ mo.expression with strict }, mo.decode⟩ = .ok m' →
      ∀ u, m'.run u = m.run u := by
  refine ⟨fun mo' hrelaxes => ?_, fun strict m' hm' u => run_of_strict hpath hm hm' u⟩
  have hD := delimiter_ne_nil hpath
  have hpath' : path.resolve mo'.expression.parse = .ok (.inl t) := by
    rw [show mo'.expression.parse = mo.expression.parse from congrArg Setting.parse
        hrelaxes.setting, hpath]
  obtain ⟨e, separators, he, rfl, -⟩ := exists_of_matcher hpath hm
  obtain ⟨e', he'⟩ := (Template.exists_toExpression_congr hrelaxes.setting hD
    (.inr fun p hp => Param.isSelfContained_of_hasPattern hD (hpattern p hp))).2 ⟨e, he⟩
  obtain ⟨separators', hm'⟩ := Matcher.exists_ofExpression e' t.delimiter mo'
  refine ⟨_, by simp only [matcher, hpath', he', hm']; rfl, fun u f hf => ?_⟩
  obtain ⟨found, hfind⟩ := Matcher.exists_find_of_run hf
  rcases Template.find_of_relaxes hD hpattern hrelaxes he he' hfind with hgave | ⟨found', hfind'⟩
  · exact .inl (Matcher.run_gaveUp hgave)
  · refine (Matcher.run_of_find hfind').imp_right ?_
    rintro ⟨f', hf', -⟩
    exact ⟨f', hf'⟩

theorem run_of_relaxes_rest :
    ∃ m m' m'' f',
      (pattern "/:lang\x7b/:rest\x7d*".toList).matcher ⟨{ trailing := false }, none⟩ = .ok m ∧
      (pattern "/:lang\x7b/:rest\x7d*".toList).matcher ⟨{ start := false, finish := false }, none⟩ =
        .ok m' ∧
      (pattern "/:lang\x7b/:rest\x7d*".toList).matcher
          ⟨{ trailing := false, strict := true }, none⟩ = .ok m'' ∧
      m'.run "/en/a//b".toList = .ok (some f') ∧
      ∀ u, m''.run u = m.run u := by
  have hparse : Path.parse {} "/:lang\x7b/:rest\x7d*".toList =
      .ok ⟨[.text ['/'], .param { name := "lang".toList },
            .param { name := "rest".toList, before := ['/'], modifier := some .zeroOrMore,
                     separator := some ['/'] }], ['/']⟩ := by
    cbv
  obtain ⟨m, hm⟩ := exists_ok_of_isSome
    (x := (pattern "/:lang\x7b/:rest\x7d*".toList).matcher ⟨{ trailing := false }, none⟩)
    (by decide +kernel)
  obtain ⟨m'', hm''⟩ := exists_ok_of_isSome (x :=
      (pattern "/:lang\x7b/:rest\x7d*".toList).matcher ⟨{ trailing := false, strict := true },
          none⟩) (by decide +kernel)
  obtain ⟨f, hf⟩ : ∃ f, m.run "/en/a//b".toList = .ok (some f) :=
    exists_ok_some_of_bind (Matcher.run · "/en/a//b".toList) hm (by decide +kernel)
  obtain ⟨hrelaxes, hstrict⟩ := run_of_relaxes (resolve_pattern hparse)
    (fun p hp => Param.hasPattern_of_wildcard (by revert p; decide +kernel)) hm
  obtain ⟨m', hm', hrun⟩ := hrelaxes ⟨{ start := false, finish := false }, none⟩ ⟨rfl, by decide,
      by decide, by decide⟩
  -- the budget is not spent on this text
  obtain ⟨f', hf'⟩ := (hrun _ f hf).resolve_left
    (ne_error_of_bind (Matcher.run · "/en/a//b".toList) hm' (by decide +kernel))
  exact ⟨m, m', m'', f', hm, hm', hm'', hf', hstrict true m'' hm''⟩

end Path

end PathTemplate
