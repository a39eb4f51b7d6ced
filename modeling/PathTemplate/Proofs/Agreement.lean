import PathTemplate.Proofs.Builder
import PathTemplate.Proofs.Existence
import PathTemplate.Proofs.Matcher
import PathTemplate.Proofs.Standing

/-!
# Expressions, matchers and builders agree

What is made of one description, with options that have the same setting, fails for the same reasons
and has the same keys.

* `Setting` — what the options of expressions, matchers and builders have in common;
* `Template.fragments_congr`, `Template.fragments_build_congr` — the expressions of parts depend
  on the setting only;
* `PathError.isUnreadable` — the one error that is found after them: the whole expression is
  refused;
* `IsEarly`, `Template.isEarly_fragmentsFrom` — the errors of parts are others;
* `Path.matcher_cases`, `Template.toBuilder_of_ok` — matchers and builders that check nothing add
  no reason to fail;
* `Path.consumers_agree` — all of them fail with the same error, or have the same keys.
-/

namespace PathTemplate

/-- What the options of expressions, matchers and builders have in common. -/
structure Setting where
  parse : ParseOptions
  sensitive : Bool
  loose : Bool
  strict : Bool

def ExpressionOptions.setting (o : ExpressionOptions) : Setting :=
  ⟨o.parse, o.sensitive, o.loose, o.strict⟩

def BuildOptions.setting (o : BuildOptions) : Setting := ⟨o.parse, o.sensitive, o.loose, o.strict⟩

theorem ExpressionOptions.setting_eq_iff {o : ExpressionOptions} {s : Setting} :
    o.setting = s ↔
    o.parse = s.parse ∧ o.sensitive = s.sensitive ∧ o.loose = s.loose ∧ o.strict = s.strict := by
  cases s
  simp [setting]

theorem BuildOptions.setting_eq_iff {o : BuildOptions} {s : Setting} :
    o.setting = s ↔
    o.parse = s.parse ∧ o.sensitive = s.sensitive ∧ o.loose = s.loose ∧ o.strict = s.strict := by
  cases s
  simp [setting]

/-- The expression as a whole is refused. -/
def ExpressionError.isUnreadable : ExpressionError → Bool
  | unreadable _ _ => true
  | _ => false

def PathError.isUnreadable : PathError → Bool
  | expression e => e.isUnreadable
  | _ => false

/-- What can go wrong is known before the whole expression is read. -/
def IsEarly {α : Type} (x : Except ExpressionError α) : Prop :=
  ∀ err, x = .error err → err.isUnreadable = false

namespace IsEarly

variable {α β : Type}

theorem ok (a : α) : IsEarly (.ok a) := fun _ h => by cases h

theorem error {err : ExpressionError} (h : err.isUnreadable = false) :
    IsEarly (α := α) (.error err) := by
  rintro _ ⟨⟩
  exact h

theorem ite {c : Prop} [Decidable c] {x y : Except ExpressionError α} (hx : IsEarly x)
    (hy : IsEarly y) : IsEarly (if c then x else y) := by
  split
  · exact hx
  · exact hy

theorem bind {x : Except ExpressionError α} {f : α → Except ExpressionError β} (hx : IsEarly x)
    (hf : ∀ a, IsEarly (f a)) : IsEarly (x >>= f) := by
  intro err h
  cases x with
  | error e =>
    cases h
    exact hx _ rfl
  | ok a => exact hf a err h

theorem map {x : Except ExpressionError α} (hx : IsEarly x) (f : α → β) : IsEarly (x.map f) := by
  intro err h
  cases x with
  | error e =>
    cases h
    exact hx _ rfl
  | ok a => cases h

/-- A check of a text only gives up. -/
theorem rejects (e : Expression) (x : Text) : IsEarly (e.rejects x) := by
  unfold Expression.rejects Expression.matchesIn
  refine (ok _).ite (IsEarly.map ?_ not)
  cases e.find x with
  | found m => exact ok _
  | none => exact ok _
  | gaveUp => exact error rfl

end IsEarly

section

variable {flags flags' : Flags} {l : Expression.Literal}

/-! ### the expressions of parts -/

theorem Guard.pass_congr (hsensitive : flags'.sensitive = flags.sensitive)
    (hstrict : flags'.strict = flags.strict) (guard : Guard) (l : Expression.Literal) (p : Param) :
    guard.pass flags' l p = guard.pass flags l p := by
  simp only [pass, Expression.anchored, Flags.inlineSwitch, hsensitive, hstrict]

theorem Template.fragmentsFrom_congr (hsensitive : flags'.sensitive = flags.sensitive)
    (hstrict : flags'.strict = flags.strict) (guard : Guard) (parts : List Part) :
    fragmentsFrom flags' l guard parts = fragmentsFrom flags l guard parts := by
  induction parts generalizing guard with
  | nil => rfl
  | cons part parts ih =>
    cases part <;> simp only [fragmentsFrom, Guard.pass_congr hsensitive hstrict, ih]

theorem Template.fragments_congr {o o' : ExpressionOptions} (h : o'.setting = o.setting)
    (t : Template) :
    t.fragments o'.flags ⟨t.delimiter, o'.loose⟩ = t.fragments o.flags ⟨t.delimiter, o.loose⟩ := by
  obtain ⟨-, hsensitive, hloose, hstrict⟩ := ExpressionOptions.setting_eq_iff.1 h
  rw [show o'.loose = o.loose from hloose]
  exact fragmentsFrom_congr hsensitive hstrict {} t.parts

theorem Template.fragments_build_congr {o : ExpressionOptions} {bo : BuildOptions}
    (h : bo.setting = o.setting) (t : Template) :
    t.fragments bo.flags ⟨t.delimiter, bo.loose⟩ = t.fragments o.flags ⟨t.delimiter, o.loose⟩ := by
  obtain ⟨-, hsensitive, hloose, hstrict⟩ := BuildOptions.setting_eq_iff.1 h
  rw [show bo.loose = o.loose from hloose]
  exact fragmentsFrom_congr hsensitive hstrict {} t.parts

theorem Guard.isEarly_pass (flags : Flags) (l : Expression.Literal) (guard : Guard) (p : Param) :
    IsEarly (guard.pass flags l p) := by
  cases he : Expression.anchored flags (p.valueSource l.delimiter) with
  | error cause =>
    simp only [pass, he]
    exact .error rfl
  | ok e =>
    rw [pass_eq he]
    -- the checks, in their order
    refine ((IsEarly.ok true).ite (.rejects e _)).bind fun reached => (IsEarly.error rfl).ite ?_
    refine ((IsEarly.rejects e _).ite (.ok true)).bind fun ended => (IsEarly.ok _).ite
      ((IsEarly.error rfl).ite ?_)
    exact ((IsEarly.ok true).ite (.rejects e _)).bind fun apart => (IsEarly.error rfl).ite (.ok _)

/-- The parts of a template are read one by one, so it is not their expression as a whole that is
refused. -/
theorem Template.isEarly_fragmentsFrom (flags : Flags) (l : Expression.Literal) (guard : Guard)
    (parts : List Part) : IsEarly (fragmentsFrom flags l guard parts) := by
  induction parts generalizing guard with
  | nil => exact .ok []
  | cons part parts ih =>
    cases part with
    | text t => exact (ih _).map _
    | param p =>
      simp only [fragmentsFrom]
      refine IsEarly.ite ?_ ((ih guard).map _)
      cases hpass : guard.pass flags l p with
      | error err => exact .error (Guard.isEarly_pass flags l guard p err hpass)
      | ok guard' => exact (ih guard').map _

end

/-! ### what is made of a template -/

namespace Template

variable {t : Template}

theorem toExpression_of_error {o : ExpressionOptions} {err : ExpressionError}
    (h : t.fragments o.flags ⟨t.delimiter, o.loose⟩ = .error err) :
    t.toExpression o = .error err := by
  simp only [toExpression, source, h, Except.map]

/-- A template whose parts have expressions has one with its keys, or its expression as a whole is
refused. -/
theorem toExpression_of_ok {o : ExpressionOptions} {fs : List Text}
    (h : t.fragments o.flags ⟨t.delimiter, o.loose⟩ = .ok fs) :
    (∃ e, t.toExpression o = .ok e ∧ e.keys = t.params) ∨
    ∃ source cause, t.toExpression o = .error (.unreadable source cause) := by
  simp only [toExpression, source, h, Except.map]
  split
  · exact .inr ⟨_, _, rfl⟩
  · exact .inl ⟨_, rfl, rfl⟩

theorem toBuilder_of_error {o : BuildOptions} {err : ExpressionError}
    (h : t.fragments o.flags ⟨t.delimiter, o.loose⟩ = .error err) : t.toBuilder o = .error err := by
  simp only [toBuilder, h]

/-- A template whose parts have expressions has a builder that checks nothing. -/
theorem toBuilder_of_ok {o : BuildOptions} (hvalidate : o.validate = false) {fs : List Text}
    (h : t.fragments o.flags ⟨t.delimiter, o.loose⟩ = .ok fs) : ∃ b, t.toBuilder o = .ok b := by
  have hsegment : ∀ part, ∃ s, segment o ⟨t.delimiter, o.loose⟩ part = .ok s := by
    intro part
    cases part with
    | text x => exact ⟨.text x, rfl⟩
    | param p => exact ⟨.param p none, by simp [segment, hvalidate]⟩
  choose f hf using hsegment
  have hsegments := mapM_eq_ok_iff.2
    (List.forall₂_map_right_iff.2 (List.forall₂_same.2 fun part (_ : part ∈ t.parts) => hf part))
  exact ⟨⟨t.parts.map f, o.encode⟩, by simp only [toBuilder, h, hsegments, Except.map]⟩

/-- Expressions of one setting are there together if they end in the same way, or if patterns are
expressions on their own. -/
theorem exists_toExpression_congr {o o' : ExpressionOptions} (h : o'.setting = o.setting)
    (hD : t.delimiter ≠ [])
    (hsame : o'.finish = o.finish ∧ o'.trailing = o.trailing ∨
      ∀ p ∈ t.params, p.IsSelfContained (!o.sensitive)) :
    (∃ e, t.toExpression o' = .ok e) ↔ ∃ e, t.toExpression o = .ok e := by
  have hsensitive : o'.sensitive = o.sensitive := congrArg Setting.sensitive h
  have hloose : o'.loose = o.loose := congrArg Setting.loose h
  rw [exists_toExpression_iff_read hD, exists_toExpression_iff_read hD, fragments_congr h]
  refine exists_congr fun fs => and_congr_right fun hfs => ?_
  rcases hsame with ⟨hfinish, htrailing⟩ | hpattern
  · rw [hsensitive, ExpressionOptions.ending, ExpressionOptions.ending, hfinish, htrailing, hloose]
  · rw [exists_read_ending_iff hD (hsensitive ▸ hpattern) ((fragments_congr h t).trans hfs),
      exists_read_ending_iff hD hpattern hfs, hsensitive]

end Template

namespace Path

variable {path : Path}

/-- A matcher has the expression of its description, and fails as that does. -/
theorem matcher_cases (o : MatchOptions) (path : Path) :
    (∃ err, path.expression o.expression = .error err ∧ path.matcher o = .error err) ∨
    ∃ m, path.expression o.expression = .ok m.expression ∧ path.matcher o = .ok m := by
  unfold expression matcher
  cases path.resolve o.expression.parse with
  | error err => exact .inl ⟨err, rfl, rfl⟩
  | ok described =>
    cases described with
    | inl t =>
      cases ht : t.toExpression o.expression with
      | error err => exact .inl ⟨_, by simp only [ht]; rfl, by simp only [ht]⟩
      | ok e =>
        obtain ⟨separators, hm⟩ := Matcher.exists_ofExpression e t.delimiter o
        exact .inr ⟨⟨e, o.decode, separators⟩, by simp only [ht]; rfl, by simp only [ht, hm]; rfl⟩
    | inr e =>
      obtain ⟨separators, hm⟩ := Matcher.exists_ofExpression (.ofExpression e)
        o.expression.parse.delimiter o
      exact .inr ⟨⟨.ofExpression e, o.decode, separators⟩, rfl, by simp only [hm]; rfl⟩

theorem matcher_eq_error_iff {o : MatchOptions} {err : PathError} :
    path.matcher o = .error err ↔ path.expression o.expression = .error err := by
  rcases matcher_cases o path with ⟨err', he, hm⟩ | ⟨m, he, hm⟩ <;> simp [he, hm]

theorem exists_matcher_iff {o : MatchOptions} :
    (∃ m, path.matcher o = .ok m) ↔ ∃ e, path.expression o.expression = .ok e := by
  rcases matcher_cases o path with ⟨err', he, hm⟩ | ⟨m, he, hm⟩ <;> simp [he, hm]

theorem expression_of_matcher {o : MatchOptions} {m : Matcher} (h : path.matcher o = .ok m) :
    path.expression o.expression = .ok m.expression := by
  rcases matcher_cases o path with ⟨err', -, hm⟩ | ⟨m', he, hm⟩ <;> rw [hm] at h <;> cases h
  exact he

/-- Options that are refused, and texts that are no templates, are known before there is an
expression. -/
theorem isUnreadable_of_resolve {o : ParseOptions} {err : PathError}
    (h : path.resolve o = .error err) : err.isUnreadable = false := by
  unfold resolve at h
  split at h
  · unfold parse at h
    split at h
    · cases h
      rfl
    · rename_i s _ _
      cases hs : Template.parse o s <;> rw [hs] at h <;> cases h
      rfl
  all_goals
    split at h
    · cases h
      rfl
  · split at h
    · cases h
      rfl
    · cases h
  · cases h

theorem exists_template_of_resolve {o : ParseOptions} {described : Template ⊕ Expression}
    (hpath : ∀ e, path ≠ raw e) (h : path.resolve o = .ok described) : ∃ t, described = .inl t := by
  unfold resolve at h
  split at h
  · obtain ⟨t, -, rfl⟩ := exists_of_map_eq_ok h
    exact ⟨t, rfl⟩
  · split at h
    · cases h
    · split at h <;> cases h
      exact ⟨_, rfl⟩
  · exact absurd rfl (hpath _)

variable {eo : ExpressionOptions} {mo : MatchOptions} {bo : BuildOptions}

/-- There is an expression with these keys, or the expression as a whole is refused. -/
def Settles (keys : List Param) (x : Except PathError PathExpression) : Prop :=
  (∃ e, x = .ok e ∧ e.keys = keys) ∨ ∃ source cause,
  x = .error (.expression (.unreadable source cause))

theorem Settles.isUnreadable {keys : List Param} {x : Except PathError PathExpression}
    {err : PathError} (h : Settles keys x) (hx : x = .error err) : err.isUnreadable = true := by
  rcases h with ⟨e, rfl, -⟩ | ⟨source, cause, rfl⟩ <;> cases hx
  rfl

theorem Settles.keys_eq {keys : List Param} {x : Except PathError PathExpression}
    {e : PathExpression} (h : Settles keys x) (hx : x = .ok e) : e.keys = keys := by
  rcases h with ⟨e, rfl, hkeys⟩ | ⟨source, cause, rfl⟩ <;> cases hx
  exact hkeys

/-- A template whose parts have expressions settles on its keys. -/
theorem settles_of_fragments {o : ExpressionOptions} {t : Template}
    (ht : path.resolve o.parse = .ok (.inl t)) {fs : List Text}
    (hfs : t.fragments o.flags ⟨t.delimiter, o.loose⟩ = .ok fs) :
    Settles t.params (path.expression o) := by
  simp only [expression, ht]
  rcases Template.toExpression_of_ok hfs with ⟨e, he, hkeys⟩ | ⟨source, cause, he⟩
  · exact .inl ⟨e, by rw [he]; rfl, hkeys⟩
  · exact .inr ⟨source, cause, by rw [he]; rfl⟩

theorem expression_of_fragments_error {o : ExpressionOptions} {t : Template}
    (ht : path.resolve o.parse = .ok (.inl t)) {err : ExpressionError}
    (hfs : t.fragments o.flags ⟨t.delimiter, o.loose⟩ = .error err) :
    path.expression o = .error (.expression err) := by
  simp only [expression, ht, Template.toExpression_of_error hfs]
  rfl

/-- With the same setting, all fail with an error that is known before the whole expression is read,
or there is a builder and the rest depends on that. -/
theorem consumers_cases {o o' : ExpressionOptions} (ho : o'.setting = o.setting)
    (hb : bo.setting = o.setting) (hvalidate : bo.validate = false) (hpath : ∀ e, path ≠ raw e) :
    (∃ err, err.isUnreadable = false ∧ path.expression o = .error err ∧
      path.expression o' = .error err ∧ path.builder bo = .error err) ∨
    ∃ t b, path.resolve o.parse = .ok (.inl t) ∧ path.resolve o'.parse = .ok (.inl t) ∧
      path.builder bo = .ok b ∧ b.keys = t.params ∧ Settles t.params (path.expression o) ∧
      Settles t.params (path.expression o') := by
  have hparse : o'.parse = o.parse := congrArg Setting.parse ho
  have hbparse : bo.parse = o.parse := congrArg Setting.parse hb
  cases hresolve : path.resolve o.parse with
  | error err =>
    exact .inl ⟨err, isUnreadable_of_resolve hresolve, by simp only [expression, hresolve],
      by simp only [expression, hparse, hresolve], by simp only [builder, hbparse, hresolve]⟩
  | ok described =>
    obtain ⟨t, rfl⟩ := exists_template_of_resolve hpath hresolve
    have hresolve' : path.resolve o'.parse = .ok (.inl t) := by rw [hparse, hresolve]
    have hbuilder : path.builder bo = lift .expression (t.toBuilder bo) := by
      simp only [builder, hbparse, hresolve]
    cases hfs : t.fragments o.flags ⟨t.delimiter, o.loose⟩ with
    | error err =>
      refine .inl ⟨.expression err, Template.isEarly_fragmentsFrom _ _ _ _ err hfs,
          expression_of_fragments_error hresolve hfs,
          expression_of_fragments_error hresolve' ((Template.fragments_congr ho t).trans hfs), ?_⟩
      rw [hbuilder, Template.toBuilder_of_error ((Template.fragments_build_congr hb t).trans hfs)]
      rfl
    | ok fs =>
      obtain ⟨b, hb'⟩ := Template.toBuilder_of_ok hvalidate
        ((Template.fragments_build_congr hb t).trans hfs)
      exact .inr ⟨t, b, rfl, hresolve', by rw [hbuilder, hb']; rfl, Template.keys_of_toBuilder hb',
          settles_of_fragments hresolve hfs,
          settles_of_fragments hresolve' ((Template.fragments_congr ho t).trans hfs)⟩

/-- The expression, the matcher and the builder of a template text or a template, made with the same
setting and without checks of values, fail with the same error if one of them fails before the whole
expression is read. Else there is a builder; whatever else there is has the same keys; and there is
a matcher if and only if there is an expression, if both may end at the same places, or if patterns
are expressions on their own. -/
theorem consumers_agree (hm : mo.expression.setting = eo.setting) (hb : bo.setting = eo.setting)
    (hvalidate : bo.validate = false) (hpath : ∀ e, path ≠ raw e) :
    (∀ err, err.isUnreadable = false →
      (path.expression eo = .error err ∨ path.matcher mo = .error err ∨
        path.builder bo = .error err) →
      path.expression eo = .error err ∧ path.matcher mo = .error err ∧
        path.builder bo = .error err) ∧
    ((∀ err, path.expression eo = .error err ∨ path.matcher mo = .error err ∨
          path.builder bo = .error err → err.isUnreadable = true) →
      ∃ t b, path.resolve eo.parse = .ok (.inl t) ∧ path.builder bo = .ok b ∧ b.keys = t.params ∧
        (∀ e, path.expression eo = .ok e → e.keys = t.params) ∧
        (∀ m, path.matcher mo = .ok m → m.expression.keys = t.params) ∧
        (mo.expression.finish = eo.finish ∧ mo.expression.trailing = eo.trailing ∨
            (∀ p ∈ t.params, p.IsSelfContained (!eo.sensitive)) →
          ((∃ m, path.matcher mo = .ok m) ↔ ∃ e, path.expression eo = .ok e))) := by
  rcases consumers_cases hm hb hvalidate hpath with
    ⟨err, hearly, he, he', hb'⟩ | ⟨t, b, ht, ht', hb', hkeys, he, he'⟩
  · -- an early error is that of all
    rw [he, matcher_eq_error_iff.2 he', hb']
    refine ⟨fun err' _ h => ?_, fun h => ?_⟩
    · rcases h with h | h | h <;> cases h <;> exact ⟨rfl, rfl, rfl⟩
    · simp [hearly] at h
  · -- what is left are expressions that are refused as a whole
    rw [hb']
    refine ⟨fun err hearly h => ?_, fun _ => ⟨t, b, ht, rfl, hkeys, fun e h => he.keys_eq h,
      fun m h => he'.keys_eq (expression_of_matcher h), fun hsame => ?_⟩⟩
    · have hlate : err.isUnreadable = true := by
        rcases h with h | h | h
        · exact he.isUnreadable h
        · exact he'.isUnreadable (matcher_eq_error_iff.1 h)
        · cases h
      simp [hearly] at hlate
    · rw [exists_matcher_iff]
      simp only [expression, ht, ht', lift_eq_ok_iff]
      exact Template.exists_toExpression_congr hm (delimiter_ne_nil ht) hsame

theorem consumers_agree_rest :
    ∃ e m b, (pattern "/:lang\x7b-:region\x7d?\x7b/:rest\x7d*".toList).expression
          { trailing := false } = .ok e ∧
      (pattern "/:lang\x7b-:region\x7d?\x7b/:rest\x7d*".toList).matcher ⟨{ finish := false },
            none⟩ = .ok m ∧
      (pattern "/:lang\x7b-:region\x7d?\x7b/:rest\x7d*".toList).builder { validate := false } =
        .ok b ∧ e.keys = b.keys ∧ m.expression.keys = b.keys := by
  obtain ⟨e, he⟩ := exists_ok_of_isSome (x :=
      (pattern "/:lang\x7b-:region\x7d?\x7b/:rest\x7d*".toList).expression { trailing := false })
    (by decide +kernel)
  obtain ⟨m, hm⟩ := exists_ok_of_isSome (x :=
      (pattern "/:lang\x7b-:region\x7d?\x7b/:rest\x7d*".toList).matcher ⟨{ finish := false }, none⟩)
    (by decide +kernel)
  obtain ⟨b, hb⟩ := exists_ok_of_isSome
    (x := (pattern "/:lang\x7b-:region\x7d?\x7b/:rest\x7d*".toList).builder { validate := false })
    (by decide +kernel)
  have hall := @consumers_agree (pattern "/:lang\x7b-:region\x7d?\x7b/:rest\x7d*".toList)
    { trailing := false } ⟨{ finish := false }, none⟩ { validate := false } rfl rfl rfl
    fun _ h => by cases h
  rw [he, hm, hb] at hall
  obtain ⟨t, b', -, hb', hkeys, hekeys, hmkeys, -⟩ := hall.2 fun err herr => by
    rcases herr with herr | herr | herr <;> cases herr
  cases hb'
  exact ⟨e, m, b, he, hm, hb, (hekeys e rfl).trans hkeys.symm, (hmkeys m rfl).trans hkeys.symm⟩

/-- A pattern may start a remark that ends with the next line. What follows the pattern decides
whether its parentheses are closed, so an expression that may end with a delimiter is read and one
that may not is refused. -/
theorem matcher_of_remark :
    (MatchOptions.mk { trailing := false } (some .percentDecode)).expression.setting =
      ({} : ExpressionOptions).setting ∧
    (∃ e, (template ⟨[.param { name := ['x'], pattern := some "a)(?x)#".toList }],
          ['\n']⟩).expression {} = .ok e) ∧
    (∃ b, (template ⟨[.param { name := ['x'], pattern := some "a)(?x)#".toList }], ['\n']⟩).builder
        { validate := false } = .ok b) ∧
    ∃ source cause, (template ⟨[.param { name := ['x'], pattern := some "a)(?x)#".toList }],
          ['\n']⟩).matcher ⟨{ trailing := false }, some .percentDecode⟩ =
      .error (.expression (.unreadable source cause)) := by
  refine ⟨rfl, exists_ok_of_isSome (by decide +kernel), exists_ok_of_isSome (by decide +kernel), ?_⟩
  have hrefused : (template ⟨[.param { name := ['x'], pattern := some "a)(?x)#".toList }],
          ['\n']⟩).expression { trailing := false } =
      .error (.expression (.unreadable "(?i)^(?:((?:a)(?x)#)))$".toList .unclosedGroup)) := by
    decide +kernel
  exact ⟨_, _, matcher_eq_error_iff.2 hrefused⟩

end Path

end PathTemplate
