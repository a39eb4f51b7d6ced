import PathTemplate.Path
import PathTemplate.Proofs.Builder
import PathTemplate.Proofs.Groups

/-!
# The shape of matched values

* `Template.Lays.values` — a parameter has the value of its capture, or it may be left out and has
  none;
* `Path.values_of_run` — so it is for what a matcher finds, and nothing else has a value;
* `Param.Suits` — a value, or its absence, has the shape that a parameter promises;
* `Segment.exists_checked_of_error` — a value of that shape is written unless it, or an element of
  it, is refused;
* `Path.shape_of_run` — matched values have the shape that their parameters promise, and can be
  built if none is checked.
-/

namespace PathTemplate

open Expression (Literal)

section

variable {l : Literal} {ic : Bool} {σ : Text → Sense} {g : Nat} {a b : Cursor} {parts : List Part}

/-! ### values and captures -/

/-- The value of a parameter is that of a capture which the parameter holds. -/
def Param.Yields (l : Literal) (ic : Bool) (σ : Text → Sense) (flags : Flags)
    (decode : Option Codec) (p : Param) (v : ParamValue) : Prop :=
  ∃ s a b separator, p.Holds l ic σ (some s) a b ∧ Matcher.separator flags l p = .ok separator ∧
    Matcher.value decode separator s.text = .ok v

/-- A parameter whose capture is collected has its value; one without a capture may be left out. -/
theorem Template.Lays.values {flags : Flags} {decode : Option Codec} {get : Nat → Option Span}
    {params : Params} {separators : List (Option Expression)} {es : List (Text × ParamValue)}
    (h : Lays l ic σ get g parts a b) (hnames : ((paramsOf parts).map Param.name).Nodup)
    (hs : List.Forall₂ (fun p s => Matcher.separator flags l p = .ok s) (paramsOf parts) separators)
    (hes : Matcher.Collects decode get g ((paramsOf parts).zip separators) es)
    (hget : ∀ e ∈ es, params.get? e.1 = some e.2)
    (hnone : ∀ p ∈ paramsOf parts, p.name ∉ es.map Prod.fst → params.get? p.name = none) :
    ∀ p ∈ paramsOf parts, (params.get? p.name = none ∧ p.isOptional = true) ∨
      ∃ v, params.get? p.name = some v ∧ p.Yields l ic σ flags decode v := by
  induction parts generalizing g a separators es with
  | nil => simp [paramsOf]
  | cons part parts ih =>
    cases part with
    | text t =>
      obtain ⟨c, -, h⟩ := h
      exact ih h hnames hs hes hget hnone
    | param p =>
      obtain ⟨c, hp, h⟩ := h
      rw [paramsOf_param] at hnames hs hes hnone ⊢
      cases hc : p.isCapturing with
      | false =>
        have hgroups : p.groups = 0 := by simp [Param.groups, hc]
        rw [hgroups] at h
        simp only [hc, Bool.false_eq_true, if_false, List.nil_append] at hnames hs hes hnone ⊢
        exact ih h hnames hs hes hget hnone
      | true =>
        have hgroups : p.groups = 1 := by simp [Param.groups, hc]
        rw [hgroups] at h
        simp only [hc, if_true, List.singleton_append] at hnames hs hes hnone ⊢
        obtain ⟨hfresh, hnames⟩ := List.nodup_cons.1 hnames
        obtain _ | ⟨hseparator, hs⟩ := hs
        have hsub : ∀ {es}, Matcher.Collects decode get (g + 1) ((paramsOf parts).zip _) es →
            p.name ∉ es.map Prod.fst :=
          fun h hmem => hfresh ((h.names hs.length_eq).subset hmem)
        rcases hes with ⟨hcapture, hes⟩ | ⟨s, v, es, hcapture, hv, rfl, hes⟩
        · -- without a capture there is no value
          rw [hcapture] at hp
          simp only [Param.Holds, hc, if_true] at hp
          intro q hq
          rcases List.mem_cons.1 hq with rfl | hq
          · exact .inl ⟨hnone q (List.mem_cons_self ..) (hsub hes), hp.1⟩
          · exact ih h hnames hs hes hget (fun q hq => hnone q (List.mem_cons_of_mem _ hq)) q hq
        · rw [hcapture] at hp
          intro q hq
          rcases List.mem_cons.1 hq with rfl | hq
          · exact .inr ⟨v, hget (q.name, v) (List.mem_cons_self ..), s, a, c, _, hp, hseparator, hv⟩
          · refine ih h hnames hs hes (fun e he => hget e (List.mem_cons_of_mem _ he))
              (fun q hq hmem => ?_) q hq
            refine hnone q (List.mem_cons_of_mem _ hq) ?_
            rw [List.map_cons, List.mem_cons, not_or]
            exact ⟨fun heq => hfresh (List.mem_map.2 ⟨q, hq, heq⟩), hmem⟩

theorem Matcher.exists_of_run {matcher : Matcher} {u : Text} {f : Found}
    (h : matcher.run u = .ok (some f)) :
    ∃ m es, matcher.expression.expression.find u = .found m ∧
      f = ⟨m.span.text, m.start.byteOffset, .ofList es⟩ ∧
      Collects matcher.decode m.finish.capture? 0 (matcher.expression.keys.zip matcher.separators)
        es := by
  obtain ⟨m, hfind⟩ := exists_find_of_run h
  simp only [run, PathExpression.find, hfind] at h
  obtain ⟨params, hcollect, heq⟩ := exists_of_map_eq_ok h
  obtain ⟨es, hes, rfl⟩ := exists_collects (g := 0) hcollect
  cases heq
  exact ⟨m, es, hfind, rfl, hes⟩

namespace Path

variable {mo : MatchOptions} {path : Path} {t : Template} {m : Matcher} {u : Text} {f : Found}

theorem exists_of_matcher (hpath : path.resolve mo.expression.parse = .ok (.inl t))
    (hm : path.matcher mo = .ok m) :
    ∃ e separators, t.toExpression mo.expression = .ok e ∧ m = ⟨e, mo.decode, separators⟩ ∧
      List.Forall₂
        (fun p s => Matcher.separator e.flags ⟨t.delimiter, mo.expression.loose⟩ p = .ok s) e.keys
        separators := by
  simp only [matcher, hpath] at hm
  cases he : t.toExpression mo.expression with
  | error e => simp [he] at hm
  | ok e =>
    simp only [he] at hm
    obtain ⟨separators, rfl, hs⟩ := Matcher.exists_separators (lift_eq_ok_iff.1 hm)
    exact ⟨e, separators, rfl, rfl, hs⟩

/-- What a matcher finds are values of captures, and only optional parameters are without one. -/
theorem values_of_run (hpath : path.resolve mo.expression.parse = .ok (.inl t))
    (hnames : (t.params.map Param.name).Nodup)
    (hpattern : ∀ p ∈ t.params, p.HasPattern (!mo.expression.sensitive) t.delimiter)
    (hm : path.matcher mo = .ok m) (h : m.run u = .ok (some f)) :
    (∀ n, f.get? n ≠ none → ∃ p ∈ t.params, p.name = n) ∧
    ∀ p ∈ t.params, (f.get? p.name = none ∧ p.isOptional = true) ∨
      ∃ v, f.get? p.name = some v ∧
        p.Yields ⟨t.delimiter, mo.expression.loose⟩ (!mo.expression.sensitive)
          (Expression.patternSense (!mo.expression.sensitive)) mo.expression.flags mo.decode v := by
  have hD := delimiter_ne_nil hpath
  obtain ⟨e, separators, he, rfl, hs⟩ := exists_of_matcher hpath hm
  obtain ⟨hkeys, hflags, -, hregular, hlinear, hmatches⟩ := t.toExpression_spec hD hpattern he
  obtain ⟨mt, es, hfind, rfl, hes⟩ := Matcher.exists_of_run h
  -- the parts are laid out by the captures of the match
  obtain ⟨w, hw, hc⟩ := ((Expression.search_spec hregular _).1 mt hfind).captures hlinear
  rw [hmatches] at hw
  obtain ⟨⟨-, b, c, hlays, -, -⟩, -⟩ := Template.splits_of_pathSense hD hpattern hw
  rw [hkeys] at hes hs
  rw [hflags] at hs
  rw [show mt.finish.capture? = Captures.get? w from funext hc] at hes
  have hsub := hes.names hs.length_eq
  refine ⟨fun n hn => ?_,
    hlays.values hnames hs hes (fun e he => Params.get?_ofList_of_nodup (hnames.sublist hsub) he)
      fun p _ hp => Params.get?_ofList_eq_none hp⟩
  have hmem : n ∈ es.map Prod.fst := by
    by_contra hmem
    exact hn (Params.get?_ofList_eq_none hmem)
  exact List.mem_map.1 (hsub.subset hmem)

end Path

/-! ### values that can be written -/

/-- A value, or its absence, has the shape that a parameter promises. -/
def Param.Suits (p : Param) : Option ParamValue → Prop
  | none => p.isOptional = true
  | some (.single _) => p.isRepeating = false
  | some (.multiple ts) => p.isRepeating = true ∧ ts ≠ []

instance (p : Param) : (v : Option ParamValue) → Decidable (p.Suits v)
  | none => inferInstanceAs (Decidable (p.isOptional = true))
  | some (.single _) => inferInstanceAs (Decidable (p.isRepeating = false))
  | some (.multiple ts) => inferInstanceAs (Decidable (p.isRepeating = true ∧ ts ≠ []))

/-- The texts that are checked when a value is written. -/
def Param.checkedTexts (encode : Option Codec) (p : Param) : ParamValue → List Text
  | .single x => [p.before ++ recode encode x ++ p.after]
  | .multiple ts => ts.map (recode encode)

theorem Expression.split_ne_nil {e : Expression} {x : Text} {ts : List Text}
    (h : e.split x = .found ts) : ts ≠ [] := by
  unfold split at h
  cases hn : x.length with
  | zero =>
    rw [hn] at h
    cases h
    simp
  | succ n =>
    simp only [hn, splitFrom] at h
    split at h
    · cases h
    · cases h
      simp
    · split at h
      · cases h
        simp
      · rename_i hne
        exact absurd h (hne ts)

/-- The value of a capture has the shape that the parameter promises. -/
theorem Param.Yields.suits {flags : Flags} {decode : Option Codec} {p : Param} {v : ParamValue}
    (h : p.Yields l ic σ flags decode v) : p.Suits (some v) := by
  obtain ⟨s, a, b, separator, -, hs, hv⟩ := h
  unfold Matcher.separator at hs
  cases hr : p.isRepeating with
  | false =>
    simp only [hr, Bool.not_false, if_true, Except.ok.injEq] at hs
    subst hs
    cases hv
    exact hr
  | true =>
    simp only [hr, Bool.not_true, Bool.false_eq_true, if_false] at hs
    split at hs
    · cases hs
    · cases hs
      simp only [Matcher.value] at hv
      split at hv
      · rename_i ts hsplit
        cases hv
        exact ⟨hr, by simpa using Expression.split_ne_nil hsplit⟩
      all_goals cases hv

namespace Segment

variable {p : Param} {check : Option Expression} {encode : Option Codec} {e : BuildError}

/-- A value of the right shape is written, unless one of its texts is refused or cannot be
checked. -/
theorem exists_checked_of_error {params : Params}
    (hsuits : p.isCapturing = true → p.Suits (params.get? p.name))
    (h : (param p check).build encode params = .error e) :
    p.isCapturing = true ∧
    ∃ v, params.get? p.name = some v ∧
      ∃ y ∈ p.checkedTexts encode v, accepts check y = .ok false ∨ accepts check y = .error e := by
  unfold build at h
  cases hc : p.isCapturing with
  | false => simp [hc] at h
  | true =>
    replace hsuits := hsuits hc
    simp only [hc, Bool.not_true, Bool.false_eq_true, if_false] at h
    refine ⟨rfl, ?_⟩
    generalize params.get? p.name = value at hsuits h
    match value with
    | none =>
      replace hsuits : p.isOptional = true := hsuits
      cases hr : p.isRepeating <;> simp [hr, single, sequence, hsuits] at h
    | some (.single x) =>
      replace hsuits : p.isRepeating = false := hsuits
      simp only [hsuits, Bool.false_eq_true, if_false, single] at h
      refine ⟨_, rfl, _, List.mem_singleton_self _, ?_⟩
      split at h
      · rename_i hacc
        cases h
        exact .inr hacc
      · cases h
      · rename_i hacc
        exact .inl hacc
    | some (.multiple ts) =>
      obtain ⟨hr, hne⟩ : p.isRepeating = true ∧ ts ≠ [] := hsuits
      obtain ⟨x, ts, rfl⟩ := List.exists_cons_of_ne_nil hne
      simp only [hr, if_true, sequence] at h
      cases hel : elements p check encode 0 (x :: ts) with
      | ok ys => simp [hel, Except.map] at h
      | error e' =>
        rw [hel] at h
        cases h
        obtain ⟨xs, v, ys, hvalues, -, hacc⟩ := elements_eq_error_iff.1 hel
        exact ⟨_, rfl, _, List.mem_map_of_mem (show v ∈ x :: ts by simp [hvalues]),
          hacc.imp_left And.left⟩

end Segment

theorem exists_of_mapM_eq_error {ε α β : Type} {f : α → Except ε β} {l : List α} {e : ε}
    (h : l.mapM f = .error e) : ∃ a ∈ l, f a = .error e := by
  induction l with
  | nil => cases h
  | cons a l ih =>
    rcases mapM_cons_eq_error_iff.1 h with ha | ⟨-, hl⟩
    · exact ⟨a, List.mem_cons_self .., ha⟩
    · obtain ⟨a', ha', heq⟩ := ih hl
      exact ⟨a', List.mem_cons_of_mem _ ha', heq⟩

/-- If all values have the right shape, then a builder fails only because of a text that it
checks. -/
theorem Builder.exists_checked_of_error {o : BuildOptions} {t : Template} {b : Builder}
    (hb : t.toBuilder o = .ok b) {params : Params} {e : BuildError}
    (hsuits : ∀ p ∈ t.params, p.Suits (params.get? p.name)) (h : b.build params = .error e) :
    ∃ p ∈ t.params, ∃ check v y, Template.segment o ⟨t.delimiter, o.loose⟩ (.param p) =
        .ok (.param p check) ∧ params.get? p.name = some v ∧ y ∈ p.checkedTexts o.encode v ∧
      (Segment.accepts check y = .ok false ∨ Segment.accepts check y = .error e) := by
  obtain ⟨hsegments, hencode⟩ := segments_of_toBuilder hb
  obtain ⟨s, hs, hbuild⟩ : ∃ s ∈ b.segments, s.build o.encode params = .error e := by
    cases hmap : b.segments.mapM (Segment.build b.encode params) with
    | ok xs => simp [build, hmap, Except.map] at h
    | error e' =>
      simp only [build, hmap, Except.map, Except.error.injEq] at h
      subst h
      exact hencode ▸ exists_of_mapM_eq_error hmap
  obtain ⟨i, hi, rfl⟩ := List.getElem_of_mem hs
  obtain ⟨hlen, hget⟩ := List.forall₂_iff_get.1 hsegments
  have hpart : t.parts[i] ∈ t.parts := List.getElem_mem (hlen ▸ hi)
  have hsegment := hget i (hlen ▸ hi) hi
  simp only [List.get_eq_getElem] at hsegment
  generalize t.parts[i] = part at hpart hsegment
  generalize b.segments[i] = s at hbuild hsegment
  cases part with
  | text x =>
    cases hsegment
    cases hbuild
  | param p =>
    obtain ⟨check, rfl⟩ := Segment.exists_of_param? (Template.param?_segment hsegment)
    have hp : p.isCapturing = true → p ∈ t.params := fun hc => mem_paramsOf.2 ⟨hpart, hc⟩
    obtain ⟨hc, v, hv, y, hy, hacc⟩ := Segment.exists_checked_of_error (fun hc => hsuits p (hp hc))
      hbuild
    exact ⟨p, hp hc, check, v, y, hsegment, hv, hy, hacc⟩

/-! ### the shape of what is found -/

namespace Path

/-- A matcher gives values to capturing parameters only, to all of those that are not optional, to
those that repeat as a sequence that is not empty, and to the others as a single text. So a builder
that checks nothing can write them. -/
theorem shape_of_run {mo : MatchOptions} {path : Path} {t : Template} {m : Matcher} {u : Text}
    {f : Found} (hpath : path.resolve mo.expression.parse = .ok (.inl t))
    (hnames : (t.params.map Param.name).Nodup)
    (hpatterns :
      ∀ p ∈ t.params, p.pattern = none ∨ p.pattern = some (Expression.stretch t.delimiter))
    (hm : path.matcher mo = .ok m) (h : m.run u = .ok (some f)) :
    (∀ n, f.get? n ≠ none → ∃ p ∈ t.params, p.name = n) ∧
    (∀ p ∈ t.params, (p.modifier = none ∨ p.modifier = some .oneOrMore → f.get? p.name ≠ none) ∧
      ∀ v, f.get? p.name = some v →
        if p.isRepeating then ∃ ts, v = .multiple ts ∧ ts ≠ [] else ∃ x, v = .single x) ∧
    ∀ bo b, bo.validate = false → path.resolve bo.parse = .ok (.inl t) → path.builder bo = .ok b →
      ∃ u', b.build f.params = .ok u' := by
  obtain ⟨hkeys, hvalues⟩ := values_of_run hpath hnames
    (fun p hp => Param.hasPattern_of_wildcard (hpatterns p hp)) hm h
  have hsuits : ∀ p ∈ t.params, p.Suits (f.get? p.name) := by
    intro p hp
    rcases hvalues p hp with ⟨hnone, hopt⟩ | ⟨v, hv, hyields⟩
    · rw [hnone]
      exact hopt
    · rw [hv]
      exact hyields.suits
  refine ⟨hkeys, fun p hp => ⟨fun hmodifier hnone => ?_, fun v hv => ?_⟩,
    fun bo b hvalidate hbpath hb => ?_⟩
  · have hopt := hsuits p hp
    rw [hnone] at hopt
    rcases hmodifier with
      hmod | hmod <;> simp [Param.Suits, Param.isOptional, hmod, Modifier.isOptional] at hopt
  · have hshape := hsuits p hp
    rw [hv] at hshape
    cases v with
    | single x =>
      rw [if_neg (by simpa [Param.Suits] using hshape)]
      exact ⟨x, rfl⟩
    | multiple ts =>
      rw [if_pos hshape.1]
      exact ⟨ts, rfl, hshape.2⟩
  · -- a builder that checks nothing has no reason to fail
    simp only [builder, hbpath] at hb
    cases hbuild : b.build f.params with
    | ok u' => exact ⟨u', rfl⟩
    | error e =>
      obtain ⟨p, hp, check, -, y, hsegment, -, -, hacc⟩ :=
        Builder.exists_checked_of_error (lift_eq_ok_iff.1 hb) hsuits hbuild
      rcases (Template.segment_param_eq_ok_iff (mem_paramsOf.1 hp).2).1 hsegment with
        ⟨-, ⟨⟩⟩ | ⟨e, -, hchecked, -⟩
      · rcases hacc with hacc | hacc <;> cases hacc
      · simp [hvalidate] at hchecked

theorem shape_of_run_rest :
    ∃ m b f u, (pattern "/:lang\x7b-:region\x7d?\x7b/:rest\x7d+".toList).matcher {} = .ok m ∧
      (pattern "/:lang\x7b-:region\x7d?\x7b/:rest\x7d+".toList).builder { validate := false } =
        .ok b ∧ m.run "/en/a//b%20c/".toList = .ok (some f) ∧ f.get? "rest".toList ≠ none ∧
      b.build f.params = .ok u := by
  have hparse : Path.parse {} "/:lang\x7b-:region\x7d?\x7b/:rest\x7d+".toList =
      .ok ⟨[.text ['/'], .param { name := "lang".toList },
            .param { name := "region".toList, before := ['-'], modifier := some .optional },
            .param { name := "rest".toList, before := ['/'], modifier := some .oneOrMore,
                     separator := some ['/'] }], ['/']⟩ := by
    cbv
  obtain ⟨m, hm⟩ := exists_ok_of_isSome
    (x := (pattern "/:lang\x7b-:region\x7d?\x7b/:rest\x7d+".toList).matcher {}) (by decide +kernel)
  obtain ⟨b, hb⟩ := exists_ok_of_isSome
    (x := (pattern "/:lang\x7b-:region\x7d?\x7b/:rest\x7d+".toList).builder { validate := false })
    (by decide +kernel)
  obtain ⟨f, hf⟩ : ∃ f, m.run "/en/a//b%20c/".toList = .ok (some f) :=
    exists_ok_some_of_bind (Matcher.run · "/en/a//b%20c/".toList) hm (by decide +kernel)
  obtain ⟨-, hshape, hbuilds⟩ := shape_of_run (resolve_pattern hparse) (by decide +kernel)
    (by decide +kernel) hm hf
  let rest : Param :=
    { name := "rest".toList, before := ['/'], modifier := some .oneOrMore, separator := some ['/'] }
  have hrest := (hshape rest
    (by simp [Template.params, Template.allParams, Part.param?, Param.isCapturing, rest])).1
    (.inr rfl)
  obtain ⟨u, hu⟩ := hbuilds _ b rfl (resolve_pattern hparse) hb
  exact ⟨m, b, f, u, hm, hb, hf, hrest, hu⟩

end Path

end

end PathTemplate
