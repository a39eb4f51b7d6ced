import PathTemplate.Proofs.Segment.Split
import PathTemplate.Proofs.Shape

/-!
# What is matched is accepted

The values that a matcher finds pass the checks of a builder, if parameters have no patterns of
their own. `D` is the delimiter, one character with no other form.

* `ParamValue.IsOpen` — no text of a value has a delimiter in it;
* `Param.Yields.isOpen` — so it is for values of captures, however many there are;
* `Param.exists_checkSense` — such values have the sense that they are checked against;
* `Path.accepted_of_run` — a builder accepts what a matcher has found.
-/

namespace PathTemplate

open Expression (Literal)

/-- Every text of a value may stand for a parameter without a pattern of its own. -/
def ParamValue.IsOpen (D : Char) : ParamValue → Prop
  | single v => IsOpenValue D v
  | multiple vs => ∀ v ∈ vs, IsOpenValue D v

section

variable {ic : Bool} {D : Char} {l : Literal} {p : Param} {a b c : Cursor} {w : Captures}
  {σ : Text → Sense} {v : ParamValue}

/-! ### values of captures -/

/-- A wildcard stands for what a parameter without a pattern does. -/
theorem Param.valueSense_of_wildcard (hD : l.delimiter ≠ [])
    (hp : p.pattern = none ∨ p.pattern = some (Expression.stretch l.delimiter)) :
    p.valueSense l ic (Expression.patternSense ic) = .stretch ic l.delimiter := by
  rcases hp with hp | hp
  · simp [valueSense, hp]
  · simp [valueSense, hp, Expression.patternSense_stretch ic hD]

theorem strung_of_iterates (hD : IsAlone D) {S : Sense} (hS : S.IsSilent) {n : Nat} {x : Text}
    (h : Iterates (S.seq (.stretch ic [D])) n c b w) (hx : IsOpenValue D x) (hc : a.Takes x c) :
    ∃ xs, Strung S D x xs a b := by
  induction n generalizing a c w x with
  | zero =>
    obtain ⟨rfl, -⟩ := h
    exact ⟨[], hx, hc⟩
  | succ n ih =>
    obtain ⟨r, _, _, ⟨c', _, _, hs, hv, -⟩, h, -⟩ := h
    obtain ⟨rfl, -⟩ := hS _ _ _ hs
    obtain ⟨-, y, hy, hr⟩ := (stretch_delimiter_iff hD).1 hv
    obtain ⟨ys, hys⟩ := ih h hy hr
    exact ⟨y :: ys, hx, c, c', hc, hs, hys⟩

/-- The values of a parameter that repeats are put together with its separator. -/
theorem Param.strung_of_valuesSense (hl : l.delimiter = [D]) (hD : IsAlone D)
    (hvalue : p.valueSense l ic σ = .stretch ic l.delimiter) (hr : p.isRepeating = true)
    (h : p.valuesSense l ic σ a b w) : ∃ x xs, Strung (l.sense ic p.between) D x xs a b := by
  rw [valuesSense, if_pos hr, hvalue, hl] at h
  obtain ⟨c, _, _, hx, ⟨n, -, h⟩, -⟩ := h
  obtain ⟨-, x, hx, hc⟩ := (stretch_delimiter_iff hD).1 hx
  exact ⟨x, strung_of_iterates hD (l.isSilent_sense ic p.between) h hx hc⟩

theorem Param.Yields.isOpen (hl : l.delimiter = [D]) (hD : IsAlone D) (hc : p.isCapturing = true)
    (hvalue : p.valueSense l ic σ = .stretch ic l.delimiter)
    (hbetween : p.isRepeating = true → D ∈ p.between) {flags : Flags}
    (hflags : flags.sensitive = !ic) (h : p.Yields l ic σ flags none v) : v.IsOpen D := by
  obtain ⟨s, a, b, separator, hholds, hs, hv⟩ := h
  simp only [Holds, hc, if_true] at hholds
  obtain ⟨-, hvalues, -⟩ := hholds
  cases hr : p.isRepeating with
  | false =>
    rw [valuesSense, hr, if_neg (by simp), hvalue, hl] at hvalues
    obtain ⟨-, x, hx, htakes⟩ := (stretch_delimiter_iff hD).1 hvalues
    simp only [Matcher.separator, hr, Bool.not_false, if_true, Except.ok.injEq] at hs
    subst hs
    cases hv
    rwa [ParamValue.IsOpen, Span.text_eq htakes]
  | true =>
    obtain ⟨x, xs, hstrung⟩ := strung_of_valuesSense hl hD hvalue hr hvalues
    obtain ⟨e, he, hregular, hm⟩ := Matcher.separator_eq hflags l hr
    rw [he] at hs
    cases hs
    -- the capture is split where its values have been put together
    obtain ⟨k, hS⟩ : ∃ k, (l.sense ic p.between).Separates D k :=
      Literal.separates hl hD (hbetween hr)
    obtain ⟨r, htakes, -⟩ := hstrung.takes hD hS
    have htext : s.text = x ++ r := Span.text_eq htakes
    have hmoved := hstrung.move hl hD (hbetween hr) htakes (Cursor.start_takes_finish (x ++ r))
    rw [htext] at hv
    rcases Matcher.value_strung hD hregular hm hS hmoved none with hvalue | hvalue
    · rw [hvalue] at hv
      cases hv
    · rw [hvalue] at hv
      cases hv
      simpa [ParamValue.IsOpen, recode] using hmoved.isOpen

/-! ### checks -/

/-- A text with the sense of the expression that it is checked against is accepted, unless the
budget is spent. -/
theorem Segment.accepts_of_sense {e : Expression} {S : Sense} (hr : e.root.isRegular = true)
    (hm : e.root.Matches = Expression.wholly S) {t : Text} (h : S (.start t) (.finish t) w) :
    accepts (some e) t = .ok true ∨ accepts (some e) t = .error (.expression .gaveUp) := by
  cases hfind : e.find t with
  | found m => exact .inl (accepts_eq_true_iff.2 ⟨m, hfind⟩)
  | gaveUp => exact .inr (by simp [accepts, Expression.matchesIn, hfind])
  | none => exact absurd h (Expression.not_sense_of_none hr hm hfind w)

/-- Open values, with the texts around them, have the sense that they are checked against. -/
theorem Param.exists_checkSense (hl : l.delimiter = [D]) (hD : IsAlone D)
    (hc : p.isCapturing = true) (hvalue : p.valueSense l ic σ = .stretch ic l.delimiter)
    (hsuits : p.Suits (some v)) (hopen : v.IsOpen D) {y : Text} (hy : y ∈ p.checkedTexts none v) :
    ∃ w, p.checkSense l ic σ (.start y) (.finish y) w := by
  have hcase : l.loose = true → ∀ v, Alike ic l.delimiter v → v = l.delimiter := by
    rw [hl]
    exact fun _ v => (alike_delimiter_iff hD).1
  cases v with
  | single x =>
    replace hsuits : p.isRepeating = false := hsuits
    replace hopen : IsOpenValue D x := hopen
    obtain rfl : y = p.before ++ (x ++ p.after) := by simpa [checkedTexts, recode] using hy
    obtain ⟨r, hr, h⟩ := Cursor.takes_append_iff.1
      (Cursor.start_takes_finish (p.before ++ (x ++ p.after)))
    obtain ⟨r', hr', h⟩ := Cursor.takes_append_iff.1 h
    have hafter : r.after = x ++ r'.after := hr'.after
    have hbefore : l.sense ic p.before (.start _) r [] :=
      l.sense_self hcase (by
        rw [hl]
        exact undisturbed_of_isAlone hD fun _ _ => hafter ▸ hopen.head?_ne _) hr
    have hend : l.sense ic p.after r' (.finish _) [] :=
      l.sense_self hcase (by
        rw [hl]
        exact undisturbed_of_isAlone hD fun _ _ => by simp [Cursor.finish]) h
    have hvalues : p.valuesSense l ic σ r r' [] := by
      rw [valuesSense, hsuits, if_neg (by simp), hvalue, hl]
      exact (stretch_delimiter_iff hD).2 ⟨rfl, x, hopen, hr'⟩
    have hinner : p.innerSense l ic σ 0 (.start (p.before ++ (x ++ p.after)))
        (.finish (p.before ++ (x ++ p.after))) [(1, some ⟨r, r'⟩)] := by
      rw [innerSense, if_pos hc]
      exact ⟨r, [], _, hbefore, ⟨r', [(1, some ⟨r, r'⟩)], [], ⟨[], hvalues, rfl⟩, hend, rfl⟩, rfl⟩
    rw [checkSense, hsuits, if_neg (by simp)]
    exact ⟨_, sense_of_inner hinner⟩
  | multiple xs =>
    rw [checkSense, hsuits.1, if_pos rfl, hvalue, hl]
    have hmem : y ∈ xs := by simpa [checkedTexts, recode] using hy
    exact ⟨[], (stretch_delimiter_iff hD).2 ⟨rfl, y, hopen y hmem, Cursor.start_takes_finish y⟩⟩

end

/-! ### what a matcher finds -/

namespace Path

/-- The values that a matcher finds are accepted by a builder that checks them, unless its budget is
spent. -/
theorem accepted_of_run {mo : MatchOptions} {bo : BuildOptions} {path : Path} {t : Template}
    {D : Char} {m : Matcher} {b : Builder} {u : Text} {f : Found}
    (hmpath : path.resolve mo.expression.parse = .ok (.inl t))
    (hbpath : path.resolve bo.parse = .ok (.inl t)) (hnames : (t.params.map Param.name).Nodup)
    (hdelimiter : t.delimiter = [D]) (hD : IsAlone D)
    (hpatterns :
      ∀ p ∈ t.params, p.pattern = none ∨ p.pattern = some (Expression.stretch t.delimiter))
    (hbetween : ∀ p ∈ t.params, p.isRepeating = true → D ∈ p.between) (hdecode : mo.decode = none)
    (hvalidate : bo.validate = true) (hencode : bo.encode = none) (hm : path.matcher mo = .ok m)
    (hb : path.builder bo = .ok b) (h : m.run u = .ok (some f)) :
    b.build f.params = .error (.expression .gaveUp) ∨ ∃ u', b.build f.params = .ok u' := by
  have hne := delimiter_ne_nil hmpath
  have hcapturing : ∀ p ∈ t.params, p.isCapturing = true := fun p hp => (List.mem_filter.1 hp).2
  obtain ⟨-, hvalues⟩ := values_of_run hmpath hnames
    (fun p hp => Param.hasPattern_of_wildcard (hpatterns p hp)) hm h
  rw [hdecode] at hvalues
  have hsuits : ∀ p ∈ t.params, p.Suits (f.params.get? p.name) := by
    intro p hp
    rcases hvalues p hp with ⟨hnone, hopt⟩ | ⟨v, hv, hyields⟩
    · rw [show f.params.get? p.name = none from hnone]
      exact hopt
    · rw [show f.params.get? p.name = some v from hv]
      exact hyields.suits
  simp only [builder, hbpath, lift_eq_ok_iff] at hb
  cases hbuild : b.build f.params with
  | ok u' => exact .inr ⟨u', rfl⟩
  | error e =>
    -- only a check can have failed
    obtain ⟨p, hp, check, v, y, hsegment, hv, hy, hacc⟩ := Builder.exists_checked_of_error hb hsuits
      hbuild
    have hwildcard : ∀ ic, p.valueSense ⟨t.delimiter, bo.loose⟩ ic (Expression.patternSense ic) =
        .stretch ic t.delimiter :=
      fun ic => Param.valueSense_of_wildcard (l := ⟨t.delimiter, bo.loose⟩) hne (hpatterns p hp)
    obtain ⟨e', he', hregular, hmatches⟩ := Template.exists_segment (o := bo)
      (l := ⟨t.delimiter, bo.loose⟩) (σ := Expression.patternSense (!bo.sensitive)) hne
      (Template.readable_of_hasPattern false hne (hcapturing p hp)
        (Param.hasPattern_of_wildcard (hpatterns p hp)) fun hr hnil => by
        simpa [hnil] using hbetween p hp hr) (hcapturing p hp) hvalidate
    rw [he'] at hsegment
    cases hsegment
    -- but the value of a capture has what is checked
    obtain ⟨v', hv', hyields⟩ := (hvalues p hp).resolve_left fun hnone => by
      have hnone' : f.params.get? p.name = none := hnone.1
      rw [hv] at hnone'
      cases hnone'
    obtain rfl : v' = v := Option.some.inj (hv'.symm.trans hv)
    have hopen := hyields.isOpen (D := D) hdelimiter hD (hcapturing p hp)
      (Param.valueSense_of_wildcard (l := ⟨t.delimiter, mo.expression.loose⟩) hne (hpatterns p hp))
      (hbetween p hp) (by simp [ExpressionOptions.flags])
    rw [hencode] at hy
    obtain ⟨w, hw⟩ := Param.exists_checkSense (l := ⟨t.delimiter, bo.loose⟩) hdelimiter hD
      (hcapturing p hp) (hwildcard _) hyields.suits hopen hy
    left
    rcases Segment.accepts_of_sense hregular hmatches hw with hok | hgave
    · rcases hacc with hacc | hacc <;> simp [hok] at hacc
    · rcases hacc with hacc | hacc <;> rw [hgave] at hacc
      · cases hacc
      · cases hacc
        rfl

theorem accepted_of_run_rest :
    ∃ m b f u, (pattern "/:lang\x7b-:region\x7d?\x7b/:rest\x7d*".toList).matcher
          ⟨{ finish := false }, none⟩ = .ok m ∧
      (pattern "/:lang\x7b-:region\x7d?\x7b/:rest\x7d*".toList).builder
          { loose := false, encode := none } = .ok b ∧ m.run "/en-US/a///b/".toList = .ok (some f) ∧
      b.build f.params = .ok u := by
  have hparse : Path.parse {} "/:lang\x7b-:region\x7d?\x7b/:rest\x7d*".toList =
      .ok ⟨[.text ['/'], .param { name := "lang".toList },
            .param { name := "region".toList, before := ['-'], modifier := some .optional },
            .param { name := "rest".toList, before := ['/'], modifier := some .zeroOrMore,
                     separator := some ['/'] }], ['/']⟩ := by
    cbv
  obtain ⟨m, hm⟩ := exists_ok_of_isSome (x :=
      (pattern "/:lang\x7b-:region\x7d?\x7b/:rest\x7d*".toList).matcher ⟨{ finish := false }, none⟩)
    (by decide +kernel)
  obtain ⟨b, hb⟩ := exists_ok_of_isSome (x :=
      (pattern "/:lang\x7b-:region\x7d?\x7b/:rest\x7d*".toList).builder
        { loose := false, encode := none }) (by decide +kernel)
  -- what is found is written without the budget being spent
  have hbuilt : (((pattern "/:lang\x7b-:region\x7d?\x7b/:rest\x7d*".toList).matcher
    ⟨{ finish := false }, none⟩).toOption.bind
      fun m => (m.run "/en-US/a///b/".toList).toOption.join.bind fun f =>
        ((pattern "/:lang\x7b-:region\x7d?\x7b/:rest\x7d*".toList).builder
        { loose := false, encode := none }).toOption.bind
          fun b => (b.build f.params).toOption).isSome = true := by decide +kernel
  rw [hm, hb] at hbuilt
  change ((m.run "/en-US/a///b/".toList).toOption.join.bind fun f => (b.build
      f.params).toOption).isSome = true at hbuilt
  obtain ⟨u, hu⟩ := Option.isSome_iff_exists.1 hbuilt
  obtain ⟨f, hf, hu⟩ := Option.bind_eq_some_iff.1 hu
  replace hf := toOption_eq_some_iff.1 (Option.join_eq_some_iff.1 hf)
  rcases accepted_of_run (resolve_pattern hparse) (resolve_pattern hparse) (by decide +kernel) rfl
    (isAlone_of_isCaseless rfl) (by decide +kernel) (by decide +kernel) rfl rfl rfl hm hb hf with
    hgave | ⟨u', hu'⟩
  · rw [hgave] at hu
    cases hu
  · exact ⟨m, b, f, u', hm, hb, hf, hu'⟩

end Path

end PathTemplate
