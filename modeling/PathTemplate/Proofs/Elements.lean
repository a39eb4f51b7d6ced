import PathTemplate.Proofs.Accept

/-!
# The elements of matched sequences

The values of a repeated parameter are split at its separator, whatever the expression took for
separators. Both are the same if the separator shows where it is: if it has a delimiter in it, or a
line break, for neither of them is in a value.

* `Param.IsMarked` — the separator of a parameter has a delimiter or a line break in it;
* `Param.spaced_of_valuesSense` — the values of a capture, none of them empty, have such
  separators between them;
* `Param.Yields.ne_nil` — a capture is split into these values;
* `Path.elements_of_run` — no element of a sequence that is found is empty.
-/

namespace PathTemplate

open Expression (Literal)

/-- The separator of the parameter has a delimiter in it, or a line break. -/
def Param.IsMarked (ic : Bool) (D : Text) (p : Param) : Prop :=
  Occurs ic D p.between ∨ '\n' ∈ p.between

section

variable {ic : Bool} {l : Literal} {p : Param} {a b c : Cursor} {w : Captures} {σ : Text → Sense}
  {M : Text → Prop} {n : Nat} {S : Sense} {D x : Text} {ts : List Text}

theorem isAlone_newline : IsAlone '\n' := isAlone_of_isCaseless rfl

/-- A value without a pattern is without marks, whether these are delimiters or line breaks. -/
def IsForeign (ic : Bool) (D : Text) (M : Text → Prop) : Prop :=
  ∀ v rest, '\n' ∉ v → Avoids ic D v rest → Unmarked M v rest

theorem spaced_of_iterates (hM : IsForeign ic D M) (hS : S.IsSilent)
    (h : Iterates (S.seq (.stretch ic D)) n c b w) (hx : x ≠ []) (hmarks : Unmarked M x c.after)
    (hc : a.Takes x c) : ∃ xs, Spaced M S x xs a b := by
  induction n generalizing a c w x with
  | zero =>
    obtain ⟨rfl, -⟩ := h
    exact ⟨[], hx, hmarks, hc⟩
  | succ n ih =>
    obtain ⟨r, _, _, ⟨c', _, _, hs, hv, -⟩, h, -⟩ := h
    obtain ⟨rfl, -⟩ := hS _ _ _ hs
    obtain ⟨-, y, hy, hr, hline, havoids⟩ := Sense.stretch_iff.1 hv
    obtain ⟨ys, hys⟩ := ih h hy (hM y _ hline havoids) hr
    exact ⟨y :: ys, c, c', hx, hmarks, hc, hs, hys⟩

/-- The values of a parameter that repeats are put together with its separator. -/
theorem Param.spaced_of_valuesSense (hM : IsForeign ic l.delimiter M)
    (hvalue : p.valueSense l ic σ = .stretch ic l.delimiter) (hr : p.isRepeating = true)
    (h : p.valuesSense l ic σ a b w) : ∃ x xs, Spaced M (l.sense ic p.between) x xs a b := by
  rw [valuesSense, if_pos hr, hvalue] at h
  obtain ⟨c, _, _, hx, ⟨n, -, h⟩, -⟩ := h
  obtain ⟨-, x, hx, hc, hline, havoids⟩ := Sense.stretch_iff.1 hx
  exact ⟨x, spaced_of_iterates hM (l.isSilent_sense ic p.between) h hx (hM x _ hline havoids) hc⟩

/-- A marked separator is marked by something that is not in a value. -/
theorem Param.IsMarked.exists_marks (hD : l.delimiter ≠ []) (h : p.IsMarked ic l.delimiter) :
    ∃ E k, (l.sense ic p.between).Marks (Begins ic E) k ∧
      IsForeign ic l.delimiter (Begins ic E) := by
  by_cases hoccurs : Occurs ic l.delimiter p.between
  · obtain ⟨k, hk⟩ := l.marks_begins hD hoccurs (.inl rfl)
    exact ⟨_, k, hk, fun _ _ _ havoids => havoids⟩
  · obtain ⟨x, s, hx⟩ := List.append_of_mem (h.resolve_left hoccurs)
    have hnewline : Occurs ic ['\n'] p.between :=
      ⟨x, '\n' :: s, hx, (begins_delimiter_iff isAlone_newline).2 ⟨s, rfl⟩⟩
    obtain ⟨k, hk⟩ := l.marks_begins (by simp) hnewline (.inr hoccurs)
    exact ⟨_, k, hk, fun _ _ hline _ => (avoids_delimiter_iff isAlone_newline).2 hline⟩

theorem Param.Yields.ne_nil (hD : l.delimiter ≠ []) (hc : p.isCapturing = true)
    (hvalue : p.valueSense l ic σ = .stretch ic l.delimiter)
    (hmarked : p.isRepeating = true → p.IsMarked ic l.delimiter) {flags : Flags}
    (hflags : flags.sensitive = !ic) (h : p.Yields l ic σ flags none (.multiple ts)) :
    ∀ x ∈ ts, x ≠ [] := by
  obtain ⟨hr, -⟩ : p.isRepeating = true ∧ ts ≠ [] := h.suits
  obtain ⟨s, a, b, separator, hholds, hs, hv⟩ := h
  simp only [Holds, hc, if_true] at hholds
  obtain ⟨-, hvalues, -⟩ := hholds
  obtain ⟨e, he, hregular, hm⟩ := Matcher.separator_eq hflags l hr
  rw [he] at hs
  cases hs
  -- the capture is split where its values have been put together
  obtain ⟨E, k, hS, hM⟩ := (hmarked hr).exists_marks hD
  obtain ⟨x, xs, hspaced⟩ := spaced_of_valuesSense hM hvalue hr hvalues
  obtain ⟨r, htakes, -⟩ := hspaced.takes hS
  have hmoved := hspaced.move (fun _ r h => h.append r) htakes (Cursor.start_takes_finish (x ++ r))
    rfl
  rw [show s.text = x ++ r from Span.text_eq htakes] at hv
  rcases Matcher.value_spaced hregular hm hS hmoved none with hgave | hok
  · rw [hgave] at hv
    cases hv
  · rw [hok] at hv
    cases hv
    simpa [recode] using hmoved.ne_nil

end

/-! ### what is collected -/

theorem Template.Lays.yields {l : Literal} {ic : Bool} {σ : Text → Sense} {g : Nat} {a b : Cursor}
    {parts : List Part} {flags : Flags} {decode : Option Codec} {get : Nat → Option Span}
    {separators : List (Option Expression)} {es : List (Text × ParamValue)}
    (h : Lays l ic σ get g parts a b)
    (hs : List.Forall₂ (fun p s => Matcher.separator flags l p = .ok s) (paramsOf parts) separators)
    (hes : Matcher.Collects decode get g ((paramsOf parts).zip separators) es) :
    ∀ e ∈ es, ∃ p ∈ paramsOf parts, p.name = e.1 ∧ p.Yields l ic σ flags decode e.2 := by
  induction parts generalizing g a separators es with
  | nil =>
    cases hs
    obtain rfl : es = [] := hes
    simp
  | cons part parts ih =>
    cases part with
    | text t =>
      obtain ⟨c, -, h⟩ := h
      exact ih h hs hes
    | param p =>
      obtain ⟨c, hp, h⟩ := h
      rw [paramsOf_param] at hs hes ⊢
      cases hc : p.isCapturing with
      | false =>
        rw [show p.groups = 0 by simp [Param.groups, hc]] at h
        simp only [hc, Bool.false_eq_true, if_false, List.nil_append] at hs hes ⊢
        exact ih h hs hes
      | true =>
        rw [show p.groups = 1 by simp [Param.groups, hc]] at h
        simp only [hc, if_true, List.singleton_append] at hs hes ⊢
        obtain _ | ⟨hseparator, hs⟩ := hs
        intro e he
        -- the value is that of this parameter, or of a later one
        rcases hes with ⟨-, hes⟩ | ⟨s, v, es, hcapture, hv, rfl, hes⟩
        · obtain ⟨q, hq, hyields⟩ := ih h hs hes e he
          exact ⟨q, List.mem_cons_of_mem _ hq, hyields⟩
        · rcases List.mem_cons.1 he with rfl | he
          · rw [hcapture] at hp
            exact ⟨p, List.mem_cons_self .., rfl, s, a, c, _, hp, hseparator, hv⟩
          · obtain ⟨q, hq, hyields⟩ := ih h hs hes e he
            exact ⟨q, List.mem_cons_of_mem _ hq, hyields⟩

/-! ### paths -/

namespace Path

/-- No element of a sequence that is found is empty, if the parameters of its name have a delimiter
or a line break in their separators. -/
theorem elements_of_run {mo : MatchOptions} {path : Path} {t : Template} {m : Matcher}
    {u name : Text} {f : Found} {ts : List Text}
    (hpath : path.resolve mo.expression.parse = .ok (.inl t))
    (hpatterns :
      ∀ p ∈ t.params, p.pattern = none ∨ p.pattern = some (Expression.stretch t.delimiter))
    (hdecode : mo.decode = none) (hm : path.matcher mo = .ok m) (h : m.run u = .ok (some f))
    (hts : f.get? name = some (.multiple ts))
    (hmarked : ∀ p ∈ t.params, p.name = name → p.isRepeating = true →
      p.IsMarked (!mo.expression.sensitive) t.delimiter) : ∀ v ∈ ts, v ≠ [] := by
  have hD := delimiter_ne_nil hpath
  have hpattern : ∀ p ∈ t.params, p.HasPattern (!mo.expression.sensitive) t.delimiter := fun p hp =>
    Param.hasPattern_of_wildcard (hpatterns p hp)
  obtain ⟨e, separators, he, rfl, hs⟩ := exists_of_matcher hpath hm
  obtain ⟨hkeys, hflags, -, hregular, hlinear, hmatches⟩ := t.toExpression_spec hD hpattern he
  obtain ⟨mt, es, hfind, rfl, hes⟩ := Matcher.exists_of_run h
  -- the parts are laid out by the captures of the match
  obtain ⟨w, hw, hc⟩ := ((Expression.search_spec hregular _).1 mt hfind).captures hlinear
  rw [hmatches] at hw
  obtain ⟨⟨-, b, c, hlays, -, -⟩, -⟩ := Template.splits_of_pathSense hD hpattern hw
  rw [hkeys, hdecode, show mt.finish.capture? = Captures.get? w from funext hc] at hes
  rw [hkeys, hflags] at hs
  obtain ⟨p, hp, hname, hyields⟩ := hlays.yields hs hes _ (Params.mem_of_get?_ofList hts)
  exact hyields.ne_nil hD (mem_paramsOf.1 hp).2
    (Param.valueSense_of_wildcard (l := ⟨t.delimiter, mo.expression.loose⟩) hD (hpatterns p hp))
    (hmarked p hp hname) (by simp [ExpressionOptions.flags])

theorem elements_of_run_colons :
    ∃ m f ts,
      (template ⟨[.param { name := "rest".toList, modifier := some .oneOrMore,
                           separator := some "-::".toList }], "::".toList⟩).matcher ⟨{}, none⟩ =
        .ok m ∧ m.run "a-::-b-::::c:".toList = .ok (some f) ∧
      f.get? "rest".toList = some (.multiple ts) ∧ ts = ["a".toList, "-b".toList, "c:".toList] ∧
      ∀ v ∈ ts, v ≠ [] := by
  let t : Template :=
    ⟨[.param { name := "rest".toList, modifier := some .oneOrMore,
               separator := some "-::".toList }], "::".toList⟩
  obtain ⟨m, hm⟩ := exists_ok_of_isSome (x := (template t).matcher ⟨{}, none⟩) (by decide +kernel)
  obtain ⟨f, hf, hts⟩ : ∃ f, m.run "a-::-b-::::c:".toList = .ok (some f) ∧
      f.get? "rest".toList = some (.multiple ["a".toList, "-b".toList, "c:".toList]) :=
    exists_ok_some_of_bind_eq (Matcher.run · "a-::-b-::::c:".toList) hm (by decide +kernel)
  refine ⟨m, f, _, hm, hf, hts, rfl,
    elements_of_run (t := t) rfl (by decide +kernel) rfl hm hf hts fun p hp _ _ => ?_⟩
  obtain rfl : p =
      { name := "rest".toList, modifier := some .oneOrMore, separator := some "-::".toList } := by
    simpa using (show p ∈ [_] from hp)
  exact .inl ⟨['-'], "::".toList, rfl, "::".toList, [], .refl _ _, rfl⟩

/-- A separator that may be a part of a value is found there, too. -/
theorem elements_of_run_ne_of_dashes :
    ∃ t m f, (pattern "\x7b:x;-\x7d+".toList).resolve {} = .ok (.inl t) ∧
      (∀ p ∈ t.params, p.pattern = none) ∧
      (pattern "\x7b:x;-\x7d+".toList).matcher ⟨{}, none⟩ = .ok m ∧
      m.run "a--b".toList = .ok (some f) ∧
      f.get? "x".toList = some (.multiple ["a".toList, [], "b".toList]) := by
  have hparse : Path.parse {} "\x7b:x;-\x7d+".toList =
      .ok ⟨[.param { name := "x".toList, modifier := some .oneOrMore, separator := some ['-'] }],
          ['/']⟩ := by
    cbv
  obtain ⟨m, hm⟩ := exists_ok_of_isSome (x := (pattern "\x7b:x;-\x7d+".toList).matcher ⟨{}, none⟩)
    (by decide +kernel)
  obtain ⟨f, hf, hx⟩ : ∃ f, m.run "a--b".toList = .ok (some f) ∧
      f.get? "x".toList = some (.multiple ["a".toList, [], "b".toList]) :=
    exists_ok_some_of_bind_eq (Matcher.run · "a--b".toList) hm (by decide +kernel)
  exact ⟨_, m, f, resolve_pattern hparse, by decide +kernel, hm, hf, hx⟩

end Path

end PathTemplate
