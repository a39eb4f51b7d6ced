import PathTemplate.Proofs.Matcher
import PathTemplate.Proofs.Readable

/-!
# Groups and parameters

The groups of the expression of a template belong to its parameters, one each, unless a pattern that
is written out has groups of its own.

* `Param.Holds`, `Template.Lays` — between two places there are a parameter, or parts, as captures
  say;
* `Template.lays_of_sense`, `Template.Lays.exists_sense` — what parts match is laid out by what
  their groups have captured;
* `Template.Splits` — so is a match of the whole template;
* `Path.groups_of_hasPattern` — there is a group for each parameter, and what it captures is a
  value of that parameter.
-/

namespace PathTemplate

open Expression (Literal)

variable {l : Literal} {ic : Bool} {σ : Text → Sense} {g : Nat} {a b : Cursor} {w : Captures}
  {parts : List Part}

/-- Between two places there is what a parameter stands for: the span of its capture has a value or
all values of it, with the texts before and after them. -/
def Param.Holds (l : Literal) (ic : Bool) (σ : Text → Sense) (p : Param) (capture : Option Span)
    (a b : Cursor) : Prop :=
  if p.isCapturing then
    match capture with
    | some s =>
      l.sense ic p.before a s.start [] ∧ p.valuesSense l ic σ s.start s.stop [] ∧
        l.sense ic p.after s.stop b []
    | none => p.isOptional = true ∧ b = a
  else p.sense l ic σ 0 a b []

/-- Between two places there are the parts, by the captures of their groups; `g` groups are before
them. -/
def Template.Lays (l : Literal) (ic : Bool) (σ : Text → Sense) (get : Nat → Option Span) :
    (g : Nat) → List Part → Cursor → Cursor → Prop
  | _, [], a, b => b = a
  | g, .text t :: rest, a, b => ∃ c, l.sense ic t a c [] ∧ Lays l ic σ get g rest c b
  | g, .param p :: rest, a, b =>
    ∃ c, p.Holds l ic σ (get (g + 1)) a c ∧ Lays l ic σ get (g + p.groups) rest c b

/-- A group of literal text is the same whatever groups are before it. -/
theorem Param.innerSense_of_text {p : Param} (hc : p.isCapturing = false) :
    p.innerSense l ic σ g = (l.sense ic p.before).seq (l.sense ic p.after) := by
  simp [innerSense, hc]

theorem Param.isSilent_sense_of_text {p : Param} (hc : p.isCapturing = false) :
    (p.sense l ic σ g).IsSilent := by
  rw [sense, innerSense_of_text hc]
  exact ((l.isSilent_sense ic p.before).seq (l.isSilent_sense ic p.after)).modified p.occurrence

theorem Param.holds_of_sense {p : Param}
    (hσ : p.isCapturing = true → ∀ x, p.pattern = some x → (σ x).IsSilent)
    (h : p.sense l ic σ g a b w) :
    p.Holds l ic σ (Captures.get? w (g + 1)) a b ∧ Captures.Within g (g + p.groups) w := by
  cases hc : p.isCapturing with
  | false =>
    obtain ⟨rfl, -⟩ := isSilent_sense_of_text hc _ _ _ h
    refine ⟨?_, Captures.within_nil g _⟩
    simp only [Holds, hc, Bool.false_eq_true, if_false]
    rwa [sense, innerSense_of_text hc] at h ⊢
  | true =>
    have hgroups : p.groups = 1 := by simp [groups, hc]
    have hinner : ∀ {w}, p.innerSense l ic σ g a b w →
        ∃ s, w = [(g + 1, some s)] ∧ p.Holds l ic σ (some s) a b := by
      intro w hw
      simp only [innerSense, hc, if_true] at hw
      obtain ⟨r, u, v, hu, ⟨r', u', v', ⟨x, hx, rfl⟩, hv, rfl⟩, rfl⟩ := hw
      obtain ⟨rfl, -⟩ := l.isSilent_sense ic p.before _ _ _ hu
      obtain ⟨rfl, -⟩ := l.isSilent_sense ic p.after _ _ _ hv
      obtain ⟨rfl, -⟩ := isSilent_valuesSense (hσ hc) _ _ _ hx
      refine ⟨⟨r, r'⟩, rfl, ?_⟩
      simp only [Holds, hc, if_true]
      exact ⟨hu, hx, hv⟩
    have hcaptured : (∃ s, w = [(g + 1, some s)] ∧ p.Holds l ic σ (some s) a b) →
        p.Holds l ic σ (Captures.get? w (g + 1)) a b ∧ Captures.Within g (g + p.groups) w := by
      rintro ⟨s, rfl, hs⟩
      rw [hgroups]
      exact ⟨by simpa [Captures.get?] using hs, Captures.within_singleton g _⟩
    rw [sense, occurrence_of_isCapturing hc] at h
    split at h
    · rename_i hopt
      rcases Sense.optional_iff.1 h with ⟨rfl, rfl⟩ | h
      · exact ⟨by simp [Holds, hc, hopt, Captures.get?], Captures.within_nil g _⟩
      · exact hcaptured (hinner h)
    · exact hcaptured (hinner h)

theorem Param.Holds.exists_sense {p : Param} {capture : Option Span}
    (h : p.Holds l ic σ capture a b) (g : Nat) : ∃ w, p.sense l ic σ g a b w := by
  cases hc : p.isCapturing with
  | false =>
    simp only [Holds, hc, Bool.false_eq_true, if_false, sense, innerSense_of_text hc] at h
    rw [sense, innerSense_of_text hc]
    exact ⟨[], h⟩
  | true =>
    simp only [Holds, hc, if_true] at h
    cases capture with
    | none =>
      obtain ⟨hopt, rfl⟩ := h
      exact ⟨[], sense_of_isOptional hopt b⟩
    | some s =>
      obtain ⟨hbefore, hvalue, hafter⟩ := h
      have hinner : p.innerSense l ic σ g a b [(g + 1, some s)] := by
        rw [innerSense, if_pos hc]
        exact ⟨s.start, [], _, hbefore,
          ⟨s.stop, [(g + 1, some s)], [], ⟨[], hvalue, rfl⟩, hafter, rfl⟩, rfl⟩
      exact ⟨_, sense_of_inner hinner⟩

namespace Template

theorem Lays.congr {get get' : Nat → Option Span} (h : Lays l ic σ get g parts a b)
    (heq : ∀ i, g < i → get' i = get i) : Lays l ic σ get' g parts a b := by
  induction parts generalizing g a with
  | nil => exact h
  | cons part parts ih =>
    cases part with
    | text t =>
      obtain ⟨c, ht, h⟩ := h
      exact ⟨c, ht, ih h heq⟩
    | param p =>
      obtain ⟨c, hp, h⟩ := h
      exact ⟨c, by rwa [heq (g + 1) (Nat.lt_succ_self g)], ih h fun i hi => heq i (by omega)⟩

/-- What parts match is laid out by what their groups have captured. -/
theorem lays_of_sense
    (hσ : ∀ p, .param p ∈ parts → p.isCapturing = true → ∀ x, p.pattern = some x → (σ x).IsSilent)
    (h : sense l ic σ g parts a b w) :
    Lays l ic σ (Captures.get? w) g parts a b ∧ Captures.Within g (g + groups parts) w := by
  induction parts generalizing g a w with
  | nil =>
    obtain ⟨rfl, rfl⟩ := h
    exact ⟨rfl, Captures.within_nil g _⟩
  | cons part parts ih =>
    have hσ' :
        ∀ p, .param p ∈ parts → p.isCapturing = true → ∀ x, p.pattern = some x → (σ x).IsSilent :=
      fun p hp => hσ p (List.mem_cons_of_mem _ hp)
    cases part with
    | text t =>
      obtain ⟨c, u, v, hu, hv, rfl⟩ := h
      obtain ⟨rfl, -⟩ := l.isSilent_sense ic t _ _ _ hu
      obtain ⟨hlays, hwithin⟩ := ih hσ' hv
      rw [List.append_nil, groups_text]
      exact ⟨⟨c, hu, hlays⟩, hwithin⟩
    | param p =>
      obtain ⟨c, u, v, hu, hv, rfl⟩ := h
      obtain ⟨hholds, hwithin⟩ := p.holds_of_sense (hσ p (List.mem_cons_self ..)) hu
      obtain ⟨hlays, hwithin'⟩ := ih hσ' hv
      rw [groups_param, ← Nat.add_assoc]
      refine ⟨⟨c, ?_, hlays.congr fun i hi => hwithin.get?_append_left (by omega)⟩,
        hwithin.append hwithin' (by omega) (by omega)⟩
      cases hc : p.isCapturing with
      | false => simpa [Param.Holds, hc] using hholds
      | true =>
        have hgroups : p.groups = 1 := by simp [Param.groups, hc]
        rwa [hwithin'.get?_append_right (by omega)]

theorem Lays.exists_sense {get : Nat → Option Span} (h : Lays l ic σ get g parts a b) :
    ∃ w, sense l ic σ g parts a b w := by
  induction parts generalizing g a with
  | nil => exact ⟨[], h, rfl⟩
  | cons part parts ih =>
    cases part with
    | text t =>
      obtain ⟨c, ht, h⟩ := h
      obtain ⟨w, hw⟩ := ih h
      exact ⟨_, c, [], w, ht, hw, rfl⟩
    | param p =>
      obtain ⟨c, hp, h⟩ := h
      obtain ⟨u, hu⟩ := hp.exists_sense g
      obtain ⟨w, hw⟩ := ih h
      exact ⟨_, c, u, w, hu, hw, rfl⟩

end Template

theorem Param.HasPattern.isSilent {D x : Text} {p : Param} (hD : D ≠ []) (hp : p.HasPattern ic D)
    (hx : p.pattern = some x) : (Expression.patternSense ic x).IsSilent := by
  rcases hp x hx with rfl | h
  · rw [Expression.patternSense_stretch ic hD]
    exact Sense.isSilent_stretch ic D
  · exact Expression.isSilent_patternSense h

/-- The parts of a template, and what may follow them, are laid out between two places. -/
def Template.Splits (o : ExpressionOptions) (t : Template) (get : Nat → Option Span)
    (a d : Cursor) : Prop :=
  (o.start = true → a.before = []) ∧ ∃ b c,
    Lays ⟨t.delimiter, o.loose⟩ (!o.sensitive) (Expression.patternSense (!o.sensitive)) get 0
    t.parts a b ∧
    tailSense ⟨t.delimiter, o.loose⟩ (!o.sensitive) o.trailing b c [] ∧
    endSense t.delimiter (!o.sensitive) o.finish c d []

/-- What a template matches is split by the captures, all of which are those of its parameters. -/
theorem Template.splits_of_pathSense {o : ExpressionOptions} {t : Template} (hD : t.delimiter ≠ [])
    (hpattern : ∀ p ∈ t.params, p.HasPattern (!o.sensitive) t.delimiter)
    (h : t.pathSense o (Expression.patternSense (!o.sensitive)) a b w) :
    t.Splits o (Captures.get? w) a b ∧ Captures.Within 0 t.params.length w := by
  obtain ⟨a', u₀, u₁, hhead, ⟨b', v₀, v₁, hparts, ⟨c, w₀, w₁, htail, hend, rfl⟩, rfl⟩, rfl⟩ := h
  obtain ⟨rfl, rfl, hstart⟩ : a' = a ∧ u₀ = [] ∧ (o.start = true → a.before = []) := by
    cases hs : o.start <;> rw [hs] at hhead
    · exact ⟨hhead.1, hhead.2, by simp⟩
    · exact ⟨hhead.2.1, hhead.2.2, fun _ => by simpa [Assertion.holds] using hhead.1⟩
  obtain ⟨rfl, -⟩ := isSilent_tailSense _ _ _ _ _ _ htail
  obtain ⟨rfl, -⟩ := isSilent_endSense _ _ _ _ _ _ hend
  obtain ⟨hlays, hwithin⟩ := lays_of_sense (fun p hp hc x hx =>
    (hpattern p (mem_paramsOf.2 ⟨hp, hc⟩)).isSilent hD hx) hparts
  rw [Nat.zero_add, groups_eq_length] at hwithin
  simp only [List.nil_append, List.append_nil]
  exact ⟨⟨hstart, b', c, hlays, htail, hend⟩, hwithin⟩

theorem Template.Splits.exists_pathSense {o : ExpressionOptions} {t : Template}
    {get : Nat → Option Span} (h : t.Splits o get a b) :
    ∃ w, t.pathSense o (Expression.patternSense (!o.sensitive)) a b w := by
  obtain ⟨hstart, b', c, hlays, htail, hend⟩ := h
  obtain ⟨w, hw⟩ := hlays.exists_sense
  refine ⟨_, a, [], _, ?_, ⟨b', w, _, hw, ⟨c, [], [], htail, hend, rfl⟩, rfl⟩, rfl⟩
  cases hs : o.start with
  | true => exact ⟨by simp [Assertion.holds, hstart hs], rfl, rfl⟩
  | false => exact ⟨rfl, rfl⟩

namespace Path

/-- There is a group for each parameter, and its capture is where the parameter has its value. -/
theorem groups_of_hasPattern {o : ExpressionOptions} {path : Path} {t : Template}
    {e : PathExpression} (hpath : path.resolve o.parse = .ok (.inl t))
    (hpattern : ∀ p ∈ t.params, p.HasPattern (!o.sensitive) t.delimiter)
    (he : path.expression o = .ok e) :
    e.keys = t.params ∧ e.expression.groups = e.keys.length ∧
    (∀ u m, e.expression.find u = .found m →
      t.Splits o m.finish.capture? m.start m.finish.pos ∧
        ∀ i, e.keys.length < i → m.finish.capture? i = none) ∧
    ∀ decode matcher u f, path.matcher ⟨o, decode⟩ = .ok matcher → matcher.run u = .ok (some f) →
      ∃ m es, e.expression.find u = .found m ∧ f.params = .ofList es ∧
        Matcher.Collects decode m.finish.capture? 0 (e.keys.zip matcher.separators) es := by
  have hD := delimiter_ne_nil hpath
  simp only [expression, hpath, lift_eq_ok_iff] at he
  obtain ⟨hkeys, -, hgroups, hregular, hlinear, hmatches⟩ := t.toExpression_spec hD hpattern he
  refine ⟨hkeys, by rw [hgroups, hkeys], fun u m hfind => ?_, fun decode matcher u f hm hrun => ?_⟩
  · -- the captures are those of a match
    obtain ⟨w, hw, hc⟩ := ((Expression.search_spec hregular _).1 m hfind).captures hlinear
    rw [hmatches] at hw
    obtain ⟨hsplits, hwithin⟩ := Template.splits_of_pathSense hD hpattern hw
    rw [show m.finish.capture? = Captures.get? w from funext hc]
    refine ⟨hsplits, fun i hi => ?_⟩
    have hnone : w.lookup i = none := by
      by_contra h
      rw [hkeys] at hi
      exact absurd (hwithin i h).2 (Nat.not_le_of_lt hi)
    rw [Captures.get?, hnone]
    rfl
  · -- the matcher has this expression, and collects from its captures
    simp only [Path.matcher, hpath, he] at hm
    obtain ⟨separators, rfl, -⟩ := Matcher.exists_separators (lift_eq_ok_iff.1 hm)
    obtain ⟨m, hfind⟩ := Matcher.exists_find_of_run hrun
    simp only [Matcher.run, PathExpression.find, hfind] at hrun
    obtain ⟨params, hcollect, heq⟩ := exists_of_map_eq_ok hrun
    obtain ⟨es, hes, rfl⟩ := Matcher.exists_collects (g := 0) hcollect
    cases heq
    exact ⟨m, es, hfind, rfl, hes⟩

theorem groups_of_hasPattern_years :
    ∃ e m, (pattern "/:from(\\d+)\x7b-:to(\\d+)\x7d?".toList).expression {} = .ok e ∧
      e.expression.groups = e.keys.length ∧ e.expression.find "/1999-2001".toList = .found m ∧
      m.finish.capture? 3 = none := by
  have hparse : Path.parse {} "/:from(\\d+)\x7b-:to(\\d+)\x7d?".toList =
      .ok ⟨[.text ['/'], .param { name := "from".toList, pattern := some "\\d+".toList },
            .param { name := "to".toList, before := ['-'], pattern := some "\\d+".toList,
                     modifier := some .optional }], ['/']⟩ := by
    cbv
  obtain ⟨e, he⟩ := exists_ok_of_isSome
    (x := (pattern "/:from(\\d+)\x7b-:to(\\d+)\x7d?".toList).expression {}) (by decide +kernel)
  obtain ⟨hkeys, hgroups, hfound, -⟩ := groups_of_hasPattern (o := {}) (resolve_pattern hparse)
    (by
      intro p hp x hx
      refine .inr ?_
      have hpatterns : ∀ p ∈ [({ name := "from".toList, pattern := some "\\d+".toList } : Param),
            { name := "to".toList, before := ['-'], pattern := some "\\d+".toList,
              modifier := some .optional }], p.pattern = some "\\d+".toList := by
        simp
      rw [hpatterns p hp] at hx
      cases hx
      decide +kernel) he
  obtain ⟨m, hm⟩ : ∃ m, e.expression.find "/1999-2001".toList = .found m := by
    obtain ⟨m, hm⟩ : ∃ m, e.find "/1999-2001".toList = .ok (some m) :=
      exists_ok_some_of_bind (PathExpression.find · "/1999-2001".toList) he (by decide +kernel)
    exact ⟨m, PathExpression.find_eq_ok_some_iff.1 hm⟩
  exact ⟨e, m, he, hgroups, hm, (hfound _ m hm).2 3 (by rw [hkeys]; decide)⟩

/-- A pattern that captures takes the group of the next parameter. -/
theorem groups_ne_of_capturing :
    ∃ e m f, (template ⟨[.param { name := ['x'], pattern := some "(a)b".toList }, .text ['/'],
              .param { name := ['y'] }], ['/']⟩).expression {} = .ok e ∧ e.keys.length = 2 ∧
      e.expression.groups = 3 ∧
      (template ⟨[.param { name := ['x'], pattern := some "(a)b".toList }, .text ['/'],
              .param { name := ['y'] }], ['/']⟩).matcher {} = .ok m ∧
      m.run "ab/c".toList = .ok (some f) ∧ f.get? ['y'] = some (.single ['a']) := by
  let t : Template :=
    ⟨[.param { name := ['x'], pattern := some "(a)b".toList }, .text ['/'],
        .param { name := ['y'] }], ['/']⟩
  obtain ⟨e, he⟩ := exists_ok_of_isSome (x := (template t).expression {}) (by decide +kernel)
  obtain ⟨m, hm⟩ := exists_ok_of_isSome (x := (template t).matcher {}) (by decide +kernel)
  have hkeys : e.keys.length = 2 := eq_of_map (fun e => e.keys.length) he (by decide +kernel)
  have hgroups : e.expression.groups = 3 :=
    eq_of_map (fun e => e.expression.groups) he (by decide +kernel)
  obtain ⟨f, hf, hy⟩ :
      ∃ f, m.run "ab/c".toList = .ok (some f) ∧ f.get? ['y'] = some (.single ['a']) :=
    exists_ok_some_of_bind_eq (Matcher.run · "ab/c".toList) hm (by decide +kernel)
  exact ⟨e, m, f, he, hkeys, hgroups, hm, hf, hy⟩

end Path

end PathTemplate
