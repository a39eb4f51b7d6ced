import PathTemplate.Path
import PathTemplate.Proofs.Builder
import PathTemplate.Proofs.Groups
import PathTemplate.Proofs.Separator

/-!
# Building what was matched

Where case counts, and where a run of delimiters is not as good as one of them, the values that are
found in a path are all that is needed to build it again.

* `Param.Covers`, `Template.Tiles` — what parameters and parts stand for, by the captures of a
  match;
* `Template.Lays.exists_tiles` — parts that are laid out tile what is matched;
* `Matcher.joins_of_value` — the value of a capture is joined again with the separator;
* `Template.built_of_tiles` — from the values of the captures, the builder writes what they stand
  for;
* `Path.build_match` — building with the values that are found in a path gives that path.
-/

namespace PathTemplate

open Expression (Literal Denotes wholly)

/-- The text `x` is what a parameter with this capture stands for. -/
def Param.Covers (p : Param) (capture : Option Span) (x : Text) : Prop :=
  if p.isCapturing then
    match capture with
    | some s => x = p.before ++ s.text ++ p.after
    | none => p.isOptional = true ∧ x = []
  else x = p.before ++ p.after

/-- The texts are what the parts stand for, by the captures of their groups; `g` groups are before
them. -/
def Template.Tiles (get : Nat → Option Span) : (g : Nat) → List Part → List Text → Prop
  | _, [], xs => xs = []
  | g, .text t :: rest, xs => ∃ ys, Tiles get g rest ys ∧ xs = t :: ys
  | g, .param p :: rest, xs =>
    ∃ x ys, p.Covers (get (g + 1)) x ∧ Tiles get (g + p.groups) rest ys ∧ xs = x :: ys

section

variable {D t u v : Text} {g : Nat} {a b c : Cursor} {w : Captures} {p : Param} {ic loose : Bool}
  {parts : List Part}

/-! ### what is matched is tiled -/

theorem exact_sense_iff : Literal.sense ⟨D, false⟩ false t a b w ↔ w = [] ∧ a.Takes t b := by
  simp [Literal.sense, Sense.text_iff, alike_false_iff]

/-- The sense of a stretch, whatever the pattern is. -/
def stretches (ic : Bool) (D : Text) : Text → Sense := fun _ => .stretch ic D

theorem Param.covers_of_holds (hp : p.isCapturing = false → p.modifier = none)
    {capture : Option Span} (h : p.Holds ⟨D, false⟩ false (stretches false D) capture a b) :
    ∃ x, a.Takes x b ∧ p.Covers capture x := by
  unfold Covers
  cases hc : p.isCapturing with
  | false =>
    have hsense : p.sense ⟨D, false⟩ false (stretches false D) 0 a b [] := by
      simpa [Holds, hc] using h
    simp only [sense, innerSense, occurrence, hc, hp hc] at hsense
    obtain ⟨r, u, v, hu, hv, -⟩ := hsense
    exact ⟨_, (exact_sense_iff.1 hu).2.trans (exact_sense_iff.1 hv).2, by simp⟩
  | true =>
    simp only [Holds, hc, if_true] at h
    cases capture with
    | none =>
      obtain ⟨hopt, rfl⟩ := h
      exact ⟨[], .refl b, hopt, rfl⟩
    | some s =>
      obtain ⟨hbefore, hvalue, hafter⟩ := h
      obtain ⟨-, y, hy⟩ := isSilent_valuesSense (fun x _ => Sense.isSilent_stretch false D) _ _ _
        hvalue
      refine ⟨p.before ++ s.text ++ p.after, ?_, rfl⟩
      rw [Span.text_eq hy]
      exact ((exact_sense_iff.1 hbefore).2.trans hy).trans (exact_sense_iff.1 hafter).2

theorem Template.Lays.exists_tiles {get : Nat → Option Span}
    (hparts : ∀ p, .param p ∈ parts → p.isCapturing = false → p.modifier = none)
    (h : Lays ⟨D, false⟩ false (stretches false D) get g parts a b) :
    ∃ xs, Tiles get g parts xs ∧ a.Takes xs.flatten b := by
  induction parts generalizing g a with
  | nil =>
    obtain rfl : b = a := h
    exact ⟨[], rfl, .refl b⟩
  | cons part parts ih =>
    have hparts' : ∀ p, .param p ∈ parts → p.isCapturing = false → p.modifier = none :=
      fun p hp => hparts p (List.mem_cons_of_mem _ hp)
    cases part with
    | text t =>
      obtain ⟨c, ht, h⟩ := h
      obtain ⟨xs, hxs, hb⟩ := ih hparts' h
      exact ⟨t :: xs, ⟨xs, hxs, rfl⟩, (exact_sense_iff.1 ht).2.trans hb⟩
    | param p =>
      obtain ⟨c, hp, h⟩ := h
      obtain ⟨x, hc, hx⟩ := p.covers_of_holds (hparts p (List.mem_cons_self ..)) hp
      obtain ⟨xs, hxs, hb⟩ := ih hparts' h
      exact ⟨x :: xs, ⟨x, xs, hx, hxs, rfl⟩, hc.trans hb⟩

/-! ### splitting and joining -/

theorem recode_none : recode none = id := rfl

/-- The value of a capture, joined again if it was split. -/
theorem Matcher.joins_of_value {flags : Flags} (hflags : flags.sensitive = true)
    {separator : Option Expression} (hs : Matcher.separator flags ⟨D, false⟩ p = .ok separator)
    {value : ParamValue} (h : Matcher.value none separator v = .ok value) :
    (p.isRepeating = false ∧ value = .single v) ∨
    (p.isRepeating = true ∧
      ∃ ts, ts ≠ [] ∧ value = .multiple ts ∧ List.intercalate p.between ts = v) := by
  cases hr : p.isRepeating with
  | false =>
    simp only [Matcher.separator, hr, Bool.not_false, if_true, Except.ok.injEq] at hs
    subst hs
    cases h
    exact .inl ⟨rfl, rfl⟩
  | true =>
    obtain ⟨e, he, hregular, hm⟩ := @Matcher.separator_eq _ false hflags ⟨D, false⟩ _ hr
    rw [he] at hs
    cases hs
    have hm' : e.root.Matches = Sense.text false p.between := hm
    simp only [Matcher.value] at h
    cases hsplit : e.split v with
    | none => simp [hsplit] at h
    | gaveUp => simp [hsplit] at h
    | found ts =>
      obtain ⟨hne, hjoin⟩ := Expression.joins_of_splitFrom hregular hm' hsplit
      simp only [hsplit, Except.ok.injEq] at h
      exact .inr ⟨rfl, ts, hne, by simpa [recode_none] using h.symm, hjoin⟩

/-! ### what is built -/

theorem Segment.elements_none (p : Param) (index : Nat) (ts : List Text) :
    elements p none none index ts = .ok ts := by
  induction ts generalizing index with
  | nil => rfl
  | cons t ts ih =>
    simp only [elements, accepts, ih]
    rfl

/-- A parameter with the value of its capture is written as what it stands for. -/
theorem Param.build_of_covers {params : Params} {capture : Option Span} {x : Text}
    (hx : p.Covers capture x) (hp : p.isCapturing = false → p.modifier = none)
    (hnone : p.isCapturing = true → capture = none → params.get? p.name = none)
    (hsome : p.isCapturing = true →
      ∀ s, capture = some s →
        (p.isRepeating = false ∧ params.get? p.name = some (.single s.text)) ∨
          (p.isRepeating = true ∧
            ∃ ts, ts ≠ [] ∧ params.get? p.name = some (.multiple ts) ∧
              List.intercalate p.between ts = s.text)) :
    (Segment.param p none).build none params = .ok x := by
  unfold Covers at hx
  unfold Segment.build
  cases hc : p.isCapturing with
  | false =>
    have hopt : p.isOptional = false := by simp [isOptional, hp hc]
    simp only [hc, Bool.false_eq_true, if_false] at hx
    simp [hc, hopt, hx]
  | true =>
    simp only [hc, if_true] at hx
    simp only [hc, Bool.not_true, Bool.false_eq_true, if_false]
    cases capture with
    | none =>
      obtain ⟨hopt, rfl⟩ := hx
      cases hr : p.isRepeating <;> simp [hnone hc rfl, hopt, Segment.sequence, Segment.single]
    | some s =>
      obtain rfl : x = p.before ++ s.text ++ p.after := hx
      rcases hsome hc s rfl with ⟨hr, hv⟩ | ⟨hr, ts, hne, hv, hjoin⟩
      · simp [hr, hv, Segment.single, Segment.accepts, recode]
      · obtain ⟨t, ts, rfl⟩ := List.exists_cons_of_ne_nil hne
        simp [hr, hv, Segment.sequence, Segment.elements_none, hjoin, Except.map]

/-- With the values of its captures, the parts are written as what they stand for. -/
theorem Template.built_of_tiles {o : BuildOptions} (hvalidate : o.validate = false)
    (hencode : o.encode = none) {flags : Flags} (hflags : flags.sensitive = true) {l : Literal}
    {get : Nat → Option Span} {params : Params} {separators : List (Option Expression)}
    {es : List (Text × ParamValue)} {xs : List Text}
    (hparts : ∀ p, .param p ∈ parts → p.isCapturing = false → p.modifier = none)
    (hnames : ((paramsOf parts).map Param.name).Nodup)
    (hs : List.Forall₂ (fun p s => Matcher.separator flags ⟨D, false⟩ p = .ok s) (paramsOf parts)
      separators) (hes : Matcher.Collects none get g ((paramsOf parts).zip separators) es)
    (hget : ∀ e ∈ es, params.get? e.1 = some e.2)
    (hnone : ∀ p ∈ paramsOf parts, p.name ∉ es.map Prod.fst → params.get? p.name = none)
    (hxs : Tiles get g parts xs) : List.Forall₂ (Part.IsBuilt o l params) parts xs := by
  induction parts generalizing g separators es xs with
  | nil =>
    obtain rfl : xs = [] := hxs
    exact .nil
  | cons part parts ih =>
    have hparts' : ∀ p, .param p ∈ parts → p.isCapturing = false → p.modifier = none :=
      fun p hp => hparts p (List.mem_cons_of_mem _ hp)
    cases part with
    | text t =>
      obtain ⟨ys, hys, rfl⟩ := hxs
      exact .cons ⟨_, rfl, rfl⟩ (ih hparts' hnames hs hes hget hnone hys)
    | param p =>
      obtain ⟨x, ys, hx, hys, rfl⟩ := hxs
      have hp := hparts p (List.mem_cons_self ..)
      have hbuilt : ∀ {x}, (Segment.param p none).build none params = .ok x →
          Part.IsBuilt o l params (.param p) x :=
        fun h => ⟨.param p none, by simp [segment, hvalidate], by rw [hencode]; exact h⟩
      rw [paramsOf_param] at hnames hs hes hnone
      cases hc : p.isCapturing with
      | false =>
        have hgroups : p.groups = 0 := by simp [Param.groups, hc]
        rw [hgroups] at hys
        simp only [hc, Bool.false_eq_true, if_false, List.nil_append] at hnames hs hes hnone
        exact .cons (hbuilt (p.build_of_covers hx hp (by simp [hc]) (by simp [hc])))
          (ih hparts' hnames hs hes hget hnone hys)
      | true =>
        have hgroups : p.groups = 1 := by simp [Param.groups, hc]
        rw [hgroups] at hys
        simp only [hc, if_true, List.singleton_append] at hnames hs hes hnone
        obtain ⟨hfresh, hnames⟩ := List.nodup_cons.1 hnames
        obtain _ | ⟨hseparator, hs⟩ := hs
        have hsub : ∀ {es}, Matcher.Collects none get (g + 1) ((paramsOf parts).zip _) es →
            p.name ∉ es.map Prod.fst :=
          fun h hmem => hfresh ((h.names hs.length_eq).subset hmem)
        rcases hes with ⟨hget', hes⟩ | ⟨s, v, es, hget', hv, rfl, hes⟩
        · -- the parameter has no capture, and so no value
          refine .cons (hbuilt
              (p.build_of_covers hx hp (fun _ _ => hnone p (by simp) (hsub hes)) fun _ s hs' => ?_))
            (ih hparts' hnames hs hes hget (fun q hq => hnone q (List.mem_cons_of_mem _ hq)) hys)
          rw [hget'] at hs'
          cases hs'
        · -- its value is that of the capture
          have hvalue := hget (p.name, v) (by simp)
          refine .cons
            (hbuilt (p.build_of_covers hx hp (fun _ h => by simp [hget'] at h) fun _ s' hs' => ?_))
            (ih hparts' hnames hs hes (fun e he => hget e (List.mem_cons_of_mem _ he))
              (fun q hq hmem => ?_) hys)
          · rw [hget', Option.some.injEq] at hs'
            subst hs'
            rw [show params.get? p.name = some v from hvalue]
            simpa using Matcher.joins_of_value hflags hseparator hv
          · refine hnone q (List.mem_cons_of_mem _ hq) ?_
            rw [List.map_cons, List.mem_cons, not_or]
            exact ⟨fun h => hfresh (List.mem_map.2 ⟨q, hq, h⟩), hmem⟩

/-! ### paths -/

namespace Path

/-- Building with the values that are found in a path gives that path. -/
theorem build_match {mo : MatchOptions} {bo : BuildOptions} {path : Path} {t : Template}
    {m : Matcher} {b : Builder} (hmpath : path.resolve mo.expression.parse = .ok (.inl t))
    (hbpath : path.resolve bo.parse = .ok (.inl t)) (hnames : (t.params.map Param.name).Nodup)
    (hpatterns :
      ∀ p ∈ t.params, p.pattern = none ∨ p.pattern = some (Expression.stretch t.delimiter))
    (hgroups : ∀ p ∈ t.allParams, p.isCapturing = false → p.modifier = none)
    (hsensitive : mo.expression.sensitive = true) (hloose : mo.expression.loose = false)
    (htrailing : mo.expression.trailing = false) (hstart : mo.expression.start = true)
    (hfinish : mo.expression.finish = true) (hdecode : mo.decode = none)
    (hvalidate : bo.validate = false) (hencode : bo.encode = none) (hm : path.matcher mo = .ok m)
    (hb : path.builder bo = .ok b) {u : Text} {f : Found} (h : m.run u = .ok (some f)) :
    b.build f.params = .ok u := by
  have hD := delimiter_ne_nil hmpath
  have hparts : ∀ p, .param p ∈ t.parts → p.isCapturing = false → p.modifier = none :=
    fun p hp => hgroups p (List.mem_filterMap.2 ⟨_, hp, rfl⟩)
  -- the expression has the sense of the template
  simp only [matcher, hmpath] at hm
  obtain ⟨fs, hfs⟩ :
      ∃ fs, t.fragments mo.expression.flags ⟨t.delimiter, mo.expression.loose⟩ = .ok fs := by
    cases hfs : t.fragments mo.expression.flags ⟨t.delimiter, mo.expression.loose⟩ with
    | error e => simp [Template.toExpression, Template.source, hfs, Except.map] at hm
    | ok fs => exact ⟨fs, rfl⟩
  have hreadable : ∀ p, .param p ∈ t.parts → Template.Readable true (!mo.expression.sensitive) 58
      ⟨t.delimiter, mo.expression.loose⟩ (stretches false t.delimiter) p := by
    refine fun p hp => ⟨fun hc g x hx => ?_, Template.between_ne_nil hfs hp,
      fun hc hmodifier => absurd (hparts p hp hc) hmodifier⟩
    have hx' : x = Expression.stretch t.delimiter := by
      rcases hpatterns p (List.mem_filter.2 ⟨List.mem_filterMap.2 ⟨_, hp, rfl⟩, hc⟩) with
        hnone | hsome
      · simp [hnone] at hx
      · simpa [hx] using hsome
    rw [hx', hsensitive]
    exact (Expression.denotes_stretch true false 57 g hD).group.denotes.unsolid
  obtain ⟨e, he, hr, hl, hmatches⟩ := Template.exists_toExpression true _ hstart hfinish hD hfs
    hreadable
  have hsense : e.root.Matches =
      wholly
        (Template.sense ⟨t.delimiter, false⟩ false (stretches false t.delimiter) 0 t.parts) := by
    simpa [Template.tailSense, htrailing, hsensitive, hloose] using hmatches
  simp only [he] at hm
  obtain ⟨separators, rfl, hseparators⟩ := Matcher.exists_separators (lift_eq_ok_iff.1 hm)
  rw [hloose] at hseparators
  -- the match is tiled by the parts
  rcases Expression.find_cases hr (hl rfl) hsense u with
    hfind | ⟨hfind, -⟩ | ⟨m, w, hfind, hmstart, hmfinish, hw, hc⟩
  · rw [Matcher.run_gaveUp hfind] at h
    cases h
  · rw [Matcher.run_none hfind] at h
    cases h
  have hlaid := (Template.lays_of_sense (fun _ _ _ _ _ => Sense.isSilent_stretch false t.delimiter)
    hw).1
  obtain ⟨xs, hxs, htakes⟩ := hlaid.exists_tiles hparts
  have hu : u = xs.flatten := by
    have hafter := htakes.after
    simpa [Cursor.start, Cursor.finish] using hafter
  -- the values that are found are those of its captures
  rw [Matcher.run_eq hfind hmstart hmfinish] at h
  obtain ⟨params, hcollect, heq⟩ := exists_of_map_eq_ok h
  obtain ⟨es, hes, rfl⟩ := Matcher.exists_collects (g := 0) hcollect
  cases heq
  rw [hdecode, hc] at hes
  have hesnames := hes.names hseparators.length_eq
  -- the builder writes each part as what it stands for
  simp only [builder, hbpath] at hb
  refine (Builder.build_eq_ok_iff (lift_eq_ok_iff.1 hb)).2 ⟨xs, ?_, hu⟩
  exact Template.built_of_tiles hvalidate hencode (by exact hsensitive) hparts hnames hseparators
    hes (fun e he => Params.get?_ofList_of_nodup (hnames.sublist hesnames) he)
    (fun p _ hp => Params.get?_ofList_eq_none hp) hxs

theorem build_match_region :
    ∃ m b f, (pattern "/:lang\x7b-:region\x7d?\x7b/:rest\x7d*".toList).matcher
          ⟨{ sensitive := true, loose := false, trailing := false }, none⟩ = .ok m ∧
      (pattern "/:lang\x7b-:region\x7d?\x7b/:rest\x7d*".toList).builder
          { validate := false, encode := none } = .ok b ∧ m.run "/en-US/a/b".toList = .ok (some f) ∧
      b.build f.params = .ok "/en-US/a/b".toList := by
  have hparse : Path.parse {} "/:lang\x7b-:region\x7d?\x7b/:rest\x7d*".toList =
      .ok ⟨[.text ['/'], .param { name := "lang".toList },
            .param { name := "region".toList, before := ['-'], modifier := some .optional },
            .param { name := "rest".toList, before := ['/'], modifier := some .zeroOrMore,
                     separator := some ['/'] }], ['/']⟩ := by
    cbv
  obtain ⟨m, hm⟩ := exists_ok_of_isSome (x :=
      (pattern "/:lang\x7b-:region\x7d?\x7b/:rest\x7d*".toList).matcher
        ⟨{ sensitive := true, loose := false, trailing := false }, none⟩) (by decide +kernel)
  obtain ⟨b, hb⟩ := exists_ok_of_isSome (x :=
      (pattern "/:lang\x7b-:region\x7d?\x7b/:rest\x7d*".toList).builder
        { validate := false, encode := none }) (by decide +kernel)
  obtain ⟨f, hf⟩ : ∃ f, m.run "/en-US/a/b".toList = .ok (some f) :=
    exists_ok_some_of_bind (Matcher.run · "/en-US/a/b".toList) hm (by decide +kernel)
  exact ⟨m, b, f, hm, hb, hf, build_match (resolve_pattern hparse) (resolve_pattern hparse)
    (by decide +kernel) (by decide +kernel) (by decide +kernel) rfl rfl rfl rfl rfl rfl rfl
    rfl hm hb hf⟩

end Path

end

end PathTemplate
