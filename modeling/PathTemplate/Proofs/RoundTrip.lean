import PathTemplate.Proofs.Builder
import PathTemplate.Proofs.Matcher
import PathTemplate.Proofs.Readable
import PathTemplate.Proofs.Segment.Split

/-!
# Matching what was built

A value is checked by itself when a path is built, and matched among its neighbours. Both are the
same where delimiters keep to the pieces that the path is made of.

* `Part.pieces` — the pieces that are written for a part; `Parted` — no delimiter goes beyond its
  piece;
* `Param.HasBlindPattern` — the pattern of a parameter looks at nothing around a value;
* `Sense.Meets` — pieces that stand one after the other are matched, whatever text they stand in;
* `Param.meets_of_isBuilt`, `Template.meets_of_built` — so are the pieces that are written for
  parts;
* `Path.match_build_of_parted` — a built path is matched.
-/

namespace PathTemplate

open Expression (Literal Denotes wholly)

/-- The pieces that are written for a part. A single value is checked together with the texts around
it, and is one piece with them. -/
def Part.pieces (encode : Option Codec) (params : Params) : Part → List Text
  | .text t => [t]
  | .param p =>
    if !p.isCapturing then (if p.isOptional then [] else [p.before, p.after])
    else match params.get? p.name with
      | some (.single v) => [p.before ++ recode encode v ++ p.after]
      | some (.multiple (v :: vs)) =>
        p.before :: recode encode v ::
          (vs.flatMap fun v => [p.between, recode encode v]) ++ [p.after]
      | _ => []

/-- No piece is disturbed by those that follow it. -/
def Parted (ic loose : Bool) (D : Text) : List Text → Prop
  | [] => True
  | x :: xs => Undisturbed ic loose D x [] xs.flatten ∧ Parted ic loose D xs

/-- The pattern looks at nothing but the characters that it takes. -/
def Expression.isBlind (ic : Bool) (x : Text) : Bool :=
  match read (switchSource ic ++ x) with
  | .error _ => false
  | .ok e => e.root.isBlind

/-- The pattern of a parameter is what a wildcard stands for, or an expression of its own that looks
at nothing around it; or there is none. -/
def Param.HasBlindPattern (ic : Bool) (D : Text) (p : Param) : Prop :=
  ∀ x, p.pattern = some x → x = Expression.stretch D ∨
  (Expression.isPattern ic x = true ∧ Expression.isBlind ic x = true)

section

variable {ic loose : Bool} {D x y : Text} {l : Literal} {σ : Text → Sense} {p : Param}

/-! ### pieces -/

theorem Parted.right {xs ys : List Text} (h : Parted ic loose D (xs ++ ys)) :
    Parted ic loose D ys := by
  induction xs with
  | nil => exact h
  | cons x xs ih => exact ih h.2

theorem intercalate_cons (sep v : Text) (vs : List Text) :
    List.intercalate sep (v :: vs) = v ++ (vs.flatMap fun v => [sep, v]).flatten := by
  induction vs generalizing v with
  | nil => simp
  | cons v' vs ih => simp [List.intercalate_cons_cons, ih]

/-! ### parameters -/

theorem Sense.MovesTo.modified {R R' : Sense} (hR : MovesTo ic loose D R R') (m : Option Modifier) :
    MovesTo ic loose D (R.modified m) (R'.modified m) :=
  modified_lift hR hR.rounds m

theorem Param.movesTo_valueSense
    (hσ : ∀ x, p.pattern = some x → Sense.MovesTo ic l.loose l.delimiter (σ x) (σ x)) :
    Sense.MovesTo ic l.loose l.delimiter (p.valueSense l ic σ) (p.valueSense l ic σ) := by
  unfold valueSense
  split
  · rename_i x hx
    exact hσ x hx
  · exact Sense.movesTo_stretch

/-- The matches of a parameter are matches wherever they are undisturbed, and whatever groups are
before it. -/
theorem Param.movesTo_sense
    (hσ : ∀ x, p.pattern = some x → Sense.MovesTo ic l.loose l.delimiter (σ x) (σ x)) (g g' : Nat) :
    Sense.MovesTo ic l.loose l.delimiter (p.sense l ic σ g) (p.sense l ic σ g') := by
  have hvalues :
      Sense.MovesTo ic l.loose l.delimiter (p.valuesSense l ic σ) (p.valuesSense l ic σ) := by
    unfold valuesSense
    split
    · exact (movesTo_valueSense hσ).seq
        (((l.movesTo_sense p.between).seq (movesTo_valueSense hσ)).rounds 0 none)
    · exact movesTo_valueSense hσ
  have hinner :
      Sense.MovesTo ic l.loose l.delimiter (p.innerSense l ic σ g) (p.innerSense l ic σ g') := by
    unfold innerSense
    split
    · exact (l.movesTo_sense p.before).seq
        ((hvalues.captured (g + 1) (g' + 1)).seq (l.movesTo_sense p.after))
    · exact (l.movesTo_sense p.before).seq (l.movesTo_sense p.after)
  exact hinner.modified p.occurrence

/-! ### what pieces are matched by -/

/-- The pieces are matched one after the other, whatever pieces follow that do not disturb them. -/
def Sense.Meets (ic loose : Bool) (D : Text) (R : Sense) (xs : List Text) : Prop :=
  ∀ (a c : Cursor) (ys : List Text), a.Takes xs.flatten c → c.after = ys.flatten →
  Parted ic loose D (xs ++ ys) →
    ∃ w, R a c w

namespace Sense

variable {R R' S : Sense} {xs ys : List Text}

theorem meets_nil (h : ∀ a, ∃ w, R a a w) : Meets ic loose D R [] := by
  intro a c ys ha hc hparted
  obtain rfl := Cursor.takes_nil_iff.1 ha
  exact h c

theorem meets_singleton
    (h : ∀ a c : Cursor, a.Takes x c → Undisturbed ic loose D x [] c.after → ∃ w, R a c w) :
    Meets ic loose D R [x] := by
  intro a c ys ha hc hparted
  refine h a c (by simpa using ha) ?_
  rw [hc]
  exact hparted.1

theorem Meets.seq (hR : Meets ic loose D R xs) (hS : Meets ic loose D S ys) :
    Meets ic loose D (R.seq S) (xs ++ ys) := by
  intro a c zs ha hc hparted
  rw [List.flatten_append] at ha
  rw [List.append_assoc] at hparted
  obtain ⟨b, hab, hbc⟩ := Cursor.takes_append_iff.1 ha
  obtain ⟨u, hu⟩ := hR a b (ys ++ zs) hab (by rw [hbc.after, hc, List.flatten_append]) hparted
  obtain ⟨v, hv⟩ := hS b c zs hbc hc hparted.right
  exact ⟨v ++ u, b, u, v, hu, hv, rfl⟩

theorem Meets.captured (hR : Meets ic loose D R xs) (i : Nat) :
    Meets ic loose D (captured i R) xs := by
  intro a c ys ha hc hparted
  obtain ⟨w, hw⟩ := hR a c ys ha hc hparted
  exact ⟨_, w, hw, rfl⟩

theorem Meets.imp (hR : Meets ic loose D R xs) (h : ∀ a c w, R a c w → R' a c w) :
    Meets ic loose D R' xs := by
  intro a c ys ha hc hparted
  obtain ⟨w, hw⟩ := hR a c ys ha hc hparted
  exact ⟨w, h a c w hw⟩

/-- As many rounds as there are values, all of which are matched in one round. -/
theorem meets_rounds {vs : List Text} {f : Text → List Text}
    (h : ∀ v ∈ vs, Meets ic loose D R (f v)) :
    Meets ic loose D (R.rounds 0 none) (vs.flatMap f) := by
  have hiterates : Meets ic loose D (Iterates R vs.length) (vs.flatMap f) := by
    induction vs with
    | nil => exact meets_nil fun a => ⟨[], .zero a⟩
    | cons v vs ih =>
      exact (h v (List.mem_cons_self ..)).seq (ih fun v hv => h v (List.mem_cons_of_mem _ hv))
  exact hiterates.imp fun a c w hw => ⟨vs.length, by simp, by rwa [Nat.zero_add]⟩

/-- A text that is accepted by itself is matched where it stands in a path. -/
theorem meets_of_accepts (hR : MovesTo ic loose D R R') {e : Expression}
    (hr : e.root.isRegular = true) (hm : e.root.Matches = wholly R)
    (h : Segment.accepts (some e) x = .ok true) : Meets ic loose D R' [x] := by
  obtain ⟨w, hw⟩ := Segment.sense_of_accepts hr hm h
  obtain ⟨v, hv, hmove⟩ := hR _ _ _ hw
  obtain rfl : x = v := by simpa [Cursor.start, Cursor.finish] using hv.after
  exact meets_singleton hmove

end Sense

theorem Expression.Literal.meets_sense
    (hcase : l.loose = true → ∀ v, Alike ic l.delimiter v → v = l.delimiter) (t : Text) :
    Sense.Meets ic l.loose l.delimiter (l.sense ic t) [t] :=
  Sense.meets_singleton fun _ _ ha hu => ⟨[], l.sense_self hcase hu ha⟩

/-! ### what is built -/

section

variable {encode : Option Codec} {params : Params} {g : Nat} {e : Expression}

theorem Param.meets_nil (hopt : p.isOptional = true) :
    Sense.Meets ic l.loose l.delimiter (p.sense l ic σ g) [] :=
  Sense.meets_nil fun a => ⟨[], sense_of_isOptional hopt a⟩

theorem Param.meets_of_text (hcase : l.loose = true → ∀ v, Alike ic l.delimiter v → v = l.delimiter)
    (hc : p.isCapturing = false) {check : Option Expression}
    (h : (Segment.param p check).build encode params = .ok x) :
    x = (Part.pieces encode params (.param p)).flatten ∧
    Sense.Meets ic l.loose l.delimiter (p.sense l ic σ g)
      (Part.pieces encode params (.param p)) := by
  cases hopt : p.isOptional with
  | true =>
    obtain rfl : x = [] := by simpa [Segment.build, hc, hopt] using h.symm
    have hpieces : Part.pieces encode params (.param p) = [] := by simp [Part.pieces, hc, hopt]
    rw [hpieces]
    exact ⟨rfl, meets_nil hopt⟩
  | false =>
    obtain rfl : x = p.before ++ p.after := by simpa [Segment.build, hc, hopt] using h.symm
    have hpieces : Part.pieces encode params (.param p) = [p.before] ++ [p.after] := by
      simp [Part.pieces, hc, hopt]
    rw [hpieces]
    have htexts := (Literal.meets_sense hcase p.before).seq (Literal.meets_sense hcase p.after)
    refine ⟨by simp, htexts.imp fun a c w hw => sense_of_inner ?_⟩
    simpa [innerSense, hc] using hw

/-- What is written for a single value is matched by the parameter, as it is accepted by itself. -/
theorem Param.meets_of_single
    (hσ : ∀ x, p.pattern = some x → Sense.MovesTo ic l.loose l.delimiter (σ x) (σ x))
    (hc : p.isCapturing = true) (hr : e.root.isRegular = true)
    (hm : e.root.Matches = wholly (p.sense l ic σ 0))
    (h : Segment.single p (some e) encode (params.get? p.name) = .ok x) :
    x = (Part.pieces encode params (.param p)).flatten ∧
    Sense.Meets ic l.loose l.delimiter (p.sense l ic σ g)
      (Part.pieces encode params (.param p)) := by
  rcases Segment.of_single_eq_ok h with ⟨hnone, hopt, rfl⟩ | ⟨t, ht, rfl, hacc⟩
  · have hpieces : Part.pieces encode params (.param p) = [] := by simp [Part.pieces, hc, hnone]
    rw [hpieces]
    exact ⟨rfl, meets_nil hopt⟩
  · have hpieces :
        Part.pieces encode params (.param p) = [p.before ++ recode encode t ++ p.after] := by
      simp [Part.pieces, hc, ht]
    rw [hpieces]
    exact ⟨by simp, Sense.meets_of_accepts (movesTo_sense hσ 0 g) hr hm hacc⟩

/-- What is written for several values is matched by the parameter, as each of them is accepted by
itself. -/
theorem Param.meets_of_sequence
    (hcase : l.loose = true → ∀ v, Alike ic l.delimiter v → v = l.delimiter)
    (hσ : ∀ x, p.pattern = some x → Sense.MovesTo ic l.loose l.delimiter (σ x) (σ x))
    (hc : p.isCapturing = true) (hrep : p.isRepeating = true) (hr : e.root.isRegular = true)
    (hm : e.root.Matches = wholly (p.valueSense l ic σ))
    (h : Segment.sequence p (some e) encode (params.get? p.name) = .ok x) :
    x = (Part.pieces encode params (.param p)).flatten ∧
    Sense.Meets ic l.loose l.delimiter (p.sense l ic σ g)
      (Part.pieces encode params (.param p)) := by
  rcases Segment.of_sequence_eq_ok h with ⟨hnone, hopt, rfl⟩ | ⟨ts, hts, hne, hacc, rfl⟩
  · have hpieces : Part.pieces encode params (.param p) = [] := by
      rcases hnone with hnone | hnone <;> simp [Part.pieces, hc, hnone]
    rw [hpieces]
    exact ⟨rfl, meets_nil hopt⟩
  obtain ⟨t, ts, rfl⟩ := List.exists_cons_of_ne_nil hne
  have hvalue :
      ∀ t' ∈ t :: ts, Sense.Meets ic l.loose l.delimiter (p.valueSense l ic σ) [recode encode t'] :=
    fun t' ht' => Sense.meets_of_accepts (movesTo_valueSense hσ) hr hm (hacc t' ht')
  have hvalues : Sense.Meets ic l.loose l.delimiter (p.valuesSense l ic σ)
      ([recode encode t] ++ ts.flatMap fun t => [p.between] ++ [recode encode t]) := by
    rw [valuesSense, if_pos hrep]
    refine (hvalue t (List.mem_cons_self ..)).seq (Sense.meets_rounds fun t' ht' => ?_)
    exact (Literal.meets_sense hcase p.between).seq (hvalue t' (List.mem_cons_of_mem _ ht'))
  have hpieces : Part.pieces encode params (.param p) =
      [p.before] ++
        (([recode encode t] ++ ts.flatMap fun t => [p.between] ++ [recode encode t]) ++
          [p.after]) := by
    simp [Part.pieces, hc, hts]
  rw [hpieces]
  have hall := (Literal.meets_sense hcase p.before).seq
    ((hvalues.captured (g + 1)).seq (Literal.meets_sense hcase p.after))
  refine ⟨?_, hall.imp fun a c w hw => sense_of_inner ?_⟩
  · rw [List.map_cons, intercalate_cons]
    simp [List.flatMap_map]
  · simpa [innerSense, hc] using hw

end

section

variable {o : BuildOptions} {params : Params}

theorem Param.meets_of_isBuilt (hD : l.delimiter ≠ []) (hvalidate : o.validate = true)
    (hcase : l.loose = true → ∀ v, Alike (!o.sensitive) l.delimiter v → v = l.delimiter)
    (hp : Template.Readable false (!o.sensitive) 58 l σ p)
    (hσ : p.isCapturing = true →
      ∀ x, p.pattern = some x → Sense.MovesTo (!o.sensitive) l.loose l.delimiter (σ x) (σ x))
    (hbuilt : Part.IsBuilt o l params (.param p) x) (g : Nat) :
    x = (Part.pieces o.encode params (.param p)).flatten ∧
    Sense.Meets (!o.sensitive) l.loose l.delimiter (p.sense l (!o.sensitive) σ g)
      (Part.pieces o.encode params (.param p)) := by
  obtain ⟨s, hs, hbuild⟩ := hbuilt
  cases hc : p.isCapturing with
  | false =>
    obtain rfl : s = .param p none := by simpa [Template.segment, hc] using hs.symm
    exact meets_of_text hcase hc hbuild
  | true =>
    obtain ⟨e, he, hr, hm⟩ := Template.exists_segment hD hp hc hvalidate
    rw [he] at hs
    cases hs
    cases hrep : p.isRepeating with
    | false =>
      simp only [Segment.build, hc, hrep, Bool.not_true, Bool.false_eq_true, if_false] at hbuild
      exact meets_of_single (hσ hc) hc hr (by simpa [checkSense, hrep] using hm) hbuild
    | true =>
      simp only [Segment.build, hc, hrep, Bool.not_true, Bool.false_eq_true, if_false,
        if_true] at hbuild
      exact meets_of_sequence hcase (hσ hc) hc hrep hr (by simpa [checkSense, hrep] using hm) hbuild

/-- What is written for parts is matched by them. -/
theorem Template.meets_of_built (hD : l.delimiter ≠ []) (hvalidate : o.validate = true)
    (hcase : l.loose = true → ∀ v, Alike (!o.sensitive) l.delimiter v → v = l.delimiter)
    {parts : List Part}
    (hparts : ∀ p, .param p ∈ parts →
      Readable false (!o.sensitive) 58 l σ p ∧
        (p.isCapturing = true →
          ∀ x, p.pattern = some x → Sense.MovesTo (!o.sensitive) l.loose l.delimiter (σ x) (σ x)))
    {xs : List Text} (hbuilt : List.Forall₂ (Part.IsBuilt o l params) parts xs) (g : Nat) :
    xs.flatten = (parts.flatMap (Part.pieces o.encode params)).flatten ∧
    Sense.Meets (!o.sensitive) l.loose l.delimiter (sense l (!o.sensitive) σ g parts)
      (parts.flatMap (Part.pieces o.encode params)) := by
  induction hbuilt generalizing g with
  | nil => exact ⟨rfl, Sense.meets_nil fun a => ⟨[], rfl, rfl⟩⟩
  | @cons part x parts xs hx _ ih =>
    have ih' := ih fun p hp => hparts p (List.mem_cons_of_mem _ hp)
    rw [List.flatMap_cons, List.flatten_append, List.flatten_cons]
    cases part with
    | text t =>
      obtain ⟨s, hs, hbuild⟩ := hx
      cases hs
      cases hbuild
      obtain ⟨hflat, hmeets⟩ := ih' g
      exact ⟨by rw [hflat]; simp [Part.pieces], (Literal.meets_sense hcase _).seq hmeets⟩
    | param p =>
      obtain ⟨hreadable, hσ⟩ := hparts p (List.mem_cons_self ..)
      obtain ⟨hx, hmeets⟩ := Param.meets_of_isBuilt hD hvalidate hcase hreadable hσ hx g
      obtain ⟨hflat, hmeets'⟩ := ih' (g + p.groups)
      exact ⟨by rw [← hx, hflat], hmeets.seq hmeets'⟩

end

end

/-! ### paths -/

/-- The matches of a pattern that looks at nothing around it are matches wherever they are
undisturbed. -/
theorem Param.HasBlindPattern.movesTo {ic loose : Bool} {D x : Text} {p : Param} (hD : D ≠ [])
    (hp : p.HasBlindPattern ic D) (hx : p.pattern = some x) :
    Sense.MovesTo ic loose D (Expression.patternSense ic x) (Expression.patternSense ic x) := by
  rcases hp x hx with rfl | ⟨-, hblind⟩
  · rw [Expression.patternSense_stretch ic hD]
    exact Sense.movesTo_stretch
  · unfold Expression.isBlind at hblind
    split at hblind
    · cases hblind
    · rename_i e he
      rw [Expression.patternSense_of_read he]
      exact Node.movesTo_of_isBlind hblind ic loose D

namespace Path

/-- A built path is matched, unless the budget is spent, if no delimiter goes beyond the piece that
it begins in. -/
theorem match_build_of_parted {bo : BuildOptions} {mo : MatchOptions} {path : Path} {t : Template}
    {b : Builder} {m : Matcher} {params : Params} {u : Text}
    (hbpath : path.resolve bo.parse = .ok (.inl t))
    (hmpath : path.resolve mo.expression.parse = .ok (.inl t)) (hvalidate : bo.validate = true)
    (hstart : mo.expression.start = true) (hfinish : mo.expression.finish = true)
    (hsensitive : mo.expression.sensitive = bo.sensitive) (hloose : mo.expression.loose = bo.loose)
    (hcase : bo.loose = true → ∀ v, Alike (!bo.sensitive) t.delimiter v → v = t.delimiter)
    (hpattern : ∀ p ∈ t.params, p.HasBlindPattern (!bo.sensitive) t.delimiter)
    (hb : path.builder bo = .ok b) (hm : path.matcher mo = .ok m) (hbuild : b.build params = .ok u)
    (hparted :
      Parted (!bo.sensitive) bo.loose t.delimiter (t.parts.flatMap (Part.pieces bo.encode params)))
    (hgave : m.run u ≠ .error .gaveUp) : ∃ f, m.run u = .ok (some f) ∧ f.path = u := by
  have hD := delimiter_ne_nil hbpath
  simp only [builder, hbpath, lift_eq_ok_iff] at hb
  simp only [matcher, hmpath] at hm
  split at hm
  · cases hm
  rename_i e he
  obtain ⟨separators, rfl, -⟩ := Matcher.exists_separators (lift_eq_ok_iff.1 hm)
  -- the expression has the sense of the template
  have hhas : ∀ p ∈ t.params, p.HasPattern (!mo.expression.sensitive) t.delimiter := by
    intro p hp x hx
    rw [hsensitive]
    exact (hpattern p hp x hx).imp_right And.left
  obtain ⟨fs, hfs, hreadable⟩ := Template.readable_of_toExpression false hD hhas he
  obtain ⟨e', he', hregular, -, hmatches⟩ := Template.exists_toExpression false _ hstart hfinish hD
    hfs hreadable
  obtain rfl : e = ⟨e', t.params, mo.expression.flags⟩ := by
    rw [he'] at he
    cases he
    rfl
  rw [hsensitive, hloose] at hmatches hreadable
  -- what is written for the parts is matched by them
  obtain ⟨xs, hxs, rfl⟩ := (Builder.build_eq_ok_iff hb).1 hbuild
  obtain ⟨hflat, hmeets⟩ := Template.meets_of_built (l := ⟨t.delimiter, bo.loose⟩) hD
    hvalidate hcase
    (fun p hp => ⟨hreadable p hp, fun hc x hx =>
      (hpattern p (List.mem_filter.2 ⟨List.mem_filterMap.2 ⟨_, hp, rfl⟩, hc⟩)).movesTo hD hx⟩) hxs 0
  obtain ⟨w, hw⟩ := hmeets (.start xs.flatten) (.finish xs.flatten) []
    (by rw [← hflat]; exact Cursor.start_takes_finish _) rfl (by rwa [List.append_nil])
  -- and nothing more
  have htail : Template.tailSense ⟨t.delimiter, bo.loose⟩ (!bo.sensitive) mo.expression.trailing
      (.finish xs.flatten) (.finish xs.flatten) [] := by
    unfold Template.tailSense
    split
    · exact Sense.optional_iff.2 (.inl ⟨rfl, rfl⟩)
    · exact ⟨rfl, rfl⟩
  have hreaches : e'.root.Reaches (.start xs.flatten) (.finish xs.flatten) := by
    refine ⟨[] ++ w, ?_⟩
    rw [hmatches, Expression.wholly_iff]
    exact ⟨rfl, rfl, _, w, [], hw, htail, rfl⟩
  cases hfind : e'.find xs.flatten with
  | gaveUp => exact absurd (Matcher.run_gaveUp hfind) hgave
  | none => exact absurd hreaches (Expression.find_none hregular hfind)
  | found n =>
    have hfound : (Matcher.mk ⟨e', t.params, mo.expression.flags⟩ mo.decode
          separators).expression.expression.find xs.flatten = .found n := hfind
    rcases Matcher.run_of_find hfound with hgave' | ⟨f, hf, hpath⟩
    · exact absurd hgave' hgave
    · exact ⟨f, hf, hpath.trans (Expression.text_of_find hregular hmatches hfind)⟩

theorem match_build_of_parted_docs :
    ∃ b m params f, (pattern "/:section\x7b/:page(\\d+)\x7d?".toList).builder {} = .ok b ∧
      (pattern "/:section\x7b/:page(\\d+)\x7d?".toList).matcher {} = .ok m ∧
      b.build params = .ok "/docs/42".toList ∧ m.run "/docs/42".toList = .ok (some f) ∧
      f.path = "/docs/42".toList := by
  let t : Template :=
    ⟨[.text ['/'], .param { name := "section".toList },
        .param { name := "page".toList, before := ['/'], pattern := some "\\d+".toList,
                 modifier := some .optional }], ['/']⟩
  have hparse : Path.parse {} "/:section\x7b/:page(\\d+)\x7d?".toList = .ok t := by cbv
  have hpath : (pattern "/:section\x7b/:page(\\d+)\x7d?".toList).resolve {} = .ok (.inl t) :=
    resolve_pattern hparse
  obtain ⟨b, hb⟩ := exists_ok_of_isSome
    (x := (pattern "/:section\x7b/:page(\\d+)\x7d?".toList).builder {}) (by decide +kernel)
  obtain ⟨m, hm⟩ := exists_ok_of_isSome
    (x := (pattern "/:section\x7b/:page(\\d+)\x7d?".toList).matcher {}) (by decide +kernel)
  let params := Params.ofList [("section".toList, .single "docs".toList),
      ("page".toList, .single "42".toList)]
  have hbuild : b.build params = .ok "/docs/42".toList :=
    eq_ok_of_bind (Builder.build · params) hb (by decide +kernel)
  have hgave : m.run "/docs/42".toList ≠ .error .gaveUp :=
    ne_error_of_bind (Matcher.run · "/docs/42".toList) hm (by decide +kernel)
  have hpieces : t.parts.flatMap (Part.pieces ({} : BuildOptions).encode params) =
      [['/'], "docs".toList, "/42".toList] := by
    decide +kernel
  have hpattern : Expression.isPattern true "\\d+".toList = true ∧
      Expression.isBlind true "\\d+".toList = true := by
    decide +kernel
  have halone : IsAlone '/' := isAlone_of_isCaseless rfl
  obtain ⟨f, hf, hu⟩ := @match_build_of_parted {} {} _ t b m params _ hpath hpath rfl
    rfl rfl rfl rfl
    (fun _ v hv => (alike_delimiter_iff halone).1 hv)
    (fun p hp x hx => by
      have hcases : p = { name := "section".toList } ∨
          p =
            { name := "page".toList, before := ['/'], pattern := some "\\d+".toList,
              modifier := some .optional } := by
        simpa using (show p ∈ [_, _] from hp)
      rcases hcases with rfl | rfl
      · cases hx
      · cases hx
        exact .inr hpattern)
    hb hm hbuild
    (by
      rw [hpieces]
      exact ⟨undisturbed_of_isAlone halone (by simp), undisturbed_of_isAlone halone (by simp),
        undisturbed_of_isAlone halone (by simp), trivial⟩)
    hgave
  exact ⟨b, m, params, f, hb, hm, hbuild, hf, hu⟩

/-- What two pieces write next to each other, the run of the first delimiter takes. -/
theorem match_build_ne_of_braces : ∃ b m, (pattern "/\x7b/b\x7d".toList).builder {} = .ok b ∧
    (pattern "/\x7b/b\x7d".toList).matcher {} = .ok m ∧ b.build .empty = .ok "//b".toList ∧
    m.run "//b".toList = .ok none := by
  obtain ⟨b, hb⟩ := exists_ok_of_isSome (x := (pattern "/\x7b/b\x7d".toList).builder {})
    (by decide +kernel)
  obtain ⟨m, hm⟩ := exists_ok_of_isSome (x := (pattern "/\x7b/b\x7d".toList).matcher {})
    (by decide +kernel)
  exact ⟨b, m, hb, hm, eq_ok_of_bind (Builder.build · .empty) hb (by decide +kernel),
    eq_ok_none_of_bind (Matcher.run · "//b".toList) hm (by decide +kernel)⟩

end Path

end PathTemplate
