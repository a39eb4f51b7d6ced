import PathTemplate.Proofs.RoundTrip

/-!
# What is written for a value

A single value is checked together with the texts around it, the elements of a sequence one by one.
Either way, what is written for a value is matched by the expression of its parameter, if no piece
of it disturbs another.

* `Param.written` — the text that a parameter adds to a path; `Part.IsBuilt.eq_written` — a
  builder writes this text; `Part.isBuilt_iff_of_single` — when it does so for a single value;
* `Sense.Meets.find` — an expression that matches pieces one after the other finds them as a whole
  text;
* `Param.find_of_single`, `Param.find_of_sequence` — the expression of a parameter finds what is
  written for a value;
* `Path.find_written` — so it is for all that parameters add to a path.
-/

namespace PathTemplate

open Expression (Literal wholly)

/-- What a parameter adds to a path for a value. -/
def Param.written (encode : Option Codec) (p : Param) : ParamValue → Text
  | .single v => p.before ++ recode encode v ++ p.after
  | .multiple vs => p.before ++ List.intercalate p.between (vs.map (recode encode)) ++ p.after

/-- The expression of the parameter finds something in the text. -/
def Param.Finds (flags : Flags) (l : Literal) (p : Param) (x : Text) : Prop :=
  ∃ e m, Expression.anchored flags (p.fragment l) = .ok e ∧ e.find x = .found m

/-- The pattern of the parameter looks at nothing around a value, and no piece that is written for
its value disturbs another. -/
structure Param.IsParted (o : BuildOptions) (D : Text) (params : Params) (p : Param) : Prop where
  pattern : p.HasBlindPattern (!o.sensitive) D
  caseless : o.loose = true → ∀ v, Alike (!o.sensitive) D v → v = D
  pieces : Parted (!o.sensitive) o.loose D (Part.pieces o.encode params (.param p))

section

variable {ic loose once : Bool} {k : Nat} {D : Text} {o : BuildOptions} {l : Literal}
  {params : Params} {p : Param} {v : ParamValue} {x : Text} {xs : List Text} {e : Expression}
  {S : Sense}

/-! ### what is written -/

theorem Part.IsBuilt.eq_written (h : Part.IsBuilt o l params (.param p) x)
    (hc : p.isCapturing = true) (hv : params.get? p.name = some v) (hne : v ≠ .multiple []) :
    x = p.written o.encode v := by
  obtain ⟨s, hs, hbuild⟩ := h
  obtain ⟨check, rfl⟩ := Segment.exists_of_param? (Template.param?_segment hs)
  unfold Segment.build at hbuild
  cases hr : p.isRepeating with
  | false =>
    simp only [hc, hr, Bool.not_true, Bool.false_eq_true, if_false, hv] at hbuild
    rcases Segment.of_single_eq_ok hbuild with ⟨hnone, -⟩ | ⟨t, ht, rfl, -⟩
    · cases hnone
    · cases ht
      rfl
  | true =>
    simp only [hc, hr, Bool.not_true, Bool.false_eq_true, if_false, if_true, hv] at hbuild
    rcases Segment.of_sequence_eq_ok hbuild with ⟨hnone | hnone, -⟩ | ⟨ts, hts, -, -, rfl⟩
    · cases hnone
    · exact absurd (Option.some.inj hnone) hne
    · cases hts
      rfl

/-- A value is written for a parameter that occurs once if it is a single one and passes the
check. -/
theorem Segment.single_eq_ok_iff {check : Option Expression} {encode : Option Codec} :
    single p check encode (some v) = .ok x ↔
      (∃ t, v = .single t) ∧ x = p.written encode v ∧ accepts check x = .ok true := by
  constructor
  · intro h
    rcases of_single_eq_ok h with ⟨hnone, -⟩ | ⟨t, ht, hx, hacc⟩
    · cases hnone
    · cases ht
      exact ⟨⟨t, rfl⟩, hx, hacc⟩
  · rintro ⟨⟨t, rfl⟩, rfl, hacc⟩
    have hacc' : accepts check (p.before ++ recode encode t ++ p.after) = .ok true := hacc
    simp only [single, hacc']
    rfl

/-- A builder writes a single value if the expression of its parameter finds what is written. -/
theorem Part.isBuilt_iff_of_single (hc : p.isCapturing = true) (hr : p.isRepeating = false)
    (hv : params.get? p.name = some v) : Part.IsBuilt o l params (.param p) x ↔
      (∃ t, v = .single t) ∧ x = p.written o.encode v ∧
        (o.validate = true → p.Finds o.flags l x) := by
  have hbuild : ∀ check, Segment.build o.encode params (.param p check) = .ok x ↔
      (∃ t, v = .single t) ∧ x = p.written o.encode v ∧ Segment.accepts check x = .ok true := by
    intro check
    simp only [Segment.build, hc, hr, Bool.not_true, Bool.false_eq_true, if_false, hv,
      Segment.single_eq_ok_iff]
  have hsource : p.checkSource l = p.fragment l := by simp [Param.checkSource, hr]
  constructor
  · rintro ⟨s, hs, hx⟩
    rcases (Template.segment_param_eq_ok_iff hc).1 hs with ⟨hvalidate, rfl⟩ | ⟨e, rfl, -, he⟩
    · obtain ⟨hsingle, hwritten, -⟩ := (hbuild none).1 hx
      exact ⟨hsingle, hwritten, fun h => by simp [hvalidate] at h⟩
    · obtain ⟨hsingle, hwritten, hacc⟩ := (hbuild (some e)).1 hx
      obtain ⟨m, hm⟩ := Segment.accepts_eq_true_iff.1 hacc
      exact ⟨hsingle, hwritten, fun _ => ⟨e, m, hsource ▸ he, hm⟩⟩
  · rintro ⟨hsingle, hwritten, hfind⟩
    cases hvalidate : o.validate with
    | false =>
      exact ⟨.param p none, (Template.segment_param_eq_ok_iff hc).2 (.inl ⟨hvalidate, rfl⟩),
        (hbuild none).2 ⟨hsingle, hwritten, rfl⟩⟩
    | true =>
      obtain ⟨e, m, he, hm⟩ := hfind hvalidate
      exact ⟨.param p (some e),
        (Template.segment_param_eq_ok_iff hc).2 (.inr ⟨e, rfl, hvalidate, hsource.symm ▸ he⟩),
        (hbuild (some e)).2 ⟨hsingle, hwritten, Segment.accepts_eq_true_iff.2 ⟨m, hm⟩⟩⟩

/-! ### expressions of parameters -/

/-- Pieces that are matched one after the other are found as a whole text, unless the budget is
spent. -/
theorem Sense.Meets.find (h : Meets ic loose D S xs) (hr : e.root.isRegular = true)
    (hm : e.root.Matches = wholly S) (hparted : Parted ic loose D xs) :
    e.find xs.flatten = .gaveUp ∨ ∃ m, e.find xs.flatten = .found m ∧ m.span.text = xs.flatten := by
  obtain ⟨w, hw⟩ := h (.start xs.flatten) (.finish xs.flatten) [] (Cursor.start_takes_finish _) rfl
    (by rwa [List.append_nil])
  cases hfind : e.find xs.flatten with
  | gaveUp => exact .inl rfl
  | found m => exact .inr ⟨m, rfl, Expression.text_of_find hr hm hfind⟩
  | none => exact absurd hw (Expression.not_sense_of_none hr hm hfind w)

theorem Param.find_of_single (hD : l.delimiter ≠ []) (hvalidate : o.validate = true)
    (hc : p.isCapturing = true) (hr : p.isRepeating = false) (hv : params.get? p.name = some v)
    (h : Part.IsBuilt o l params (.param p) x) :
    ∃ e m, Expression.anchored o.flags (p.fragment l) = .ok e ∧ e.find x = .found m ∧
      (p.HasPattern (!o.sensitive) l.delimiter → m.span.text = x) := by
  obtain ⟨-, -, hfind⟩ := (Part.isBuilt_iff_of_single hc hr hv).1 h
  obtain ⟨e, m, he, hm⟩ := hfind hvalidate
  refine ⟨e, m, he, hm, fun hp => ?_⟩
  have hreadable := Template.readable_of_hasPattern false hD hc hp fun h => by simp [hr] at h
  obtain ⟨e', he', hregular, hmatches⟩ := Param.exists_check o.flags hD hreadable hc
    (by simp [BuildOptions.flags])
  rw [Param.checkSource, hr, if_neg (by simp), he] at he'
  cases he'
  exact Expression.text_of_find hregular hmatches hm

/-- What is written for several values is found by the expression of their parameter, unless the
budget is spent. -/
theorem Param.find_of_sequence (hD : l.delimiter ≠ []) (hloose : l.loose = o.loose)
    (hvalidate : o.validate = true) (hc : p.isCapturing = true) (hbetween : p.between ≠ [])
    (hp : p.IsParted o l.delimiter params) (h : Part.IsBuilt o l params (.param p) x) :
    ∃ e, Expression.anchored o.flags (p.fragment l) = .ok e ∧
      (e.find x = .gaveUp ∨ ∃ m, e.find x = .found m ∧ m.span.text = x) := by
  have hreadable := Template.readable_of_hasPattern false hD hc
    (fun x hx => (hp.pattern x hx).imp_right And.left) fun _ => hbetween
  have hflags : o.flags.sensitive = !(!o.sensitive) := by simp [BuildOptions.flags]
  obtain ⟨e, he, hregular, -, hm⟩ := Expression.exists_anchored o.flags
    (Expression.denotes_fragment (g := 0) hD hreadable.pattern hreadable.between hreadable.text)
    hflags
  obtain ⟨rfl, hmeets⟩ := Param.meets_of_isBuilt hD hvalidate (by rw [hloose]; exact hp.caseless)
    hreadable (fun _ _ hx => hp.pattern.movesTo hD hx) h 0
  exact ⟨e, he, hmeets.find hregular hm (by rw [hloose]; exact hp.pieces)⟩

end

/-! ### paths -/

namespace Path

/-- What a parameter adds to a path that is built, its expression finds. For several values this is
so if no piece that is written for them disturbs another, unless the budget is spent. -/
theorem find_written {o : BuildOptions} {path : Path} {t : Template} {b : Builder} {params : Params}
    {u : Text} {p : Param} {v : ParamValue} (hpath : path.resolve o.parse = .ok (.inl t))
    (hvalidate : o.validate = true) (hb : path.builder o = .ok b) (hbuild : b.build params = .ok u)
    (hp : p ∈ t.params) (hv : params.get? p.name = some v) (hne : v ≠ .multiple [])
    (hparted : p.isRepeating = true → p.IsParted o t.delimiter params) :
    p.written o.encode v <:+: u ∧
    ∃ e, Expression.anchored o.flags (p.fragment ⟨t.delimiter, o.loose⟩) = .ok e ∧
      ((p.isRepeating = true ∧ e.find (p.written o.encode v) = .gaveUp) ∨
        ∃ m, e.find (p.written o.encode v) = .found m ∧
          (p.HasPattern (!o.sensitive) t.delimiter → m.span.text = p.written o.encode v)) := by
  have hD := delimiter_ne_nil hpath
  simp only [builder, hpath, lift_eq_ok_iff] at hb
  obtain ⟨hpart, hc⟩ := mem_paramsOf.1 hp
  obtain ⟨xs, hxs, rfl⟩ := (Builder.build_eq_ok_iff hb).1 hbuild
  obtain ⟨x, hx, hbuilt⟩ := exists_of_mem_forall₂ hxs hpart
  obtain rfl := hbuilt.eq_written hc hv hne
  refine ⟨List.infix_of_mem_flatten hx, ?_⟩
  cases hr : p.isRepeating with
  | false =>
    obtain ⟨e, m, he, hm⟩ := Param.find_of_single (l := ⟨t.delimiter, o.loose⟩) hD hvalidate hc hr
      hv hbuilt
    exact ⟨e, he, .inr ⟨m, hm⟩⟩
  | true =>
    obtain ⟨fs, hfs⟩ := Template.exists_fragments_of_toBuilder hb
    obtain ⟨e, he, hfind⟩ := Param.find_of_sequence (l := ⟨t.delimiter, o.loose⟩) hD rfl hvalidate
      hc (Template.between_ne_nil hfs hpart hc hr) (hparted hr) hbuilt
    refine ⟨e, he, ?_⟩
    rcases hfind with hgave | ⟨m, hm, htext⟩
    · exact .inl ⟨rfl, hgave⟩
    · exact .inr ⟨m, hm, fun _ => htext⟩

theorem find_written_files :
    ∃ t b params p e m, (pattern "/files\x7b/:rest\x7d+".toList).resolve {} = .ok (.inl t) ∧
      (pattern "/files\x7b/:rest\x7d+".toList).builder {} = .ok b ∧
      b.build params = .ok "/files/a/b%20c".toList ∧ p ∈ t.params ∧
      params.get? p.name = some (.multiple ["a".toList, "b c".toList]) ∧
      Expression.anchored ({} : BuildOptions).flags (p.fragment ⟨t.delimiter, true⟩) = .ok e ∧
      e.find "/a/b%20c".toList = .found m ∧ m.span.text = "/a/b%20c".toList := by
  let p : Param :=
    { name := "rest".toList, before := ['/'], modifier := some .oneOrMore, separator := some ['/'] }
  let t : Template := ⟨[.text "/files".toList, .param p], ['/']⟩
  have hparse : Path.parse {} "/files\x7b/:rest\x7d+".toList = .ok t := by cbv
  have hpath : (pattern "/files\x7b/:rest\x7d+".toList).resolve {} = .ok (.inl t) :=
    resolve_pattern hparse
  obtain ⟨b, hb⟩ := exists_ok_of_isSome (x := (pattern "/files\x7b/:rest\x7d+".toList).builder {})
    (by decide +kernel)
  let params := Params.ofList [("rest".toList, .multiple ["a".toList, "b c".toList])]
  have hbuild : b.build params = .ok "/files/a/b%20c".toList :=
    eq_ok_of_bind (Builder.build · params) hb (by decide +kernel)
  have halone : IsAlone '/' := isAlone_of_isCaseless rfl
  have hpieces : Part.pieces ({} : BuildOptions).encode params (.param p) =
      [['/'], ['a'], ['/'], "b%20c".toList, []] := by
    decide +kernel
  have hwritten : p.written ({} : BuildOptions).encode (.multiple ["a".toList, "b c".toList]) =
      "/a/b%20c".toList := by
    decide +kernel
  have hmem : p ∈ t.params := by decide +kernel
  obtain ⟨-, e, he, hfind⟩ := @find_written {} _ t b params _ p _ hpath rfl hb hbuild hmem rfl
      (by simp) fun _ =>
    ⟨fun x hx => (by cases hx), fun _ v hv => (alike_delimiter_iff halone).1 hv, by
      rw [hpieces]
      exact ⟨undisturbed_of_isAlone halone (by simp), undisturbed_of_isAlone halone (by simp),
        undisturbed_of_isAlone halone (by simp), undisturbed_of_isAlone halone (by simp),
        undisturbed_of_isAlone halone (by simp), trivial⟩⟩
  rw [hwritten] at hfind
  rcases hfind with ⟨-, hgave⟩ | ⟨m, hm, htext⟩
  · -- the budget is not spent on this text
    exact absurd hgave (of_decide_eq_false
      (eq_of_map (fun e => decide (e.find "/a/b%20c".toList = .gaveUp)) he (by decide +kernel)))
  · exact ⟨t, b, params, p, e, m, hpath, hb, hbuild, hmem, rfl, he, hm,
      htext fun x hx => (by cases hx)⟩

/-- An element that starts with a delimiter is accepted by itself, but the run of the delimiter
before it takes that one, too. -/
theorem find_written_none_of_slash :
    ∃ t b params p e, (pattern "\x7b/:x(/b);-\x7d+".toList).resolve {} = .ok (.inl t) ∧
      (pattern "\x7b/:x(/b);-\x7d+".toList).builder { encode := none } = .ok b ∧
      b.build params = .ok "//b".toList ∧ p ∈ t.params ∧
      params.get? p.name = some (.multiple ["/b".toList]) ∧
      Expression.anchored ({ encode := none } : BuildOptions).flags
          (p.fragment ⟨t.delimiter, true⟩) = .ok e ∧
      p.written none (.multiple ["/b".toList]) = "//b".toList ∧ e.find "//b".toList = .none := by
  let p : Param :=
    { name := "x".toList, before := ['/'], pattern := some "/b".toList, modifier := some .oneOrMore,
      separator := some ['-'] }
  let t : Template := ⟨[.param p], ['/']⟩
  have hparse : Path.parse {} "\x7b/:x(/b);-\x7d+".toList = .ok t := by cbv
  have hpath : (pattern "\x7b/:x(/b);-\x7d+".toList).resolve {} = .ok (.inl t) :=
    resolve_pattern hparse
  obtain ⟨b, hb⟩ := exists_ok_of_isSome
    (x := (pattern "\x7b/:x(/b);-\x7d+".toList).builder { encode := none }) (by decide +kernel)
  let params := Params.ofList [("x".toList, .multiple ["/b".toList])]
  have hbuild : b.build params = .ok "//b".toList :=
    eq_ok_of_bind (Builder.build · params) hb (by decide +kernel)
  obtain ⟨e, he⟩ := exists_ok_of_isSome (x :=
      Expression.anchored ({ encode := none } : BuildOptions).flags
        (p.fragment ⟨t.delimiter, true⟩)) (by decide +kernel)
  have hnone : e.find "//b".toList = .none :=
    of_decide_eq_true (eq_of_map (fun e => decide (e.find "//b".toList = .none)) he
    (by decide +kernel))
  exact ⟨t, b, params, p, e, hpath, hb, hbuild, by decide +kernel, rfl, he, by decide +kernel,
    hnone⟩

end Path

end PathTemplate
