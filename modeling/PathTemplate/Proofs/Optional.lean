import PathTemplate.Proofs.Expression.Optional
import PathTemplate.Proofs.Standing
import PathTemplate.Proofs.Written

/-!
# Parameters that may be left out

The expression of a parameter that may be left out ends with a `?`, and so does not tell a value for
which nothing is written from a missing one. For any other value the `?` changes nothing.

* `Param.finds_optional` — with and without the `?`, the expression finds the same texts, the
  empty one apart;
* `Template.exists_fragmentsFrom_replace`, `Part.forall₂_isBuilt_replace` — replacing one part of
  a template;
* `Path.build_optional` — the same paths are built with and without the `?`, from a value for
  which something is written.
-/

namespace PathTemplate

open Expression (Literal)

section

variable {ic : Bool} {flags : Flags} {o : BuildOptions} {l : Literal} {params : Params}
  {p q : Param} {v : ParamValue} {u x : Text} {xs ys : List Part}

/-! ### expressions -/

/-- The expression of a parameter that occurs once is one piece, which a modifier may repeat. -/
theorem Expression.standsOne_fragment (hp : p.StandsAlone ic l.delimiter)
    (hc : p.isCapturing = true) :
    StandsOne true ic (Param.fragment l { p with modifier := none }) := by
  have hcapture := (stands_valueSource hp).capture
  have hall := ((stands_source ic l p.before).append hcapture.stands).append
    (stands_source ic l p.after)
  have htext : Param.fragment l { p with modifier := none } =
      ['(', '?', ':'] ++
        (l.source p.before ++ (['('] ++ p.valueSource l.delimiter ++ [')']) ++ l.source p.after) ++
        [')'] := by
    have hc' : Param.isCapturing { p with modifier := none } = true := hc
    simp [Param.fragment, hc', Param.isRepeating, Param.modifierSource, Param.valueSource]
  rw [htext]
  exact hall.group

theorem Param.fragment_optional (l : Literal) (hc : p.isCapturing = true) :
    Param.fragment l { p with modifier := some .optional } =
      Param.fragment l { p with modifier := none } ++ ['?'] := by
  have hc' : ∀ m, Param.isCapturing { p with modifier := m } = true := fun _ => hc
  simp [Param.fragment, hc', Param.isRepeating, Modifier.isRepeating, Param.modifierSource,
    Modifier.char, Param.valueSource]

/-- What the expression of a parameter finds, it finds as well if the parameter may be left out. Of
the texts that it finds then, the parameter itself finds all but the empty one. -/
theorem Param.finds_optional (hp : p.StandsAlone ic l.delimiter) (hc : p.isCapturing = true)
    (hflags : flags.sensitive = !ic) :
    (Finds flags l { p with modifier := none } x →
      Finds flags l { p with modifier := some .optional } x) ∧
    (x ≠ [] → Finds flags l { p with modifier := some .optional } x →
      Finds flags l { p with modifier := none } x) := by
  have hsource : ∀ y, Expression.anchored flags y =
      Expression.read (Expression.switchSource ic ++ (['^'] ++ y ++ ['$'])) := by
    intro y
    rw [Expression.anchored, Expression.inlineSwitch_eq hflags, List.append_assoc,
      List.append_assoc, List.append_assoc]
  unfold Finds
  rw [fragment_optional l hc, hsource, hsource]
  rcases Expression.read_optional (Expression.standsOne_fragment (l := l) hp hc) with
    ⟨⟨k, hk⟩, k', hk'⟩ | ⟨e, e', n, he, he', hroot, hroot', hrefs⟩
  · rw [hk, hk']
    constructor
    · rintro ⟨_, _, h, _⟩
      cases h
    · rintro - ⟨_, _, h, _⟩
      cases h
  · rw [he, he']
    constructor
    · rintro ⟨_, m, h, hm⟩
      cases h
      obtain ⟨m', hm'⟩ := Expression.exists_find_optional hroot hroot' hrefs ⟨m, hm⟩
      exact ⟨e', m', rfl, hm'⟩
    · rintro hx ⟨_, m, h, hm⟩
      cases h
      obtain ⟨m', hm'⟩ := Expression.exists_find_of_optional hroot hroot' hrefs hx ⟨m, hm⟩
      exact ⟨e, m', rfl, hm'⟩

/-! ### builders -/

/-- The strict check does not ask how often a single value may occur. -/
theorem Guard.pass_optional (g : Guard) : g.pass flags l { p with modifier := some .optional } =
    g.pass flags l { p with modifier := none } := rfl

/-- Parts have expressions as well if a parameter is replaced by one that the strict check treats in
the same way. -/
theorem Template.exists_fragmentsFrom_replace
    (hpass : ∀ g : Guard, g.pass flags l p = g.pass flags l q) (hp : p.isCapturing = true)
    (hq : q.isCapturing = true) {g : Guard}
    (h : ∃ fs, fragmentsFrom flags l g (xs ++ .param p :: ys) = .ok fs) :
    ∃ fs, fragmentsFrom flags l g (xs ++ .param q :: ys) = .ok fs := by
  induction xs generalizing g with
  | nil =>
    obtain ⟨fs, h⟩ := h
    simp only [List.nil_append, fragmentsFrom, hp, hq, if_true, hpass] at h ⊢
    split at h
    · cases h
    · obtain ⟨fs', h', -⟩ := exists_of_map_eq_ok h
      rw [h']
      exact ⟨_, rfl⟩
  | cons part xs ih =>
    -- what the first part adds to the expressions of the others
    have hcons : ∀ {g' : Guard} {x : Text},
        (∃ fs, (fragmentsFrom flags l g' (xs ++ .param p :: ys)).map (x :: ·) = .ok fs) →
        ∃ fs, (fragmentsFrom flags l g' (xs ++ .param q :: ys)).map (x :: ·) = .ok fs := by
      rintro g' x ⟨fs, h⟩
      obtain ⟨fs', h', -⟩ := exists_of_map_eq_ok h
      obtain ⟨gs, hgs⟩ := ih ⟨fs', h'⟩
      exact ⟨x :: gs, by rw [hgs]; rfl⟩
    cases part with
    | text t => exact hcons h
    | param p' =>
      simp only [List.cons_append, fragmentsFrom] at h ⊢
      by_cases hcap : p'.isCapturing = true
      · rw [if_pos hcap] at h ⊢
        cases hpass' : g.pass flags l p' with
        | error e =>
          rw [hpass'] at h
          obtain ⟨_, h⟩ := h
          cases h
        | ok g' =>
          rw [hpass'] at h
          exact hcons h
      · rw [if_neg hcap] at h ⊢
        exact hcons h

theorem Part.forall₂_isBuilt_replace {part part' : Part}
    (h : ∀ x, IsBuilt o l params part x → IsBuilt o l params part' x) {us : List Text}
    (hus : List.Forall₂ (IsBuilt o l params) (xs ++ part :: ys) us) :
    List.Forall₂ (IsBuilt o l params) (xs ++ part' :: ys) us := by
  induction xs generalizing us with
  | nil =>
    obtain _ | ⟨hx, hus⟩ := hus
    exact .cons (h _ hx) hus
  | cons first xs ih =>
    obtain _ | ⟨hx, hus⟩ := hus
    exact .cons hx (ih hus)

/-- What is written for a given value is written as well if the parameter may be left out, and if it
is not empty, then it is written in this case only. -/
theorem Part.isBuilt_optional (hc : p.isCapturing = true)
    (hp : p.StandsAlone (!o.sensitive) l.delimiter) (hv : params.get? p.name = some v) :
    (IsBuilt o l params (.param { p with modifier := none }) x →
      IsBuilt o l params (.param { p with modifier := some .optional }) x) ∧
    (p.written o.encode v ≠ [] →
      IsBuilt o l params (.param { p with modifier := some .optional }) x →
      IsBuilt o l params (.param { p with modifier := none }) x) := by
  have hwritten : ∀ m, Param.written o.encode { p with modifier := m } v = p.written o.encode v :=
      fun m => by
    cases v <;> rfl
  obtain ⟨hfinds, hfound⟩ := Param.finds_optional (l := l) (x := x) hp hc
    (by simp [BuildOptions.flags] : o.flags.sensitive = _)
  rw [isBuilt_iff_of_single (p := { p with modifier := some .optional }) hc rfl hv,
    isBuilt_iff_of_single (p := { p with modifier := none }) hc rfl hv, hwritten, hwritten]
  constructor
  · rintro ⟨hsingle, hx, hall⟩
    exact ⟨hsingle, hx, fun h => hfinds (hall h)⟩
  · rintro hne ⟨hsingle, rfl, hall⟩
    exact ⟨hsingle, rfl, fun h => hfound hne (hall h)⟩

/-- What a template builds from a given value, it builds as well if the parameter may be left out;
and it builds nothing else if something is written for the value. -/
theorem Template.exists_build_optional {D : Text} (hc : p.isCapturing = true)
    (hp : p.IsSelfContained (!o.sensitive)) (hv : params.get? p.name = some v) :
    ((∃ b, toBuilder o ⟨xs ++ .param { p with modifier := none } :: ys, D⟩ = .ok b ∧
        b.build params = .ok u) →
      ∃ b, toBuilder o ⟨xs ++ .param { p with modifier := some .optional } :: ys, D⟩ = .ok b ∧
        b.build params = .ok u) ∧
    (p.written o.encode v ≠ [] →
      (∃ b, toBuilder o ⟨xs ++ .param { p with modifier := some .optional } :: ys, D⟩ = .ok b ∧
        b.build params = .ok u) →
      ∃ b, toBuilder o ⟨xs ++ .param { p with modifier := none } :: ys, D⟩ = .ok b ∧
        b.build params = .ok u) := by
  -- the expressions of the parts are there only if that of the value is
  have halone :
      ∀ m, (∃ fs, fragments o.flags ⟨D, o.loose⟩ ⟨xs ++ .param { p with modifier := m } :: ys, D⟩ =
          .ok fs) → p.StandsAlone (!o.sensitive) D := by
    rintro m ⟨fs, hfs⟩
    exact Param.standsAlone_of_anchored (by simp [BuildOptions.flags]) hp
      (exists_anchored_of_fragmentsFrom hfs (p := { p with modifier := m }) (by simp) hc)
  rw [exists_build_iff, exists_build_iff]
  constructor
  · rintro ⟨hfragments, us, hus, rfl⟩
    have hbuilt := fun x => Part.isBuilt_optional (l := ⟨D, o.loose⟩) (x := x) hc
      (halone _ hfragments) hv
    exact ⟨exists_fragmentsFrom_replace (fun g => g.pass_optional.symm) hc hc hfragments, us,
      Part.forall₂_isBuilt_replace (fun x => (hbuilt x).1) hus, rfl⟩
  · rintro hne ⟨hfragments, us, hus, rfl⟩
    have hbuilt := fun x => Part.isBuilt_optional (l := ⟨D, o.loose⟩) (x := x) hc
      (halone _ hfragments) hv
    exact ⟨exists_fragmentsFrom_replace Guard.pass_optional hc hc hfragments, us,
      Part.forall₂_isBuilt_replace (fun x => (hbuilt x).2 hne) hus, rfl⟩

end

/-! ### paths -/

namespace Path

theorem exists_build_iff {o : BuildOptions} {path : Path} {t : Template} {params : Params}
    {u : Text} (hpath : path.resolve o.parse = .ok (.inl t)) :
    (∃ b, path.builder o = .ok b ∧ b.build params = .ok u) ↔
    ∃ b, t.toBuilder o = .ok b ∧ b.build params = .ok u := by
  simp only [builder, hpath, lift_eq_ok_iff]

/-- A given value that is accepted is accepted as well if its parameter may be left out, and gives
the same path. If something is written for the value, it is accepted in this case only. The pattern
of the parameter is an expression on its own. -/
theorem build_optional {o : BuildOptions} {path path' : Path} {xs ys : List Part} {D : Text}
    {p : Param} {params : Params} {v : ParamValue} {u : Text}
    (hpath : path.resolve o.parse = .ok (.inl ⟨xs ++ .param { p with modifier := none } :: ys, D⟩))
    (hpath' : path'.resolve o.parse =
      .ok (.inl ⟨xs ++ .param { p with modifier := some .optional } :: ys, D⟩))
    (hc : p.isCapturing = true) (hp : p.IsSelfContained (!o.sensitive))
    (hv : params.get? p.name = some v) :
    ((∃ b, path.builder o = .ok b ∧ b.build params = .ok u) →
      ∃ b, path'.builder o = .ok b ∧ b.build params = .ok u) ∧
    (p.written o.encode v ≠ [] → (∃ b, path'.builder o = .ok b ∧ b.build params = .ok u) →
      ∃ b, path.builder o = .ok b ∧ b.build params = .ok u) := by
  rw [exists_build_iff hpath, exists_build_iff hpath']
  exact Template.exists_build_optional hc hp hv

theorem build_optional_name :
    ∃ (xs ys : List Part) (D : Text) (p : Param) (params : Params),
      (pattern "/:name([a-z%0-9]+)".toList).resolve {} =
        .ok (.inl ⟨xs ++ .param { p with modifier := none } :: ys, D⟩) ∧
      (pattern "/:name([a-z%0-9]+)?".toList).resolve {} =
        .ok (.inl ⟨xs ++ .param { p with modifier := some .optional } :: ys, D⟩) ∧
      params.get? p.name = some (.single "a b".toList) ∧
      (∃ b, (pattern "/:name([a-z%0-9]+)".toList).builder {} = .ok b ∧
        b.build params = .ok "/a%20b".toList) ∧
      ∃ b, (pattern "/:name([a-z%0-9]+)?".toList).builder {} = .ok b ∧
        b.build params = .ok "/a%20b".toList := by
  let p : Param := { name := "name".toList, pattern := some "[a-z%0-9]+".toList }
  let params := Params.ofList [("name".toList, .single "a b".toList)]
  have hparse : Path.parse {} "/:name([a-z%0-9]+)".toList =
      .ok ⟨[.text ['/']] ++ .param { p with modifier := none } :: [], ['/']⟩ := by cbv
  have hparse' : Path.parse {} "/:name([a-z%0-9]+)?".toList =
      .ok ⟨[.text ['/']] ++ .param { p with modifier := some .optional } :: [], ['/']⟩ := by cbv
  have hpath : (pattern "/:name([a-z%0-9]+)".toList).resolve {} =
      .ok (.inl ⟨[.text ['/']] ++ .param { p with modifier := none } :: [], ['/']⟩) :=
    resolve_pattern hparse
  have hpath' : (pattern "/:name([a-z%0-9]+)?".toList).resolve {} =
      .ok (.inl ⟨[.text ['/']] ++ .param { p with modifier := some .optional } :: [], ['/']⟩) :=
    resolve_pattern hparse'
  have hp : p.IsSelfContained (!({} : BuildOptions).sensitive) := by
    rintro _ ⟨⟩
    exact exists_ok_of_isSome (by decide +kernel)
  obtain ⟨b, hb⟩ := exists_ok_of_isSome (x := (pattern "/:name([a-z%0-9]+)?".toList).builder {})
    (by decide +kernel)
  have hbuild : b.build params = .ok "/a%20b".toList :=
    eq_ok_of_bind (Builder.build · params) hb (by decide +kernel)
  have hv : params.get? p.name = some (.single "a b".toList) := rfl
  obtain ⟨hmore, hless⟩ := build_optional (o := {}) (u := "/a%20b".toList) hpath hpath' rfl hp hv
  have hrequired := hless (by decide +kernel) ⟨b, hb, hbuild⟩
  exact ⟨_, _, _, p, params, hpath, hpath', hv, hrequired, hmore hrequired⟩

/-- If nothing is written for a value, leaving the parameter out passes for the value. -/
theorem build_optional_of_empty :
    ∃ (D : Text) (p : Param) (params : Params) (b b' : Builder), (pattern ":x?".toList).resolve {} =
        .ok (.inl ⟨[.param { p with modifier := some .optional }], D⟩) ∧
      (pattern ":x".toList).resolve {} = .ok (.inl ⟨[.param { p with modifier := none }], D⟩) ∧
      p.isCapturing = true ∧ params.get? p.name = some (.single []) ∧
      (pattern ":x?".toList).builder {} = .ok b ∧ b.build params = .ok [] ∧
      (pattern ":x".toList).builder {} = .ok b' ∧
      b'.build params = .error (.invalidValue p.name []) := by
  let p : Param := { name := "x".toList }
  let params := Params.ofList [("x".toList, .single [])]
  have hparse :
      Path.parse {} ":x?".toList = .ok ⟨[.param { p with modifier := some .optional }], ['/']⟩ := by
    cbv
  have hparse' : Path.parse {} ":x".toList = .ok ⟨[.param { p with modifier := none }], ['/']⟩ := by
    cbv
  obtain ⟨b, hb⟩ := exists_ok_of_isSome (x := (pattern ":x?".toList).builder {}) (by decide +kernel)
  obtain ⟨b', hb'⟩ := exists_ok_of_isSome (x := (pattern ":x".toList).builder {})
    (by decide +kernel)
  have hbuild : b.build params = .ok [] :=
    eq_ok_of_bind (Builder.build · params) hb (by decide +kernel)
  have hbuild' : b'.build params = .error (.invalidValue p.name []) :=
    eq_of_map (Builder.build · params) hb' (by decide +kernel)
  exact ⟨['/'], p, params, b, b', resolve_pattern hparse, resolve_pattern hparse', rfl, rfl, hb,
    hbuild, hb', hbuild'⟩

end Path

end PathTemplate
