import PathTemplate.Builder
import PathTemplate.Proofs.Fragment

/-!
# What a builder gives

* `Template.keys_of_toBuilder` — a builder has the keys of its template;
* `Part.IsBuilt` — the text of a part for some values; `Builder.build_eq_ok_iff` — a path is made
  of the texts of its parts; `Template.exists_build_iff` — so it is if the parts have expressions;
* `Param.Validator` — the expression that values are checked against;
  `Template.segment_param_eq_ok_iff` — the segment of a parameter has it;
* `Segment.sense_of_accepts` — an accepted text has the sense of the expression that it is checked
  against;
* `Segment.of_single_eq_ok`, `Segment.of_sequence_eq_ok` — when values are accepted, and what is
  written for them; `Segment.elements_eq_ok_iff`, `Segment.elements_eq_error_iff` — the first
  element that is not accepted stops the others.
-/

namespace PathTemplate

open Expression (Literal Denotes wholly)

/-- The text of a part for some values. -/
def Part.IsBuilt (o : BuildOptions) (l : Literal) (params : Params) (part : Part) (x : Text) :
    Prop :=
  ∃ s, Template.segment o l part = .ok s ∧ s.build o.encode params = .ok x

theorem Builder.segments_of_toBuilder {o : BuildOptions} {t : Template} {b : Builder}
    (hb : t.toBuilder o = .ok b) :
    List.Forall₂ (fun part s => Template.segment o ⟨t.delimiter, o.loose⟩ part = .ok s) t.parts
      b.segments ∧ b.encode = o.encode := by
  simp only [Template.toBuilder] at hb
  split at hb
  · cases hb
  · obtain ⟨segments, hmap, rfl⟩ := exists_of_map_eq_ok hb
    exact ⟨mapM_eq_ok_iff.1 hmap, rfl⟩

theorem Template.param?_segment {o : BuildOptions} {l : Literal} {part : Part} {s : Segment}
    (h : segment o l part = .ok s) : s.param? = part.param? := by
  unfold segment at h
  split at h
  · cases h
    rfl
  · split at h
    · split at h
      · cases h
      · cases h
        rfl
    · cases h
      rfl

theorem Segment.exists_of_param? {s : Segment} {p : Param} (h : s.param? = some p) :
    ∃ check, s = .param p check := by
  cases s with
  | text t => cases h
  | param q check =>
    cases h
    exact ⟨check, rfl⟩

theorem Template.keys_of_toBuilder {o : BuildOptions} {t : Template} {b : Builder}
    (hb : t.toBuilder o = .ok b) : b.keys = t.params := by
  have hparams : b.segments.filterMap Segment.param? = t.parts.filterMap Part.param? := by
    have hsegments := (Builder.segments_of_toBuilder hb).1
    generalize b.segments = segments at hsegments
    generalize t.parts = parts at hsegments
    induction hsegments with
    | nil => rfl
    | cons hs _ ih => rw [List.filterMap_cons, List.filterMap_cons, param?_segment hs, ih]
  rw [Builder.keys, hparams]
  rfl

theorem Template.exists_fragments_of_toBuilder {o : BuildOptions} {t : Template} {b : Builder}
    (hb : t.toBuilder o = .ok b) : ∃ fs, t.fragments o.flags ⟨t.delimiter, o.loose⟩ = .ok fs := by
  simp only [toBuilder] at hb
  split at hb
  · cases hb
  · exact ⟨_, by assumption⟩

/-- A path is made of the texts of its parts. -/
theorem Builder.build_eq_ok_iff {o : BuildOptions} {t : Template} {b : Builder}
    (hb : t.toBuilder o = .ok b) {params : Params} {u : Text} :
    b.build params = .ok u ↔
    ∃ xs, List.Forall₂ (Part.IsBuilt o ⟨t.delimiter, o.loose⟩ params) t.parts xs ∧
      u = xs.flatten := by
  obtain ⟨hsegments, hencode⟩ := segments_of_toBuilder hb
  have hbuild : b.build params = .ok u ↔
      ∃ xs, List.Forall₂ (fun s x => s.build o.encode params = .ok x) b.segments xs ∧
        u = xs.flatten := by
    unfold Builder.build
    rw [hencode]
    constructor
    · intro h
      obtain ⟨xs, hxs, rfl⟩ := exists_of_map_eq_ok h
      exact ⟨xs, mapM_eq_ok_iff.1 hxs, rfl⟩
    · rintro ⟨xs, hxs, rfl⟩
      rw [mapM_eq_ok_iff.2 hxs]
      rfl
  rw [hbuild]
  refine exists_congr fun xs => and_congr_left fun hu => ?_
  clear hu hbuild
  generalize b.segments = segments at hsegments
  generalize t.parts = parts at hsegments
  constructor
  · intro h
    induction hsegments generalizing xs with
    | nil =>
      cases h
      exact .nil
    | cons hs _ ih =>
      obtain _ | ⟨hx, hxs⟩ := h
      exact .cons ⟨_, hs, hx⟩ (ih _ hxs)
  · intro h
    induction hsegments generalizing xs with
    | nil =>
      cases h
      exact .nil
    | cons hs _ ih =>
      obtain _ | ⟨⟨s, hs', hx⟩, hxs⟩ := h
      rw [hs] at hs'
      cases hs'
      exact .cons hx (ih _ hxs)

/-- What a template builds, if it has a builder: its parts need expressions, and texts. -/
theorem Template.exists_build_iff {o : BuildOptions} {t : Template} {params : Params} {u : Text} :
    (∃ b, t.toBuilder o = .ok b ∧ b.build params = .ok u) ↔
    (∃ fs, t.fragments o.flags ⟨t.delimiter, o.loose⟩ = .ok fs) ∧
      ∃ xs, List.Forall₂ (Part.IsBuilt o ⟨t.delimiter, o.loose⟩ params) t.parts xs ∧
        u = xs.flatten := by
  constructor
  · rintro ⟨b, hb, hbuild⟩
    exact ⟨exists_fragments_of_toBuilder hb, (Builder.build_eq_ok_iff hb).1 hbuild⟩
  · rintro ⟨⟨fs, hfs⟩, xs, hxs, hu⟩
    have hsegments : ∃ segments, List.Forall₂
        (fun part s => segment o ⟨t.delimiter, o.loose⟩ part = .ok s) t.parts segments := by
      generalize t.parts = parts at hxs ⊢
      clear hu
      induction hxs with
      | nil => exact ⟨[], .nil⟩
      | cons hx _ ih =>
        obtain ⟨s, hs, -⟩ := hx
        obtain ⟨segments, hsegments⟩ := ih
        exact ⟨s :: segments, .cons hs hsegments⟩
    obtain ⟨segments, hsegments⟩ := hsegments
    have hb : t.toBuilder o = .ok ⟨segments, o.encode⟩ := by
      simp only [toBuilder, hfs, mapM_eq_ok_iff.2 hsegments]
      rfl
    exact ⟨_, hb, (Builder.build_eq_ok_iff hb).2 ⟨xs, hxs, hu⟩⟩

/-! ### what values are checked against -/

/-- The expression that the values of a parameter are checked against, if they are. -/
def Param.Validator (o : BuildOptions) (l : Literal) (p : Param) (e : Expression) : Prop :=
  o.validate = true ∧ Expression.anchored o.flags (p.checkSource l) = .ok e

theorem Param.Validator.unique {o : BuildOptions} {l : Literal} {p : Param} {e e' : Expression}
    (h : p.Validator o l e) (h' : p.Validator o l e') : e' = e :=
  Except.ok.inj (h'.2.symm.trans h.2)

/-- The segment of a capturing parameter checks values against its validator, or has none because
nothing is validated. -/
theorem Template.segment_param_eq_ok_iff {o : BuildOptions} {l : Literal} {p : Param} {s : Segment}
    (hc : p.isCapturing = true) :
    segment o l (.param p) = .ok s ↔
    (o.validate = false ∧ s = .param p none) ∨ ∃ e, s = .param p (some e) ∧ p.Validator o l e := by
  cases hvalidate : o.validate with
  | false => simp [segment, Param.Validator, hvalidate, eq_comm]
  | true => cases hcheck : Expression.anchored o.flags (p.checkSource l) <;>
      simp [segment, Param.Validator, hvalidate, hc, hcheck, eq_comm]

/-- The sense of the expression that values are checked against. -/
def Param.checkSense (l : Literal) (ic : Bool) (σ : Text → Sense) (p : Param) : Sense :=
  if p.isRepeating then p.valueSense l ic σ else p.sense l ic σ 0

theorem Param.exists_check {l : Literal} {ic : Bool} {σ : Text → Sense} {p : Param} (flags : Flags)
    (hD : l.delimiter ≠ []) (hp : Template.Readable false ic 58 l σ p) (hc : p.isCapturing = true)
    (hflags : flags.sensitive = !ic) :
    ∃ e, Expression.anchored flags (p.checkSource l) = .ok e ∧ e.root.isRegular = true ∧
      e.root.Matches = wholly (p.checkSense l ic σ) := by
  unfold checkSource checkSense
  split
  · have hvalue := (Expression.denotes_valueSource (k := 58) (g := 0) hD (hp.pattern hc 0)).weaken
      (show 60 ≤ 63 by omega)
    obtain ⟨e, he, hr, -, hm⟩ := Expression.exists_anchored flags hvalue hflags
    exact ⟨e, he, hr, hm⟩
  · obtain ⟨e, he, hr, -, hm⟩ := Expression.exists_anchored flags
      (Expression.denotes_fragment (g := 0) hD hp.pattern hp.between hp.text) hflags
    exact ⟨e, he, hr, hm⟩

theorem Template.exists_segment {o : BuildOptions} {l : Literal} {σ : Text → Sense} {p : Param}
    (hD : l.delimiter ≠ []) (hp : Readable false (!o.sensitive) 58 l σ p)
    (hc : p.isCapturing = true) (hvalidate : o.validate = true) :
    ∃ e, segment o l (.param p) = .ok (.param p (some e)) ∧ e.root.isRegular = true ∧
      e.root.Matches = wholly (p.checkSense l (!o.sensitive) σ) := by
  obtain ⟨e, he, hr, hm⟩ := Param.exists_check o.flags hD hp hc (by simp [BuildOptions.flags])
  exact ⟨e, (segment_param_eq_ok_iff hc).2 (.inr ⟨e, rfl, hvalidate, he⟩), hr, hm⟩

theorem Template.exists_toBuilder_of_isDefault {o : BuildOptions} {t : Template}
    (hstrict : o.strict = false) (hD : t.delimiter ≠ []) (hvalidate : o.validate = true)
    (h : ∀ p, .param p ∈ t.parts → p.IsDefault) : ∃ b, t.toBuilder o = .ok b := by
  obtain ⟨fs, hfs⟩ := exists_fragments_of_isDefault (l := ⟨t.delimiter, o.loose⟩) o.flags hstrict hD
    h
  have hsegments : ∀ parts : List Part, (∀ p, .param p ∈ parts → p.IsDefault) →
      ∃ segments, List.Forall₂ (fun part s => segment o ⟨t.delimiter, o.loose⟩ part = .ok s) parts
        segments := by
    intro parts hparts
    induction parts with
    | nil => exact ⟨[], .nil⟩
    | cons part parts ih =>
      obtain ⟨segments, hs⟩ := ih fun p hp => hparts p (List.mem_cons_of_mem _ hp)
      cases part with
      | text x => exact ⟨.text x :: segments, .cons rfl hs⟩
      | param p =>
        have hp := hparts p (List.mem_cons_self ..)
        obtain ⟨e, he, -⟩ := exists_segment (σ := fun _ => .nothing) (l := ⟨t.delimiter, o.loose⟩)
          hD (readable_of_isDefault hp) hp.capturing hvalidate
        exact ⟨.param p (some e) :: segments, .cons he hs⟩
  obtain ⟨segments, hs⟩ := hsegments t.parts h
  refine ⟨⟨segments, o.encode⟩, ?_⟩
  have hfs' : t.fragments o.flags ⟨t.delimiter, o.loose⟩ = .ok fs := hfs
  simp only [toBuilder, hfs', mapM_eq_ok_iff.2 hs]
  rfl

namespace Segment

variable {p : Param} {check : Option Expression} {e : Expression} {encode : Option Codec}
  {x t : Text} {S : Sense}

theorem accepts_eq_true_iff : accepts (some e) t = .ok true ↔ ∃ m, e.find t = .found m := by
  unfold accepts Expression.matchesIn
  cases hfind : e.find t <;> simp [hfind]

/-- An accepted text has the sense of the expression that it is checked against. -/
theorem sense_of_accepts (hr : e.root.isRegular = true) (hm : e.root.Matches = wholly S)
    (h : accepts (some e) t = .ok true) : ∃ w, S (.start t) (.finish t) w := by
  obtain ⟨m, hfind⟩ := accepts_eq_true_iff.1 h
  exact Expression.sense_of_found hr hm hfind

/-- When a single value is written, and what for it. -/
theorem of_single_eq_ok {value : Option ParamValue} (h : single p check encode value = .ok x) :
    (value = none ∧ p.isOptional = true ∧ x = []) ∨
    ∃ t, value = some (.single t) ∧ x = p.before ++ recode encode t ++ p.after ∧
      accepts check x = .ok true := by
  rcases value with _ | t | ts
  · simp only [single] at h
    split at h
    · rename_i hopt
      cases h
      exact .inl ⟨rfl, hopt, rfl⟩
    · cases h
  · simp only [single] at h
    split at h
    · cases h
    · rename_i hacc
      cases h
      exact .inr ⟨t, rfl, rfl, hacc⟩
    · cases h
  · cases h

theorem elements_eq_ok_iff {index : Nat} {values xs : List Text} :
    elements p check encode index values = .ok xs ↔
    xs = values.map (recode encode) ∧ ∀ v ∈ values, accepts check (recode encode v) = .ok true := by
  constructor
  · intro h
    induction values generalizing index xs with
    | nil =>
      cases h
      exact ⟨rfl, by simp⟩
    | cons v values ih =>
      unfold elements at h
      split at h
      · cases h
      · cases h
      · rename_i hacc
        obtain ⟨ys, hys, rfl⟩ := exists_of_map_eq_ok h
        obtain ⟨rfl, hall⟩ := ih hys
        exact ⟨rfl, List.forall_mem_cons.2 ⟨hacc, hall⟩⟩
  · rintro ⟨rfl, hall⟩
    induction values generalizing index with
    | nil => rfl
    | cons v values ih =>
      obtain ⟨hv, hall⟩ := List.forall_mem_cons.1 hall
      simp only [elements, hv, ih hall]
      rfl

/-- The first element that is not accepted is why elements are not written. -/
theorem elements_eq_error_iff {index : Nat} {values : List Text} {err : BuildError} :
    elements p check encode index values = .error err ↔
    ∃ xs v ys, values = xs ++ v :: ys ∧ (∀ y ∈ xs, accepts check (recode encode y) = .ok true) ∧
      (accepts check (recode encode v) = .ok false ∧
          err = .invalidElement p.name (index + xs.length) v ∨
        accepts check (recode encode v) = .error err) := by
  constructor
  · intro h
    induction values generalizing index with
    | nil => cases h
    | cons v values ih =>
      unfold elements at h
      split at h
      · rename_i hacc
        cases h
        exact ⟨[], v, values, rfl, by simp, .inr hacc⟩
      · rename_i hacc
        cases h
        exact ⟨[], v, values, rfl, by simp, .inl ⟨hacc, rfl⟩⟩
      · rename_i hacc
        obtain ⟨xs, v', ys, rfl, hxs, hv'⟩ := ih (eq_error_of_map h)
        refine ⟨v :: xs, v', ys, rfl, List.forall_mem_cons.2 ⟨hacc, hxs⟩, ?_⟩
        rwa [List.length_cons, ← Nat.add_assoc, Nat.add_right_comm]
  · rintro ⟨xs, v, ys, rfl, hxs, hv⟩
    induction xs generalizing index with
    | nil =>
      rw [List.nil_append]
      rcases hv with ⟨hacc, rfl⟩ | hacc <;> simp only [elements, hacc]
      rfl
    | cons y xs ih =>
      obtain ⟨hy, hxs⟩ := List.forall_mem_cons.1 hxs
      rw [List.length_cons, ← Nat.add_assoc, Nat.add_right_comm] at hv
      rw [List.cons_append]
      simp only [elements, hy, ih hxs hv]
      rfl

/-- When several values are written, and what for them. -/
theorem of_sequence_eq_ok {value : Option ParamValue} (h : sequence p check encode value = .ok x) :
    ((value = none ∨ value = some (.multiple [])) ∧ p.isOptional = true ∧ x = []) ∨
    ∃ ts, value = some (.multiple ts) ∧ ts ≠ [] ∧
      (∀ t ∈ ts, accepts check (recode encode t) = .ok true) ∧
      x = p.before ++ List.intercalate p.between (ts.map (recode encode)) ++ p.after := by
  rcases value with _ | t | ts
  · simp only [sequence] at h
    split at h
    · rename_i hopt
      cases h
      exact .inl ⟨.inl rfl, hopt, rfl⟩
    · cases h
  · cases h
  · cases ts with
    | nil =>
      simp only [sequence] at h
      split at h
      · rename_i hopt
        cases h
        exact .inl ⟨.inr rfl, hopt, rfl⟩
      · cases h
    | cons t ts =>
      simp only [sequence] at h
      obtain ⟨xs, hxs, rfl⟩ := exists_of_map_eq_ok h
      obtain ⟨rfl, hall⟩ := elements_eq_ok_iff.1 hxs
      exact .inr ⟨t :: ts, rfl, by simp, hall, rfl⟩

end Segment

end PathTemplate
