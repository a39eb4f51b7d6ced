import PathTemplate.Proofs.Shape
import PathTemplate.Proofs.Written

/-!
# What is built, and what is refused

A path is the texts that its parts add, one after the other.  If a value is not admissible, there is
no path, and the first such parameter says why.

* `Param.Passes`, `Param.FailsOn` — a text passes the check of a parameter, or does not;
* `Param.Admits` — a value, or its absence, is admissible; `Param.added`, `Part.added` — what is
  written then;
* `Param.Refusal` — why a value, or its absence, is not admissible;
* `Segment.build_eq_ok_iff_admits`, `Segment.build_eq_error_iff_refusal` — one parameter is
  written, or refused, accordingly;
* `Template.mapM_build_eq_ok_iff`, `Template.mapM_build_eq_error_iff` — so are all parameters, in
  order;
* `Path.build_or_first_refusal` — what a builder returns, for all values.
-/

namespace PathTemplate

open Expression (Literal)

/-- The text passes the check of the parameter. -/
def Param.Passes (o : BuildOptions) (l : Literal) (p : Param) (x : Text) : Prop :=
  o.validate = true → ∃ e m, p.Validator o l e ∧ e.find x = .found m

/-- The text does not pass the check: it is refused with this error, or the search gives up. -/
def Param.FailsOn (o : BuildOptions) (l : Literal) (p : Param) (x : Text)
    (refusal err : BuildError) : Prop :=
  ∃ e, p.Validator o l e ∧ (e.find x = .none ∧ err = refusal ∨ e.find x = .gaveUp ∧
    err = .expression .gaveUp)

/-- The value, or its absence, is admissible: it may only be absent if the parameter is optional, it
is a sequence exactly if the parameter repeats, empty only if that is optional, and its texts pass
the check. -/
def Param.Admits (o : BuildOptions) (l : Literal) (p : Param) : Option ParamValue → Prop
  | none => p.isOptional = true
  | some (.single x) =>
    p.isRepeating = false ∧ p.Passes o l (p.before ++ recode o.encode x ++ p.after)
  | some (.multiple xs) =>
    p.isRepeating = true ∧ (xs = [] → p.isOptional = true) ∧ ∀ x ∈ xs,
    p.Passes o l (recode o.encode x)

/-- Why the value, or its absence, is not admissible. Of several elements, the first one that does
not pass counts. -/
inductive Param.Refusal (o : BuildOptions) (l : Literal) (p : Param) : Option ParamValue →
    BuildError → Prop where
  | missing (h : p.isOptional = false) : Refusal o l p none (.missingParam p.name)
  | notSingle {xs : List Text} (h : p.isRepeating = false) :
      Refusal o l p (some (.multiple xs)) (.expectedSingle p.name)
  | notSequence {x : Text} (h : p.isRepeating = true) :
      Refusal o l p (some (.single x)) (.expectedSequence p.name)
  | empty (h : p.isRepeating = true) (hopt : p.isOptional = false) :
    Refusal o l p (some (.multiple [])) (.emptySequence p.name)
  | value {x : Text} {err : BuildError} (h : p.isRepeating = false)
      (hfails :
        p.FailsOn o l (p.before ++ recode o.encode x ++ p.after) (.invalidValue p.name x) err) :
      Refusal o l p (some (.single x)) err
  | element {xs ys : List Text} {x : Text} {err : BuildError} (h : p.isRepeating = true)
    (hpasses : ∀ y ∈ xs, p.Passes o l (recode o.encode y))
    (hfails : p.FailsOn o l (recode o.encode x) (.invalidElement p.name xs.length x) err) :
    Refusal o l p (some (.multiple (xs ++ x :: ys))) err

/-- What a parameter adds to a path: nothing if it has no value or no elements. -/
def Param.added (encode : Option Codec) (p : Param) : Option ParamValue → Text
  | none | some (.multiple []) => []
  | some v => p.written encode v

/-- What a part adds to a path. A group of literal text that may be left out is left out. -/
def Part.added (encode : Option Codec) (params : Params) : Part → Text
  | .text t => t
  | .param p =>
    if p.isCapturing then p.added encode (params.get? p.name)
    else if p.isOptional then [] else p.before ++ p.after

section

variable {o : BuildOptions} {l : Literal} {params : Params} {p : Param} {x : Text}
  {check : Option Expression} {err : BuildError} {value : Option ParamValue}

/-! ### one parameter -/

theorem Param.FailsOn.not_passes {refusal : BuildError} (h : p.FailsOn o l x refusal err) :
    ¬p.Passes o l x := by
  obtain ⟨e, he, hfails⟩ := h
  intro hpasses
  obtain ⟨e', m, he', hm⟩ := hpasses he.1
  rw [he.unique he'] at hm
  rcases hfails with ⟨hfind, -⟩ | ⟨hfind, -⟩ <;> simp [hfind] at hm

theorem Param.Refusal.not_admits (h : p.Refusal o l value err) : ¬p.Admits o l value := by
  cases h with
  | missing h | notSingle h | notSequence h => simp [Admits, h]
  | empty _ hopt => simp [Admits, hopt]
  | value _ hfails => exact fun h => hfails.not_passes h.2
  | element _ _ hfails => exact fun h => hfails.not_passes (h.2.2 _ (by simp))

namespace Segment

theorem accepts_iff_passes (hs : Template.segment o l (.param p) = .ok (.param p check))
    (hc : p.isCapturing = true) : accepts check x = .ok true ↔ p.Passes o l x := by
  rcases (Template.segment_param_eq_ok_iff hc).1 hs with ⟨hvalidate, ⟨⟩⟩ | ⟨e, ⟨⟩, he⟩
  · simp [accepts, Param.Passes, hvalidate]
  · rw [accepts_eq_true_iff]
    constructor
    · rintro ⟨m, hm⟩ -
      exact ⟨e, m, he, hm⟩
    · intro h
      obtain ⟨e', m, he', hm⟩ := h he.1
      rw [he.unique he'] at hm
      exact ⟨m, hm⟩

/-- A text is not accepted, with this error in the place of a refusal, if it fails on the check. -/
theorem not_accepts_iff_failsOn (hs : Template.segment o l (.param p) = .ok (.param p check))
    (hc : p.isCapturing = true) {refusal : BuildError} :
    (accepts check x = .ok false ∧ err = refusal ∨ accepts check x = .error err) ↔
    p.FailsOn o l x refusal err := by
  rcases (Template.segment_param_eq_ok_iff hc).1 hs with ⟨hvalidate, ⟨⟩⟩ | ⟨e, ⟨⟩, he⟩
  · simp [accepts, Param.FailsOn, Param.Validator, hvalidate]
  · have hfails : p.FailsOn o l x refusal err ↔
        e.find x = .none ∧ err = refusal ∨ e.find x = .gaveUp ∧ err = .expression .gaveUp := by
      constructor
      · rintro ⟨e', he', h⟩
        rwa [he.unique he'] at h
      · exact fun h => ⟨e, he, h⟩
    rw [hfails, accepts, Expression.matchesIn]
    cases e.find x <;> simp [eq_comm]

/-- What is written for a parameter that occurs once. -/
theorem single_eq_ok_iff_admits (hs : Template.segment o l (.param p) = .ok (.param p check))
    (hc : p.isCapturing = true) (hr : p.isRepeating = false) :
    single p check o.encode value = .ok x ↔ p.Admits o l value ∧ x = p.added o.encode value := by
  match value with
  | none => cases hopt : p.isOptional <;> simp [single, Param.Admits, Param.added, hopt, eq_comm]
  | some (.single v) =>
    rw [single_eq_ok_iff]
    constructor
    · rintro ⟨-, rfl, hacc⟩
      exact ⟨⟨hr, (accepts_iff_passes hs hc).1 hacc⟩, rfl⟩
    · rintro ⟨⟨-, hv⟩, rfl⟩
      exact ⟨⟨v, rfl⟩, rfl, (accepts_iff_passes hs hc).2 hv⟩
  | some (.multiple vs) => simp [single, Param.Admits, hr]

theorem sequence_eq_ok_iff_admits (hs : Template.segment o l (.param p) = .ok (.param p check))
    (hc : p.isCapturing = true) (hr : p.isRepeating = true) :
    sequence p check o.encode value = .ok x ↔ p.Admits o l value ∧ x = p.added o.encode value := by
  match value with
  | none => cases hopt : p.isOptional <;> simp [sequence, Param.Admits, Param.added, hopt, eq_comm]
  | some (.single v) => simp [sequence, Param.Admits, hr]
  | some (.multiple []) =>
    cases hopt : p.isOptional <;> simp [sequence, Param.Admits, Param.added, hr, hopt, eq_comm]
  | some (.multiple (v :: vs)) =>
    constructor
    · intro h
      obtain ⟨xs, hxs, rfl⟩ := exists_of_map_eq_ok h
      obtain ⟨rfl, hall⟩ := elements_eq_ok_iff.1 hxs
      exact ⟨⟨hr, by simp, fun y hy => (accepts_iff_passes hs hc).1 (hall y hy)⟩, rfl⟩
    · rintro ⟨⟨-, -, hall⟩, rfl⟩
      have hxs : elements p check o.encode 0 (v :: vs) = .ok ((v :: vs).map (recode o.encode)) :=
        elements_eq_ok_iff.2 ⟨rfl, fun y hy => (accepts_iff_passes hs hc).2 (hall y hy)⟩
      simp only [sequence, hxs]
      rfl

/-- Why nothing is written for a parameter that occurs once. -/
theorem single_eq_error_iff_refusal (hs : Template.segment o l (.param p) = .ok (.param p check))
    (hc : p.isCapturing = true) (hr : p.isRepeating = false) :
    single p check o.encode value = .error err ↔ p.Refusal o l value err := by
  constructor
  · intro h
    match value with
    | none =>
      simp only [single] at h
      split at h <;> cases h
      rename_i hopt
      exact .missing (by simpa using hopt)
    | some (.single v) =>
      simp only [single] at h
      split at h <;> cases h
      · rename_i hacc
        exact .value hr ((not_accepts_iff_failsOn hs hc).1 (.inr hacc))
      · rename_i hacc
        exact .value hr ((not_accepts_iff_failsOn hs hc).1 (.inl ⟨hacc, rfl⟩))
    | some (.multiple vs) =>
      cases h
      exact .notSingle hr
  · intro h
    cases h with
    | missing hopt => simp [single, hopt]
    | notSingle => rfl
    | value _ hfails =>
      rcases (not_accepts_iff_failsOn hs hc).2 hfails with
        ⟨hacc, rfl⟩ | hacc <;> simp only [single, hacc]
    | notSequence hr' | empty hr' | element hr' => simp [hr] at hr'

theorem sequence_eq_error_iff_refusal (hs : Template.segment o l (.param p) = .ok (.param p check))
    (hc : p.isCapturing = true) (hr : p.isRepeating = true) :
    sequence p check o.encode value = .error err ↔ p.Refusal o l value err := by
  constructor
  · intro h
    match value with
    | none =>
      simp only [sequence] at h
      split at h <;> cases h
      rename_i hopt
      exact .missing (by simpa using hopt)
    | some (.single v) =>
      cases h
      exact .notSequence hr
    | some (.multiple []) =>
      simp only [sequence] at h
      split at h <;> cases h
      rename_i hopt
      exact .empty hr (by simpa using hopt)
    | some (.multiple (v :: vs)) =>
      obtain ⟨xs, v', ys, heq, hxs, hv'⟩ := elements_eq_error_iff.1 (eq_error_of_map h)
      rw [Nat.zero_add] at hv'
      rw [heq]
      exact .element hr (fun y hy => (accepts_iff_passes hs hc).1 (hxs y hy))
        ((not_accepts_iff_failsOn hs hc).1 hv')
  · intro h
    cases h with
    | missing hopt => simp [sequence, hopt]
    | notSequence => rfl
    | empty _ hopt => simp [sequence, hopt]
    | notSingle hr' | value hr' => simp [hr] at hr'
    | @element xs ys v _ _ hpasses hfails =>
      have herr : elements p check o.encode 0 (xs ++ v :: ys) = .error err := by
        refine elements_eq_error_iff.2 ⟨xs, v, ys, rfl,
            fun y hy => (accepts_iff_passes hs hc).2 (hpasses y hy), ?_⟩
        rw [Nat.zero_add]
        exact (not_accepts_iff_failsOn hs hc).2 hfails
      obtain ⟨y, zs, heq⟩ := List.exists_cons_of_ne_nil (show xs ++ v :: ys ≠ [] by simp)
      rw [heq] at herr ⊢
      simp only [sequence, herr]
      rfl

/-- A capturing parameter is written if its value, or its absence, is admissible. -/
theorem build_eq_ok_iff_admits (hs : Template.segment o l (.param p) = .ok (.param p check))
    (hc : p.isCapturing = true) :
    (param p check).build o.encode params = .ok x ↔
    p.Admits o l (params.get? p.name) ∧ x = p.added o.encode (params.get? p.name) := by
  cases hr : p.isRepeating with
  | false => simpa [build, hc, hr] using single_eq_ok_iff_admits hs hc hr
  | true => simpa [build, hc, hr] using sequence_eq_ok_iff_admits hs hc hr

/-- A capturing parameter is refused for the reason that its value, or its absence, is not
admissible. -/
theorem build_eq_error_iff_refusal (hs : Template.segment o l (.param p) = .ok (.param p check))
    (hc : p.isCapturing = true) :
    (param p check).build o.encode params = .error err ↔
    p.Refusal o l (params.get? p.name) err := by
  cases hr : p.isRepeating with
  | false => simpa [build, hc, hr] using single_eq_error_iff_refusal hs hc hr
  | true => simpa [build, hc, hr] using sequence_eq_error_iff_refusal hs hc hr

end Segment

/-- The first parameter whose value, or its absence, is not admissible is refused with this
error. -/
def FirstRefusal (o : BuildOptions) (l : Literal) (params : Params) (ps : List Param)
    (err : BuildError) : Prop :=
  ∃ before p after, ps = before ++ p :: after ∧ (∀ q ∈ before, q.Admits o l (params.get? q.name)) ∧
    p.Refusal o l (params.get? p.name) err

theorem firstRefusal_cons_iff {ps : List Param} :
    FirstRefusal o l params (p :: ps) err ↔
    p.Refusal o l (params.get? p.name) err ∨
      p.Admits o l (params.get? p.name) ∧ FirstRefusal o l params ps err := by
  constructor
  · rintro ⟨before, q, after, heq, hbefore, hq⟩
    rcases List.cons_eq_append_iff.1 heq with ⟨rfl, hcons⟩ | ⟨before, rfl, rfl⟩
    · obtain ⟨rfl, rfl⟩ := List.cons.inj hcons
      exact .inl hq
    · obtain ⟨hp, hbefore⟩ := List.forall_mem_cons.1 hbefore
      exact .inr ⟨hp, before, q, after, rfl, hbefore, hq⟩
  · rintro (hp | ⟨hp, before, q, after, rfl, hbefore, hq⟩)
    · exact ⟨[], p, ps, rfl, by simp, hp⟩
    · exact ⟨p :: before, q, after, rfl, List.forall_mem_cons.2 ⟨hp, hbefore⟩, hq⟩

/-! ### all parts -/

namespace Template

variable {parts : List Part} {segments : List Segment}

/-- A part has no parameter with a value, and is always written, or it is such a parameter. -/
theorem cases_of_segment {part : Part} {s : Segment} (hs : segment o l part = .ok s)
    (params : Params) (parts : List Part) :
    (s.build o.encode params = .ok (part.added o.encode params) ∧
      paramsOf (part :: parts) = paramsOf parts) ∨
    ∃ p check, part = .param p ∧ s = .param p check ∧ p.isCapturing = true ∧
      paramsOf (part :: parts) = p :: paramsOf parts := by
  cases part with
  | text t =>
    cases hs
    exact .inl ⟨rfl, rfl⟩
  | param p =>
    obtain ⟨check, rfl⟩ := Segment.exists_of_param? (param?_segment hs)
    cases hc : p.isCapturing with
    | false => exact .inl ⟨by simp [Segment.build, Part.added, hc], by simp [paramsOf_param, hc]⟩
    | true => exact .inr ⟨p, check, rfl, rfl, hc, by simp [paramsOf_param, hc]⟩

/-- All parts are written if the values of all parameters are admissible. -/
theorem mapM_build_eq_ok_iff
    (h : List.Forall₂ (fun part s => segment o l part = .ok s) parts segments) {xs : List Text} :
    segments.mapM (Segment.build o.encode params) = .ok xs ↔
    (∀ p ∈ paramsOf parts, p.Admits o l (params.get? p.name)) ∧
      xs = parts.map (Part.added o.encode params) := by
  rw [mapM_eq_ok_iff]
  induction h generalizing xs with
  | nil => simp [paramsOf]
  | @cons part s parts segments hs _ ih =>
    rcases cases_of_segment hs params parts with
      ⟨hbuild, hparams⟩ | ⟨p, check, rfl, rfl, hc, hparams⟩
    · rw [hparams]
      constructor
      · rintro (_ | ⟨hx, hxs⟩)
        obtain rfl := Except.ok.inj (hbuild.symm.trans hx)
        obtain ⟨hall, rfl⟩ := ih.1 hxs
        exact ⟨hall, rfl⟩
      · rintro ⟨hall, rfl⟩
        exact .cons hbuild (ih.2 ⟨hall, rfl⟩)
    · have hadded : (Part.param p).added o.encode params = p.added o.encode (params.get? p.name) :=
        by simp [Part.added, hc]
      rw [hparams, List.forall_mem_cons, List.map_cons, hadded]
      constructor
      · rintro (_ | ⟨hx, hxs⟩)
        obtain ⟨hp, rfl⟩ := (Segment.build_eq_ok_iff_admits hs hc).1 hx
        obtain ⟨hall, rfl⟩ := ih.1 hxs
        exact ⟨⟨hp, hall⟩, rfl⟩
      · rintro ⟨⟨hp, hall⟩, rfl⟩
        exact .cons ((Segment.build_eq_ok_iff_admits hs hc).2 ⟨hp, rfl⟩) (ih.2 ⟨hall, rfl⟩)

/-- If not, the first parameter of which the value is not admissible says why. -/
theorem mapM_build_eq_error_iff
    (h : List.Forall₂ (fun part s => segment o l part = .ok s) parts segments) :
    segments.mapM (Segment.build o.encode params) = .error err ↔
    FirstRefusal o l params (paramsOf parts) err := by
  induction h with
  | nil => simp [paramsOf, FirstRefusal, pure, Except.pure]
  | @cons part s parts segments hs _ ih =>
    rw [mapM_cons_eq_error_iff, ih]
    rcases cases_of_segment hs params parts with
      ⟨hbuild, hparams⟩ | ⟨p, check, rfl, rfl, hc, hparams⟩
    · simp [hbuild, hparams]
    · rw [hparams, firstRefusal_cons_iff, Segment.build_eq_error_iff_refusal hs hc]
      simp [Segment.build_eq_ok_iff_admits hs hc]

end Template

/-! ### paths -/

theorem Builder.build_congr {b : Builder} {params params' : Params}
    (h : ∀ p ∈ b.keys, params'.get? p.name = params.get? p.name) :
    b.build params' = b.build params := by
  have hsegment : ∀ s ∈ b.segments, s.build b.encode params' = s.build b.encode params := by
    rintro (t | ⟨p, check⟩) hs
    · rfl
    · cases hc : p.isCapturing with
      | false => simp [Segment.build, hc]
      | true =>
        have hp : p ∈ b.keys := List.mem_filter.2 ⟨List.mem_filterMap.2 ⟨_, hs, rfl⟩, hc⟩
        simp only [Segment.build, h p hp]
  rw [build, build, mapM_congr_of_mem hsegment]

namespace Path

theorem exists_template_of_builder {o : BuildOptions} {path : Path} {b : Builder}
    (hb : path.builder o = .ok b) :
    ∃ t, path.resolve o.parse = .ok (.inl t) ∧ t.toBuilder o = .ok b := by
  unfold builder at hb
  split at hb
  · cases hb
  · rename_i t ht
    exact ⟨t, ht, lift_eq_ok_iff.1 hb⟩
  · cases hb

/-- A builder writes what the parts add, in order, if the values of all parameters are admissible. 
If not, it says why the first one that is not admissible is refused.  Values of other names do not
count. -/
theorem build_or_first_refusal {o : BuildOptions} {path : Path} {b : Builder}
    (hb : path.builder o = .ok b) (params : Params) :
    ∃ t, path.resolve o.parse = .ok (.inl t) ∧ b.keys = t.params ∧
      (∀ u, b.build params = .ok u ↔
        (∀ p ∈ t.params, p.Admits o ⟨t.delimiter, o.loose⟩ (params.get? p.name)) ∧
          u = (t.parts.map (Part.added o.encode params)).flatten) ∧
      (∀ err, b.build params = .error err ↔
        ∃ before p after, t.params = before ++ p :: after ∧
          (∀ q ∈ before, q.Admits o ⟨t.delimiter, o.loose⟩ (params.get? q.name)) ∧
          ¬p.Admits o ⟨t.delimiter, o.loose⟩ (params.get? p.name) ∧
          p.Refusal o ⟨t.delimiter, o.loose⟩ (params.get? p.name) err) ∧
      ∀ params', (∀ p ∈ t.params, params'.get? p.name = params.get? p.name) →
        b.build params' = b.build params := by
  obtain ⟨t, ht, htb⟩ := exists_template_of_builder hb
  obtain ⟨hsegments, hencode⟩ := Builder.segments_of_toBuilder htb
  have hok : ∀ params u, b.build params = .ok u ↔
      (∀ p ∈ t.params, p.Admits o ⟨t.delimiter, o.loose⟩ (params.get? p.name)) ∧
        u = (t.parts.map (Part.added o.encode params)).flatten := by
    intro params u
    rw [Builder.build, hencode]
    constructor
    · intro h
      obtain ⟨xs, hxs, rfl⟩ := exists_of_map_eq_ok h
      obtain ⟨hall, rfl⟩ := (Template.mapM_build_eq_ok_iff hsegments).1 hxs
      exact ⟨hall, rfl⟩
    · rintro ⟨hall, rfl⟩
      rw [(Template.mapM_build_eq_ok_iff hsegments).2 ⟨hall, rfl⟩]
      rfl
  refine ⟨t, ht, Template.keys_of_toBuilder htb, hok params, fun err => ?_,
    fun params' hparams => ?_⟩
  · have herr : b.build params = .error err ↔
        FirstRefusal o ⟨t.delimiter, o.loose⟩ params t.params err := by
      rw [Template.params, Template.allParams, ← paramsOf,
        ← Template.mapM_build_eq_error_iff hsegments, Builder.build, hencode]
      exact ⟨eq_error_of_map, fun h => by rw [h]; rfl⟩
    rw [herr]
    constructor
    · rintro ⟨before, p, after, heq, hbefore, hp⟩
      exact ⟨before, p, after, heq, hbefore, hp.not_admits, hp⟩
    · rintro ⟨before, p, after, heq, hbefore, -, hp⟩
      exact ⟨before, p, after, heq, hbefore, hp⟩
  · exact Builder.build_congr (Template.keys_of_toBuilder htb ▸ hparams)

/-- Of the elements `1`, `x`, `y`, the second one is refused, whatever else has a value. -/
theorem build_or_first_refusal_element :
    ∃ b, (pattern "/:a\x7b/:n(\\d+)\x7d+".toList).builder {} = .ok b ∧
      b.build (.ofList [(['a'], .single ['q']), (['n'], .multiple [['1'], ['x'], ['y']])]) =
        .error (.invalidElement ['n'] 1 ['x']) ∧
      b.build (.ofList [(['z'], .multiple []), (['a'], .single ['q']),
              (['n'], .multiple [['1'], ['x'], ['y']])]) =
        .error (.invalidElement ['n'] 1 ['x']) := by
  let a : Param := { name := ['a'] }
  let n : Param :=
    { name := ['n'], before := ['/'], pattern := some ['\\', 'd', '+'], modifier := some .oneOrMore,
      separator := some ['/'] }
  let l : Literal := ⟨['/'], true⟩
  have hparse : Path.parse {} "/:a\x7b/:n(\\d+)\x7d+".toList =
      .ok ⟨[.text ['/'], .param a, .param n], ['/']⟩ := by
    cbv
  obtain ⟨b, hb⟩ := exists_ok_of_isSome (x := (pattern "/:a\x7b/:n(\\d+)\x7d+".toList).builder {})
    (by decide +kernel)
  obtain ⟨t, ht, -, -, herr, hcongr⟩ := build_or_first_refusal hb
    (.ofList [(['a'], .single ['q']), (['n'], .multiple [['1'], ['x'], ['y']])])
  obtain rfl : ⟨[.text ['/'], .param a, .param n], ['/']⟩ = t := by
    simp only [resolve, hparse] at ht
    cases ht
    rfl
  have hpasses : ∀ (p : Param) (x : Text),
      ((Expression.anchored ({} : BuildOptions).flags (p.checkSource l)).toOption.bind
          fun e => (Segment.accepts (some e) x).toOption) = some true → p.Passes {} l x := by
    intro p x h hvalidate
    obtain ⟨e, he, haccepts⟩ := Option.bind_eq_some_iff.1 h
    obtain ⟨m, hm⟩ := Segment.accepts_eq_true_iff.1 (toOption_eq_some_iff.1 haccepts)
    exact ⟨e, m, ⟨hvalidate, toOption_eq_some_iff.1 he⟩, hm⟩
  have hfails :
      n.FailsOn {} l ['x'] (.invalidElement ['n'] 1 ['x']) (.invalidElement ['n'] 1 ['x']) := by
    have hnone : ((Expression.anchored ({} : BuildOptions).flags (n.checkSource l)).toOption.map
        fun e => decide (e.find ['x'] = .none)) = some true := by decide +kernel
    obtain ⟨e, he, hdecide⟩ := Option.map_eq_some_iff.1 hnone
    exact ⟨e, ⟨rfl, toOption_eq_some_iff.1 he⟩, .inl ⟨of_decide_eq_true hdecide, rfl⟩⟩
  have hadmits : a.Admits {} l (some (.single ['q'])) := ⟨rfl, hpasses a _ (by decide +kernel)⟩
  have hrefusal :
      n.Refusal {} l (some (.multiple [['1'], ['x'], ['y']])) (.invalidElement ['n'] 1 ['x']) :=
    @Param.Refusal.element {} l n [['1']] [['y']]
      ['x'] _ rfl (List.forall_mem_singleton.2 (hpasses n _ (by decide +kernel))) hfails
  have hbuild := (herr (.invalidElement ['n'] 1 ['x'])).2
    ⟨[a], n, [], rfl, List.forall_mem_singleton.2 hadmits, hrefusal.not_admits, hrefusal⟩
  refine ⟨b, hb, hbuild, ?_⟩
  rw [hcongr _ (by decide +kernel)]
  exact hbuild

end Path

end

end PathTemplate
