import PathTemplate.Path
import PathTemplate.Proofs.Builder
import PathTemplate.Proofs.Segment.Match
import PathTemplate.Proofs.Segment.Row

/-!
# Building paths of segments

* `Glyph.render`, `Slot.value` — what is written for a character, a parameter and a segment;
* `built_of_spells`, `built_of_isRepeated` — what is written for segments splits into them;
* `find_row` — an expression for a row of segments captures the values that were written for them;
* `Path.match_build` — a built path is matched, and the values it was built from are found.
-/

namespace PathTemplate

open Expression (Literal Denotes wholly)

/-- What is written for a character or a parameter. -/
def Glyph.render (encode : Option Codec) (params : Params) : Glyph → Text
  | char c => [c]
  | param name =>
    match params.get? name with
    | some (.single v) => recode encode v
    | _ => []

/-- What is written for a segment. -/
def Slot.value (encode : Option Codec) (params : Params) : Slot → Text
  | literal t => t
  | param name => Glyph.render encode params (.param name)

/-- The parameter has a single value that may stand for a segment. -/
def IsFilled (encode : Option Codec) (params : Params) (D : Char) (name : Text) : Prop :=
  ∃ v, params.get? name = some (.single v) ∧ IsOpenValue D (recode encode v)

section

variable {o : BuildOptions} {D : Char} {params : Params} {part : Part} {parts : List Part}
  {p : Param} {x : Text} {xs : List Text} {s : Slot} {slots : List Slot}

/-! ### what is written -/

theorem stretch_of_accepts (ic : Bool) (hD : IsAlone D) {e : Expression}
    (hr : e.root.isRegular = true) {S : Sense} (hm : e.root.Matches = wholly S)
    (hS : ∀ p q w, S p q w → ∃ w, Sense.stretch ic [D] p q w)
    (h : Segment.accepts (some e) x = .ok true) : IsOpenValue D x := by
  obtain ⟨w, hw⟩ := Segment.sense_of_accepts hr hm h
  obtain ⟨w, hw⟩ := hS _ _ _ hw
  obtain ⟨-, v, hv, htakes⟩ := (stretch_delimiter_iff hD).1 hw
  have hafter := htakes.after
  simp only [Cursor.start, Cursor.finish, List.append_nil] at hafter
  rwa [hafter]

theorem built_of_isBare (hD : IsAlone D) (hvalidate : o.validate = true)
    (hp : ∀ p, part = .param p → p.IsBare) (h : Part.IsBuilt o ⟨[D], o.loose⟩ params part x) :
    x = part.glyphs.flatMap (Glyph.render o.encode params) ∧
    ∀ name, .param name ∈ part.glyphs → IsFilled o.encode params D name := by
  obtain ⟨segment, hsegment, hbuild⟩ := h
  cases part with
  | text t =>
    cases hsegment
    cases hbuild
    refine ⟨?_, by simp [Part.glyphs]⟩
    simp only [Part.glyphs, List.flatMap_map]
    exact (List.flatMap_singleton' _).symm
  | param p =>
    have hbare := hp p rfl
    obtain ⟨e, he, hr, hm⟩ := Template.exists_segment (o := o) (l := ⟨[D], o.loose⟩)
      (σ := fun _ => .nothing) (by simp) (Template.readable_of_isDefault hbare.isDefault)
      hbare.isCapturing hvalidate
    rw [he] at hsegment
    cases hsegment
    have hrepeating : p.isRepeating = false := by simp [Param.isRepeating, hbare.modifier]
    simp only [Segment.build, hbare.isCapturing, hrepeating, Bool.not_true, Bool.false_eq_true,
      if_false] at hbuild
    rcases Segment.of_single_eq_ok hbuild with ⟨-, hopt, -⟩ | ⟨t, ht, hx, hacc⟩
    · simp [Param.isOptional, hbare.modifier] at hopt
    · have hx' : x = recode o.encode t := by simpa [hbare.before, hbare.after] using hx
      have hcheck : p.checkSense ⟨[D], o.loose⟩ (!o.sensitive) (fun _ => .nothing) =
          .captured 1 (.stretch (!o.sensitive) [D]) := by
        simp only [Param.checkSense, hrepeating, Bool.false_eq_true, if_false]
        rw [hbare.sense_eq]
        rfl
      have hopen : IsOpenValue D x := by
        refine stretch_of_accepts (!o.sensitive) hD hr hm (fun p q w hw => ?_) hacc
        rw [hcheck] at hw
        obtain ⟨u, hu, -⟩ := hw
        exact ⟨u, hu⟩
      refine ⟨by simp [Part.glyphs, Glyph.render, ht, hx'], ?_⟩
      intro name hname
      have hname' : name = p.name := by simpa [Part.glyphs] using hname
      exact ⟨t, hname' ▸ ht, hx' ▸ hopen⟩

theorem render_slot (encode : Option Codec) (params : Params) (s : Slot) :
    (s.glyphs D).flatMap (Glyph.render encode params) = D :: s.value encode params := by
  cases s with
  | literal t =>
    simp only [Slot.glyphs, List.flatMap_cons, List.flatMap_map, Slot.value]
    exact congrArg (D :: ·) (List.flatMap_singleton' t)
  | param name => simp [Slot.glyphs, Slot.value, Glyph.render]

theorem render_slots (encode : Option Codec) (params : Params) (slots : List Slot) :
    (slots.flatMap (Slot.glyphs D)).flatMap (Glyph.render encode params) =
      runs D ((slots.map (Slot.value encode params)).map (1, ·)) := by
  induction slots with
  | nil => rfl
  | cons s slots ih =>
    rw [List.flatMap_cons, List.flatMap_append, ih, render_slot]
    simp [runs]

/-- Values that fit their segments spell them, each after one delimiter. -/
theorem spelled_of_fits {ic loose : Bool} {f : Slot → Text} (h : ∀ s ∈ slots, s.Fits ic D (f s)) :
    Spelled ic loose D slots (slots.map f) (runs D ((slots.map f).map (1, ·))) := by
  induction slots with
  | nil => rfl
  | cons s slots ih =>
    refine ⟨1, _, ⟨Nat.le_refl 1, fun _ => rfl⟩, h s (List.mem_cons_self ..), ?_,
      ih fun s hs => h s (List.mem_cons_of_mem _ hs)⟩
    simp [runs]

/-- What is written for segments splits into them. -/
theorem built_of_spells (hD : IsAlone D) (hvalidate : o.validate = true) (h : Spells D parts slots)
    (hbuilt : List.Forall₂ (Part.IsBuilt o ⟨[D], o.loose⟩ params) parts xs) :
    xs.flatten = runs D ((slots.map (Slot.value o.encode params)).map (1, ·)) ∧
      ∀ name, .param name ∈ slots → IsFilled o.encode params D name := by
  have hparts : xs.flatten = (parts.flatMap Part.glyphs).flatMap (Glyph.render o.encode params) ∧
      ∀ name, .param name ∈ parts.flatMap Part.glyphs → IsFilled o.encode params D name := by
    have hbare := h.bare
    clear h
    induction hbuilt with
    | nil => simp
    | cons hpart _ ih =>
      obtain ⟨hx, hfilled⟩ := built_of_isBare hD hvalidate
        (fun p hp => hbare p (hp ▸ List.mem_cons_self ..)) hpart
      obtain ⟨hxs, hfilled'⟩ := ih fun p hp => hbare p (List.mem_cons_of_mem _ hp)
      refine ⟨by rw [List.flatten_cons, hx, hxs, List.flatMap_cons, List.flatMap_append],
        fun name hname => ?_⟩
      rw [List.flatMap_cons, List.mem_append] at hname
      exact hname.elim (hfilled name) (hfilled' name)
  rw [h.glyphs, render_slots] at hparts
  refine ⟨hparts.1, fun name hname => hparts.2 name ?_⟩
  exact List.mem_flatMap.2 ⟨_, hname, by simp [Slot.glyphs]⟩

theorem fits_value {ic : Bool} (h : ∀ name, .param name ∈ slots → IsFilled o.encode params D name)
    (hs : s ∈ slots) : s.Fits ic D (s.value o.encode params) := by
  cases s with
  | literal t => exact .refl ic t
  | param name =>
    obtain ⟨v, hv, hopen⟩ := h name hs
    simpa [Slot.value, Glyph.render, hv, Slot.Fits, IsOpenValue] using hopen

theorem built_of_isRepeated (hD : IsAlone D) (hvalidate : o.validate = true) (hp : p.IsRepeated D)
    (h : Part.IsBuilt o ⟨[D], o.loose⟩ params (.param p) x) :
    ((params.get? p.name = none ∨ params.get? p.name = some (.multiple [])) ∧ p.isOptional = true ∧
      x = []) ∨
    ∃ ts, params.get? p.name = some (.multiple ts) ∧ ts ≠ [] ∧
      (∀ t ∈ ts, IsOpenValue D (recode o.encode t)) ∧
      x = runs D ((ts.map (recode o.encode)).map (1, ·)) := by
  obtain ⟨segment, hsegment, hbuild⟩ := h
  obtain ⟨e, he, hr, hm⟩ := Template.exists_segment (o := o) (l := ⟨[D], o.loose⟩)
    (σ := fun _ => .nothing) (by simp) (Template.readable_of_isDefault hp.isDefault) hp.isCapturing
    hvalidate
  rw [he] at hsegment
  cases hsegment
  simp only [Segment.build, hp.isCapturing, hp.isRepeating, Bool.not_true, Bool.false_eq_true,
    if_false, if_true] at hbuild
  rcases Segment.of_sequence_eq_ok hbuild with h | ⟨ts, hts, hne, hacc, rfl⟩
  · exact .inl h
  · refine .inr ⟨ts, hts, hne, fun t ht => ?_, ?_⟩
    · refine stretch_of_accepts (!o.sensitive) hD hr hm (fun p q w hw => ⟨w, ?_⟩) (hacc t ht)
      simpa [Param.checkSense, hp.isRepeating, Param.valueSense, hp.pattern] using hw
    · obtain ⟨t, ts, rfl⟩ := List.exists_cons_of_ne_nil hne
      rw [hp.before, hp.after, hp.between, List.map_cons, intercalate_eq_chain]
      simp [chain, runs, List.flatMap_map]

/-- What is written for a row of segments, each value after one delimiter. -/
def rowText (encode : Option Codec) (params : Params) (D : Char) (left : List Slot)
    (ts : List Text) (right : List Slot) : Text :=
  runs D ((left.map (Slot.value encode params)).map (1, ·)) ++
    (runs D ((ts.map (recode encode)).map (1, ·)) ++
      runs D ((right.map (Slot.value encode params)).map (1, ·)))

/-- The texts `ts` fill the repeated parameter of a row, and single values fill the others. What a
builder writes for a row is filled, and what is filled is found by a matcher. -/
structure FillsRow (encode : Option Codec) (params : Params) (D : Char) (left : List Slot)
    (repeated : Option Param) (ts : List Text) (right : List Slot) : Prop where
  isFilled_left : ∀ name, .param name ∈ left → IsFilled encode params D name
  isFilled_right : ∀ name, .param name ∈ right → IsFilled encode params D name
  isOpenValue : ∀ t ∈ ts, IsOpenValue D (recode encode t)
  eq_nil : repeated = none → ts = []
  get? : ∀ p ∈ repeated, (ts = [] ∧ params.get? p.name = none ∧ p.isOptional = true) ∨
    (ts ≠ [] ∧ params.get? p.name = some (.multiple ts))

/-- What is written for a row of segments fills it. -/
theorem built_of_spellsRow (hD : IsAlone D) (hvalidate : o.validate = true) {left right : List Slot}
    {repeated : Option Param} (h : SpellsRow D parts left repeated right)
    (hempty : ∀ name, params.get? name ≠ some (.multiple []))
    (hbuilt : List.Forall₂ (Part.IsBuilt o ⟨[D], o.loose⟩ params) parts xs) :
    ∃ ts, xs.flatten = rowText o.encode params D left ts right ∧
      FillsRow o.encode params D left repeated ts right := by
  obtain ⟨parts₁, parts₂, rfl, h₁, h₂⟩ := h.split
  obtain ⟨xs₁, xs', hxs₁, hxs', rfl⟩ := forall₂_append_left_iff.1 hbuilt
  obtain ⟨xs₂, xs₃, hxs₂, hxs₃, rfl⟩ := forall₂_append_left_iff.1 hxs'
  obtain ⟨hleft, hfilled₁⟩ := built_of_spells hD hvalidate h₁ hxs₁
  obtain ⟨hright, hfilled₂⟩ := built_of_spells hD hvalidate h₂ hxs₃
  rw [List.flatten_append, List.flatten_append, hleft, hright]
  cases hr : repeated with
  | none =>
    subst hr
    cases hxs₂
    exact ⟨[], rfl, hfilled₁, hfilled₂, by simp, fun _ => rfl, by simp⟩
  | some p =>
    subst hr
    obtain ⟨x, xs₂, hx, hnil, rfl⟩ := List.forall₂_cons_left_iff.1 hxs₂
    cases hnil
    rw [List.flatten_singleton]
    rcases built_of_isRepeated hD hvalidate (h.isRepeated p rfl) hx with
      ⟨hnone, hopt, rfl⟩ | ⟨ts, hts, hne, hopen, rfl⟩
    · refine ⟨[], rfl, hfilled₁, hfilled₂, by simp, fun _ => rfl, ?_⟩
      rintro _ ⟨⟩
      exact .inl ⟨rfl, hnone.resolve_right (hempty _), hopt⟩
    · refine ⟨ts, rfl, hfilled₁, hfilled₂, hopen, by simp, ?_⟩
      rintro _ ⟨⟩
      exact .inr ⟨hne, hts⟩

/-- Values that are filled in spell their segments. -/
theorem spelled_of_isFilled (ic loose : Bool)
    (h : ∀ name, .param name ∈ slots → IsFilled o.encode params D name) :
    Spelled ic loose D slots (slots.map (Slot.value o.encode params))
      (runs D ((slots.map (Slot.value o.encode params)).map (1, ·))) :=
  spelled_of_fits fun _ hs => fits_value h hs

theorem FillsRow.isRoundValue {left right : List Slot} {repeated : Option Param} {ts : List Text}
    (h : FillsRow o.encode params D left repeated ts right) (loose : Bool) :
    ∀ kv ∈ (ts.map (recode o.encode)).map (1, ·), IsRoundValue loose D kv := by
  intro kv hkv
  simp only [List.mem_map, exists_exists_and_eq_and] at hkv
  obtain ⟨t, ht, rfl⟩ := hkv
  exact ⟨⟨Nat.le_refl 1, fun _ => rfl⟩, h.isOpenValue t ht⟩

theorem FillsRow.isOptional {left right : List Slot} {repeated : Option Param} {ts : List Text}
    (h : FillsRow o.encode params D left repeated ts right) :
    ∀ p ∈ repeated, (ts.map (recode o.encode)).map (1, ·) = [] → p.isOptional = true := by
  intro p hp hnil
  rcases h.get? p hp with ⟨-, -, hopt⟩ | ⟨hne, -⟩
  · exact hopt
  · exact absurd (by simpa using hnil) hne

/-! ### what is found -/

theorem Spelled.length_eq {ic loose : Bool} {vs : List Text} (h : Spelled ic loose D slots vs x) :
    vs.length = slots.length := by
  induction slots generalizing vs x with
  | nil =>
    cases vs with
    | nil => rfl
    | cons v vs => exact h.elim
  | cons s slots ih =>
    cases vs with
    | nil => exact h.elim
    | cons v vs =>
      obtain ⟨k, rest, -, -, -, h⟩ := h
      simp [ih h]

/-- The values that are found for a row are those that were written. -/
theorem row_unique {ic loose loose' : Bool} (hD : IsAlone D) {left right : List Slot}
    (hleft : ∀ s ∈ left, s.IsProper D) (hright : ∀ s ∈ right, s.IsProper D)
    {vs₁ vs₁' vs₂ vs₂' : List Text} {x₁ x₁' x₂ x₂' : Text} {kvs kvs' : List (Nat × Text)} {k : Nat}
    (h₁ : Spelled ic loose D left vs₁ x₁) (hkvs : ∀ kv ∈ kvs, IsRoundValue loose D kv)
    (h₂ : Spelled ic loose D right vs₂ x₂) (h₁' : Spelled ic loose' D left vs₁' x₁')
    (hkvs' : ∀ kv ∈ kvs', IsRoundValue loose' D kv) (h₂' : Spelled ic loose' D right vs₂' x₂')
    (h : x₁ ++ (runs D kvs ++ x₂) = x₁' ++ (runs D kvs' ++ x₂') ++ List.replicate k D) :
    vs₁ = vs₁' ∧ kvs = kvs' ∧ vs₂ = vs₂' := by
  have hlen₁ := h₁.length_eq.trans h₁'.length_eq.symm
  have hlen₂ := h₂.length_eq.trans h₂'.length_eq.symm
  obtain ⟨l₁, rfl, rfl, hl₁⟩ := h₁.exists_runs hD hleft
  obtain ⟨l₂, rfl, rfl, hl₂⟩ := h₂.exists_runs hD hright
  obtain ⟨l₁', rfl, rfl, hl₁'⟩ := h₁'.exists_runs hD hleft
  obtain ⟨l₂', rfl, rfl, hl₂'⟩ := h₂'.exists_runs hD hright
  have hrun : ∀ {loose kv}, IsRoundValue loose D kv → IsRunValue D kv :=
    fun h => ⟨h.1.1, h.2.1, h.2.2.1⟩
  have hall : ∀ {m₁ m m₂ : List (Nat × Text)} {loose}, (∀ kv ∈ m₁, IsRunValue D kv) →
      (∀ kv ∈ m, IsRoundValue loose D kv) → (∀ kv ∈ m₂, IsRunValue D kv) →
      ∀ kv ∈ m₁ ++ (m ++ m₂), IsRunValue D kv := by
    intro m₁ m m₂ loose h₁ h h₂ kv hkv
    rw [List.mem_append, List.mem_append] at hkv
    rcases hkv with hkv | hkv | hkv
    · exact h₁ kv hkv
    · exact hrun (h kv hkv)
    · exact h₂ kv hkv
  rw [← runs_append, ← runs_append, ← runs_append, ← runs_append] at h
  have hzero : runs D (l₁ ++ (kvs ++ l₂)) ++ List.replicate 0 D =
      runs D (l₁' ++ (kvs' ++ l₂')) ++ List.replicate k D := by
    rw [List.replicate_zero, List.append_nil]
    exact h
  have heq := runs_unique (hall hl₁ hkvs hl₂) (hall hl₁' hkvs' hl₂') hzero
  simp only [List.length_map] at hlen₁ hlen₂
  obtain ⟨rfl, hrest⟩ := List.append_inj heq hlen₁
  obtain ⟨rfl, rfl⟩ := List.append_inj' hrest hlen₂
  exact ⟨rfl, rfl, rfl⟩

/-- An expression for a row of segments finds values that were written for them, and captures
them. -/
theorem find_row {e : Expression} {ic loose trailing : Bool} (hD : IsAlone D)
    {left right : List Slot} {repeated : Option Param} (hleft : ∀ s ∈ left, s.IsProper D)
    (hright : ∀ s ∈ right, s.IsProper D) (hp : ∀ p ∈ repeated, p.IsRepeated D)
    (hr : e.root.isRegular = true) (hl : e.root.isLinear = true)
    (hm : e.root.Matches =
      wholly ((rowSense ic loose D left repeated right).seq
          (Template.tailSense ⟨[D], loose⟩ ic trailing))) {vs₁ vs₂ : List Text} {x₁ x₂ : Text}
    {kvs : List (Nat × Text)} (h₁ : Spelled ic loose D left vs₁ x₁)
    (hkvs : ∀ kv ∈ kvs, IsRoundValue loose D kv)
    (hempty : ∀ p ∈ repeated, kvs = [] → p.isOptional = true) (hnone : repeated = none → kvs = [])
    (h₂ : Spelled ic loose D right vs₂ x₂) :
    e.find (x₁ ++ (runs D kvs ++ x₂)) = .gaveUp ∨
    ∃ m, e.find (x₁ ++ (runs D kvs ++ x₂)) = .found m ∧
      m.start = .start (x₁ ++ (runs D kvs ++ x₂)) ∧
      m.finish.pos = .finish (x₁ ++ (runs D kvs ++ x₂)) ∧
      Records m.finish.capture? 0 ((bindings left vs₁).map Prod.snd) ∧
      (repeated ≠ none →
        CapturesRow m.finish.capture? ((bindings left vs₁).map Prod.snd).length D kvs) ∧
      Records m.finish.capture? (((bindings left vs₁).map Prod.snd).length + repeated.toList.length)
        ((bindings right vs₂).map Prod.snd) := by
  rcases Expression.find_cases hr hl hm (x₁ ++ (runs D kvs ++ x₂)) with
    hfind | ⟨-, hno⟩ | ⟨m, w, hfind, hmstart, hmfinish, hw, hc⟩
  · exact .inl hfind
  · obtain ⟨w, hw⟩ := row_complete hD hleft hright hp h₁ hkvs hempty hnone h₂
      (Cursor.start_takes_finish _)
    exact absurd ⟨_, w, [], hw, (tail_sense_iff hD rfl).2 ⟨rfl, 0, .inl rfl, .refl _⟩, rfl⟩ (hno _)
  · -- the values found are those that were written, as a text splits in one way only
    obtain ⟨r, w₁, w₂, hwrow, hwtail, rfl⟩ := hw
    obtain ⟨vs₁', x₁', kvs', vs₂', x₂', hx₁, hkvs', hx₂, htakes, -, hrec₁, hcaptures, hrec₂⟩ :=
      row_sound hD hleft hright hp hwrow
    obtain ⟨rfl, k, hk, hrest⟩ := (tail_sense_iff hD rfl).1 hwtail
    have hafter := (htakes.trans hrest).after
    simp only [Cursor.start, Cursor.finish, List.append_nil] at hafter
    obtain ⟨rfl, rfl, rfl⟩ := row_unique hD hleft hright h₁ hkvs h₂ hx₁ hkvs' hx₂ hafter
    rw [List.nil_append] at hc
    rw [← hc] at hrec₁ hcaptures hrec₂
    exact .inr ⟨m, hfind, hmstart, hmfinish, hrec₁, hcaptures, hrec₂⟩

/-- The matcher of a row has a separator for the repeated parameter only. -/
theorem Matcher.exists_rowSeparators (loose : Bool) (flags : Flags) {ic : Bool}
    (hflags : flags.sensitive = !ic) {left right : List Slot} {repeated : Option Param}
    (h : SpellsRow D parts left repeated right) :
    ∃ parts₁ parts₂ separators middle, Spells D parts₁ left ∧ Spells D parts₂ right ∧
      paramsOf parts = paramsOf parts₁ ++ (repeated.toList ++ paramsOf parts₂) ∧
      List.Forall₂ (fun p s => separator flags ⟨[D], loose⟩ p = .ok s) (paramsOf parts) separators ∧
      (paramsOf parts).zip separators =
        (paramsOf parts₁).map (fun p => (p, none)) ++
          (middle ++ (paramsOf parts₂).map fun p => (p, none)) ∧ (repeated = none → middle = []) ∧
      ∀ p ∈ repeated, ∃ e, middle = [(p, some e)] ∧ e.root.isRegular = true ∧
        e.root.Matches = Glyph.sense ic loose D 0 (.char D) := by
  obtain ⟨parts₁, parts₂, rfl, h₁, h₂⟩ := h.split
  have hparams : paramsOf (parts₁ ++ (repeated.toList.map .param ++ parts₂)) =
      paramsOf parts₁ ++ (repeated.toList ++ paramsOf parts₂) := by
    cases hr : repeated with
    | none => simp [paramsOf]
    | some p => simp [paramsOf, Part.param?, (h.isRepeated p hr).isCapturing]
  have hs₁ := separators_none flags ⟨[D], loose⟩ h₁.isRepeating_eq_false
  have hs₂ := separators_none flags ⟨[D], loose⟩ h₂.isRepeating_eq_false
  rw [hparams]
  cases hr : repeated with
  | none =>
    refine ⟨parts₁, parts₂, _, [], h₁, h₂, rfl, List.rel_append hs₁ hs₂, ?_, fun _ => rfl, by simp⟩
    rw [Option.toList_none, List.nil_append, List.zip_append (by simp), zip_none, zip_none,
      List.nil_append]
  | some p =>
    obtain ⟨e, he, hreg, hm⟩ := exists_separator loose (h.isRepeated p hr) hflags
    refine ⟨parts₁, parts₂, _, [(p, some e)], h₁, h₂, rfl, List.rel_append hs₁ (.cons he hs₂), ?_,
      by simp, ?_⟩
    · rw [Option.toList_some, List.zip_append (by simp), zip_none, List.singleton_append,
        List.zip_cons_cons, zip_none, List.singleton_append]
    · rintro _ ⟨⟩
      exact ⟨e, rfl, hreg, hm⟩

/-- The texts of a value. -/
def ParamValue.texts : ParamValue → List Text
  | single t => [t]
  | multiple ts => ts

/-- Decoding undoes encoding for all texts of the values. -/
def Params.IsRecovered (params : Params) (encode decode : Option Codec) : Prop :=
  ∀ name value, params.get? name = some value → ∀ v ∈ value.texts,
  recode decode (recode encode v) = v

theorem mem_bindings {f : Slot → Text} {b : Text × Text} (h : b ∈ bindings slots (slots.map f)) :
    .param b.1 ∈ slots ∧ b.2 = f (.param b.1) := by
  induction slots with
  | nil => simp [bindings] at h
  | cons s slots ih =>
    cases s with
    | literal t =>
      obtain ⟨h₁, h₂⟩ := ih h
      exact ⟨List.mem_cons_of_mem _ h₁, h₂⟩
    | param name =>
      rcases List.mem_cons.1 h with rfl | h
      · exact ⟨List.mem_cons_self .., rfl⟩
      · obtain ⟨h₁, h₂⟩ := ih h
        exact ⟨List.mem_cons_of_mem _ h₁, h₂⟩

theorem bindings_recovered {decode : Option Codec}
    (hfilled : ∀ name, .param name ∈ slots → IsFilled o.encode params D name)
    (hcodec : params.IsRecovered o.encode decode) :
    ∀ e ∈ (bindings slots (slots.map (Slot.value o.encode params))).map
      (fun b => (b.1, ParamValue.single (recode decode b.2))), params.get? e.1 = some e.2 := by
  intro e he
  obtain ⟨b, hb, rfl⟩ := List.mem_map.1 he
  obtain ⟨hmem, hvalue⟩ := mem_bindings hb
  obtain ⟨v, hv, -⟩ := hfilled b.1 hmem
  have hb₂ : b.2 = recode o.encode v := by simpa [Slot.value, Glyph.render, hv] using hvalue
  show params.get? b.1 = some (.single (recode decode b.2))
  rw [hb₂, hcodec b.1 _ hv v (by simp [ParamValue.texts]), hv]

/-- The values that are found for the repeated parameter are those that it was built from, if the
budget suffices. -/
theorem FillsRow.collects_middle {ic loose : Bool} {decode : Option Codec}
    {get : Nat → Option Span} {g : Nat} {left right : List Slot} {repeated : Option Param}
    {middle : List (Param × Option Expression)} {ts : List Text}
    (h : FillsRow o.encode params D left repeated ts right) (hD : IsAlone D)
    (hnone : repeated = none → middle = [])
    (hsome : ∀ p ∈ repeated, ∃ e, middle = [(p, some e)] ∧ e.root.isRegular = true ∧
      e.root.Matches = Glyph.sense ic loose D 0 (.char D))
    (hcaptures : repeated ≠ none → CapturesRow get g D ((ts.map (recode o.encode)).map (1, ·)))
    (hcodec : params.IsRecovered o.encode decode) :
    (∃ p e s, middle = [(p, some e)] ∧ get (g + 1) = some s ∧
      Matcher.value decode (some e) s.text = .error .gaveUp) ∨
    ∃ es, Matcher.Collects decode get g middle es ∧ (∀ e ∈ es, params.get? e.1 = some e.2) ∧
      ∀ p ∈ repeated, params.get? p.name ≠ none → p.name ∈ es.map Prod.fst := by
  cases hr : repeated with
  | none =>
    rw [hnone hr]
    exact .inr ⟨[], rfl, by simp, by simp⟩
  | some p =>
    obtain ⟨e, rfl, hreg, hm⟩ := hsome p hr
    rcases h.get? p hr with ⟨rfl, hget, -⟩ | ⟨hne, hget⟩
    · rcases hcaptures (by simp [hr]) with ⟨-, hcap⟩ | ⟨hne, -⟩
      · refine .inr ⟨[], .inl ⟨hcap, rfl⟩, by simp, ?_⟩
        rintro _ ⟨⟩ h
        exact absurd hget h
      · exact absurd rfl hne
    · obtain ⟨t, ts, rfl⟩ := List.exists_cons_of_ne_nil hne
      rcases hcaptures (by simp [hr]) with ⟨hnil, -⟩ | ⟨-, s, hs, htext⟩
      · simp at hnil
      rw [List.map_cons, joined_map_one] at htext
      have hvalues : ∀ v ∈ recode o.encode t :: ts.map (recode o.encode), IsOpenValue D v := by
        intro v hv
        rw [← List.map_cons] at hv
        obtain ⟨t', ht', rfl⟩ := List.mem_map.1 hv
        exact h.isOpenValue t' ht'
      have hdecoded :
          ((recode o.encode t :: ts.map (recode o.encode)).map (recode decode)) = t :: ts := by
        rw [← List.map_cons, List.map_map]
        have hid : ∀ v ∈ t :: ts, (recode decode ∘ recode o.encode) v = id v :=
          fun v hv => hcodec p.name _ hget v hv
        rw [List.map_congr_left hid, List.map_id]
      rcases Matcher.value_chain hD hreg hm hvalues decode with hv | hv
      · exact .inl ⟨p, e, s, rfl, hs, htext ▸ hv⟩
      · rw [hdecoded, ← htext] at hv
        refine .inr ⟨_, .inr ⟨s, _, [], hs, hv, rfl, rfl⟩, ?_, ?_⟩
        · simpa using hget
        · rintro _ ⟨⟩ -
          simp

/-- The values that are found for a row are those that it was built from, if the budget suffices. -/
theorem FillsRow.collects {ic loose : Bool} {decode : Option Codec} {get : Nat → Option Span}
    {left right : List Slot} {repeated : Option Param} {middle : List (Param × Option Expression)}
    {ts : List Text} {parts₁ parts₂ : List Part}
    (h : FillsRow o.encode params D left repeated ts right) (hD : IsAlone D)
    (h₁ : Spells D parts₁ left) (h₂ : Spells D parts₂ right) (hnone : repeated = none → middle = [])
    (hsome : ∀ p ∈ repeated, ∃ e, middle = [(p, some e)] ∧ e.root.isRegular = true ∧
      e.root.Matches = Glyph.sense ic loose D 0 (.char D))
    (hcodec : params.IsRecovered o.encode decode)
    (hrec₁ : Records get 0 ((bindings left (left.map (Slot.value o.encode params))).map Prod.snd))
    (hcaptures : repeated ≠ none → CapturesRow get
      ((bindings left (left.map (Slot.value o.encode params))).map Prod.snd).length D
      ((ts.map (recode o.encode)).map (1, ·)))
    (hrec₂ : Records get
      (((bindings left (left.map (Slot.value o.encode params))).map Prod.snd).length +
        repeated.toList.length)
      ((bindings right (right.map (Slot.value o.encode params))).map Prod.snd)) :
    (∃ p e s es, middle = [(p, some e)] ∧
      Matcher.Collects decode get 0 ((paramsOf parts₁).map fun p => (p, none)) es ∧
      get (((paramsOf parts₁).map fun p => (p, (none : Option Expression))).length + 1) = some s ∧
      Matcher.value decode (some e) s.text = .error .gaveUp) ∨
    ∃ es, Matcher.Collects decode get 0 ((paramsOf parts₁).map (fun p => (p, none)) ++
        (middle ++ (paramsOf parts₂).map fun p => (p, none))) es ∧
      (∀ e ∈ es, params.get? e.1 = some e.2) ∧
      ∀ name ∈ (paramsOf parts₁ ++ (repeated.toList ++ paramsOf parts₂)).map Param.name,
        params.get? name ≠ none → name ∈ es.map Prod.fst := by
  have hnames₁ := names_eq_of_spells h₁ (spelled_of_isFilled ic loose h.isFilled_left)
  have hnames₂ := names_eq_of_spells h₂ (spelled_of_isFilled ic loose h.isFilled_right)
  have hcollects₁ := collects_of_records decode hnames₁ hrec₁
  have hcollects₂ := collects_of_records decode hnames₂ hrec₂
  have hlen₁ : ((paramsOf parts₁).map fun p => (p, (none : Option Expression))).length =
      ((bindings left (left.map (Slot.value o.encode params))).map Prod.snd).length := by
    have hlen := congrArg List.length hnames₁
    simpa using hlen
  have hlen : middle.length = repeated.toList.length := by
    cases hr : repeated with
    | none => simp [hnone hr]
    | some p =>
      obtain ⟨e, rfl, -⟩ := hsome p hr
      rfl
  rw [← hlen₁] at hcaptures hcollects₂
  rw [← hlen] at hcollects₂
  rcases h.collects_middle hD hnone hsome hcaptures hcodec with
    ⟨p, e, s, hmiddle, hs, hv⟩ | ⟨es, hes, hget, hcover⟩
  · exact .inl ⟨p, e, s, _, hmiddle, hcollects₁, hs, hv⟩
  · refine .inr ⟨_, hcollects₁.append (by rw [Nat.zero_add]; exact hes.append hcollects₂),
      fun e he => ?_, fun name hname hne => ?_⟩
    · rw [List.mem_append, List.mem_append] at he
      rcases he with he | he | he
      · exact bindings_recovered h.isFilled_left hcodec e he
      · exact hget e he
      · exact bindings_recovered h.isFilled_right hcodec e he
    · rw [List.map_append, List.map_append, hnames₁, hnames₂] at hname
      rw [List.map_append, List.map_append, List.map_map, List.map_map]
      rw [List.mem_append, List.mem_append] at hname ⊢
      rcases hname with hname | hname | hname
      · exact .inl hname
      · obtain ⟨p, hp, rfl⟩ := List.mem_map.1 hname
        exact .inr (.inl (hcover p (Option.mem_toList.1 hp) hne))
      · exact .inr (.inr hname)

end

/-- Parts of a template stand for segments, one of which at most is repeated. -/
def IsSegmented (D : Char) (parts : List Part) : Prop :=
  ∃ left repeated right, (∀ s ∈ left, Slot.IsProper D s) ∧ (∀ s ∈ right, Slot.IsProper D s) ∧
    SpellsRow D parts left repeated right

theorem SpellsRow.isDefault {D : Char} {parts : List Part} {left right : List Slot}
    {repeated : Option Param} (h : SpellsRow D parts left repeated right) {p : Param}
    (hp : .param p ∈ parts) : p.IsDefault := by
  obtain ⟨parts₁, parts₂, rfl, h₁, h₂⟩ := h.split
  rw [List.mem_append, List.mem_append] at hp
  rcases hp with hp | hp | hp
  · exact (h₁.bare p hp).isDefault
  · obtain ⟨p', hp', heq⟩ := List.mem_map.1 hp
    cases heq
    exact (h.isRepeated p (Option.mem_toList.1 hp')).isDefault
  · exact (h₂.bare p hp).isDefault

/-- A built path is matched, and the values it was built from are found. -/
theorem Path.match_build {bo : BuildOptions} {mo : MatchOptions} {path : Path} {t : Template}
    {D : Char} (hpath : path.resolve mo.expression.parse = .ok (.inl t))
    (hpath' : path.resolve bo.parse = .ok (.inl t)) (hdelimiter : t.delimiter = [D])
    (hD : IsAlone D) (hstart : mo.expression.start = true) (hfinish : mo.expression.finish = true)
    (hstrict : mo.expression.strict = false) (hstrict' : bo.strict = false)
    (hvalidate : bo.validate = true) (h : IsSegmented D t.parts) :
    ∃ b m, path.builder bo = .ok b ∧ path.matcher mo = .ok m ∧
      ∀ params u, (∀ name, params.get? name ≠ none → name ∈ t.params.map Param.name) →
        (∀ name, params.get? name ≠ some (.multiple [])) → params.IsRecovered bo.encode mo.decode →
        b.build params = .ok u → m.run u ≠ .error .gaveUp →
        ∃ f, m.run u = .ok (some f) ∧ f.path = u ∧ f.index = 0 ∧ f.params.same params = true ∧
          ∀ name, f.get? name = params.get? name := by
  obtain ⟨left, repeated, right, hleft, hright, hrow⟩ := h
  have hne : t.delimiter ≠ [] := by simp [hdelimiter]
  obtain ⟨e, he, hr, hl, hm⟩ := Template.exists_toExpression_of_isDefault hstart hfinish hstrict hne
    fun p hp => hrow.isDefault hp
  rw [hdelimiter, sense_eq_rowSense hleft hright hrow] at hm
  obtain ⟨b, hb⟩ := Template.exists_toBuilder_of_isDefault hstrict' hne hvalidate
    fun p hp => hrow.isDefault hp
  have hflags : mo.expression.flags.sensitive = !!mo.expression.sensitive := by
    simp [ExpressionOptions.flags]
  obtain ⟨parts₁, parts₂, separators, middle, h₁, h₂, hparams, hseparators, hzip, hmnone, hmsome⟩ :=
    Matcher.exists_rowSeparators mo.expression.loose mo.expression.flags hflags hrow
  rw [← hdelimiter] at hseparators
  have hmatcher := Matcher.ofExpression_eq (e := ⟨e, t.params, mo.expression.flags⟩) (o := mo)
    hseparators
  refine ⟨b, ⟨⟨e, t.params, mo.expression.flags⟩, mo.decode, separators⟩, ?_, ?_, ?_⟩
  · simp only [builder, hpath', hb]
    rfl
  · simp only [matcher, hpath, he, hmatcher]
    rfl
  intro params u hothers hempty hcodec hbuild hgave
  -- what is written fills the row
  obtain ⟨xs, hxs, rfl⟩ := (Builder.build_eq_ok_iff hb).1 hbuild
  rw [hdelimiter] at hxs
  obtain ⟨ts, hu, hfills⟩ := built_of_spellsRow hD hvalidate hrow hempty hxs
  -- it is found, with the values that were written
  have hfound := find_row hD hleft hright hrow.isRepeated hr hl hm
    (spelled_of_isFilled _ _ hfills.isFilled_left) (hfills.isRoundValue _) hfills.isOptional
    (fun hnone => by simp [hfills.eq_nil hnone]) (spelled_of_isFilled _ _ hfills.isFilled_right)
  rw [← rowText, ← hu] at hfound
  rcases hfound with hfind | ⟨m, hfind, hmstart, hmfinish, hrec₁, hcaptures, hrec₂⟩
  · exact absurd (Matcher.run_gaveUp hfind) hgave
  rcases hfills.collects hD h₁ h₂ hmnone hmsome hcodec hrec₁ hcaptures hrec₂ with
    ⟨p, e', s, es, rfl, hes, hs, hv⟩ | ⟨es, hes, hget, hcover⟩
  · exact absurd (Matcher.run_value_gaveUp hfind hmstart hmfinish hzip hes hs hv) hgave
  · rw [← hzip] at hes
    rw [← hparams] at hcover
    exact Matcher.run_recovers hfind hmstart hmfinish hes hget
      fun name hname => hcover name (hothers name hname) hname

theorem Path.match_build_rest :
    ∃ b m params f, (Path.pattern "/user/:id\x7b/:rest\x7d*".toList).builder {} = .ok b ∧
      (Path.pattern "/user/:id\x7b/:rest\x7d*".toList).matcher {} = .ok m ∧
      params.get? "id".toList = some (.single "a b".toList) ∧
      params.get? "rest".toList = some (.multiple ["x".toList, "y/z".toList]) ∧
      b.build params = .ok "/user/a%20b/x/y%2Fz".toList ∧
      m.run "/user/a%20b/x/y%2Fz".toList = .ok (some f) ∧ f.index = 0 ∧
      f.params.same params = true := by
  have hparse : Path.parse {} "/user/:id\x7b/:rest\x7d*".toList =
      .ok ⟨[.text "/user/".toList, .param { name := "id".toList },
            .param { name := "rest".toList, before := ['/'], modifier := some .zeroOrMore,
                     separator := some ['/'] }], ['/']⟩ := by
    cbv
  have hspells : Spells '/' [.text "/user/".toList, .param { name := "id".toList }]
      [.literal "user".toList, .param "id".toList] :=
    ⟨by rintro p hp; simp at hp; subst hp; constructor <;> simp, rfl⟩
  obtain ⟨b, m, hb, hm, hmatch⟩ := @match_build {} {}
    (.pattern "/user/:id\x7b/:rest\x7d*".toList) _ '/'
    (Path.resolve_pattern hparse)
    (Path.resolve_pattern hparse) rfl (isAlone_of_isCaseless rfl) rfl rfl rfl rfl rfl
    ⟨_, some _, [], by simp [Slot.IsProper], by simp, ⟨_, [], rfl, hspells, by simp, rfl⟩, by
      rintro _ ⟨⟩
      exact ⟨by simp, rfl, rfl, rfl, rfl, .inl rfl⟩⟩
  let params := Params.ofList [("id".toList, .single "a b".toList),
      ("rest".toList, .multiple ["x".toList, "y/z".toList])]
  have hentries : ∀ name value, params.get? name = some value →
      (name, value) ∈
        [("id".toList, .single "a b".toList),
          ("rest".toList, ParamValue.multiple ["x".toList, "y/z".toList])] :=
    fun name value h => (params.mem_entries_iff (name, value)).2 h
  have hbuild : b.build params = .ok "/user/a%20b/x/y%2Fz".toList :=
    eq_ok_of_bind (Builder.build · params) hb (by decide +kernel)
  have hgave : m.run "/user/a%20b/x/y%2Fz".toList ≠ .error .gaveUp :=
    ne_error_of_bind (Matcher.run · "/user/a%20b/x/y%2Fz".toList) hm (by decide +kernel)
  have hothers : ∀ name, params.get? name ≠ none → name ∈ ["id".toList, "rest".toList] := by
    intro name h
    obtain ⟨value, h⟩ := Option.ne_none_iff_exists'.1 h
    exact List.mem_map_of_mem (f := Prod.fst) (hentries name value h)
  have hempty : ∀ name, params.get? name ≠ some (.multiple []) := by
    intro name h
    have hmem := hentries name _ h
    simp at hmem
  have hcodec : params.IsRecovered (some .uriComponent) (some .percentDecode) := by
    intro name value h
    have hall : ∀ e ∈ [("id".toList, ParamValue.single "a b".toList),
          ("rest".toList, .multiple ["x".toList, "y/z".toList])], ∀ v ∈ e.2.texts, recode
        (some .percentDecode) (recode (some .uriComponent) v) = v := by
      decide +kernel
    exact hall _ (hentries name value h)
  obtain ⟨f, hf, -, hindex, hsame, -⟩ := hmatch params _ hothers hempty hcodec hbuild hgave
  exact ⟨b, m, params, f, hb, hm, rfl, rfl, hbuild, hf, hindex, hsame⟩

end PathTemplate
