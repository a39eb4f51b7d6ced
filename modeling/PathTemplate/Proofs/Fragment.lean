import PathTemplate.PathExpression
import PathTemplate.Proofs.Expression.Literal
import PathTemplate.Proofs.Expression.Search

/-!
# Senses of templates

What the expression of a template matches, part by part.

* `Param.sense` — the sense of a parameter, given the senses of the patterns that are written out;
* `Template.sense` — the sense of some parts one after the other, the groups being numbered from
  left to right;
* `Expression.denotes_fragment`, `Template.denotes_fragments` — their expressions have these senses;
* `Template.fragmentsFrom_eq` — the expressions of parts do not depend on what the strict check
  remembers;
* `Template.pathSense`, `Template.exists_pathExpression` — the expression of a whole template has
  its sense.
-/

namespace PathTemplate

open Expression (Literal Denotes)

/-- How often there is a match. -/
def Sense.modified (R : Sense) : Option Modifier → Sense
  | none => R
  | some .optional => R.rounds 0 (some 1)
  | some .zeroOrMore => R.rounds 0 none
  | some .oneOrMore => R.rounds 1 none

/-- What rounds keep, a modifier keeps. -/
theorem Sense.modified_lift {C : Sense → Sense → Prop} {R T : Sense} (h : C R T)
    (hrounds : ∀ lo hi, C (R.rounds lo hi) (T.rounds lo hi)) (m : Option Modifier) :
    C (R.modified m) (T.modified m) := by
  match m with
  | none => exact h
  | some .optional => exact hrounds 0 (some 1)
  | some .zeroOrMore => exact hrounds 0 none
  | some .oneOrMore => exact hrounds 1 none

theorem Sense.IsSilent.modified {R : Sense} (hR : R.IsSilent) (m : Option Modifier) :
    (R.modified m).IsSilent :=
  modified_lift (C := fun R _ => R.IsSilent) (T := R) hR hR.rounds m

/-- Whatever the modifier is, there may be one match. -/
theorem Sense.modified_one {R : Sense} {a b : Cursor} {w : Captures} (h : R a b w)
    (m : Option Modifier) : R.modified m a b w := by
  match m with
  | none => exact h
  | some .optional => exact Sense.optional_iff.2 (.inr h)
  | some .zeroOrMore => exact ⟨1, by simp, .one h⟩
  | some .oneOrMore => exact ⟨0, by simp, .one h⟩

namespace Param

variable (l : Literal) (ic : Bool) (σ : Text → Sense) (p : Param)

/-- The sense of one value; `σ` gives the senses of patterns. -/
def valueSense : Sense :=
  match p.pattern with
  | some x => σ x
  | none => .stretch ic l.delimiter

/-- The sense of the value, or of all values with what is between them. -/
def valuesSense : Sense :=
  if p.isRepeating then
    (p.valueSense l ic σ).seq (((l.sense ic p.between).seq (p.valueSense l ic σ)).rounds 0 none)
  else p.valueSense l ic σ

/-- How often all of the parameter may occur: several values of a parameter are inside of one
occurrence. -/
def occurrence : Option Modifier :=
  if p.isCapturing && p.isRepeating then (if p.isOptional then some .optional else none)
  else p.modifier

/-- There may be several values, but nothing to separate them. -/
def lacksSeparator : Bool := p.isRepeating && p.between.isEmpty

/-- The parameter captures, has no pattern of its own, and what separates its values is not
empty. -/
structure IsDefault : Prop where
  capturing : p.isCapturing = true
  pattern : p.pattern = none
  between : p.isRepeating = true → p.between ≠ []

/-- The number of groups of a parameter. -/
def groups : Nat := if p.isCapturing then 1 else 0

/-- The sense of one occurrence of a parameter; `g` groups are before it. -/
def innerSense (g : Nat) : Sense :=
  if p.isCapturing then (l.sense ic p.before).seq
  ((Sense.captured (g + 1) (p.valuesSense l ic σ)).seq (l.sense ic p.after))
  else (l.sense ic p.before).seq (l.sense ic p.after)

/-- The sense of a parameter; `g` groups are before it. -/
def sense (g : Nat) : Sense := (p.innerSense l ic σ g).modified p.occurrence

/-- What stands between the parentheses of the expression of a parameter. -/
def innerSource : Text :=
  if p.isCapturing then l.source p.before ++ (['('] ++ (p.valueSource l.delimiter ++
    (if p.isRepeating then ['(', '?', ':'] ++ (l.source p.between ++ p.valueSource l.delimiter) ++
    [')'] ++ ['*'] else [])) ++
      [')'] ++ l.source p.after)
  else l.source p.before ++ l.source p.after

theorem occurrence_of_isCapturing {p : Param} (hc : p.isCapturing = true) :
    p.occurrence = if p.isOptional then some .optional else none := by
  unfold occurrence isRepeating isOptional
  rw [hc]
  rcases p.modifier with _ | _ | _ | _ <;> rfl

theorem isSilent_valueSense {l : Literal} {ic : Bool} {σ : Text → Sense} {p : Param}
    (hσ : ∀ x, p.pattern = some x → (σ x).IsSilent) : (p.valueSense l ic σ).IsSilent := by
  unfold valueSense
  split
  · rename_i x hx
    exact hσ x hx
  · exact Sense.isSilent_stretch ic l.delimiter

theorem isSilent_valuesSense {l : Literal} {ic : Bool} {σ : Text → Sense} {p : Param}
    (hσ : ∀ x, p.pattern = some x → (σ x).IsSilent) : (p.valuesSense l ic σ).IsSilent := by
  have hvalue : (p.valueSense l ic σ).IsSilent := isSilent_valueSense hσ
  unfold valuesSense
  split
  · exact hvalue.seq (((l.isSilent_sense ic p.between).seq hvalue).rounds 0 none)
  · exact hvalue

theorem sense_of_inner {l : Literal} {ic : Bool} {σ : Text → Sense} {p : Param} {g : Nat}
    {a b : Cursor} {w : Captures} (h : p.innerSense l ic σ g a b w) : p.sense l ic σ g a b w :=
  Sense.modified_one h p.occurrence

theorem sense_of_isOptional {l : Literal} {ic : Bool} {σ : Text → Sense} {p : Param} {g : Nat}
    (hp : p.isOptional = true) (a : Cursor) : p.sense l ic σ g a a [] := by
  have hocc : p.occurrence = some .optional ∨ p.occurrence = some .zeroOrMore := by
    unfold occurrence isOptional isRepeating at *
    rcases hm : p.modifier with
      _ | _ | _ | _ <;> cases p.isCapturing <;> simp_all [Modifier.isOptional, Modifier.isRepeating]
  unfold sense
  rcases hocc with hocc | hocc <;> rw [hocc]
  · exact Sense.optional_iff.2 (.inl ⟨rfl, rfl⟩)
  · exact ⟨0, by simp, .zero a⟩

theorem fragment_eq : p.fragment l =
    ['(', '?', ':'] ++ p.innerSource l ++ [')'] ++ p.occurrence.toList.map Modifier.char := by
  unfold fragment innerSource occurrence modifierSource
  cases p.isCapturing with
  | false => simp
  | true =>
    cases p.isRepeating with
    | false => simp
    | true => cases p.isOptional <;> simp [Modifier.char]

end Param

/-- The sense of some parts one after the other; `g` groups are before them. -/
def Template.sense (l : Literal) (ic : Bool) (σ : Text → Sense) : (g : Nat) → List Part → Sense
  | _, [] => .nothing
  | g, .text t :: rest => (l.sense ic t).seq (sense l ic σ g rest)
  | g, .param p :: rest => (p.sense l ic σ g).seq (sense l ic σ (g + p.groups) rest)

/-- The capturing parameters of some parts. -/
def paramsOf (parts : List Part) : List Param :=
  (parts.filterMap Part.param?).filter Param.isCapturing

theorem paramsOf_text (t : Text) (parts : List Part) :
    paramsOf (.text t :: parts) = paramsOf parts :=
  rfl

theorem paramsOf_param (p : Param) (parts : List Part) :
    paramsOf (.param p :: parts) = (if p.isCapturing then [p] else []) ++ paramsOf parts := by
  cases hc : p.isCapturing <;> simp [paramsOf, Part.param?, hc]

theorem mem_paramsOf {p : Param} {parts : List Part} :
    p ∈ paramsOf parts ↔ .param p ∈ parts ∧ p.isCapturing = true := by
  rw [paramsOf, List.mem_filter]
  exact and_congr_left' (Template.mem_allParams (t := ⟨parts, []⟩))

/-- The expression of a part. -/
def Part.fragment (l : Literal) : Part → Text
  | .text t => l.source t
  | .param p => p.fragment l

namespace Expression

variable {once solid ic : Bool} {k g g' : Nat} {l : Literal} {σ : Text → Sense} {x : Text}
  {S : Sense} {p : Param}

theorem Denotes.modified (h : Denotes once true ic k g g' x S) (m : Option Modifier)
    (hc : once = true → g = g' ∨ m = none ∨ m = some .optional) :
    Denotes once true ic (k + 1) g g' (['(', '?', ':'] ++ x ++ [')'] ++ m.toList.map Modifier.char)
      (S.modified m) := by
  match m with
  | none =>
    have hplain := h.group.denotes
    simpa [Sense.modified] using hplain
  | some .optional => exact h.group.repeated repeats_optional fun _ => .inr ⟨Nat.zero_le 1, rfl⟩
  | some .zeroOrMore =>
    exact h.group.repeated repeats_any fun ho => .inl ((hc ho).resolve_right (by simp))
  | some .oneOrMore =>
    exact h.group.repeated repeats_some fun ho => .inl ((hc ho).resolve_right (by simp))

/-- The expression of a value has the sense of a value, if that of a pattern that is written out has
one. -/
theorem denotes_valueSource (hD : l.delimiter ≠ [])
    (hσ : ∀ x, p.pattern = some x →
      Denotes once false ic (k + 2) g g (['(', '?', ':'] ++ x ++ [')']) (σ x)) :
    Denotes once false ic (k + 2) g g (p.valueSource l.delimiter) (p.valueSense l ic σ) := by
  unfold Param.valueSource Param.valueSense
  cases hp : p.pattern with
  | none => exact (denotes_shortStretch once ic k g hD).unsolid
  | some x => exact hσ x hp

theorem denotes_values (hD : l.delimiter ≠ []) (hbetween : p.isRepeating = true → p.between ≠ [])
    (hσ : ∀ x, p.pattern = some x →
      Denotes once false ic (k + 2) g g (['(', '?', ':'] ++ x ++ [')']) (σ x)) :
    Denotes once false ic (k + 3) g g (p.valueSource l.delimiter ++
        (if p.isRepeating then ['(', '?', ':'] ++ (l.source p.between ++ p.valueSource l.delimiter)
          ++ [')'] ++ ['*'] else [])) (p.valuesSense l ic σ) := by
  have hvalue := denotes_valueSource (k := k) (g := g) hD hσ
  unfold Param.valuesSense
  split
  · rename_i hr
    have hsolid : (!(l.source p.between).isEmpty) = true := by
      simpa using l.source_ne_nil (hbetween hr)
    have hsource := denotes_source once ic (k + 1) g l p.between
    rw [hsolid] at hsource
    exact ((hvalue.weaken (Nat.le_succ _)).append
      ((hsource.append hvalue).group.repeated repeats_any fun _ => .inl rfl)).unsolid
  · rw [List.append_nil]
    exact hvalue.weaken (Nat.le_succ _)

theorem denotes_inner (hD : l.delimiter ≠ []) (hp : p.isCapturing = true)
    (hbetween : p.isRepeating = true → p.between ≠ [])
    (hσ : ∀ g x, p.pattern = some x →
      Denotes once false ic (k + 2) g g (['(', '?', ':'] ++ x ++ [')']) (σ x)) :
    Denotes once true ic (k + 4) g (g + 1) (p.innerSource l) (p.innerSense l ic σ g) := by
  have hvalues := (denotes_values (k := k) (g := g + 1) hD hbetween (hσ _)).capture
    fun _ => Nat.lt_succ_self g
  have hall := (denotes_source once ic (k + 3) g l p.before).append
    (hvalues.denotes.append (denotes_source once ic (k + 3) (g + 1) l p.after))
  simp only [Param.innerSource, Param.innerSense, hp, if_true]
  simpa using hall

/-- The expression of a parameter has the sense of the parameter; a group of literal text with a
modifier must not be empty. -/
theorem denotes_fragment (hD : l.delimiter ≠ [])
    (hσ : p.isCapturing = true →
      ∀ g x, p.pattern = some x →
        Denotes once false ic (k + 2) g g (['(', '?', ':'] ++ x ++ [')']) (σ x))
    (hbetween : p.isCapturing = true → p.isRepeating = true → p.between ≠ [])
    (hp : p.isCapturing = false → p.modifier ≠ none → l.source p.before ++ l.source p.after ≠ []) :
    Denotes once false ic (k + 5) g (g + p.groups) (p.fragment l) (p.sense l ic σ g) := by
  rw [Param.fragment_eq]
  cases hc : p.isCapturing with
  | true =>
    have hgroups : p.groups = 1 := by simp [Param.groups, hc]
    rw [hgroups]
    refine ((denotes_inner hD hc (hbetween hc) (hσ hc)).modified p.occurrence fun _ => .inr
      ?_).unsolid
    unfold Param.occurrence Param.isRepeating
    rw [hc]
    rcases hm : p.modifier with
      _ | _ | _ | _ <;> simp [Modifier.isRepeating, hm, Param.isOptional, Modifier.isOptional]
  | false =>
    have hgroups : p.groups = 0 := by simp [Param.groups, hc]
    have hocc : p.occurrence = p.modifier := by simp [Param.occurrence, hc]
    have hinner : p.innerSource l = l.source p.before ++ l.source p.after := by
      simp [Param.innerSource, hc]
    have hsense : p.innerSense l ic σ g = (l.sense ic p.before).seq (l.sense ic p.after) := by
      simp [Param.innerSense, hc]
    have hall := (denotes_source once ic (k + 3) g l p.before).append
      (denotes_source once ic (k + 3) g l p.after)
    rw [hgroups, Param.sense, hocc, hinner, hsense]
    cases hm : p.modifier with
    | none =>
      have hplain := hall.plainGroup.unsolid
      simpa [Sense.modified] using hplain
    | some m =>
      have hne := hp hc (by simp [hm])
      have hsolid : (!(l.source p.before).isEmpty || !(l.source p.after).isEmpty) = true := by
        rw [Bool.or_eq_true, Bool.not_eq_true', Bool.not_eq_true']
        by_contra h
        rw [not_or, Bool.not_eq_false, Bool.not_eq_false, List.isEmpty_iff, List.isEmpty_iff] at h
        exact hne (by rw [h.1, h.2]; rfl)
      rw [hsolid] at hall
      exact (hall.modified (some m) fun _ => .inl rfl).unsolid

end Expression

/-! ### whole texts -/

namespace Expression

variable {once solid ic : Bool} {g' : Nat} {x : Text} {S : Sense} {flags : Flags}

theorem inlineSwitch_eq (h : flags.sensitive = !ic) : flags.inlineSwitch = switchSource ic := by
  cases ic <;> simp_all [Flags.inlineSwitch, switchSource]

/-- What is matched from the start of a text to its end. -/
def wholly (S : Sense) : Sense := (Sense.place .textStart).seq (S.seq (.place .textEnd))

theorem wholly_iff {p q : Cursor} {w : Captures} :
    wholly S p q w ↔ p.before = [] ∧ q.after = [] ∧ S p q w := by
  constructor
  · rintro ⟨r, u, v, ⟨hp, rfl, rfl⟩, ⟨r', u', v', h, ⟨hq, rfl, rfl⟩, rfl⟩, rfl⟩
    exact ⟨by simpa [Assertion.holds] using hp, by simpa [Assertion.holds] using hq,
      by simpa using h⟩
  · rintro ⟨hp, hq, h⟩
    exact ⟨p, [], w, ⟨by simp [Assertion.holds, hp], rfl, rfl⟩,
      ⟨q, w, [], h, ⟨by simp [Assertion.holds, hq], rfl, rfl⟩, rfl⟩, by simp⟩

theorem isAnchored_of_wholly {e : Expression} (h : e.root.Matches = wholly S) :
    e.root.IsAnchored := by
  rintro p q ⟨w, hw⟩
  rw [h, wholly_iff] at hw
  exact ⟨hw.1, hw.2.1⟩

theorem reaches_of_wholly {e : Expression} (h : e.root.Matches = wholly S) (t : Text) :
    e.root.Reaches (.start t) (.finish t) ↔ ∃ w, S (.start t) (.finish t) w := by
  refine exists_congr fun w => ?_
  rw [h, wholly_iff]
  simp [Cursor.start, Cursor.finish]

theorem sense_of_found {e : Expression} (hr : e.root.isRegular = true)
    (hm : e.root.Matches = wholly S) {t : Text} {m : Match} (h : e.find t = .found m) :
    ∃ w, S (.start t) (.finish t) w := by
  obtain ⟨hstart, hfinish, hleft⟩ := find_found hr (isAnchored_of_wholly hm) h
  have hreaches := hleft.reaches
  rw [hstart, hfinish] at hreaches
  exact (reaches_of_wholly hm t).1 hreaches

theorem not_sense_of_none {e : Expression} (hr : e.root.isRegular = true)
    (hm : e.root.Matches = wholly S) {t : Text} (h : e.find t = .none) (w : Captures) :
    ¬S (.start t) (.finish t) w :=
  fun hw => find_none hr h ((reaches_of_wholly hm t).2 ⟨w, hw⟩)

theorem exists_anchored (flags : Flags) (h : Denotes once solid ic 63 0 g' x S)
    (hflags : flags.sensitive = !ic) :
    ∃ e, anchored flags x = .ok e ∧ e.root.isRegular = true ∧
      (once = true → e.root.isLinear = true) ∧ e.root.Matches = wholly S := by
  obtain ⟨e, hread, hr, hl, hm⟩ := (denotes_textStart.append (h.append denotes_textEnd)).read
  refine ⟨e, ?_, hr, hl, hm⟩
  rw [anchored, inlineSwitch_eq hflags, List.append_assoc, List.append_assoc]
  exact hread

end Expression

/-! ### all parts -/

theorem exists_of_mem_forall₂ {α β : Type} {R : α → β → Prop} {l : List α} {l' : List β}
    (h : List.Forall₂ R l l') {a : α} (ha : a ∈ l) : ∃ b ∈ l', R a b := by
  induction h with
  | nil => cases ha
  | cons hab _ ih =>
    rcases List.mem_cons.1 ha with rfl | ha
    · exact ⟨_, List.mem_cons_self .., hab⟩
    · obtain ⟨b, hb, hab⟩ := ih ha
      exact ⟨b, List.mem_cons_of_mem _ hb, hab⟩

theorem mapM_eq_ok_iff {ε α β : Type} {f : α → Except ε β} {l : List α} {bs : List β} :
    l.mapM f = .ok bs ↔ List.Forall₂ (fun a b => f a = .ok b) l bs := by
  induction l generalizing bs with
  | nil =>
    constructor
    · rintro ⟨⟩
      exact .nil
    · rintro ⟨⟩
      rfl
  | cons a l ih =>
    rw [List.mapM_cons]
    constructor
    · intro h
      cases ha : f a with
      | error e =>
        rw [ha] at h
        cases h
      | ok b =>
        rw [ha] at h
        cases hl : l.mapM f with
        | error e =>
          rw [hl] at h
          cases h
        | ok bs' =>
          rw [hl] at h
          cases h
          exact .cons ha (ih.1 hl)
    · rintro (_ | ⟨ha, hl⟩)
      rw [ha, ih.2 hl]
      rfl

/-- A pass over a list fails at the first member, or after it. -/
theorem mapM_cons_eq_error_iff {ε α β : Type} {f : α → Except ε β} {a : α} {l : List α} {e : ε} :
    (a :: l).mapM f = .error e ↔ f a = .error e ∨ (∃ b, f a = .ok b) ∧ l.mapM f = .error e := by
  rw [List.mapM_cons]
  cases f a with
  | error e' => simp [bind, Except.bind]
  | ok b => cases l.mapM f <;> simp [bind, Except.bind, pure, Except.pure]

theorem mapM_congr_of_mem {ε α β : Type} {f g : α → Except ε β} {l : List α}
    (h : ∀ a ∈ l, f a = g a) : l.mapM f = l.mapM g := by
  induction l with
  | nil => rfl
  | cons a l ih =>
    obtain ⟨ha, hl⟩ := List.forall_mem_cons.1 h
    rw [List.mapM_cons, List.mapM_cons, ha, ih hl]

/-- The questions of a check, one after the other. -/
theorem Guard.pass_eq {flags : Flags} {l : Literal} {guard : Guard} {p : Param} {e : Expression}
    (he : Expression.anchored flags (p.valueSource l.delimiter) = .ok e) :
    guard.pass flags l p =
      (if guard.safe then .ok true else e.rejects
          (if p.before = [] then guard.context else p.before)) >>=
        fun reached => if !reached then .error (.ambiguousPattern p.name)
          else (if flags.strict then e.rejects p.after else .ok true) >>=
          fun ended => if !p.isRepeating then .ok ⟨ended, []⟩
            else if p.between = [] then .error (.missingSeparator p.name)
            else (if ended then .ok true else e.rejects p.between) >>=
            fun apart => if !apart then .error (.ambiguousSeparator p.name)
              else .ok ⟨!flags.strict, []⟩ := by
  have hbind : ∀ {c : Prop} [Decidable c] {α : Type} (x y : Except ExpressionError α)
      (f : α → Except ExpressionError Guard),
      (if c then x else y) >>= f = if c then x >>= f else y >>= f :=
    fun x y f => apply_ite (· >>= f) _ x y
  simp only [pass, he, hbind]

/-- Without strictness, only expressions of values and missing separators are asked for. -/
theorem Guard.pass_lenient {flags : Flags} {guard : Guard} (hstrict : flags.strict = false)
  (hguard : guard.safe = true)
    (l : Literal) (p : Param) : guard.pass flags l p =
      match Expression.anchored flags (p.valueSource l.delimiter) with
      | .error cause => .error (.invalidPattern p.name cause)
      | .ok _ => if p.lacksSeparator then .error (.missingSeparator p.name) else .ok
          ⟨true, []⟩ := by
  cases he : Expression.anchored flags (p.valueSource l.delimiter) with
  | error cause => simp only [pass, he]
  | ok e =>
    rw [pass_eq he, hguard, hstrict]
    cases hr : p.isRepeating with
    | false => simp [Param.lacksSeparator, hr, bind, Except.bind]
    | true =>
      by_cases hb : p.between = [] <;> simp [Param.lacksSeparator, hr, hb, bind, Except.bind]

theorem Guard.exists_anchored_of_pass {flags : Flags} {l : Literal} {guard guard' : Guard}
    {p : Param} (h : guard.pass flags l p = .ok guard') :
    ∃ e, Expression.anchored flags (p.valueSource l.delimiter) = .ok e := by
  unfold pass at h
  split at h
  · cases h
  · rename_i e he
    exact ⟨e, he⟩

theorem Guard.between_ne_nil {flags : Flags} {l : Literal} {guard guard' : Guard} {p : Param}
    (h : guard.pass flags l p = .ok guard') (hr : p.isRepeating = true) : p.between ≠ [] := by
  intro hnil
  cases he : Expression.anchored flags (p.valueSource l.delimiter) with
  | error cause => simp [pass, he] at h
  | ok e =>
    rw [pass_eq he] at h
    obtain ⟨reached, -, h⟩ := exists_of_bind_eq_ok h
    split at h
    · cases h
    · -- whatever has been checked, this question is still to come
      obtain ⟨ended, -, h⟩ := exists_of_bind_eq_ok h
      simp [hr] at h

namespace Template

variable {once ic : Bool} {k : Nat} {l : Literal} {σ : Text → Sense} {o : ExpressionOptions}
  {flags : Flags}

/-- What a part must be like for its expression to have a sense: its pattern has one and something
separates its values if it captures, and a group of literal text with a modifier is not empty. -/
structure Readable (once ic : Bool) (k : Nat) (l : Literal) (σ : Text → Sense)
    (p : Param) : Prop where
  pattern : p.isCapturing = true → ∀ g x, p.pattern = some x →
    Denotes once false ic (k + 2) g g (['(', '?', ':'] ++ x ++ [')']) (σ x)
  between : p.isCapturing = true → p.isRepeating = true → p.between ≠ []
  text : p.isCapturing = false → p.modifier ≠ none → l.source p.before ++ l.source p.after ≠ []

/-- The number of groups of some parts. -/
def groups (parts : List Part) : Nat := ((parts.filterMap Part.param?).map Param.groups).sum

theorem groups_text (t : Text) (parts : List Part) : groups (.text t :: parts) = groups parts := rfl

theorem groups_param (p : Param) (parts : List Part) :
    groups (.param p :: parts) = p.groups + groups parts := by
  simp [groups, Part.param?]

theorem sense_append (g : Nat) (parts parts' : List Part) :
    sense l ic σ g (parts ++ parts') =
      (sense l ic σ g parts).seq (sense l ic σ (g + groups parts) parts') := by
  induction parts generalizing g with
  | nil => simp [sense, groups]
  | cons part parts ih =>
    cases part with
    | text t => rw [List.cons_append, sense, sense, ih, groups_text, Sense.seq_assoc]
    | param p =>
      rw [List.cons_append, sense, sense, ih, groups_param, Nat.add_assoc, Sense.seq_assoc]

theorem denotes_fragments (hD : l.delimiter ≠ []) (g : Nat) (parts : List Part)
    (hparts : ∀ p, .param p ∈ parts → Readable once ic k l σ p) :
    Denotes once false ic (k + 5) g (g + groups parts) (parts.flatMap (Part.fragment l))
      (sense l ic σ g parts) := by
  induction parts generalizing g with
  | nil => exact Expression.denotes_nil
  | cons part parts ih =>
    have ih' := fun g => ih g fun p hp => hparts p (List.mem_cons_of_mem _ hp)
    cases part with
    | text t => exact ((Expression.denotes_source once ic (k + 4) g l t).unsolid.append (ih' g))
    | param p =>
      have hp := hparts p (List.mem_cons_self ..)
      rw [groups_param, ← Nat.add_assoc]
      exact (Expression.denotes_fragment hD hp.pattern hp.between hp.text).append (ih' _)

/-- The expressions of parts, if there are any, do not depend on what the strict check remembers. -/
theorem fragmentsFrom_eq {parts : List Part} {guard : Guard} {fs : List Text}
    (h : fragmentsFrom flags l guard parts = .ok fs) : fs = parts.map (Part.fragment l) := by
  induction parts generalizing guard fs with
  | nil =>
    cases h
    rfl
  | cons part parts ih =>
    have hcons : ∀ {guard' : Guard} {x : Text}, (fragmentsFrom flags l guard' parts).map (x :: ·) =
          .ok fs → fs = x :: parts.map (Part.fragment l) := by
      intro guard' x h
      obtain ⟨fs', h', rfl⟩ := exists_of_map_eq_ok h
      rw [ih h']
    cases part with
    | text t => exact hcons h
    | param p =>
      simp only [fragmentsFrom] at h
      split at h
      · split at h
        · cases h
        · exact hcons h
      · exact hcons h

/-- The expressions of parts are there only if the value of each parameter that captures has one. -/
theorem exists_anchored_of_fragmentsFrom {parts : List Part} {guard : Guard} {fs : List Text}
    (h : fragmentsFrom flags l guard parts = .ok fs) {p : Param} (hp : .param p ∈ parts)
    (hc : p.isCapturing = true) :
    ∃ e, Expression.anchored flags (p.valueSource l.delimiter) = .ok e := by
  induction parts generalizing guard fs with
  | nil => cases hp
  | cons part parts ih =>
    have hrest : ∀ {guard' : Guard} {x : Text},
        (fragmentsFrom flags l guard' parts).map (x :: ·) = .ok fs → .param p ∈ parts →
        ∃ e, Expression.anchored flags (p.valueSource l.delimiter) = .ok e := by
      intro guard' x h hp
      obtain ⟨fs', h', -⟩ := exists_of_map_eq_ok h
      exact ih h' hp
    cases part with
    | text t => exact hrest h (by simpa using hp)
    | param q =>
      simp only [fragmentsFrom] at h
      rcases List.mem_cons.1 hp with hq | hp
      · cases hq
        rw [if_pos hc] at h
        split at h
        · cases h
        · rename_i hpass
          exact Guard.exists_anchored_of_pass hpass
      · split at h
        · split at h
          · cases h
          · exact hrest h hp
        · exact hrest h hp

/-! ### the expression of a template -/

/-- The sense of the delimiters that may be at the end. -/
def tailSense (l : Literal) (ic trailing : Bool) : Sense :=
  if trailing then (l.sense ic l.delimiter).rounds 0 (some 1) else .nothing

/-- Without strictness, parts whose values have expressions have expressions, unless nothing
separates repeated values: then the first such parameter is to blame. -/
theorem fragmentsFrom_eq_of_values (hstrict : flags.strict = false) {parts : List Part}
  {guard : Guard} (hguard : guard.safe = true)
    (hvalue : ∀ p ∈ paramsOf parts, ∃ e, Expression.anchored flags (p.valueSource l.delimiter) =
    .ok e) :
    fragmentsFrom flags l guard parts = match (paramsOf parts).find? Param.lacksSeparator with
      | some p => .error (.missingSeparator p.name)
      | none => .ok (parts.map (Part.fragment l)) := by
  -- what the first part adds to the expressions of the others
  have hcons : ∀ (x : Text) (fs : List Text) (ps : List Param),
      (match ps.find? Param.lacksSeparator with
        | some p => Except.error (ExpressionError.missingSeparator p.name)
        | none => .ok fs).map (x :: ·) = match ps.find? Param.lacksSeparator with
        | some p => .error (.missingSeparator p.name)
        | none => .ok (x :: fs) := by
    intro x fs ps
    cases ps.find? Param.lacksSeparator <;> rfl
  induction parts generalizing guard with
  | nil => rfl
  | cons part parts ih =>
    cases part with
    | text t =>
      rw [fragmentsFrom, @ih { guard with context := t } hguard hvalue, hcons, paramsOf_text]
      rfl
    | param p =>
      rw [paramsOf_param] at hvalue ⊢
      have ih' := fun (guard : Guard) (h : guard.safe = true) => ih h fun p hp => hvalue p
        (List.mem_append_right _ hp)
      cases hc : p.isCapturing with
      | false =>
        simp only [fragmentsFrom, hc, Bool.false_eq_true, if_false, List.nil_append]
        rw [ih' guard hguard, hcons]
        rfl
      | true =>
        obtain ⟨e, he⟩ := hvalue p (by simp [hc])
        have hpass : guard.pass flags l p =
            if p.lacksSeparator then .error (.missingSeparator p.name) else .ok ⟨true, []⟩ := by
          rw [Guard.pass_lenient hstrict hguard, he]
        simp only [fragmentsFrom, hc, if_true, hpass, List.singleton_append, List.find?_cons]
        cases hlacks : p.lacksSeparator with
        | true => rfl
        | false =>
          simp only [Bool.false_eq_true, if_false]
          rw [ih' ⟨true, []⟩ rfl, hcons]
          rfl

/-- Without strictness, parts have expressions if their values have, and if something separates
repeated values. -/
theorem exists_fragmentsFrom (hstrict : flags.strict = false) {parts : List Part} {guard : Guard}
    (hguard : guard.safe = true)
    (hvalue : ∀ p ∈ paramsOf parts, (∃ e, Expression.anchored flags (p.valueSource l.delimiter) =
        .ok e) ∧ (p.isRepeating = true → p.between ≠ [])) :
    ∃ fs, fragmentsFrom flags l guard parts = .ok fs := by
  have hnone : (paramsOf parts).find? Param.lacksSeparator = none := by
    rw [List.find?_eq_none]
    intro p hp hlacks
    simp only [Param.lacksSeparator, Bool.and_eq_true, List.isEmpty_iff] at hlacks
    exact (hvalue p hp).2 hlacks.1 hlacks.2
  refine ⟨parts.map (Part.fragment l), ?_⟩
  rw [fragmentsFrom_eq_of_values hstrict hguard fun p hp => (hvalue p hp).1, hnone]

/-- Where parts have expressions, something separates repeated values. -/
theorem between_ne_nil {guard : Guard} {parts : List Part} {fs : List Text}
    (h : fragmentsFrom flags l guard parts = .ok fs) {p : Param} (hp : .param p ∈ parts)
    (hc : p.isCapturing = true) (hr : p.isRepeating = true) : p.between ≠ [] := by
  induction parts generalizing guard fs with
  | nil => cases hp
  | cons part parts ih =>
    cases part with
    | text t =>
      obtain ⟨fs, hfs, -⟩ := exists_of_map_eq_ok h
      exact ih hfs ((List.mem_cons.1 hp).resolve_left (by simp))
    | param q =>
      unfold fragmentsFrom at h
      split at h
      · split at h
        · cases h
        · rename_i hpass
          obtain ⟨fs, hfs, -⟩ := exists_of_map_eq_ok h
          rcases List.mem_cons.1 hp with heq | hp
          · cases heq
            exact Guard.between_ne_nil hpass hr
          · exact ih hfs hp
      · rename_i hq
        obtain ⟨fs, hfs, -⟩ := exists_of_map_eq_ok h
        rcases List.mem_cons.1 hp with heq | hp
        · cases heq
          exact absurd hc hq
        · exact ih hfs hp

/-- What a match leaves off at: the end of the text, or, if it may leave off before, also a
delimiter. -/
def endSense (D : Text) (ic finish : Bool) : Sense :=
  if finish then .place .textEnd else ((Sense.text ic D).either (.place .textEnd)).present

theorem isSilent_tailSense (l : Literal) (ic trailing : Bool) :
    (tailSense l ic trailing).IsSilent := by
  unfold tailSense
  split
  · exact (l.isSilent_sense ic l.delimiter).rounds 0 (some 1)
  · exact Sense.isSilent_nothing

theorem isSilent_endSense (D : Text) (ic finish : Bool) : (endSense D ic finish).IsSilent := by
  unfold endSense
  split
  · exact Sense.isSilent_place .textEnd
  · exact ((Sense.isSilent_text ic D).either (Sense.isSilent_place .textEnd)).present

/-- The sense of the expression of a template. -/
def pathSense (o : ExpressionOptions) (σ : Text → Sense) (t : Template) : Sense :=
  (if o.start then Sense.place .textStart else .nothing).seq
    ((sense ⟨t.delimiter, o.loose⟩ (!o.sensitive) σ 0 t.parts).seq
      ((tailSense ⟨t.delimiter, o.loose⟩ (!o.sensitive) o.trailing).seq
      (endSense t.delimiter (!o.sensitive) o.finish)))

theorem denotes_tail (once : Bool) {g : Nat} (ic trailing : Bool) (hD : l.delimiter ≠ []) :
    Denotes once false ic 63 g g
      (if trailing then ['(', '?', ':'] ++ l.source l.delimiter ++ [')', '?'] else [])
      (tailSense l ic trailing) := by
  unfold tailSense
  cases trailing with
  | false => exact Expression.denotes_nil
  | true =>
    have hsource := Expression.denotes_source once ic 61 g l l.delimiter
    have hsolid : (!(l.source l.delimiter).isEmpty) = true := by simpa using l.source_ne_nil hD
    rw [hsolid] at hsource
    have hall := (hsource.group.repeated Expression.repeats_optional fun _ => .inl rfl).unsolid
    simpa using hall

theorem denotes_end (once : Bool) {g : Nat} {D : Text} (ic finish : Bool) (hD : D ≠ []) :
    Denotes once false ic 63 g g
      (if finish then ['$'] else ['(', '?', '='] ++ Expression.quote D ++ ['|', '$', ')'])
      (endSense D ic finish) := by
  unfold endSense
  cases finish with
  | true => exact Expression.denotes_textEnd
  | false => exact (Expression.denotes_delimiter (k := 62) hD).presentOrEnd

theorem exists_pathExpression (once : Bool) (σ : Text → Sense) {t : Template} {fs : List Text}
    (hD : t.delimiter ≠ []) (hfs : t.fragments o.flags ⟨t.delimiter, o.loose⟩ = .ok fs)
    (hparts :
      ∀ p, .param p ∈ t.parts → Readable once (!o.sensitive) 58 ⟨t.delimiter, o.loose⟩ σ p) :
    ∃ e, t.toExpression o = .ok ⟨e, t.params, o.flags⟩ ∧ e.root.isRegular = true ∧
      (once = true → e.root.isLinear = true) ∧ e.groups = groups t.parts ∧
      e.root.Matches = t.pathSense o σ := by
  obtain rfl := fragmentsFrom_eq hfs
  have hhead : Denotes once false (!o.sensitive) 63 0 0 (if o.start then ['^'] else [])
      (if o.start then Sense.place .textStart else .nothing) := by
    cases o.start with
    | true => exact Expression.denotes_textStart
    | false => exact Expression.denotes_nil
  have hbody := (denotes_fragments (g := 0) (l := ⟨t.delimiter, o.loose⟩) hD t.parts hparts)
  have hall := hhead.append (hbody.append ((denotes_tail (l := ⟨t.delimiter, o.loose⟩) once
        (!o.sensitive) o.trailing hD).append (denotes_end once (!o.sensitive) o.finish hD)))
  obtain ⟨e, hread, hr, hl, hm⟩ := hall.read
  refine ⟨e, ?_, hr, hl, by simpa using hall.groups_read hread, hm⟩
  have hsource : t.source o = .ok (Expression.switchSource (!o.sensitive) ++
    ((if o.start then ['^'] else []) ++
      (t.parts.flatMap (Part.fragment ⟨t.delimiter, o.loose⟩) ++ ((if o.trailing then
        ['(', '?', ':'] ++ Literal.source ⟨t.delimiter, o.loose⟩ t.delimiter ++
        [')', '?'] else []) ++
          if o.finish then ['$'] else ['(', '?', '='] ++ Expression.quote t.delimiter ++
            ['|', '$', ')'])))) := by
    have hswitch : o.flags.inlineSwitch = Expression.switchSource (!o.sensitive) :=
      Expression.inlineSwitch_eq (by simp [ExpressionOptions.flags])
    simp only [source, hfs, hswitch, Except.map, List.flatMap_def, List.append_assoc]
  simp only [toExpression, hsource, hread]

/-- A template has an expression for whole paths, with the sense of the template. -/
theorem exists_toExpression (once : Bool) (σ : Text → Sense) {t : Template} {fs : List Text}
    (hstart : o.start = true) (hfinish : o.finish = true) (hD : t.delimiter ≠ [])
    (hfs : t.fragments o.flags ⟨t.delimiter, o.loose⟩ = .ok fs)
    (hparts :
      ∀ p, .param p ∈ t.parts → Readable once (!o.sensitive) 58 ⟨t.delimiter, o.loose⟩ σ p) :
    ∃ e, t.toExpression o = .ok ⟨e, t.params, o.flags⟩ ∧ e.root.isRegular = true ∧
      (once = true → e.root.isLinear = true) ∧
      e.root.Matches =
        Expression.wholly ((sense ⟨t.delimiter, o.loose⟩ (!o.sensitive) σ 0 t.parts).seq
            (tailSense ⟨t.delimiter, o.loose⟩ (!o.sensitive) o.trailing)) := by
  obtain ⟨e, he, hr, hl, -, hm⟩ := exists_pathExpression once σ hD hfs hparts
  refine ⟨e, he, hr, hl, ?_⟩
  rw [hm, pathSense, Expression.wholly, Sense.seq_assoc, endSense, hstart, hfinish]
  rfl

variable {t : Template} {p : Param}

theorem readable_of_isDefault (h : p.IsDefault) : Readable once ic k l σ p :=
  ⟨fun _ g x hx => by simp [h.pattern] at hx, fun _ => h.between,
  fun hc => by simp [h.capturing] at hc⟩

theorem exists_fragments_of_isDefault (flags : Flags) (hflags : flags.strict = false)
    (hD : l.delimiter ≠ []) {parts : List Part} (h : ∀ p, .param p ∈ parts → p.IsDefault) :
    ∃ fs, fragmentsFrom flags l {} parts = .ok fs := by
  refine exists_fragmentsFrom hflags rfl fun p hp => ?_
  have hp' : .param p ∈ parts := (mem_paramsOf.1 hp).1
  refine ⟨?_, (h p hp').between⟩
  have hsource : p.valueSource l.delimiter = Expression.shortStretch l.delimiter := by
    simp [Param.valueSource, (h p hp').pattern]
  obtain ⟨e, he, -⟩ := Expression.exists_anchored flags
    (Expression.denotes_shortStretch true (!flags.sensitive) 61 0 hD) (by simp)
  exact ⟨e, hsource ▸ he⟩

theorem exists_toExpression_of_isDefault (hstart : o.start = true) (hfinish : o.finish = true)
    (hstrict : o.strict = false) (hD : t.delimiter ≠ [])
    (h : ∀ p, .param p ∈ t.parts → p.IsDefault) :
    ∃ e, t.toExpression o = .ok ⟨e, t.params, o.flags⟩ ∧ e.root.isRegular = true ∧
      e.root.isLinear = true ∧
      e.root.Matches =
        Expression.wholly ((sense ⟨t.delimiter, o.loose⟩ (!o.sensitive) (fun _ => .nothing) 0
            t.parts).seq (tailSense ⟨t.delimiter, o.loose⟩ (!o.sensitive) o.trailing)) := by
  obtain ⟨fs, hfs⟩ := exists_fragments_of_isDefault (l := ⟨t.delimiter, o.loose⟩) o.flags hstrict hD
    h
  obtain ⟨e, he, hr, hl, hm⟩ := exists_toExpression true (fun _ => .nothing) hstart hfinish hD hfs
    fun p hp => readable_of_isDefault (h p hp)
  exact ⟨e, he, hr, hl rfl, hm⟩

end Template

end PathTemplate
