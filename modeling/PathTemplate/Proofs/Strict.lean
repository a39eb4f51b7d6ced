import PathTemplate.Proofs.Agreement

/-!
# What the strict check asks

The strict check goes along the parts of a template and remembers whether the last value is known to
end. What it asks of a parameter depends on the parameter before it and on the text between them
only.

* `Param.Catches`, `Param.IsBoundary` — the pattern of a parameter matches a text; it does not, so
  that a value ends there;
* `Param.Ends`, `Param.IsReached`, `Param.IsUnambiguous` — what is asked of a parameter, given the
  parts before it;
* `Param.Objection` — the error if that does not hold;
* `Guard.Tracks`, `Guard.pass_judges` — what is remembered after some parts, and what one step of
  the check does;
* `Template.fragments_strict` — templates pass if nothing is wrong with any parameter, else the
  first objection is the error;
* `Guard.Judges.lenient`, `Template.toExpression_filter` — without strictness nothing is
  ambiguous, and nothing else changes.
-/

namespace PathTemplate

/-! ### what is asked -/

/-- The pattern of the parameter, from its start to its end, matches a text. -/
def Param.Catches (flags : Flags) (l : Expression.Literal) (p : Param) (x : Text) : Prop :=
  ∃ e, Expression.anchored flags (p.valueSource l.delimiter) = .ok e ∧ e.matchesIn x = .ok true

/-- A value of the parameter is known to end where the text begins. -/
def Param.IsBoundary (flags : Flags) (l : Expression.Literal) (p : Param) (x : Text) : Prop :=
  x ≠ [] ∧ ¬p.Catches flags l x

/-- The part is a parameter that captures. -/
def Part.isKey : Part → Bool
  | .text _ => false
  | .param p => p.isCapturing

/-- The text that a part is, if it is one. -/
def Part.text? : Part → Option Text
  | .text t => some t
  | .param _ => none

/-- The last literal text after the last capturing parameter; empty if there is none. -/
def Template.lastText (parts : List Part) : Text :=
  ((parts.reverse.takeWhile (!·.isKey)).findSome? Part.text?).getD []

namespace Param

variable (flags : Flags) (l : Expression.Literal) (earlier : List Part) (p : Param)

/-- It is known where the parameter ends: it does not repeat, and its pattern does not match the
text after it. -/
def Ends : Prop := p.isRepeating = false ∧ p.IsBoundary flags l p.after

/-- What stands between the parameter and the value before it: its own text, or else the last
literal text. -/
def textBefore : Text := if p.before = [] then Template.lastText earlier else p.before

/-- It is known where the value before the parameter ends: there is none, it ends by itself, or the
parameter does not match what stands between. -/
def IsReached : Prop :=
  (∀ q ∈ (paramsOf earlier).getLast?, q.Ends flags l) ∨ p.IsBoundary flags l (p.textBefore earlier)

/-- The values of a parameter that repeats are apart: its pattern does not match the text after it,
or not the separator. -/
def IsSeparated : Prop := p.IsBoundary flags l p.after ∨ ¬p.Catches flags l p.between

/-- Nothing is wrong with a parameter that stands after some parts. -/
structure IsUnambiguous : Prop where
  compiles : ∃ e, Expression.anchored flags (p.valueSource l.delimiter) = .ok e
  reached : p.IsReached flags l earlier
  between : p.isRepeating = true → p.between ≠ []
  separated : p.isRepeating = true → p.IsSeparated flags l

/-- What is wrong with a parameter that stands after some parts; of several things, the first. -/
inductive Objection : ExpressionError → Prop where
  | invalidPattern {cause : Expression.Fault}
      (h : Expression.anchored flags (p.valueSource l.delimiter) = .error cause) :
      Objection (.invalidPattern p.name cause)
  | ambiguousPattern {e : Expression}
      (h : Expression.anchored flags (p.valueSource l.delimiter) = .ok e)
      (hreached : ¬p.IsReached flags l earlier) : Objection (.ambiguousPattern p.name)
  | missingSeparator {e : Expression}
      (h : Expression.anchored flags (p.valueSource l.delimiter) = .ok e)
      (hreached : p.IsReached flags l earlier) (hrepeating : p.isRepeating = true)
      (hbetween : p.between = []) : Objection (.missingSeparator p.name)
  | ambiguousSeparator {e : Expression}
      (h : Expression.anchored flags (p.valueSource l.delimiter) = .ok e)
      (hreached : p.IsReached flags l earlier) (hrepeating : p.isRepeating = true)
      (hbetween : p.between ≠ []) (hseparated : ¬p.IsSeparated flags l) :
      Objection (.ambiguousSeparator p.name)

/-- A check of the parameter spends the budget of a search. -/
def GivesUp : Prop := ∃ e, Expression.anchored flags (p.valueSource l.delimiter) = .ok e ∧
  ∃ x ∈ [p.textBefore earlier, p.after, p.between], e.find x = .gaveUp

end Param

section

variable {flags : Flags} {l : Expression.Literal} {earlier parts : List Part} {p : Param}
  {e : Expression} {x : Text} {guard guard' : Guard} {err err' : ExpressionError}

theorem Param.IsUnambiguous.not_objection (h : p.IsUnambiguous flags l earlier) :
    ¬p.Objection flags l earlier err := by
  rintro (⟨herror⟩ | ⟨-, hreached⟩ | ⟨-, -, hrepeating, hbetween⟩ |
    ⟨-, -, hrepeating, -, hseparated⟩)
  · obtain ⟨e, he⟩ := h.compiles
    rw [he] at herror
    cases herror
  · exact hreached h.reached
  · exact h.between hrepeating hbetween
  · exact hseparated (h.separated hrepeating)

theorem Param.Objection.unique (h : p.Objection flags l earlier err)
    (h' : p.Objection flags l earlier err') : err = err' := by
  cases h <;> cases h' <;> simp_all

/-! ### one step -/

/-- A check answers a question, or it gives up. -/
def Answers (x : Except ExpressionError Bool) (question givesUp : Prop) : Prop :=
  (∃ answer : Bool, x = .ok answer ∧ (answer = true ↔ question)) ∨ (x = .error .gaveUp ∧ givesUp)

theorem answers_true {question : Prop} (h : question) (givesUp : Prop) :
    Answers (.ok true) question givesUp :=
  .inl ⟨true, rfl, by simp [h]⟩

theorem Answers.bind {α : Type} {x : Except ExpressionError Bool} {question givesUp : Prop}
    (h : Answers x question givesUp) {f : Bool → Except ExpressionError α}
    {Q : Except ExpressionError α → Prop}
    (hf : ∀ answer : Bool, (answer = true ↔ question) → Q (f answer))
    (hgave : givesUp → Q (.error .gaveUp)) : Q (x >>= f) := by
  rcases h with ⟨answer, rfl, h⟩ | ⟨rfl, h⟩
  · exact hf answer h
  · exact hgave h

/-- To refuse a text is to say that it is a boundary. -/
theorem Param.rejects_answers (he : Expression.anchored flags (p.valueSource l.delimiter) = .ok e)
    (x : Text) : Answers (e.rejects x) (p.IsBoundary flags l x) (e.find x = .gaveUp) := by
  have hcatches : p.Catches flags l x ↔ e.matchesIn x = .ok true := by
    constructor
    · rintro ⟨e', he', h⟩
      rw [he] at he'
      cases he'
      exact h
    · exact fun h => ⟨e, he, h⟩
  unfold Expression.rejects
  split
  · rename_i hnil
    exact .inl ⟨false, rfl, by simp [IsBoundary, hnil]⟩
  · rename_i hne
    unfold Expression.matchesIn at hcatches ⊢
    cases hfind : e.find x with
    | found m => exact .inl ⟨false, rfl, by simp [IsBoundary, hcatches, hfind]⟩
    | none => exact .inl ⟨true, rfl, by simp [IsBoundary, hcatches, hfind, hne]⟩
    | gaveUp => exact .inr ⟨rfl, rfl⟩

theorem paramsOf_append (parts parts' : List Part) :
    paramsOf (parts ++ parts') = paramsOf parts ++ paramsOf parts' := by
  simp [paramsOf]

theorem paramsOf_concat_text (parts : List Part) (t : Text) :
    paramsOf (parts ++ [.text t]) = paramsOf parts := by
  rw [paramsOf_append, paramsOf_text]
  exact List.append_nil _

theorem paramsOf_concat_param (parts : List Part) (p : Param) :
    paramsOf (parts ++ [.param p]) = paramsOf parts ++ if p.isCapturing then [p] else [] := by
  rw [paramsOf_append, paramsOf_param]
  exact congrArg (paramsOf parts ++ ·) (List.append_nil _)

theorem Template.lastText_concat_text (parts : List Part) (t : Text) :
    lastText (parts ++ [.text t]) = t := by
  rw [lastText, List.reverse_concat, List.takeWhile_cons_of_pos rfl]
  rfl

theorem Template.lastText_concat_param (parts : List Part) (p : Param) :
    lastText (parts ++ [.param p]) = if p.isCapturing then [] else lastText parts := by
  rw [lastText, List.reverse_concat]
  cases hc : p.isCapturing with
  | true =>
    rw [List.takeWhile_cons_of_neg (by simpa [Part.isKey] using hc)]
    rfl
  | false =>
    rw [List.takeWhile_cons_of_pos (by simpa [Part.isKey] using hc)]
    rfl

namespace Guard

/-- What the check remembers after some parts: the last literal text, and whether the last value is
known to end. -/
structure Tracks (flags : Flags) (l : Expression.Literal) (earlier : List Part)
    (guard : Guard) : Prop where
  context : guard.context = Template.lastText earlier
  safe : guard.safe = true ↔ ∀ q ∈ (paramsOf earlier).getLast?, q.Ends flags l

theorem tracks_nil (flags : Flags) (l : Expression.Literal) : Tracks flags l [] {} :=
  ⟨rfl, by simp [paramsOf]⟩

theorem Tracks.text (h : guard.Tracks flags l earlier) (t : Text) :
    Tracks flags l (earlier ++ [.text t]) { guard with context := t } :=
  ⟨(Template.lastText_concat_text earlier t).symm, by simpa only [paramsOf_concat_text]
    using h.safe⟩

theorem Tracks.group (h : guard.Tracks flags l earlier) (hc : p.isCapturing = false) :
    guard.Tracks flags l (earlier ++ [.param p]) :=
  ⟨by simp [Template.lastText_concat_param, hc, h.context], by simpa [paramsOf_concat_param,
    hc] using h.safe⟩

/-- After a parameter that captures, only the parameter counts. -/
theorem tracks_key (hc : p.isCapturing = true) {safe : Bool} (h : safe = true ↔ p.Ends flags l) :
    Tracks flags l (earlier ++ [.param p]) ⟨safe, []⟩ :=
  ⟨by simp [Template.lastText_concat_param, hc], by simpa [paramsOf_concat_param, hc] using h⟩

/-- What becomes of the check of a parameter: it passes and is remembered, there is an objection, or
a search gives up. -/
inductive Judges (flags : Flags) (l : Expression.Literal) (earlier : List Part) (p : Param) :
    Except ExpressionError Guard → Prop where
  | passes {guard : Guard} (h : p.IsUnambiguous flags l earlier)
      (hguard : guard.Tracks flags l (earlier ++ [.param p])) : Judges flags l earlier p (.ok guard)
  | objects {err : ExpressionError} (h : p.Objection flags l earlier err) :
      Judges flags l earlier p (.error err)
  | givesUp (h : p.GivesUp flags l earlier) : Judges flags l earlier p (.error .gaveUp)

/-- The check of a parameter asks what is asked of it, in order. -/
theorem pass_judges (hstrict : flags.strict = true) (hguard : guard.Tracks flags l earlier)
    (hc : p.isCapturing = true) : Judges flags l earlier p (guard.pass flags l p) := by
  cases he : Expression.anchored flags (p.valueSource l.delimiter) with
  | error cause =>
    simp only [pass, he]
    exact .objects (.invalidPattern he)
  | ok e =>
    have hrejects : ∀ x ∈ [p.textBefore earlier, p.after, p.between],
        Answers (e.rejects x) (p.IsBoundary flags l x) (p.GivesUp flags l earlier) := fun x hx =>
      (Param.rejects_answers he x).imp_right (And.imp_right fun hgave => ⟨e, he, x, hx, hgave⟩)
    have hbefore : (if p.before = [] then guard.context else p.before) = p.textBefore earlier := by
      rw [hguard.context]
      rfl
    have hreached : Answers (if guard.safe then .ok true else e.rejects (p.textBefore earlier))
        (p.IsReached flags l earlier) (p.GivesUp flags l earlier) := by
      rw [Param.IsReached, ← hguard.safe]
      cases hsafe : guard.safe with
      | true => exact answers_true (.inl rfl) _
      | false => simpa using hrejects (p.textBefore earlier) (by simp)
    rw [pass_eq he, hstrict, hbefore]
    refine hreached.bind (fun reached hreached => ?_) .givesUp
    cases reached with
    | false => exact .objects (.ambiguousPattern he (by simpa using hreached))
    | true =>
      replace hreached := hreached.1 rfl
      refine (hrejects p.after (by simp)).bind (fun ended hended => ?_) .givesUp
      cases hrepeating : p.isRepeating with
      | false =>
        have hends : ended = true ↔ p.Ends flags l := by simp [Param.Ends, hrepeating, hended]
        exact .passes ⟨⟨e, he⟩, hreached, by simp [hrepeating], by simp [hrepeating]⟩
          (tracks_key hc hends)
      | true =>
        by_cases hbetween : p.between = []
        · rw [if_pos hbetween]
          exact .objects (.missingSeparator he hreached hrepeating hbetween)
        rw [if_neg hbetween]
        have hapart : Answers (if ended then .ok true else e.rejects p.between)
            (p.IsSeparated flags l) (p.GivesUp flags l earlier) := by
          rw [Param.IsSeparated, ← hended]
          cases ended with
          | true => exact answers_true (.inl rfl) _
          | false => simpa [Param.IsBoundary, hbetween] using hrejects p.between (by simp)
        refine hapart.bind (fun apart hapart => ?_) .givesUp
        cases apart with
        | false =>
          exact .objects
            (.ambiguousSeparator he hreached hrepeating hbetween (by simpa using hapart))
        | true =>
          have hends : false = true ↔ p.Ends flags l := by simp [Param.Ends, hrepeating]
          exact .passes ⟨⟨e, he⟩, hreached, fun _ => hbetween, fun _ => hapart.1 rfl⟩
            (tracks_key hc hends)

end Guard

/-! ### all parameters -/

namespace Template

/-- Nothing is wrong with any parameter of some parts. -/
def IsClear (flags : Flags) (l : Expression.Literal) (parts : List Part) : Prop :=
  ∀ before p after, parts = before ++ .param p :: after → p.isCapturing = true →
  p.IsUnambiguous flags l before

/-- The objection to the first parameter with which something is wrong. -/
def FirstObjection (flags : Flags) (l : Expression.Literal) (parts : List Part)
    (err : ExpressionError) : Prop :=
  ∃ before p after, parts = before ++ .param p :: after ∧ p.isCapturing = true ∧
    IsClear flags l before ∧
    p.Objection flags l before err

theorem isClear_nil : IsClear flags l [] := by
  intro before p after h
  simp at h

theorem IsClear.concat (h : IsClear flags l parts) {part : Part}
    (hpart : ∀ p, part = .param p → p.isCapturing = true → p.IsUnambiguous flags l parts) :
    IsClear flags l (parts ++ [part]) := by
  intro before p after heq hc
  rcases List.eq_nil_or_concat after with rfl | ⟨after, last, rfl⟩
  · obtain ⟨rfl, hlast⟩ := List.append_inj' heq rfl
    exact hpart p (List.singleton_injective hlast) hc
  · have heq' : parts ++ [part] = (before ++ .param p :: after) ++ [last] := by simpa using heq
    exact h before p after (List.append_inj' heq' rfl).1 hc

/-- Where there is an objection, something is wrong. -/
theorem FirstObjection.not_isClear (h : FirstObjection flags l parts err) :
    ¬IsClear flags l parts := by
  obtain ⟨before, p, after, hparts, hc, -, hobjection⟩ := h
  exact fun hclear => (hclear before p after hparts hc).not_objection hobjection

theorem FirstObjection.unique (h : FirstObjection flags l parts err)
    (h' : FirstObjection flags l parts err') : err = err' := by
  obtain ⟨before, p, after, hparts, hc, hclear, hobjection⟩ := h
  obtain ⟨before', p', after', hparts', hc', hclear', hobjection'⟩ := h'
  -- otherwise one of them objects to a parameter before the other's, where nothing is wrong
  rcases List.append_eq_append_iff.1 (hparts.symm.trans hparts') with ⟨x, hx, hy⟩ | ⟨x, hx, hy⟩
  · cases x with
    | nil =>
      cases hy
      rw [List.append_nil] at hx
      subst hx
      exact hobjection.unique hobjection'
    | cons part x =>
      cases hy
      exact absurd hobjection (hclear' before p x hx hc).not_objection
  · cases x with
    | nil =>
      cases hy
      rw [List.append_nil] at hx
      subst hx
      exact hobjection.unique hobjection'
    | cons part x =>
      cases hy
      exact absurd hobjection' (hclear before' p' x hx hc').not_objection

/-- What becomes of the check of some parts: nothing is wrong with them, there is a first objection,
or a search gives up. -/
inductive Judges (flags : Flags) (l : Expression.Literal) (parts : List Part) : Except
    ExpressionError (List Text) → Prop where
  | passes {fs : List Text} (h : IsClear flags l parts) : Judges flags l parts (.ok fs)
  | objects {err : ExpressionError} (h : FirstObjection flags l parts err) :
      Judges flags l parts (.error err)
  | givesUp {before after : List Part} {p : Param} (hparts : parts = before ++ .param p :: after)
      (hc : p.isCapturing = true) (h : p.GivesUp flags l before) :
      Judges flags l parts (.error .gaveUp)

theorem Judges.map {r : Except ExpressionError (List Text)} (h : Judges flags l parts r)
    (f : List Text → List Text) : Judges flags l parts (r.map f) := by
  cases h with
  | passes h => exact .passes h
  | objects h => exact .objects h
  | givesUp hparts hc h => exact .givesUp hparts hc h

/-- The check goes along the parts, and nothing is wrong with those that it has passed. -/
theorem fragmentsFrom_judges (hstrict : flags.strict = true) (hguard : guard.Tracks flags l earlier)
    (hclear : IsClear flags l earlier) :
    Judges flags l (earlier ++ parts) (fragmentsFrom flags l guard parts) := by
  induction parts generalizing earlier guard with
  | nil => exact .passes (by rwa [List.append_nil])
  | cons part parts ih =>
    cases part with
    | text t =>
      rw [fragmentsFrom, List.append_cons]
      exact (ih (hguard.text t) (hclear.concat fun p hp => by cases hp)).map _
    | param p =>
      cases hc : p.isCapturing with
      | false =>
        rw [fragmentsFrom, if_neg (by simp [hc]), List.append_cons]
        refine (ih (hguard.group hc) (hclear.concat fun q hq hcq => ?_)).map _
        cases hq
        rw [hc] at hcq
        cases hcq
      | true =>
        rw [fragmentsFrom, if_pos hc]
        have hjudges := Guard.pass_judges hstrict hguard hc
        generalize guard.pass flags l p = r at hjudges
        cases hjudges with
        | passes h hguard' =>
          rw [List.append_cons]
          refine (ih hguard' (hclear.concat fun q hq _ => ?_)).map _
          cases hq
          exact h
        | objects h => exact .objects ⟨earlier, p, parts, rfl, hc, hclear, h⟩
        | givesUp h => exact .givesUp rfl hc h

/-- In strict mode a template passes the check if nothing is wrong with any parameter that captures,
and else the error is the objection to the first one with which something is wrong; what is wrong
with a parameter depends on the parts before it. The check gives up only where a search does. -/
theorem fragments_strict {t : Template} (hstrict : flags.strict = true) :
    (t.fragments flags l ≠ .error .gaveUp →
      ((∃ fs, t.fragments flags l = .ok fs) ↔ IsClear flags l t.parts) ∧
      ∀ err, t.fragments flags l = .error err ↔ FirstObjection flags l t.parts err) ∧
    (t.fragments flags l = .error .gaveUp → ∃ before p after,
      t.parts = before ++ .param p :: after ∧ p.isCapturing = true ∧ p.GivesUp flags l before) := by
  have hjudges : Judges flags l ([] ++ t.parts) (t.fragments flags l) :=
    fragmentsFrom_judges hstrict (Guard.tracks_nil flags l) isClear_nil
  rw [List.nil_append] at hjudges
  generalize t.fragments flags l = r at hjudges
  cases hjudges with
  | passes h =>
    refine ⟨fun _ => ⟨⟨fun _ => h, fun _ => ⟨_, rfl⟩⟩, fun err => ⟨fun herr => ?_, fun herr => ?_⟩⟩,
      fun herr => ?_⟩
    · cases herr
    · exact absurd h herr.not_isClear
    · cases herr
  | @objects err h =>
    refine ⟨fun _ => ⟨⟨?_, fun hclear => absurd hclear h.not_isClear⟩,
        fun err' => ⟨?_, fun h' => ?_⟩⟩, fun herr => ?_⟩
    · rintro ⟨fs, hfs⟩
      cases hfs
    · rintro ⟨⟩
      exact h
    · rw [h.unique h']
    · cases herr
      obtain ⟨before, p, after, -, -, -, hobjection⟩ := h
      cases hobjection
  | @givesUp before after p hparts hc h =>
    exact ⟨fun hne => absurd rfl hne, fun _ => ⟨before, p, after, hparts, hc, h⟩⟩

/-- Digits end before a dot, and words before a slash and between dots; but a stretch may have the
dash in it that is to separate it from the next one. -/
theorem fragments_strict_words :
    ∃ t t' fs, Path.parse {} "/\x7b:a(\\d+).\x7d:b(\\w+)-\x7bx\x7d\x7b/:c(\\w+);.\x7d+".toList =
        .ok t ∧ Path.parse {} "\x7b/:x;-\x7d+".toList = .ok t' ∧
      t.fragments { strict := true } ⟨['/'], true⟩ = .ok fs ∧
      IsClear { strict := true } ⟨['/'], true⟩ t.parts ∧
      FirstObjection { strict := true } ⟨['/'], true⟩ t'.parts (.ambiguousSeparator ['x']) := by
  obtain ⟨t, ht⟩ := exists_ok_of_isSome
    (x := Path.parse {} "/\x7b:a(\\d+).\x7d:b(\\w+)-\x7bx\x7d\x7b/:c(\\w+);.\x7d+".toList)
    (by decide +kernel)
  obtain ⟨t', ht'⟩ := exists_ok_of_isSome (x := Path.parse {} "\x7b/:x;-\x7d+".toList)
    (by decide +kernel)
  obtain ⟨fs, hfs⟩ : ∃ fs, t.fragments { strict := true } ⟨['/'], true⟩ = .ok fs :=
    exists_ok_of_bind (fun t => t.fragments { strict := true } ⟨['/'], true⟩) ht (by decide +kernel)
  have herror :
      t'.fragments { strict := true } ⟨['/'], true⟩ = .error (.ambiguousSeparator ['x']) :=
    eq_of_map (fun t => t.fragments { strict := true } ⟨['/'], true⟩) ht' (by decide +kernel)
  exact ⟨t, t', fs, ht, ht', hfs, ((fragments_strict rfl).1 (by rw [hfs]; simp)).1.1 ⟨fs, hfs⟩,
    (((fragments_strict rfl).1 (by rw [herror]; simp)).2 _).1 herror⟩

end Template

end

/-! ### without strictness -/

/-- The error says that it is not known where a value ends, or that a search gave up before it
was. -/
def ExpressionError.isDoubt : ExpressionError → Bool
  | ambiguousPattern _ | ambiguousSeparator _ | gaveUp => true
  | _ => false

section

variable {flags flags' : Flags} {l : Expression.Literal} {earlier parts : List Part} {p : Param}
  {guard guard' : Guard} {err : ExpressionError}

theorem Guard.isDoubt_of_lenient (hstrict : flags.strict = false) (hguard : guard.safe = true)
    (h : guard.pass flags l p = .error err) : err.isDoubt = false := by
  rw [pass_lenient hstrict hguard] at h
  split at h
  · cases h
    rfl
  · split at h <;> cases h
    rfl

theorem Guard.safe_of_lenient (hstrict : flags.strict = false) (hguard : guard.safe = true)
    (h : guard.pass flags l p = .ok guard') : guard'.safe = true := by
  rw [pass_lenient hstrict hguard] at h
  split at h
  · cases h
  · split at h <;> cases h
    rfl

/-- One check beside the other: without strictness a parameter passes that passes with it, and what
is wrong with it otherwise is found, too, unless there was a doubt. -/
theorem Guard.Judges.lenient {r : Except ExpressionError Guard} (h : Judges flags l earlier p r)
    (hsensitive : flags'.sensitive = flags.sensitive) (hstrict : flags'.strict = false)
    (hguard : guard'.safe = true) :
    (∃ guard, r = .ok guard ∧ guard.Tracks flags l (earlier ++ [.param p]) ∧
      guard'.pass flags' l p = .ok ⟨true, []⟩) ∨
    ∃ err, r = .error err ∧ (guard'.pass flags' l p = .error err ∨ err.isDoubt = true) := by
  have hanchored : Expression.anchored flags' (p.valueSource l.delimiter) =
      Expression.anchored flags (p.valueSource l.delimiter) := by
    simp only [Expression.anchored, Flags.inlineSwitch, hsensitive]
  rw [pass_lenient hstrict hguard, hanchored]
  cases h with
  | @passes guard h htracks =>
    obtain ⟨e, he⟩ := h.compiles
    have hlacks : p.lacksSeparator = false := by
      cases hr : p.isRepeating with
      | false => simp [Param.lacksSeparator, hr]
      | true => simp [Param.lacksSeparator, h.between hr]
    exact .inl ⟨guard, rfl, htracks, by simp [he, hlacks]⟩
  | objects h =>
    refine .inr ⟨_, rfl, ?_⟩
    cases h with
    | invalidPattern he => exact .inl (by simp [he])
    | ambiguousPattern => exact .inr rfl
    | missingSeparator he _ hrepeating hbetween =>
      exact .inl (by simp [he, Param.lacksSeparator, hrepeating, hbetween])
    | ambiguousSeparator => exact .inr rfl
  | givesUp => exact .inr ⟨_, rfl, .inr rfl⟩

namespace Template

theorem isDoubt_of_lenient (hstrict : flags.strict = false) (hguard : guard.safe = true)
    (h : fragmentsFrom flags l guard parts = .error err) : err.isDoubt = false := by
  have hmap : ∀ {r : Except ExpressionError (List Text)} {f : List Text → List Text},
      r.map f = .error err → r = .error err := by
    intro r f h
    cases r with
    | error e => exact h
    | ok fs => cases h
  induction parts generalizing guard with
  | nil => cases h
  | cons part parts ih =>
    cases part with
    | text t => exact @ih { guard with context := t } hguard (hmap h)
    | param p =>
      rw [fragmentsFrom] at h
      split at h
      · cases hpass : guard.pass flags l p with
        | error err' =>
          rw [hpass] at h
          cases h
          exact Guard.isDoubt_of_lenient hstrict hguard hpass
        | ok guard' =>
          rw [hpass] at h
          exact ih (Guard.safe_of_lenient hstrict hguard hpass) (hmap h)
      · exact ih hguard (hmap h)

/-- With strictness and without it, parts have the same expressions or the same error, unless there
is a doubt. -/
theorem fragmentsFrom_lenient (hstrict : flags.strict = true)
    (hsensitive : flags'.sensitive = flags.sensitive) (hlenient : flags'.strict = false)
    (hguard : guard.Tracks flags l earlier) (hguard' : guard'.safe = true) :
    fragmentsFrom flags l guard parts = fragmentsFrom flags' l guard' parts ∨
    ∃ err, fragmentsFrom flags l guard parts = .error err ∧ err.isDoubt = true := by
  have hcons : ∀ {r r' : Except ExpressionError (List Text)} (x : Text),
      (r = r' ∨ ∃ err, r = .error err ∧ err.isDoubt = true) →
      r.map (x :: ·) = r'.map (x :: ·) ∨
        ∃ err, r.map (x :: ·) = .error err ∧ err.isDoubt = true := by
    rintro r r' x (rfl | ⟨err, rfl, herr⟩)
    · exact .inl rfl
    · exact .inr ⟨err, rfl, herr⟩
  induction parts generalizing earlier guard guard' with
  | nil => exact .inl rfl
  | cons part parts ih =>
    cases part with
    | text t =>
      have hsafe : ({ guard' with context := t } : Guard).safe = true := hguard'
      exact hcons _ (ih (hguard.text t) hsafe)
    | param p =>
      rw [fragmentsFrom, fragmentsFrom]
      cases hc : p.isCapturing with
      | false =>
        rw [if_neg (by simp), if_neg (by simp)]
        exact hcons _ (ih (hguard.group hc) hguard')
      | true =>
        rw [if_pos rfl, if_pos rfl]
        have hjudges := Guard.pass_judges hstrict hguard hc
        rcases hjudges.lenient hsensitive hlenient hguard' with
          ⟨next, hr, hnext, hr'⟩ | ⟨err, hr, hr' | herr⟩
        · rw [hr, hr']
          exact hcons _ (ih hnext rfl)
        · rw [hr, hr']
          exact .inl rfl
        · rw [hr]
          exact .inr ⟨err, rfl, herr⟩

/-- With strictness and without it, a template has the same expression text or the same error,
unless there is a doubt. -/
theorem source_lenient (o : ExpressionOptions) (t : Template) :
    t.source { o with strict := true } = t.source { o with strict := false } ∨
      ∃ err, t.source { o with strict := true } = .error err ∧ err.isDoubt = true := by
  have h : t.fragments { o with strict := true }.flags ⟨t.delimiter, o.loose⟩ =
        t.fragments { o with strict := false }.flags ⟨t.delimiter, o.loose⟩ ∨
      ∃ err, t.fragments { o with strict := true }.flags ⟨t.delimiter, o.loose⟩ = .error err ∧
        err.isDoubt = true :=
    fragmentsFrom_lenient rfl rfl rfl (Guard.tracks_nil _ _) rfl
  simp only [source]
  rcases h with h | ⟨err, h, herr⟩
  · exact .inl (by rw [h]; rfl)
  · exact .inr ⟨err, by rw [h]; rfl, herr⟩

/-- With strictness and without it, a template has the same expression and keys or the same error,
unless there is a doubt. -/
theorem toExpression_lenient (o : ExpressionOptions) (t : Template) :
    (∃ e e', t.toExpression { o with strict := true } = .ok e ∧
      t.toExpression { o with strict := false } = .ok e' ∧ e'.expression = e.expression ∧
      e'.keys = e.keys) ∨
    ∃ err, t.toExpression { o with strict := true } = .error err ∧
      (t.toExpression { o with strict := false } = .error err ∨ err.isDoubt = true) := by
  unfold toExpression
  rcases source_lenient o t with h | ⟨err, h, herr⟩
  · rw [h]
    cases t.source { o with strict := false } with
    | error err => exact .inr ⟨err, rfl, .inl rfl⟩
    | ok source =>
      cases hread : Expression.read source with
      | error cause =>
        exact .inr ⟨.unreadable source cause, by simp only [hread], .inl (by simp only [hread])⟩
      | ok expression =>
        exact .inl ⟨⟨expression, t.params, { o with strict := true }.flags⟩,
            ⟨expression, t.params, { o with strict := false }.flags⟩, by simp only [hread],
            by simp only [hread], rfl, rfl⟩
  · rw [h]
    exact .inr ⟨err, rfl, .inr herr⟩

/-- Without strictness no template is ambiguous. -/
theorem isDoubt_of_toExpression {o : ExpressionOptions} {t : Template} (hstrict : o.strict = false)
    (h : t.toExpression o = .error err) : err.isDoubt = false := by
  cases hfs : t.fragments o.flags ⟨t.delimiter, o.loose⟩ with
  | error err' =>
    rw [toExpression_of_error hfs] at h
    cases h
    exact isDoubt_of_lenient (show o.flags.strict = false from hstrict) rfl hfs
  | ok fs =>
    rcases toExpression_of_ok hfs with ⟨e, he, -⟩ | ⟨source, cause, he⟩ <;> rw [he] at h <;> cases h
    rfl

/-- The strict check is a filter: without it nothing is ambiguous, templates that pass have the same
expression and keys, and what is refused without it is refused with it, for the same reason or
because of a doubt. -/
theorem toExpression_filter (o : ExpressionOptions) (t : Template) :
    (∀ name, t.toExpression { o with strict := false } ≠ .error (.ambiguousPattern name) ∧
      t.toExpression { o with strict := false } ≠ .error (.ambiguousSeparator name)) ∧
    (∀ e, t.toExpression { o with strict := true } = .ok e →
      ∃ e', t.toExpression { o with strict := false } = .ok e' ∧
        e'.expression.source = e.expression.source ∧ e'.expression = e.expression ∧
        e'.keys = e.keys) ∧
    ∀ err, t.toExpression { o with strict := false } = .error err →
      ∃ err', t.toExpression { o with strict := true } = .error err' ∧
        (err' = err ∨ err'.isDoubt = true) := by
  refine ⟨fun name => ⟨fun h => ?_, fun h => ?_⟩, fun e he => ?_, fun err herr => ?_⟩
  · cases isDoubt_of_toExpression rfl h
  · cases isDoubt_of_toExpression rfl h
  · rcases toExpression_lenient o t with ⟨e₁, e', he₁, he', hexpression, hkeys⟩ | ⟨err, herr, -⟩
    · rw [he] at he₁
      cases he₁
      exact ⟨e', he', by rw [hexpression], hexpression, hkeys⟩
    · rw [he] at herr
      cases herr
  · rcases toExpression_lenient o t with ⟨e, e', -, he', -⟩ | ⟨err', herr', hsame | hdoubt⟩
    · rw [herr] at he'
      cases he'
    · rw [herr] at hsame
      cases hsame
      exact ⟨err, herr', .inl rfl⟩
    · exact ⟨err', herr', .inr hdoubt⟩

example :
    (Path.parse {} "/:a:b".toList).toOption.map
        (fun t => [true, false].map fun strict => (t.toExpression { strict }).toOption.isSome) =
      some [false, true] := by
  decide +kernel

end Template

end

end PathTemplate
