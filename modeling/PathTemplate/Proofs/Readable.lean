import PathTemplate.Path
import PathTemplate.Proofs.Expression.Embed
import PathTemplate.Proofs.Fragment

/-!
# Templates that have expressions

Where the text of a template is an expression at all, it has the sense of the template. Of the
patterns that are written out it is enough to know that each of them is an expression of its own.

* `Param.HasPattern` — the pattern of a parameter, if there is one, is such an expression;
* `Template.text_of_readFrom` — groups of literal text that are read with a modifier are not empty;
* `Template.readable_of_toExpression` — the parts of a template with an expression have senses;
* `Template.toExpression_spec` — the expression of a template has as many groups as parameters,
  and the sense of the template.
-/

namespace PathTemplate

open Expression (Literal Denotes)

/-- The pattern of a parameter is what a wildcard stands for, or an expression of its own; or there
is none. -/
def Param.HasPattern (ic : Bool) (D : Text) (p : Param) : Prop :=
  ∀ x, p.pattern = some x → x = Expression.stretch D ∨ Expression.isPattern ic x = true

theorem Param.hasPattern_of_wildcard {ic : Bool} {D : Text} {p : Param}
    (hp : p.pattern = none ∨ p.pattern = some (Expression.stretch D)) : p.HasPattern ic D := by
  intro x hx
  rcases hp with hnone | hsome
  · simp [hnone] at hx
  · rw [hsome] at hx
    cases hx
    exact .inl rfl

namespace Expression

variable {once ic : Bool} {D x : Text} {g : Nat}

theorem patternSense_stretch (ic : Bool) (hD : D ≠ []) :
    patternSense ic (stretch D) = .stretch ic D := by
  obtain ⟨e, he, -, -, hm⟩ := ((denotes_stretch false ic 61 0 hD).weaken
    (show 63 ≤ maxDepth from Nat.le_refl _)).read
  rw [patternSense_of_read he, hm]

theorem denotes_hasPattern {p : Param} (hD : D ≠ []) (hp : p.HasPattern ic D)
    (hx : p.pattern = some x) :
    Denotes once false ic 60 g g (['(', '?', ':'] ++ x ++ [')']) (patternSense ic x) := by
  rcases hp x hx with rfl | h
  · rw [patternSense_stretch ic hD]
    exact (denotes_stretch once ic 57 g hD).group.denotes.unsolid
  · exact denotes_pattern once g h

end Expression

namespace Template

variable {ic : Bool} {k g : Nat} {l : Literal} {parts : List Part} {rest : Text}

/-- A parameter whose pattern is an expression of its own has a sense, if something separates its
values. -/
theorem readable_of_hasPattern (once : Bool) {p : Param} (hD : l.delimiter ≠ [])
    (hc : p.isCapturing = true) (hp : p.HasPattern ic l.delimiter)
    (hbetween : p.isRepeating = true → p.between ≠ []) :
    Readable once ic 58 l (Expression.patternSense ic) p :=
  ⟨fun _ _ _ hx => Expression.denotes_hasPattern hD hp hx, fun _ => hbetween,
    fun h => by simp [hc] at h⟩

/-- Nothing in the expressions of parts repeats what is before them. -/
theorem isQuiet_fragments (l : Literal) (parts : List Part)
    (hrest : Expression.isQuiet rest = true) :
    Expression.isQuiet (parts.flatMap (Part.fragment l) ++ rest) = true := by
  induction parts with
  | nil => exact hrest
  | cons part parts ih =>
    rw [List.flatMap_cons, List.append_assoc]
    cases part with
    | text t => exact (Expression.denotes_source false false 0 0 l t).quiet _ ih
    | param p =>
      rw [show Part.fragment l (.param p) = p.fragment l from rfl, Param.fragment_eq]
      rfl

/-- Nothing at all cannot be repeated. -/
theorem readFrom_empty_modified {d : Expression.Draft} (hd : d.IsOpen ic (k + 1) g) (m : Modifier)
    (rest : Text) :
    d.readFrom (['(', '?', ':', ')'] ++ m.char :: rest) = .error .nothingToRepeat := by
  have hnil : Expression.Reads ic k g g [] [] :=
    fun d rest hd _ => by simp [Expression.Draft.add, ← hd.groups]
  have htext :
      ['(', '?', ':', ')'] ++ m.char :: rest = '(' :: '?' :: ':' :: ([] ++ ')' :: m.char :: rest) :=
    rfl
  rw [htext, hd.readFrom_cons rfl]
  show Expression.Draft.resume (d.openGroup _) = _
  rw [(hd.openGroup _).1]
  show Expression.Draft.readFrom (d.enter _) _ = _
  rw [(hd.enter _).readFrom_close hnil rfl (hd.close [] g 0).1, Expression.Draft.pushQuantified,
    (hd.weaken (Nat.le_succ k) |>.add [] g).switches]
  cases m <;>
    simp [Modifier.char, Expression.quantified, Expression.skipBlank, Expression.skipFrom,
      Expression.count?, Expression.branchOf, Expression.Level.branch, Expression.Piece.nothing,
      Expression.Piece.plain, Except.map, Expression.Draft.resume]

/-- A group of literal text that is read with a modifier is not empty. -/
theorem text_of_readFrom (hD : l.delimiter ≠ [])
    (hpattern : ∀ p, .param p ∈ parts → p.isCapturing = true → p.HasPattern ic l.delimiter)
    (hbetween :
      ∀ p, .param p ∈ parts → p.isCapturing = true → p.isRepeating = true → p.between ≠ [])
    (hrest : Expression.isQuiet rest = true) {d d' : Expression.Draft} (hd : d.IsOpen ic 63 g)
    (h : d.readFrom (parts.flatMap (Part.fragment l) ++ rest) = .ok d') {p : Param}
    (hp : .param p ∈ parts) (hc : p.isCapturing = false) (hm : p.modifier ≠ none) :
    l.source p.before ++ l.source p.after ≠ [] := by
  induction parts generalizing g d with
  | nil => cases hp
  | cons part parts ih =>
    have hquiet := isQuiet_fragments l parts hrest
    have ih' := fun {g : Nat} {d : Expression.Draft} (hd : d.IsOpen ic 63 g) =>
      ih (fun p hp => hpattern p (List.mem_cons_of_mem _ hp))
      (fun p hp => hbetween p (List.mem_cons_of_mem _ hp)) hd
    rw [List.flatMap_cons, List.append_assoc] at h
    cases part with
    | text t =>
      obtain ⟨ps, hps, -, -⟩ := (Expression.denotes_source false ic 62 g l t).pieces
      rw [show Part.fragment l (.text t) = l.source t from rfl, hps d _ hd hquiet] at h
      exact ih' (hd.add ps g) h ((List.mem_cons.1 hp).resolve_left (by simp))
    | param q =>
      have htext : q.isCapturing = false → q.modifier ≠ none →
          l.source q.before ++ l.source q.after ≠ [] := by
        intro hqc hqm hnil
        obtain ⟨m, hmod⟩ := Option.ne_none_iff_exists'.1 hqm
        have hfragment : Part.fragment l (.param q) = ['(', '?', ':', ')'] ++ [m.char] := by
          rw [show Part.fragment l (.param q) = q.fragment l from rfl, Param.fragment_eq]
          simp [Param.innerSource, Param.occurrence, hqc, hnil, hmod]
        rw [hfragment, List.append_assoc, List.singleton_append, readFrom_empty_modified hd] at h
        cases h
      have hdenotes : Denotes false false ic 63 g (g + q.groups) (q.fragment l)
          (q.sense l ic (Expression.patternSense ic) g) :=
        Expression.denotes_fragment hD
          (fun hqc g x hx => Expression.denotes_hasPattern hD
          (hpattern q (List.mem_cons_self ..) hqc) hx)
          (hbetween q (List.mem_cons_self ..)) htext
      obtain ⟨ps, hps, -, -⟩ := hdenotes.pieces
      rw [show Part.fragment l (.param q) = q.fragment l from rfl, hps d _ hd hquiet] at h
      rcases List.mem_cons.1 hp with heq | hp
      · cases heq
        exact htext hc hm
      · exact ih' (hd.add ps _) h hp

theorem groups_eq_length (parts : List Part) : groups parts = (paramsOf parts).length := by
  induction parts with
  | nil => rfl
  | cons part parts ih =>
    cases part with
    | text t => rw [groups_text, paramsOf_text, ih]
    | param p =>
      rw [groups_param, paramsOf_param, List.length_append, ih, Param.groups]
      cases p.isCapturing <;> simp

variable {o : ExpressionOptions} {t : Template} {e : PathExpression}

theorem readable_of_toExpression (once : Bool) (hD : t.delimiter ≠ [])
    (hpattern : ∀ p ∈ t.params, p.HasPattern (!o.sensitive) t.delimiter)
    (h : t.toExpression o = .ok e) :
    ∃ fs, t.fragments o.flags ⟨t.delimiter, o.loose⟩ = .ok fs ∧
      ∀ p, .param p ∈ t.parts →
        Readable once (!o.sensitive) 58 ⟨t.delimiter, o.loose⟩
          (Expression.patternSense (!o.sensitive)) p := by
  have hpattern' :
      ∀ p, .param p ∈ t.parts → p.isCapturing = true → p.HasPattern (!o.sensitive) t.delimiter :=
    fun p hp hc => hpattern p (mem_paramsOf.2 ⟨hp, hc⟩)
  unfold toExpression at h
  split at h
  · cases h
  rename_i source hsource
  obtain ⟨fs, hfs, rfl⟩ := exists_of_map_eq_ok hsource
  refine ⟨fs, hfs, fun p hp => ⟨fun hc g x hx => Expression.denotes_hasPattern hD
        (hpattern' p hp hc) hx, between_ne_nil hfs hp, fun hc hm => ?_⟩⟩
  split at h
  · cases h
  rename_i e' hread
  -- all of the text is read, so this group is
  obtain ⟨d', hall⟩ : ∃ d', Expression.Draft.readFrom {}
        (o.flags.inlineSwitch ++ (if o.start then ['^'] else []) ++ fs.flatten ++
          (if o.trailing then ['(', '?', ':'] ++ Literal.source ⟨t.delimiter, o.loose⟩ t.delimiter
            ++ [')', '?'] else []) ++
          (if o.finish then ['$'] else ['(', '?', '='] ++ Expression.quote t.delimiter ++ ['|', '$',
              ')'])) = .ok d' := by
    unfold Expression.read at hread
    split at hread
    · cases hread
    · exact ⟨_, by assumption⟩
  have hrest := ((denotes_tail (l := ⟨t.delimiter, o.loose⟩) false (g := 0) (!o.sensitive)
    o.trailing hD).append (denotes_end false (!o.sensitive) o.finish hD)).quiet [] rfl
  rw [List.append_nil] at hrest
  have hhead : Denotes false false (!o.sensitive) 63 0 0 (if o.start then ['^'] else [])
      (if o.start then Sense.place .textStart else .nothing) := by
    cases o.start with
    | true => exact Expression.denotes_textStart
    | false => exact Expression.denotes_nil
  obtain ⟨ps, hps, -, -⟩ := hhead.pieces
  have hopen : (Expression.Draft.mk (Expression.caseSwitch (!o.sensitive)) 0 [] [] false {}
      []).IsOpen (!o.sensitive) 63 0 :=
    ⟨rfl, rfl, rfl, by simp [Expression.maxDepth]⟩
  have hquiet := isQuiet_fragments ⟨t.delimiter, o.loose⟩ t.parts hrest
  have hswitch : o.flags.inlineSwitch = Expression.switchSource (!o.sensitive) :=
    Expression.inlineSwitch_eq (by simp [ExpressionOptions.flags])
  rw [fragmentsFrom_eq hfs, ← List.flatMap_def, hswitch, List.append_assoc, List.append_assoc,
    List.append_assoc, Expression.readFrom_switch _ (hhead.quiet _ hquiet),
    hps _ _ hopen hquiet] at hall
  exact text_of_readFrom hD hpattern' (fun p hp => between_ne_nil hfs hp) hrest (hopen.add ps 0)
    hall hp hc hm

/-- The expression of a template has as many groups as parameters, and the sense of the template. -/
theorem toExpression_spec (hD : t.delimiter ≠ [])
    (hpattern : ∀ p ∈ t.params, p.HasPattern (!o.sensitive) t.delimiter)
    (h : t.toExpression o = .ok e) :
    e.keys = t.params ∧ e.flags = o.flags ∧ e.expression.groups = t.params.length ∧
    e.expression.root.isRegular = true ∧ e.expression.root.isLinear = true ∧
    e.expression.root.Matches = t.pathSense o (Expression.patternSense (!o.sensitive)) := by
  obtain ⟨fs, hfs, hreadable⟩ := readable_of_toExpression true hD hpattern h
  obtain ⟨e', he', hr, hl, hg, hm⟩ := exists_pathExpression true _ hD hfs hreadable
  rw [he'] at h
  cases h
  refine ⟨rfl, rfl, ?_, hr, hl rfl, hm⟩
  rw [hg, groups_eq_length]
  rfl

end Template

end PathTemplate
