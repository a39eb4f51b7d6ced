import PathTemplate.Proofs.Expression.Outermost
import PathTemplate.Proofs.Readable

/-!
# Templates whose patterns stand on their own

If each pattern of a template is an expression on its own, groups that capture and references
included, then what the parts of the template are read as does not depend on what their expression
is put together with.

* `Param.IsSelfContained` — the pattern of a parameter is an expression on its own; that of a
  wildcard is;
* `Param.StandsAlone` — so is the expression of its values, which the strict check reads first;
* `Expression.StandsOutside` — outside of all parentheses, a text is read as some pieces, or not at
  all, and leaves names and references by number unmixed; `StandsOutside.fragments` — the parts of
  such a template are of this kind;
* `Template.exists_read_ending_iff` — whether there is an expression depends on its parts only.
-/

namespace PathTemplate

open Expression (Literal Draft Piece Stands StandsOne Denotes)

section

variable {ic solid : Bool} {l : Literal} {D x y : Text} {p : Param} {parts : List Part}
  {d d' : Draft}

/-- The pattern of the parameter, if it has one, is an expression on its own. -/
def Param.IsSelfContained (ic : Bool) (p : Param) : Prop :=
  ∀ x, p.pattern = some x → Expression.IsSelfContained ic x

theorem Expression.isSelfContained_stretch (ic : Bool) (hD : D ≠ []) :
    IsSelfContained ic (stretch D) := by
  obtain ⟨e, he, -⟩ := ((denotes_stretch false ic 61 0 hD).weaken
    (show 63 ≤ maxDepth from Nat.le_refl _)).read
  exact ⟨e, he⟩

/-- Patterns that have a sense wherever they stand are expressions on their own. -/
theorem Param.isSelfContained_of_hasPattern (hD : D ≠ []) (hp : p.HasPattern ic D) :
    p.IsSelfContained ic := by
  intro x hx
  rcases hp x hx with rfl | hpattern
  · exact Expression.isSelfContained_stretch ic hD
  · obtain ⟨e, he, -⟩ := Expression.exists_of_isPattern hpattern
    exact ⟨e, he⟩

/-- The value of the parameter is an expression, and so is its pattern on its own. -/
structure Param.StandsAlone (ic : Bool) (D : Text) (p : Param) : Prop where
  pattern : p.IsSelfContained ic
  value : ∃ e, Expression.read (Expression.switchSource ic ++ (p.valueSource D ++ ['$'])) = .ok e

/-- A comment that goes on beyond a pattern is found when the expression of a value is. -/
theorem Param.standsAlone_of_anchored {flags : Flags} (hflags : flags.sensitive = !ic)
    (hp : p.IsSelfContained ic) (h : ∃ e, Expression.anchored flags (p.valueSource D) = .ok e) :
    p.StandsAlone ic D where
  pattern := hp
  value := by
    have hquiet : Expression.isQuiet (p.valueSource D ++ ['$']) = true := by
      unfold valueSource
      split <;> rfl
    rw [← Expression.exists_read_textStart_iff hquiet]
    simpa [Expression.anchored, Expression.inlineSwitch_eq hflags] using h

/-! ### expressions of parts -/

theorem Expression.stands_valueSource (hp : p.StandsAlone ic D) :
    Stands false ic (p.valueSource D) := by
  have hvalue := hp.value
  unfold Param.valueSource at hvalue ⊢
  split at hvalue
  · rename_i x hx
    exact (standsOne_of_isSelfContained (hp.pattern x hx) hvalue).stands
  · exact stands_shortStretch ic D

theorem Expression.stands_innerSource (hp : p.isCapturing = true → p.StandsAlone ic l.delimiter) :
    Stands false ic (p.innerSource l) := by
  have hbefore := stands_source ic l p.before
  have hafter := stands_source ic l p.after
  unfold Param.innerSource
  split
  · rename_i hc
    have hvalue := stands_valueSource (hp hc)
    have hmore : Stands false ic (if p.isRepeating then
        ['(', '?', ':'] ++ (l.source p.between ++ p.valueSource l.delimiter) ++ [')'] ++
          ['*'] else []) := by
      split
      · exact (((stands_source ic l p.between).append hvalue).group.repeated (by simp)
          repeats_any).unsolid
      · exact stands_nil
    exact (hbefore.append ((hvalue.append hmore).capture.stands.append hafter)).unsolid
  · exact hbefore.append hafter

/-- Outside of all parentheses, the text is read as some pieces, or not at all, and references by
number and named groups are not mixed after it. -/
structure Expression.StandsOutside (ic : Bool) (x : Text) : Prop where
  stands : Stands false ic x
  unmixed :
    ∀ d d' : Draft, d.switches = caseSwitch ic → d.outer = [] → d.isMixed = false →
      d.readFrom x = .ok d' → d'.isMixed = false

namespace Expression.StandsOutside

theorem isMixed_push (d : Draft) (q : Piece) : (d.push q).isMixed = d.isMixed := by
  obtain ⟨l, hl⟩ := d.exists_push_eq q
  rw [hl]
  rfl

theorem nil : StandsOutside ic [] where
  stands := stands_nil
  unmixed d d' _ _ hd h := by
    rw [Draft.readFrom_nil] at h
    cases h
    exact hd

theorem append (hx : StandsOutside ic x) (hy : StandsOutside ic y) : StandsOutside ic (x ++ y) where
  stands := hx.stands.append hy.stands
  unmixed d d' hd houter hmixed h := by
    obtain ⟨a, hread, hall⟩ := hx.stands.reads d hd
    have hself := hread [] rfl
    rw [List.append_nil] at hself
    have hquiet := hy.stands.quiet [] rfl
    rw [List.append_nil] at hquiet
    rw [hread y hquiet] at h
    cases a with
    | error k => cases h
    | ok d₁ =>
      obtain ⟨ps, hps, -⟩ := hall d₁ rfl
      have hself' : d.readFrom x = .ok d₁ := hself.trans (Draft.readFrom_nil d₁)
      exact hy.unmixed d₁ d' (hps.switches.trans hd) (hps.outer.trans houter)
        (hx.unmixed d d₁ hd houter hmixed hself') h

/-- Literal text has no references and no names. -/
theorem source (ic : Bool) (l : Literal) (t : Text) : StandsOutside ic (l.source t) where
  stands := stands_source ic l t
  unmixed d d' hd houter hmixed h := by
    obtain ⟨ps, hps, -, -⟩ := (denotes_source false ic 61 d.groups l t).pieces
    have hread := hps d [] ⟨hd, rfl, hmixed, by simp [houter, maxDepth]⟩ rfl
    rw [List.append_nil, h, Draft.readFrom_nil] at hread
    cases hread
    exact hmixed

/-- Names and references of a group that does not capture are looked at where the group is
closed. -/
theorem group (h : Stands solid ic x) : StandsOutside ic (['(', '?', ':'] ++ x ++ [')']) where
  stands := h.group.stands.unsolid
  unmixed d d' hd _ _ hread := by
    obtain ⟨y, hreads, hall⟩ := h.exists_reads_group hd
    have hself := hreads []
    rw [List.append_nil, hread] at hself
    cases y with
    | error k => cases hself
    | ok z =>
      obtain ⟨hextends, -, hmixed⟩ := hall z rfl
      change Except.ok d' = Draft.resume (z.1.pushQuantified z.2 []) at hself
      rw [Draft.resume_pushQuantified (hextends.switches.trans hd) z.2
          (show isQuiet [] = true from rfl), Draft.readFrom_nil] at hself
      cases hself
      rw [isMixed_push, hmixed]

/-- So it is where something repeats the group. -/
theorem repeated (h : Stands solid ic x) {c : Char} {lo : Nat} {hi : Option Nat}
    (hc : c ∈ ['?', '*', '+']) (hq : Repeats [c] lo hi true) :
    StandsOutside ic (['(', '?', ':'] ++ x ++ [')'] ++ [c]) where
  stands := (h.group.repeated hc hq).unsolid
  unmixed d d' hd _ _ hread := by
    obtain ⟨y, hreads, hall⟩ := h.exists_reads_group hd
    have hself := hreads [c]
    rw [hread] at hself
    cases y with
    | error k => cases hself
    | ok z =>
      obtain ⟨hextends, -, hmixed⟩ := hall z rfl
      change Except.ok d' = Draft.resume (z.1.pushQuantified z.2 [c]) at hself
      rw [Draft.pushQuantified, hextends.switches.trans hd] at hself
      cases hp : z.2.repeatable with
      | false =>
        rw [quantified_of_not_repeatable hc hp] at hself
        cases hself
      | true =>
        have hquantified := hq ic z.2 [] hp rfl
        rw [List.append_nil] at hquantified
        rw [hquantified] at hself
        change Except.ok d' = (z.1.push _).readFrom [] at hself
        rw [Draft.readFrom_nil] at hself
        cases hself
        rw [isMixed_push, hmixed]

theorem fragment (hp : p.isCapturing = true → p.StandsAlone ic l.delimiter) :
    StandsOutside ic (p.fragment l) := by
  have hinner := stands_innerSource (l := l) hp
  rw [Param.fragment_eq]
  cases p.occurrence with
  | none => simpa using group hinner
  | some m =>
    cases m with
    | optional => exact repeated hinner (by simp [Modifier.char]) repeats_optional
    | zeroOrMore => exact repeated hinner (by simp [Modifier.char]) repeats_any
    | oneOrMore => exact repeated hinner (by simp [Modifier.char]) repeats_some

theorem fragments
    (hparts : ∀ p, .param p ∈ parts → p.isCapturing = true → p.StandsAlone ic l.delimiter) :
    StandsOutside ic (parts.flatMap (Part.fragment l)) := by
  induction parts with
  | nil => exact nil
  | cons part parts ih =>
    have hrest := ih fun p hp => hparts p (List.mem_cons_of_mem _ hp)
    rw [List.flatMap_cons]
    cases part with
    | text t => exact (source ic l t).append hrest
    | param p => exact (fragment (hparts p (List.mem_cons_self ..))).append hrest

end Expression.StandsOutside

/-- Whether such a text is the start of an expression does not depend on what follows, if that can
always be read. -/
theorem Expression.exists_read_append_iff {S : Sense} (hx : StandsOutside ic x)
    (hy : ∀ g, Denotes false false ic 63 g g y S) :
    (∃ e, read (switchSource ic ++ (x ++ y)) = .ok e) ↔
    ∃ d, Draft.readFrom { switches := caseSwitch ic } x = .ok d := by
  have hquiet := (hy 0).quiet [] rfl
  rw [List.append_nil] at hquiet
  obtain ⟨a, hread, hall⟩ := hx.stands.reads { switches := caseSwitch ic } rfl
  have hself := hread [] rfl
  rw [List.append_nil] at hself
  rw [exists_read_iff, readFrom_switch ic (hx.stands.quiet y hquiet), hread y hquiet]
  cases a with
  | error k => simp [hself, Except.bind]
  | ok d =>
    obtain ⟨ps, hps, -⟩ := hall d rfl
    replace hself : Draft.readFrom { switches := caseSwitch ic } x = .ok d := hself.trans
      (Draft.readFrom_nil d)
    have hmixed := hx.unmixed _ d rfl rfl rfl hself
    obtain ⟨qs, hqs, -, -⟩ := (hy d.groups).pieces
    have hend := hqs d [] ⟨hps.switches, rfl, hmixed, by simp [hps.outer, maxDepth]⟩ rfl
    rw [List.append_nil, Draft.readFrom_nil] at hend
    refine iff_of_true ⟨_, hend, hps.outer, _, Draft.finishLevel_of_unmixed hmixed⟩ ⟨d, hself⟩

end

/-! ### expressions of templates -/

/-- What the expression of a template ends with. -/
def ExpressionOptions.ending (o : ExpressionOptions) (D : Text) : Text :=
  (if o.trailing then ['(', '?', ':'] ++ Literal.source ⟨D, o.loose⟩ D ++ [')', '?'] else []) ++
    (if o.finish then ['$'] else ['(', '?', '='] ++ Expression.quote D ++ ['|', '$', ')'])

namespace Template

variable {o o' : ExpressionOptions} {t : Template}

theorem denotes_ending (o : ExpressionOptions) {D : Text} (hD : D ≠ []) :
    ∃ S, ∀ g, Denotes false false (!o.sensitive) 63 g g (o.ending D) S :=
  ⟨_, fun _ => (denotes_tail (l := ⟨D, o.loose⟩) false (!o.sensitive) o.trailing hD).append
    (denotes_end false (!o.sensitive) o.finish hD)⟩

/-- A template has an expression if its parts have, and if they can be read with what follows
them. -/
theorem exists_toExpression_iff_read (hD : t.delimiter ≠ []) :
    (∃ e, t.toExpression o = .ok e) ↔
    ∃ fs, t.fragments o.flags ⟨t.delimiter, o.loose⟩ = .ok fs ∧
      ∃ e, Expression.read
          (Expression.switchSource (!o.sensitive) ++ (fs.flatten ++ o.ending t.delimiter)) =
        .ok e := by
  cases hfs : t.fragments o.flags ⟨t.delimiter, o.loose⟩ with
  | error err => simp [toExpression, source, hfs, Except.map]
  | ok fs =>
    have hquiet : Expression.isQuiet (fs.flatten ++ o.ending t.delimiter) = true := by
      obtain ⟨S, hS⟩ := denotes_ending o hD
      have hending := (hS 0).quiet [] rfl
      rw [List.append_nil] at hending
      rw [fragmentsFrom_eq hfs, ← List.flatMap_def]
      exact isQuiet_fragments _ t.parts hending
    have hsource : t.source o = .ok (Expression.switchSource (!o.sensitive) ++
        ((if o.start then ['^'] else []) ++ (fs.flatten ++ o.ending t.delimiter))) := by
      have hswitch : o.flags.inlineSwitch = Expression.switchSource (!o.sensitive) :=
        Expression.inlineSwitch_eq (by simp [ExpressionOptions.flags])
      simp only [source, hfs, hswitch, Except.map, ExpressionOptions.ending, List.append_assoc]
    have hread : (∃ e, t.toExpression o = .ok e) ↔
        ∃ e, Expression.read (Expression.switchSource (!o.sensitive) ++
              ((if o.start then ['^'] else []) ++ (fs.flatten ++ o.ending t.delimiter))) =
          .ok e := by
      simp only [toExpression, hsource]
      split <;> simp_all
    rw [hread]
    simp only [Except.ok.injEq, exists_eq_left']
    cases o.start with
    | true => exact Expression.exists_read_textStart_iff hquiet
    | false => exact Iff.rfl

/-- Whether the parts of a template can be read does not depend on what follows them, if all
patterns are expressions on their own. -/
theorem exists_read_ending_iff (hD : t.delimiter ≠ [])
    (hpattern : ∀ p ∈ t.params, p.IsSelfContained (!o.sensitive)) {fs : List Text}
    (hfs : t.fragments o.flags ⟨t.delimiter, o.loose⟩ = .ok fs) :
    (∃ e, Expression.read
        (Expression.switchSource (!o.sensitive) ++ (fs.flatten ++ o.ending t.delimiter)) = .ok e) ↔
    ∃ d, Draft.readFrom { switches := Expression.caseSwitch (!o.sensitive) } fs.flatten =
      .ok d := by
  obtain ⟨S, hS⟩ := denotes_ending o hD
  have halone : ∀ p, .param p ∈ t.parts → p.isCapturing = true →
      p.StandsAlone (!o.sensitive) t.delimiter := fun p hp hc =>
    Param.standsAlone_of_anchored (by simp [ExpressionOptions.flags])
      (hpattern p (mem_paramsOf.2 ⟨hp, hc⟩))
      (exists_anchored_of_fragmentsFrom hfs hp hc)
  rw [fragmentsFrom_eq hfs, ← List.flatMap_def]
  exact Expression.exists_read_append_iff (.fragments halone) hS

end Template

end PathTemplate
