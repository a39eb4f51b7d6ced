import PathTemplate.Path

/-!
# A template in place of its text

What is made of a description depends on the template that it stands for, and on no options for
reading that template.

* `Template.toExpression_parse`, `Template.toBuilder_parse` — options for reading are of no
  account once there is a template: its own delimiter counts;
* `Path.expression_of_resolve`, `Path.builder_of_resolve`, `Path.matcher_of_resolve` — what is
  made of a description is made of its template;
* `Path.consumers_of_parse` — a text and the template that is read from it are worth the same.
-/

namespace PathTemplate

/-! ### options for reading -/

theorem Template.toExpression_parse (o : ExpressionOptions) (po : ParseOptions) (t : Template) :
    t.toExpression { o with parse := po } = t.toExpression o := rfl

theorem Template.toBuilder_parse (o : BuildOptions) (po : ParseOptions) (t : Template) :
    t.toBuilder { o with parse := po } = t.toBuilder o := rfl

namespace Path

variable {po : ParseOptions} {path : Path} {s : Text} {t : Template}

theorem delimiter_of_parse (h : parse po s = .ok t) : t.delimiter = po.delimiter := by
  have hread := (parse_eq_ok_iff.1 h).2
  unfold Template.parse at hread
  split at hread
  · cases hread
  · obtain ⟨parts, -, rfl⟩ := exists_of_map_eq_ok hread
    rfl

/-! ### what is made of it -/

theorem expression_of_resolve (o : ExpressionOptions) (h : path.resolve po = .ok (.inl t)) :
    path.expression { o with parse := po } = lift .expression (t.toExpression o) := by
  simp only [expression, h]
  rw [Template.toExpression_parse]

theorem builder_of_resolve (o : BuildOptions) (h : path.resolve po = .ok (.inl t)) :
    path.builder { o with parse := po } = lift .expression (t.toBuilder o) := by
  simp only [builder, h]
  rw [Template.toBuilder_parse]

theorem matcher_of_resolve (o : MatchOptions) (h : path.resolve po = .ok (.inl t)) :
    path.matcher { o with expression := { o.expression with parse := po } } =
      lift .expression
        ((t.toExpression o.expression).bind fun e => Matcher.ofExpression e t.delimiter o) := by
  simp only [matcher, h]
  rw [Template.toExpression_parse]
  cases t.toExpression o.expression with
  | error err => rfl
  | ok e => rfl

/-- A template that is read from a text does in place of the text: the expression, the matcher and
the builder are the same, or fail with the same error, whatever delimiter and codec for literal text
the options give. The template records the delimiter with which it was read, and that one counts. -/
theorem consumers_of_parse {po po' : ParseOptions} {s : Text} {t : Template}
    (h : parse po s = .ok t) (hpo' : po'.delimiter ≠ []) :
    t.delimiter = po.delimiter ∧
    (∀ o : ExpressionOptions, (template t).expression { o with parse := po' } =
      (pattern s).expression { o with parse := po }) ∧
    (∀ o : MatchOptions,
      (template t).matcher { o with expression := { o.expression with parse := po' } } =
      (pattern s).matcher { o with expression := { o.expression with parse := po } }) ∧
    ∀ o : BuildOptions, (template t).builder { o with parse := po' } =
      (pattern s).builder { o with parse := po } := by
  have hpattern := resolve_pattern h
  have htemplate := resolve_template hpo' (delimiter_ne_nil hpattern)
  refine ⟨delimiter_of_parse h, fun o => ?_, fun o => ?_, fun o => ?_⟩
  · rw [expression_of_resolve o htemplate, expression_of_resolve o hpattern]
  · rw [matcher_of_resolve o htemplate, matcher_of_resolve o hpattern]
  · rw [builder_of_resolve o htemplate, builder_of_resolve o hpattern]

/-- A file name with dots, read with the dot as delimiter. The options that come with the template
name another delimiter and would encode its literal text. -/
theorem consumers_of_parse_dots :
    let po : ParseOptions := { delimiter := ['.'] }
    let po' : ParseOptions := { delimiter := ['/'], encodePath := .uriComponent }
    let t : Template :=
      ⟨[.text "a b.".toList, .param { name := ['x'] },
        .param { name := ['y'], before := ['.'], modifier := some .zeroOrMore,
                 separator := some ['.'] }], ['.']⟩
    parse po "a b.:x\x7b.:y\x7d*".toList = .ok t ∧ po'.delimiter ≠ [] ∧
      (template t).expression { parse := po' } = (pattern "a b.:x\x7b.:y\x7d*".toList).expression
      { parse := po } ∧
      (template t).matcher { expression := { parse := po' } } =
        (pattern "a b.:x\x7b.:y\x7d*".toList).matcher { expression := { parse := po } } ∧
      (template t).builder { parse := po' } = (pattern "a b.:x\x7b.:y\x7d*".toList).builder
        { parse := po } ∧
      (((template t).matcher { expression := { parse := po' } }).toOption.bind fun m =>
        (m.run "A b.x/y.z.".toList).toOption.join).isSome = true := by
  intro po po' t
  have hparse : parse po "a b.:x\x7b.:y\x7d*".toList = .ok t := by cbv
  have hpo' : po'.delimiter ≠ [] := by decide
  obtain ⟨-, hexpression, hmatcher, hbuilder⟩ := consumers_of_parse hparse hpo'
  exact ⟨hparse, hpo', hexpression {}, hmatcher {}, hbuilder {}, by decide +kernel⟩

end Path

end PathTemplate
