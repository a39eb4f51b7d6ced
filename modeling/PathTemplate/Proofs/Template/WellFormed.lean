import PathTemplate.Proofs.Template.Reread

/-!
# Templates that are printed as they are

A template need not come from a text: it can be put together by hand.

* `Lexeme.ReadsBack` — a pattern that is read as itself between parentheses;
* `Template.IsWellFormed` — what is asked of a template that was put together: of each part, and
  of neighbours;
* `Pen.apart_of_isChain` — neighbours that may stand together are not read as one, whatever stands
  before them;
* `Path.parse_print_of_isWellFormed` — such a template is read back from its text.
-/

namespace PathTemplate

open Lexeme (read?)

/-! ### patterns -/

/-- Between parentheses, the text is a pattern and nothing else. -/
def Lexeme.ReadsBack (q : Text) : Prop :=
  read? ('(' :: (q ++ [')'])) = some [⟨.pattern, 0, q⟩, ⟨.finish, 0, []⟩]

instance (q : Text) : Decidable (Lexeme.ReadsBack q) := inferInstanceAs (Decidable (_ = _))

/-- A pattern that is read back by itself is read back whatever follows it. -/
theorem Lexeme.readsBack_iff {q : Text} : ReadsBack q ↔ IsPattern q := by
  refine ⟨fun h => (isSound_of_read? h _ (List.mem_cons_self ..)).pattern rfl, fun h => ?_⟩
  rw [ReadsBack, read?_pattern h [], read?_nil]
  rfl

/-! ### neighbours -/

namespace Param

/-- No literal text belongs to the parameter. -/
def IsUnaffixed (p : Param) : Prop := p.before = [] ∧ p.after = []

/-- The parameter is a name between quotes and nothing else. -/
def IsLoneQuoted (p : Param) : Prop :=
  p.name ≠ [] ∧ Template.isPlainName p.name = false ∧ p.pattern = none ∧ p.modifier = none ∧
  p.IsUnaffixed

instance (p : Param) : Decidable p.IsUnaffixed := inferInstanceAs (Decidable (_ ∧ _))

instance (p : Param) : Decidable p.IsLoneQuoted := inferInstanceAs (Decidable (_ ∧ _))

end Param

/-- The second part may come right after the first one: texts do not touch, no wildcard follows a
parameter without a modifier, and no pattern follows a lone quoted name. -/
def Part.MayPrecede (delimiter : Text) : Part → Part → Prop
  | .text _, .text _ => False
  | .param p, .param q =>
    ¬(p.modifier = none ∧ q.IsUnaffixed ∧ q.modifier = some .zeroOrMore ∧
    q.separator = some delimiter ∧
        q.pattern = some (Expression.stretch delimiter)) ∧
      ¬(p.IsLoneQuoted ∧ q.IsUnaffixed ∧ q.pattern.isSome = true)
  | _, _ => True

instance (delimiter : Text) : DecidableRel (Part.MayPrecede delimiter)
  | .text _, .text _ => inferInstanceAs (Decidable False)
  | .param _, .param _ => inferInstanceAs (Decidable (_ ∧ _))
  | .text _, .param _ => inferInstanceAs (Decidable True)
  | .param _, .text _ => inferInstanceAs (Decidable True)

/-- A template with a delimiter, without empty texts, of parameters that can be written; neighbours
may stand together. -/
@[mk_iff]
structure Template.IsWellFormed (d : Template) : Prop where
  delimiter : d.delimiter ≠ []
  text : .text [] ∉ d.parts
  unnamed : ∀ p ∈ d.allParams, p.name = [] → p.pattern = none ∧ p.after = []
  pattern : ∀ p ∈ d.allParams, ∀ q ∈ p.pattern, Lexeme.ReadsBack q
  separator : ∀ p ∈ d.allParams, p.isRepeating = true → p.separator.isSome = true
  neighbours : d.parts.IsChain (Part.MayPrecede d.delimiter)

instance (d : Template) : Decidable d.IsWellFormed := decidable_of_iff _ d.isWellFormed_iff.symm

/-! ### parts that can be written -/

theorem Part.MayPrecede.isSome_or {delimiter : Text} {x y : Part} (h : x.MayPrecede delimiter y) :
    x.param?.isSome = true ∨ y.param?.isSome = true := by
  cases x with
  | param p => exact .inl rfl
  | text t =>
    cases y with
    | param q => exact .inr rfl
    | text u => exact h.elim

theorem Template.IsWellFormed.areWritable {d : Template} (hd : d.IsWellFormed) :
    AreWritable d.parts := by
  refine areWritable_iff.2 ⟨hd.text, hd.neighbours.imp fun _ _ h => h.isSome_or, fun p hp => ?_⟩
  have hp := mem_allParams.2 hp
  exact ⟨hd.unnamed p hp, fun q hq => Lexeme.readsBack_iff.1 (hd.pattern p hp q hq),
    hd.separator p hp⟩

/-! ### neighbours that are not read as one -/

namespace Template.Pen

variable {delimiter : Text} {pen : Pen} {p q : Param}

theorem isUnaffixed_of_isBare (h : pen.isBare delimiter p = true) : p.IsUnaffixed := by
  simp only [isBare, Bool.and_eq_true, List.isEmpty_iff] at h
  exact ⟨h.1.1.1.2, h.1.1.2⟩

/-- After a lone plain name, a parameter that is written without braces is not a lone pattern. -/
theorem isPlainName_eq_false_of_merged (hm : p.modifier = none) (hpattern : p.pattern = none)
    (hp : pen.isBare delimiter p = true) (hq : (pen.param delimiter p).2.isBare delimiter q = true)
    (hqpattern : q.pattern.isSome = true)
    (hsyn : (pen.param delimiter p).2.isSynthesized q = true) : isPlainName p.name = false := by
  have hopen : (pen.param delimiter p).2.openName = isPlainName p.name := by
    simp [param, isWildcard, hm, hp, nameAndPattern, hpattern]
  simp only [isBare, hopen, hqpattern, hsyn, Bool.and_true, Bool.and_eq_true,
    Bool.not_eq_true'] at hq
  exact hq.1.2

/-- Parameters that may stand together are not read as one. -/
theorem merges_eq_false (h : (Part.param p).MayPrecede delimiter (.param q)) (pen : Pen) :
    pen.merges delimiter p q = false := by
  obtain ⟨hwildcard, hquoted⟩ := h
  by_contra hmerges
  simp only [Bool.not_eq_false, merges, Bool.and_eq_true, Bool.or_eq_true,
    Option.isNone_iff_eq_none] at hmerges
  obtain ⟨hm, hstarred | ⟨⟨⟨⟨hp, hpattern⟩, hq⟩, hqpattern⟩, hsyn⟩⟩ := hmerges
  · simp only [isStarred, isWildcard, Bool.and_eq_true, List.isEmpty_iff,
      decide_eq_true_eq] at hstarred
    obtain ⟨⟨⟨⟨⟨hbefore, hafter⟩, hqm⟩, hsep⟩, hstretch⟩, -⟩ := hstarred
    exact hwildcard ⟨hm, ⟨hbefore, hafter⟩, hqm, hsep, hstretch⟩
  · have hname : p.name ≠ [] := by
      intro hn
      simp [isBare, Param.isCapturing, hn] at hp
    have hplain := isPlainName_eq_false_of_merged hm hpattern hp hq hqpattern hsyn
    exact hquoted ⟨⟨hname, hplain, hpattern, hm, isUnaffixed_of_isBare hp⟩,
        isUnaffixed_of_isBare hq, hqpattern⟩

/-- Neighbours that may stand together are not read as one, whatever the pen has written before. -/
theorem apart_of_isChain {ps : List Part} (h : ps.IsChain (Part.MayPrecede delimiter)) (pen : Pen) :
    pen.apart delimiter ps = true := by
  induction ps generalizing pen with
  | nil => rfl
  | cons x rest ih =>
    have hrest := ih h.tail
    cases x with
    | text t => exact hrest _
    | param p =>
      rw [apart, hrest, Bool.and_true, Option.all_eq_true]
      intro q hq
      obtain ⟨y, hy, hq⟩ := Option.bind_eq_some_iff.1 hq
      cases y with
      | text t => cases hq
      | param q =>
        cases hq
        obtain ⟨rest, rfl⟩ := List.head?_eq_some_iff.1 hy
        rw [merges_eq_false (List.isChain_cons_cons.1 h).1]
        rfl

end Template.Pen

theorem Template.IsWellFormed.printsApart {d : Template} (hd : d.IsWellFormed) :
    d.printsApart = true :=
  Pen.apart_of_isChain hd.neighbours {}

/-! ### reading it again -/

/-- A well-formed template, however it came about, is read back from the text that is printed for
it. -/
theorem Path.parse_print_of_isWellFormed {o : ParseOptions} (hid : ∀ t, o.encodePath.apply t = t)
    {d : Template} (hdelimiter : o.delimiter = d.delimiter) (hd : d.IsWellFormed) :
    Path.parse o d.print = .ok d := by
  have hparse := (Template.parse_print_iff hid hdelimiter.symm hd.areWritable).2 hd.printsApart
  exact Path.parse_eq_ok_iff.2 ⟨hdelimiter ▸ hd.delimiter, hparse⟩

/-- A template in which each form of a parameter stands next to another one. -/
theorem Path.parse_print_of_forms :
    let d : Template :=
      ⟨[.text "/é:".toList, .param { name := "a b".toList },
        .param { name := ['0'], before := ['-'], pattern := some "(?:x|y)+".toList },
        .param { name := [], before := ['.', '}'], modifier := some .zeroOrMore,
                 separator := some [] },
        .param { name := ['r'], pattern := some (Expression.stretch ['/']),
                 modifier := some .zeroOrMore, separator := some ['/'] },
        .text ['s'],
        .param { name := ['0'], pattern := some "\\d".toList, modifier := some .optional }], ['/']⟩
    d.IsWellFormed ∧ d.print =
      "/é\\::\"a b\"\x7b-((?:x|y)+)\x7d\x7b.\\\x7d;\x7d**r\\s:0(\\d)?".toList ∧
      Path.parse {} d.print = .ok d := by
  intro d
  have hd : d.IsWellFormed := by decide +kernel
  exact ⟨hd, by cbv, Path.parse_print_of_isWellFormed (fun _ => rfl) rfl hd⟩

end PathTemplate
