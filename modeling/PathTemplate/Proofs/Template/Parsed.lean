import PathTemplate.Path
import PathTemplate.Proofs.Template.Grammar
import PathTemplate.Proofs.Template.Writable

/-!
# Templates that were read from texts

What holds of a template because it was read from a text, and what of it depends on the options.

* `IsMadeOf` — a text is made of some items; `IsMadeOf.parse_eq`, `exists_isMadeOf` — the template
  that is read from it has the parts of these items;
* `Lexeme.ofText_pattern` — a pattern between parentheses is one lexeme;
* `Item.Separates`, `Path.wellFormed_of_parse` — such a template is well-formed, and separators
  are recorded where values can repeat;
* `Template.bare?_alike`, `group?_alike`, `parse_eq_error_congr` — whatever the options are,
  reading goes on or stops alike;
* `Item.recode`, `Item.redelimit`, `Path.parse_recast` — options rewrite literal text and place
  the delimiter, and that is all.
-/

namespace PathTemplate

open Lexeme (text afterText take? takeModifier)

/-- The text is made of these items, each of which has all the optional pieces that it could
have. -/
def IsMadeOf (t : Text) (is : List Item) : Prop :=
  ∃ xs, Lexeme.ofText t = .ok xs ∧ Derives is xs ∧ IsGreedy is

section

variable {o o' : ParseOptions} {free : Nat} {t : Text} {d : Template} {i : Item} {is : List Item}
  {xs : List Lexeme} {e : SyntaxError}

/-! ### the parts of the items -/

variable (o) in
theorem IsMadeOf.parse_eq (h : IsMadeOf t is) :
    Template.parse o t = .ok ⟨Item.parts o 0 is, o.delimiter⟩ := by
  obtain ⟨xs, hxs, his, hg⟩ := h
  have hparts := toOption_eq_some_iff.1 (parts?_eq_of_derives o 0 his hg)
  simp [Template.parse, hxs, hparts, Except.map]

theorem exists_isMadeOf (h : Template.parse o t = .ok d) : ∃ is, IsMadeOf t is := by
  unfold Template.parse at h
  split at h
  · cases h
  · rename_i xs hxs
    obtain ⟨ps, hps, -⟩ := exists_of_map_eq_ok h
    obtain ⟨is, his⟩ := exists_derives (Lexeme.endsOnce_of_scan hxs) (toOption_eq_some_iff.2 hps)
    obtain ⟨is', his', hg⟩ := exists_isGreedy his
    exact ⟨is', xs, hxs, his', hg⟩

theorem IsMadeOf.eq_of_parse (h : IsMadeOf t is) (hd : Path.parse o t = .ok d) :
    d = ⟨Item.parts o 0 is, o.delimiter⟩ := by
  have hparse := (Path.parse_eq_ok_iff.1 hd).2
  rw [h.parse_eq o] at hparse
  exact (Except.ok.inj hparse).symm

/-! ### well-formed templates -/

theorem Lexeme.ofText_pattern {q : Text} (hq : IsPattern q) :
    ofText ('(' :: (q ++ [')'])) = .ok [⟨.pattern, 0, q⟩, ⟨.finish, q.length + 2, []⟩] := by
  have hnext := next_pattern hq []
  rw [ofText, scan]
  split
  · rename_i h
    rw [hnext] at h
    cases h
  · rename_i x after h
    rw [hnext] at h
    cases h
    simp [scan, Except.map]

/-- The separator of the part that an item stands for: what is written after the semicolon, or else,
where values can repeat, the delimiter outside braces, and in braces the text after a value and the
one before it. -/
def Item.Separates (delimiter : Text) : Item → Part → Prop
  | .text _, .text _ => True
  | .bare _ _ _, .param p => p.separator = if p.isRepeating then some delimiter else none
  | .wildcard _ _, .param p => p.isRepeating = true ∧ p.separator = some delimiter
  | .group b, .param p =>
    p.separator =
      match b.separator with
      | some s => some (s.2.flatMap Lexeme.value)
      | none => if p.isRepeating then some (p.after ++ p.before) else none
  | _, _ => False

theorem Item.separates_part (hid : ∀ t, o.encodePath.apply t = t) (free : Nat) (i : Item) :
    i.Separates o.delimiter (i.part o free) := by
  cases i with
  | text run => trivial
  | bare name pattern modifier => rfl
  | wildcard star run => exact ⟨rfl, rfl⟩
  | group b =>
    cases hs : b.separator with
    | none =>
      simp only [Separates, part, hs]
      rfl
    | some s => simp only [Separates, part, hs, hid]

theorem Item.separates_parts (hid : ∀ t, o.encodePath.apply t = t) (free : Nat) (is : List Item) :
    List.Forall₂ (Item.Separates o.delimiter) is (Item.parts o free is) := by
  induction is generalizing free with
  | nil => exact .nil
  | cons i is ih => exact .cons (i.separates_part hid free) (ih _)

/-- A template that was read from a text has no empty texts and no two texts in a row; a group
without a name has neither a pattern nor text after it; separators are recorded as they should be,
in particular wherever values can repeat; and each pattern is one lexeme between parentheses, as is
what a wildcard stands for, whatever the delimiter. -/
theorem Path.wellFormed_of_parse (hid : ∀ t, o.encodePath.apply t = t)
    (h : Path.parse o t = .ok d) :
    (.text [] ∉ d.parts ∧ d.parts.IsChain fun x y => x.param?.isSome = true ∨
    y.param?.isSome = true) ∧
      (∀ p ∈ d.allParams, p.name = [] → p.pattern = none ∧ p.after = []) ∧
      (∀ p ∈ d.allParams, p.isRepeating = true → p.separator.isSome = true) ∧
      ((∃ is, IsMadeOf t is) ∧ ∀ is, IsMadeOf t is → List.Forall₂ (Item.Separates o.delimiter)
      is d.parts) ∧ (∀ p ∈ d.allParams, ∀ q ∈ p.pattern,
        Lexeme.ofText ('(' :: (q ++ [')'])) = .ok [⟨.pattern, 0, q⟩, ⟨.finish, q.length + 2, []⟩]) ∧
      ∀ delimiter, let q := Expression.stretch delimiter
        Lexeme.ofText ('(' :: (q ++ [')'])) = .ok [⟨.pattern, 0, q⟩,
          ⟨.finish, q.length + 2, []⟩] := by
  have hparse := (Path.parse_eq_ok_iff.1 h).2
  obtain ⟨htext, hchain, hparam⟩ := Template.areWritable_iff.1
    (Template.areWritable_of_parse hid hparse)
  have hwritable : ∀ p ∈ d.allParams, p.IsWritable :=
    fun p hp => hparam p (Template.mem_allParams.1 hp)
  refine ⟨⟨htext, hchain⟩, fun p hp => (hwritable p hp).unnamed,
    fun p hp => (hwritable p hp).separator, ⟨exists_isMadeOf hparse, fun is his => ?_⟩,
    fun p hp q hq => Lexeme.ofText_pattern ((hwritable p hp).pattern q hq),
    fun delimiter => Lexeme.ofText_pattern (Lexeme.isPattern_stretch delimiter)⟩
  rw [his.eq_of_parse h]
  exact Item.separates_parts hid 0 is

/-- A repeated group with a pattern of its own, a group of literal text, a separator that is
written, and a wildcard. -/
theorem Path.wellFormed_of_parse_forms :
    let t := "é\x7b-:x((?:a|b)+)=\x7d*\x7b/p\x7d?\x7b:y;\\,\x7d+*f".toList
    ∃ d is, Path.parse {} t = .ok d ∧ .text [] ∉ d.parts ∧ IsMadeOf t is ∧
      List.Forall₂ (Item.Separates ['/']) is d.parts ∧
      d.allParams.map Param.separator = [some "=-".toList, none, some [','], some ['/']] ∧
      ∀ p ∈ d.allParams, ∀ q ∈ p.pattern,
        Lexeme.ofText ('(' :: (q ++ [')'])) = .ok [⟨.pattern, 0, q⟩,
          ⟨.finish, q.length + 2, []⟩] := by
  intro t
  obtain ⟨d, hd⟩ := exists_ok_of_isSome (x := Path.parse {} t) (by decide +kernel)
  have hseparators : (Path.parse {} t).toOption.map (fun d => d.allParams.map Param.separator) =
      some [some "=-".toList, none, some [','], some ['/']] := by decide +kernel
  rw [hd] at hseparators
  obtain ⟨⟨htext, -⟩, -, -, ⟨⟨is, his⟩, hall⟩, hpattern, -⟩ := wellFormed_of_parse (fun _ => rfl) hd
  exact ⟨d, is, hd, htext, his, hall is his, Option.some.inj hseparators, hpattern⟩

/-! ### reading under other options -/

namespace Template

/-- What a step leaves: what follows the parameter, and the next free number. -/
def Step.left (s : Step) : List Lexeme × Nat := (s.rest, s.free)

variable (o o') in
theorem bare?_alike (free : Nat) (xs : List Lexeme) :
    (bare? o free xs).map Step.left = (bare? o' free xs).map Step.left := by
  unfold bare?
  simp only
  split
  · split <;> rfl
  · rfl

variable (o o') in
theorem group?_alike (free : Nat) (xs : List Lexeme) :
    (group? o free xs).map Step.left = (group? o' free xs).map Step.left := by
  unfold group?
  simp only
  split
  · rfl
  · split <;> rfl

theorem eq_error_of_alike {x y : Except SyntaxError Step} (h : x.map Step.left = y.map Step.left)
    (hx : x = .error e) : y = .error e := by
  rw [hx] at h
  exact eq_error_of_map h.symm

theorem exists_of_alike {x y : Except SyntaxError Step} {s : Step}
    (h : x.map Step.left = y.map Step.left) (hx : x = .ok s) :
    ∃ s', y = .ok s' ∧ s'.rest = s.rest ∧ s'.free = s.free := by
  rw [hx] at h
  obtain ⟨s', hs', hleft⟩ := exists_of_map_eq_ok h.symm
  exact ⟨s', hs', congrArg Prod.fst hleft, congrArg Prod.snd hleft⟩

/-- Where no parts can be read, none can be read under other options, for the same reason. -/
theorem partsFrom_eq_error_congr (h : partsFrom o free xs = .error e) :
    partsFrom o' free xs = .error e := by
  fun_induction partsFrom o free xs with
  | case1 => cases h
  | case2 free x rest hx _ ih =>
    rw [partsFrom_text hx, ih (eq_error_of_map h)]
    rfl
  | case3 free x rest _ hx e' hs =>
    cases h
    rw [partsFrom_bare hx, eq_error_of_alike (bare?_alike o o' _ _) hs]
    rfl
  | case4 free x rest _ hx s hs _ ih =>
    obtain ⟨s', hs', hrest, hfree⟩ := exists_of_alike (bare?_alike o o' _ _) hs
    rw [partsFrom_bare hx, hs', Except.bind, hrest, hfree, ih (eq_error_of_map h)]
    rfl
  | case5 free x rest _ _ hx _ s ih =>
    have hrest :
        partsFrom o' (wildcard o' free rest).free (wildcard o' free rest).rest = .error e :=
      ih (eq_error_of_map h)
    rw [partsFrom_wildcard hx, hrest]
    rfl
  | case6 free x rest _ _ _ hx e' hs =>
    cases h
    rw [partsFrom_group hx, eq_error_of_alike (group?_alike o o' _ _) hs]
    rfl
  | case7 free x rest _ _ _ hx s hs _ ih =>
    obtain ⟨s', hs', hrest, hfree⟩ := exists_of_alike (group?_alike o o' _ _) hs
    rw [partsFrom_group hx, hs', Except.bind, hrest, hfree, ih (eq_error_of_map h)]
    rfl
  | case8 => cases h
  | case9 free x rest ht hb ha hg hf =>
    rw [partsFrom_other ht hb ha hg hf]
    exact h

end Template

theorem Template.parse_eq_error_congr (h : Template.parse o t = .error e) :
    Template.parse o' t = .error e := by
  unfold Template.parse at h ⊢
  split at h
  · exact h
  · rw [partsFrom_eq_error_congr (eq_error_of_map h)]
    rfl

theorem Path.parse_eq_error_congr {e : PathError} (ho : o.delimiter ≠ []) (ho' : o'.delimiter ≠ [])
    (h : Path.parse o t = .error e) : Path.parse o' t = .error e := by
  cases hparse : Template.parse o t with
  | ok d =>
    rw [Path.parse_eq_ok_iff.2 ⟨ho, hparse⟩] at h
    cases h
  | error cause =>
    rw [Path.parse_eq_pattern_error_iff.2 ⟨ho, hparse⟩] at h
    cases h
    exact Path.parse_eq_pattern_error_iff.2 ⟨ho', Template.parse_eq_error_congr hparse⟩

/-! ### what options make of a part -/

namespace Item

/-- The part of an item where literal text is rewritten by `f`: a text, the texts around a value,
and a separator that is written, each by itself; a separator that is made of the texts around a
value is made of the rewritten ones. -/
def recode (f : Text → Text) : Item → Part → Part
  | _, .text t => .text (f t)
  | group b, .param p =>
    .param { p with
      before := f p.before
      after := f p.after
      separator := p.separator.map fun s => if b.separator.isSome then f s else f p.after ++ f
        p.before }
  | _, .param p => .param p

/-- The part of an item with another delimiter: outside braces it separates values, and wildcards go
up to it. -/
def redelimit (delimiter : Text) : Item → Part → Part
  | bare _ _ _, .param p => .param { p with separator := p.separator.map fun _ => delimiter }
  | wildcard _ _, .param p =>
    .param { p with pattern := some (Expression.stretch delimiter), separator := some delimiter }
  | _, part => part

theorem part_recast (hid : ∀ t, o.encodePath.apply t = t) (o' : ParseOptions) (free : Nat)
    (i : Item) :
    i.part o' free = i.recode o'.encodePath.apply (i.redelimit o'.delimiter (i.part o free)) := by
  cases i with
  | text run => simp [part, recode, redelimit, hid]
  | bare name pattern modifier => simp [part, recode, redelimit, apply_ite (Option.map _)]
  | wildcard star run => rfl
  | group b =>
    cases hs : b.separator <;> simp [part, recode, redelimit, hs, hid, apply_ite (Option.map _)]

theorem part_redelimit (hcodec : o'.encodePath = o.encodePath) (free : Nat) (i : Item) :
    i.part o' free = i.redelimit o'.delimiter (i.part o free) := by
  cases i with
  | text run => simp [part, redelimit, hcodec]
  | bare name pattern modifier => simp [part, redelimit, apply_ite (Option.map _)]
  | wildcard star run => rfl
  | group b => simp [part, redelimit, hcodec]

/-- What is true of each part is true of all: the number of a parameter does not depend on the
options. -/
theorem parts_eq_zipWith {f : Item → Part → Part}
    (h : ∀ free i, i.part o' free = f i (i.part o free)) (free : Nat) (is : List Item) :
    parts o' free is = List.zipWith f is (parts o free is) := by
  induction is generalizing free with
  | nil => rfl
  | cons i is ih => rw [parts, parts, List.zipWith_cons_cons, h, ih]

@[simp] theorem length_parts (o : ParseOptions) (free : Nat) (is : List Item) :
    (parts o free is).length = is.length := by
  induction is generalizing free with
  | nil => rfl
  | cons i is ih => simp [parts, ih]

end Item

/-- A text is read under all options or under none, and then always refused for the same reason.
What is read has one part for each item of the text. Options rewrite its literal text and place the
delimiter, and that is all: what is read where `o` leaves literal text as it is becomes what is read
under `o'` when its literal text is rewritten and the delimiter is put in; and if only the delimiter
is another one, it is the delimiter that has to be put in. -/
theorem Path.parse_recast (t : Text) (ho : o.delimiter ≠ []) (ho' : o'.delimiter ≠ []) :
    (∀ e, Path.parse o t = .error e ↔ Path.parse o' t = .error e) ∧
    ∀ d d', Path.parse o t = .ok d → Path.parse o' t = .ok d' →
      (d.delimiter = o.delimiter ∧ d'.delimiter = o'.delimiter) ∧ (∃ is, IsMadeOf t is) ∧
        ∀ is, IsMadeOf t is →
          (d.parts.length = is.length ∧ d'.parts.length = is.length) ∧
            ((∀ u, o.encodePath.apply u = u) →
              d'.parts =
                List.zipWith (fun i p => i.recode o'.encodePath.apply (i.redelimit o'.delimiter p))
                  is d.parts) ∧
            (o'.encodePath = o.encodePath →
              d'.parts = List.zipWith (Item.redelimit o'.delimiter) is d.parts) := by
  refine ⟨fun e => ⟨parse_eq_error_congr ho ho', parse_eq_error_congr ho' ho⟩,
    fun d d' hd hd' => ?_⟩
  have hitems := exists_isMadeOf (Path.parse_eq_ok_iff.1 hd).2
  have hdelimiter : d.delimiter = o.delimiter ∧ d'.delimiter = o'.delimiter := by
    obtain ⟨is, his⟩ := hitems
    rw [his.eq_of_parse hd, his.eq_of_parse hd']
    exact ⟨rfl, rfl⟩
  refine ⟨hdelimiter, hitems, fun is his => ?_⟩
  rw [his.eq_of_parse hd, his.eq_of_parse hd']
  exact ⟨⟨Item.length_parts .., Item.length_parts ..⟩,
    fun hid => Item.parts_eq_zipWith (Item.part_recast hid o') 0 is,
    fun hcodec => Item.parts_eq_zipWith (Item.part_redelimit hcodec) 0 is⟩

/-- Literal text that is put between brackets, and two hyphens in the place of the slash. -/
theorem Path.parse_recast_brackets :
    let t := "/:a+\x7bx:b(c)y\x7d*\x7bp:d;q\x7d+*w".toList
    let o : ParseOptions :=
      { delimiter := "--".toList, encodePath := .custom fun u => '<' :: (u ++ ['>']) }
    ∃ d d' is, Path.parse {} t = .ok d ∧ Path.parse o t = .ok d' ∧ IsMadeOf t is ∧
      d'.parts = List.zipWith (fun i p => i.recode o.encodePath.apply (i.redelimit o.delimiter p))
      is d.parts ∧
      d'.allParams.map Param.separator = [some "--".toList, some "<y><x>".toList, some "<q>".toList,
      some "--".toList] ∧
      ∀ e, Path.parse {} t = .error e ↔ Path.parse o t = .error e := by
  intro t o
  obtain ⟨d, hd⟩ := exists_ok_of_isSome (x := Path.parse {} t) (by decide +kernel)
  obtain ⟨d', hd'⟩ := exists_ok_of_isSome (x := Path.parse o t) (by decide +kernel)
  have hseparators : (Path.parse o t).toOption.map (fun d => d.allParams.map Param.separator) =
      some [some "--".toList, some "<y><x>".toList, some "<q>".toList, some "--".toList] := by
    decide +kernel
  rw [hd'] at hseparators
  have hdelimiter : ({} : ParseOptions).delimiter ≠ [] := by decide
  have hdelimiter' : o.delimiter ≠ [] := by decide
  obtain ⟨herror, hok⟩ := parse_recast t hdelimiter hdelimiter'
  obtain ⟨-, ⟨is, his⟩, hall⟩ := hok d d' hd hd'
  exact ⟨d, d', is, hd, hd', his, (hall is his).2.1 fun _ => rfl, Option.some.inj hseparators,
    herror⟩

end

end PathTemplate
