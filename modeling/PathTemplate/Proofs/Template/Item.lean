import PathTemplate.Proofs.Template.Parts

/-!
# The items of templates

What template texts are made of, without any order of reading, and what each piece stands for.

* `Item` — literal text, a parameter outside braces, a wildcard, or a group in braces, by its
  lexemes;
* `Derives` — lexemes are made of some items; `IsGreedy` — every item has all the optional pieces
  that it could have;
* `Item.part`, `Item.parts` — the part that an item stands for under some options, and those of
  all items; parameters without a name are numbered;
* `bare?_item`, `wildcard_item`, `group?_item` — an item is read as its part, up to what follows it;
* `parts?_eq_of_derives` — the parts that are read are those of the items.
-/

namespace PathTemplate

open Lexeme (text afterText take? takeModifier continuesName)

/-- What is in braces and after them. -/
structure Braced where
  opening : Lexeme
  before : List Lexeme
  name : Option Lexeme
  pattern : Option Lexeme
  after : List Lexeme
  separator : Option (Lexeme × List Lexeme)
  closing : Lexeme
  modifier : Option Lexeme

/-- What a template text is made of, by its lexemes. -/
inductive Item where
  | text (run : List Lexeme)
  | bare (name pattern modifier : Option Lexeme)
  | wildcard (star : Lexeme) (run : List Lexeme)
  | group (b : Braced)

namespace Braced

/-- The lexemes of a separator. -/
def separatorLexemes (b : Braced) : List Lexeme := b.separator.elim [] fun s => s.1 :: s.2

/-- What is between the braces. -/
def inside (b : Braced) : List Lexeme :=
  b.before ++ (b.name.toList ++ (b.pattern.toList ++ (b.after ++ b.separatorLexemes)))

/-- All lexemes. -/
def lexemes (b : Braced) : List Lexeme := b.opening :: (b.inside ++ b.closing :: b.modifier.toList)

/-- The lexemes are of the kinds that they should be.  Literal text is a run of its own, as long as
it can be. -/
structure IsProper (b : Braced) : Prop where
  opening : b.opening.kind = .opening
  before : ∀ x ∈ b.before, x.isText = true
  name : ∀ x ∈ b.name, x.kind = .name
  pattern : ∀ x ∈ b.pattern, x.kind = .pattern
  after : ∀ x ∈ b.after, x.isText = true
  apart : b.name = none → b.pattern = none → b.before = [] ∨ b.after = []
  separator : ∀ s ∈ b.separator, s.1.kind = .semicolon ∧ ∀ x ∈ s.2, x.isText = true
  closing : b.closing.kind = .closing
  modifier : ∀ x ∈ b.modifier, x.kind.modifier? ≠ none

end Braced

namespace Item

/-- The lexemes of an item. -/
def lexemes : Item → List Lexeme
  | text run => run
  | bare name pattern modifier => name.toList ++ (pattern.toList ++ modifier.toList)
  | wildcard star run => star :: run
  | group b => b.lexemes

/-- The lexemes are of the kinds that they should be. -/
def IsProper : Item → Prop
  | text run => run ≠ [] ∧ ∀ x ∈ run, x.isText = true
  | bare name pattern modifier => (name ≠ none ∨ pattern ≠ none) ∧ (∀ x ∈ name, x.kind = .name) ∧
      (∀ x ∈ pattern, x.kind = .pattern) ∧ ∀ x ∈ modifier, x.kind = .question ∨ x.kind = .plus
  | wildcard star run => star.kind = .asterisk ∧ ∀ x ∈ run, continuesName x = true
  | group b => b.IsProper

/-- The item can stand before these lexemes: runs are as long as they can be, and no asterisk
follows a parameter outside braces that has no modifier. -/
def Precedes : Item → List Lexeme → Prop
  | text _, xs => ∀ x ∈ xs.head?, x.isText = false
  | bare _ _ none, xs => ∀ x ∈ xs.head?, x.kind ≠ .asterisk
  | wildcard _ _, xs => ∀ x ∈ xs.head?, continuesName x = false
  | bare _ _ (some _), _ | group _, _ => True

/-- What is written between the braces could not be read as an earlier piece. -/
def IsFull : Item → Prop
  | group b => b.name = none → b.pattern = none → b.after = []
  | text _ | bare _ _ _ | wildcard _ _ => True

/-- The second item could be read, from its start, as a missing piece of the first one. -/
def Absorbs : Item → Item → Prop
  | bare (some _) none none, bare none (some _) _ => True
  | group b, wildcard _ _ => b.modifier = none
  | _, _ => False

/-- The name that is written in an item. -/
def name? : Item → Option Text
  | text _ => none
  | bare name _ _ => name.map Lexeme.value
  | wildcard _ run => if run = [] then none else some (run.flatMap Lexeme.value)
  | group b => b.name.map Lexeme.value

/-- The item is a parameter that captures a value and has no name written. -/
def isUnnamed : Item → Bool
  | text _ => false
  | bare name _ _ => name.isNone
  | wildcard _ run => run.isEmpty
  | group b => b.name.isNone && b.pattern.isSome

/-- The part that an item stands for under some options, where `free` is the next free number. -/
def part (o : ParseOptions) (free : Nat) : Item → Part
  | text run => .text (o.encodePath.apply (run.flatMap Lexeme.value))
  | bare name pattern modifier =>
    let modifier := modifier.bind fun x => x.kind.modifier?
    .param {
      name := (Template.nameOr free (name.map Lexeme.value)).1
      pattern := pattern.map Lexeme.value
      modifier
      separator := if modifier.any Modifier.isRepeating then some o.delimiter else none }
  | wildcard _ run =>
    .param {
      name := (Template.nameOr free (if run = [] then none else some (run.flatMap Lexeme.value))).1
      pattern := some (Expression.stretch o.delimiter)
      modifier := some .zeroOrMore
      separator := some o.delimiter }
  | group b =>
    let before := o.encodePath.apply (b.before.flatMap Lexeme.value)
    let after := o.encodePath.apply (b.after.flatMap Lexeme.value)
    let modifier := b.modifier.bind fun x => x.kind.modifier?
    .param {
      name := if b.name.isNone && b.pattern.isNone then []
        else (Template.nameOr free (b.name.map Lexeme.value)).1
      before
      after
      pattern := b.pattern.map Lexeme.value
      modifier
      separator :=
        match b.separator with
        | some s => some (o.encodePath.apply (s.2.flatMap Lexeme.value))
        | none => if modifier.any Modifier.isRepeating then some (after ++ before) else none }

/-- The parts of items; each parameter without a name takes the next free number. -/
def parts (o : ParseOptions) : (free : Nat) → List Item → List Part
  | _, [] => []
  | free, i :: is => i.part o free :: parts o (if i.isUnnamed then free + 1 else free) is

end Item

/-- The item starts with a lexeme of this kind. -/
def Item.Opens : Item → Lexeme → Prop
  | text _, x => x.isText = true
  | bare (some _) _ _, x => x.kind = .name
  | bare none _ _, x => x.kind = .pattern
  | wildcard _ _, x => x.kind = .asterisk
  | group _, x => x.kind = .opening

/-- The lexemes are those of the items, and the end. -/
inductive Derives : List Item → List Lexeme → Prop where
  | finish {x : Lexeme} (hx : x.kind = .finish) : Derives [] [x]
  | cons {i : Item} {is : List Item} {xs : List Lexeme} (hi : i.IsProper) (hp : i.Precedes xs)
      (h : Derives is xs) : Derives (i :: is) (i.lexemes ++ xs)

/-- Every item has all the optional pieces that it could have. -/
def IsGreedy : List Item → Prop
  | [] => True
  | i :: is => i.IsFull ∧ (∀ j ∈ is.head?, ¬i.Absorbs j) ∧ IsGreedy is

section

variable {o : ParseOptions} {free : Nat} {i : Item} {is : List Item} {xs r : List Lexeme}
  {x : Lexeme}

/-! ### the first lexeme -/

theorem Item.IsProper.opens (hi : i.IsProper) : ∃ x xs, i.lexemes = x :: xs ∧ i.Opens x := by
  cases i with
  | text run =>
    obtain ⟨x, run, rfl⟩ := List.exists_cons_of_ne_nil hi.1
    exact ⟨x, run, rfl, hi.2 x (by simp)⟩
  | bare name pattern modifier =>
    obtain ⟨hsome, hname, hpattern, -⟩ := hi
    cases name with
    | some x => exact ⟨x, _, rfl, hname x rfl⟩
    | none =>
      cases pattern with
      | some x => exact ⟨x, _, rfl, hpattern x rfl⟩
      | none => simp at hsome
  | wildcard star run => exact ⟨star, run, rfl, hi.1⟩
  | group b => exact ⟨b.opening, _, rfl, Braced.IsProper.opening hi⟩

/-- The first lexeme is the end, or that of the first item. -/
theorem Derives.head (h : Derives is xs) : ∀ x ∈ xs.head?,
    x.kind = .finish ∧ is = [] ∨ ∃ i is', is = i :: is' ∧ i.IsProper ∧ i.Opens x := by
  intro x hx
  cases h with
  | finish hfinish =>
    cases hx
    exact .inl ⟨hfinish, rfl⟩
  | cons hi hp h =>
    obtain ⟨y, ys, hy, hopens⟩ := hi.opens
    rw [hy] at hx
    cases hx
    exact .inr ⟨_, _, rfl, hi, hopens⟩

/-- Where a pattern comes first, it is one without a name. -/
theorem Derives.bare_of_pattern (h : Derives is xs) (hx : x ∈ xs.head?) (hk : x.kind = .pattern) :
    ∃ p m is', is = .bare none (some p) m :: is' := by
  rcases h.head x hx with ⟨hfinish, -⟩ | ⟨i, is', rfl, hi, hopens⟩
  · simp [hk] at hfinish
  cases i with
  | text run => simp [Item.Opens, Lexeme.isText, hk] at hopens
  | bare name pattern modifier =>
    cases name with
    | some n => simp [Item.Opens, hk] at hopens
    | none =>
      obtain ⟨p, rfl⟩ := Option.ne_none_iff_exists'.1 (hi.1.resolve_left fun h => h rfl)
      exact ⟨p, modifier, is', rfl⟩
  | wildcard star run => simp [Item.Opens, hk] at hopens
  | group b => simp [Item.Opens, hk] at hopens

/-- Where an asterisk comes first, it is a wildcard. -/
theorem Derives.wildcard_of_asterisk (h : Derives is xs) (hx : x ∈ xs.head?)
    (hk : x.kind = .asterisk) : ∃ star run is', is = .wildcard star run :: is' := by
  rcases h.head x hx with ⟨hfinish, -⟩ | ⟨i, is', rfl, hi, hopens⟩
  · simp [hk] at hfinish
  cases i with
  | text run => simp [Item.Opens, Lexeme.isText, hk] at hopens
  | bare name pattern modifier => cases name <;> simp [Item.Opens, hk] at hopens
  | wildcard star run => exact ⟨star, run, is', rfl⟩
  | group b => simp [Item.Opens, hk] at hopens

/-- No item starts with a modifier other than an asterisk. -/
theorem Derives.modifier?_head (h : Derives is xs) :
    ∀ x ∈ xs.head?, x.kind ≠ .asterisk → x.kind.modifier? = none := by
  intro x hx hne
  rcases h.head x hx with ⟨hk, -⟩ | ⟨i, is', -, -, hk⟩
  · rw [hk]
    rfl
  · cases i with
    | text run =>
      have hk : x.isText = true := hk
      simp only [Lexeme.isText, Bool.or_eq_true, decide_eq_true_eq] at hk
      rcases hk with hk | hk <;> rw [hk] <;> rfl
    | bare name pattern modifier =>
      cases name <;> rw [show x.kind = _ from hk] <;> rfl
    | wildcard star run => exact absurd hk hne
    | group b =>
      rw [show x.kind = _ from hk]
      rfl

/-- What is true of the first lexeme of one list or the other is true of the first one of both. -/
theorem head_append {P : Lexeme → Prop} (hx : ∀ x ∈ xs, P x) (hy : xs = [] → ∀ y ∈ r.head?, P y) :
    ∀ y ∈ (xs ++ r).head?, P y := by
  cases xs with
  | nil => simpa using hy rfl
  | cons x xs =>
    rintro y ⟨⟩
    exact hx x (by simp)

/-! ### reading items -/

theorem take?_toList {k : Lexeme.Kind} {n : Option Lexeme} (hn : ∀ x ∈ n, x.kind = k)
    (hy : n = none → ∀ y ∈ r.head?, y.kind ≠ k) :
    take? k (n.toList ++ r) = (n.map Lexeme.value, r) := by
  cases n with
  | none => exact Template.take?_of_head (hy rfl)
  | some x => simp [take?, hn x rfl]

theorem takeModifier_toList {m : Option Lexeme} (hm : ∀ x ∈ m, x.kind.modifier? ≠ none)
    (hy : m = none → ∀ y ∈ r.head?, y.kind.modifier? = none) :
    takeModifier (m.toList ++ r) = (m.bind fun x => x.kind.modifier?, r) := by
  cases m with
  | none =>
    cases r with
    | nil => rfl
    | cons y r => simp [takeModifier, hy rfl y rfl]
  | some x =>
    obtain ⟨modifier, hmodifier⟩ := Option.ne_none_iff_exists'.1 (hm x rfl)
    simp [takeModifier, hmodifier]

variable (o free) in
theorem bare?_item {name pattern modifier : Option Lexeme}
    (hi : (Item.bare name pattern modifier).IsProper)
    (hpattern : pattern = none → modifier = none → ∀ y ∈ r.head?, y.kind ≠ .pattern)
    (hmodifier : modifier = none → ∀ y ∈ r.head?, y.kind.modifier? = none) :
    ∃ s, Template.bare? o free ((Item.bare name pattern modifier).lexemes ++ r) = .ok s ∧
      s.rest = r ∧ s.free = (if name.isNone then free + 1 else free) ∧
      (Item.bare name pattern modifier).part o free = .param s.param := by
  obtain ⟨hsome, hn, hp, hm⟩ := hi
  have hmkind :
      ∀ {k : Lexeme.Kind}, k ≠ .question → k ≠ .plus → ∀ x ∈ modifier.toList, x.kind ≠ k := by
    intro k h₁ h₂ x hx
    rcases hm x (Option.mem_toList.1 hx) with h | h <;> rw [h]
    · exact h₁.symm
    · exact h₂.symm
  have htake₁ := take?_toList (r := pattern.toList ++ (modifier.toList ++ r)) hn fun hnone =>
    head_append (fun x hx => by rw [hp x (Option.mem_toList.1 hx)]; decide) fun hnil =>
      absurd (Option.toList_eq_nil_iff.1 hnil) (hsome.resolve_left fun h => h hnone)
  have htake₂ := take?_toList (r := modifier.toList ++ r) hp fun hnone =>
    head_append (hmkind (by decide) (by decide)) fun hnil =>
    hpattern hnone (Option.toList_eq_nil_iff.1 hnil)
  simp only [Item.lexemes, List.append_assoc]
  unfold Template.bare?
  simp only [htake₁, htake₂]
  have hfree : (Template.nameOr free (name.map Lexeme.value)).2 =
      if name.isNone then free + 1 else free := by
    cases name <;> rfl
  cases modifier with
  | some x =>
    rcases hm x rfl with hk | hk <;>
      simp only [Option.toList_some, List.singleton_append, hk] <;>
      exact ⟨_, rfl, rfl, hfree,
        by simp [Item.part, hk, Lexeme.Kind.modifier?, Modifier.isRepeating]⟩
  | none =>
    rw [Option.toList_none, List.nil_append]
    cases r with
    | nil => exact ⟨_, rfl, rfl, hfree, rfl⟩
    | cons y r =>
      have hy := hmodifier rfl y rfl
      simp only
      split
      · rename_i hk
        simp [hk, Lexeme.Kind.modifier?] at hy
      · rename_i hk
        simp [hk, Lexeme.Kind.modifier?] at hy
      · rename_i hk
        simp [hk, Lexeme.Kind.modifier?] at hy
      · exact ⟨_, rfl, rfl, hfree, rfl⟩

variable (o free) in
theorem wildcard_item {star : Lexeme} {run : List Lexeme} (hi : (Item.wildcard star run).IsProper)
    (hp : (Item.wildcard star run).Precedes r) :
    (Template.wildcard o free (run ++ r)).rest = r ∧
    (Template.wildcard o free (run ++ r)).free = (if run.isEmpty then free + 1 else free) ∧
    (Item.wildcard star run).part o free = .param (Template.wildcard o free (run ++ r)).param := by
  have hwritten : run.flatMap Lexeme.value = [] ↔ run = [] := by
    refine ⟨fun hnil => ?_, by rintro rfl; rfl⟩
    by_contra hne
    obtain ⟨x, run, rfl⟩ := List.exists_cons_of_ne_nil hne
    have hx : continuesName x = true := hi.2 x (by simp)
    have hvalue : x.value = [] :=
      (List.append_eq_nil_iff.1 (show x.value ++ run.flatMap Lexeme.value = [] from hnil)).1
    simp [continuesName, hvalue] at hx
  unfold Template.wildcard
  simp only [takeWhile_append_of_head hi.2 hp, dropWhile_append_of_head hi.2 hp, hwritten]
  refine ⟨trivial, ?_, rfl⟩
  cases run <;> rfl

/-- A separator is read up to the closing brace. -/
theorem take?_separator {b : Braced} (hb : b.IsProper) {y : Lexeme} (hy : y.kind = .closing) :
    ((take? .semicolon (b.separatorLexemes ++ y :: r)).1.map fun _ => text
        (take? .semicolon (b.separatorLexemes ++ y :: r)).2) =
      b.separator.map (fun s => s.2.flatMap Lexeme.value) ∧
    (if (take? .semicolon (b.separatorLexemes ++ y :: r)).1.isSome then afterText
        (take? .semicolon (b.separatorLexemes ++ y :: r)).2
        else (take? .semicolon (b.separatorLexemes ++ y :: r)).2) = y :: r := by
  have htext : ∀ z ∈ (y :: r).head?, z.isText = false := by
    rintro z ⟨⟩
    simp [Lexeme.isText, hy]
  unfold Braced.separatorLexemes
  cases hs : b.separator with
  | none => simp [take?, hy]
  | some s =>
    obtain ⟨hk, hrun⟩ := hb.separator s hs
    simp [take?, hk, Template.text_append hrun htext, Template.afterText_append hrun htext]

/-- The pieces in braces are read one after the other. -/
theorem taken_inside {b : Braced} (hb : b.IsProper) (hfull : (Item.group b).IsFull)
    (hr : ∀ y ∈ r.head?, y.kind = .semicolon ∨ y.kind = .closing) :
    text (b.before ++ (b.name.toList ++ (b.pattern.toList ++ (b.after ++ r)))) =
      b.before.flatMap Lexeme.value ∧
    take? .name (afterText (b.before ++ (b.name.toList ++ (b.pattern.toList ++ (b.after ++ r))))) =
      (b.name.map Lexeme.value, b.pattern.toList ++ (b.after ++ r)) ∧
    take? .pattern (b.pattern.toList ++ (b.after ++ r)) =
      (b.pattern.map Lexeme.value, b.after ++ r) ∧
    text (b.after ++ r) = b.after.flatMap Lexeme.value ∧ afterText (b.after ++ r) = r := by
  have hkind : ∀ {k : Lexeme.Kind} {y : Lexeme}, y.isText = true ∨ y.kind = .semicolon ∨
        y.kind = .closing → k = .name ∨ k = .pattern → y.kind ≠ k := by
    intro k y hy hk
    simp only [Lexeme.isText, Bool.or_eq_true, decide_eq_true_eq] at hy
    rcases hk with rfl | rfl <;> rcases hy with (hy | hy) | hy | hy <;> simp [hy]
  have htext : ∀ y ∈ r.head?, y.isText = false := fun y hy => by
    rcases hr y hy with hk | hk <;> simp [Lexeme.isText, hk]
  have hhead₂ := head_append
    (P := fun y => y.isText = true ∨ y.kind = .semicolon ∨ y.kind = .closing)
    (fun y hy => .inl (hb.after y hy)) fun _ y hy => .inr (hr y hy)
  have hhead₁ : ∀ y ∈ (b.pattern.toList ++ (b.after ++ r)).head?, y.kind ≠ .name :=
    head_append (fun y hy => by simp [hb.pattern y (Option.mem_toList.1 hy)]) fun _ y hy => hkind
      (hhead₂ y hy) (.inl rfl)
  -- with neither a name nor a pattern, all literal text was read before them
  have hhead₀ :
      ∀ y ∈ (b.name.toList ++ (b.pattern.toList ++ (b.after ++ r))).head?, y.isText = false := by
    refine head_append (fun y hy => ?_) fun hname => head_append (fun y hy => ?_) fun hpattern => ?_
    · simp [Lexeme.isText, hb.name y (Option.mem_toList.1 hy)]
    · simp [Lexeme.isText, hb.pattern y (Option.mem_toList.1 hy)]
    · rw [hfull (Option.toList_eq_nil_iff.1 hname) (Option.toList_eq_nil_iff.1 hpattern)]
      exact htext
  rw [Template.afterText_append hb.before hhead₀]
  exact ⟨Template.text_append hb.before hhead₀, take?_toList hb.name fun _ => hhead₁,
    take?_toList hb.pattern fun _ y hy => hkind (hhead₂ y hy) (.inr rfl),
    Template.text_append hb.after htext, Template.afterText_append hb.after htext⟩

variable (o free) in
theorem group?_item {b : Braced} (hb : b.IsProper) (hfull : (Item.group b).IsFull)
    (hmodifier : b.modifier = none → ∀ y ∈ r.head?, y.kind.modifier? = none) :
    ∃ s, Template.group? o free (b.inside ++ b.closing :: (b.modifier.toList ++ r)) = .ok s ∧
      s.rest = r ∧ s.free = (if b.name.isNone && b.pattern.isSome then free + 1 else free) ∧
      (Item.group b).part o free = .param s.param := by
  have hhead : ∀ y ∈ (b.separatorLexemes ++ b.closing :: (b.modifier.toList ++ r)).head?,
      y.kind = .semicolon ∨ y.kind = .closing := by
    unfold Braced.separatorLexemes
    cases hs : b.separator with
    | none => simpa using .inr hb.closing
    | some s => simpa using .inl (hb.separator s hs).1
  obtain ⟨hbefore, hname, hpattern, hafter, hafterAfter⟩ := taken_inside hb hfull hhead
  obtain ⟨hseparator, hrest⟩ := take?_separator (r := b.modifier.toList ++ r) hb hb.closing
  have hmodifier' := takeModifier_toList hb.modifier hmodifier
  unfold Template.group?
  simp only [Braced.inside, List.append_assoc, hbefore, hname, hpattern, hafter, hafterAfter,
    hseparator, hrest, hb.closing, ne_eq, not_true, if_false, hmodifier']
  refine ⟨_, rfl, rfl, ?_, ?_⟩
  · cases b.name <;> cases b.pattern <;> rfl
  · cases hs : b.separator <;> cases hn : b.name <;> cases hp : b.pattern <;>
      simp [Item.part, hs, hn, hp, Template.nameOr]

/-! ### what is read where there are items -/

variable (o free) in
theorem parts?_eq_of_derives (h : Derives is xs) (hg : IsGreedy is) :
    Template.parts? o free xs = some (Item.parts o free is) := by
  induction h generalizing free with
  | finish hx => exact Template.parts?_finish hx
  | @cons i is r hi hp h ih =>
    obtain ⟨hfull, habsorbs, hg⟩ := hg
    replace ih := fun free => ih free hg
    cases i with
    | text run =>
      obtain ⟨x, run, rfl⟩ := List.exists_cons_of_ne_nil hi.1
      have hread : Template.parts? o free (x :: (run ++ r)) = _ :=
        Template.parts?_text (hi.2 x (by simp))
      have hafter : afterText (x :: run ++ r) = r := Template.afterText_append hi.2 hp
      have htext : text (x :: run ++ r) = (x :: run).flatMap Lexeme.value :=
        Template.text_append hi.2 hp
      rw [← List.cons_append, hafter, htext, ih] at hread
      exact hread
    | bare name pattern modifier =>
      have hmodifier : modifier = none → ∀ y ∈ r.head?, y.kind.modifier? = none := by
        rintro rfl y hy
        exact h.modifier?_head y hy (hp y hy)
      have hpattern : pattern = none → modifier = none → ∀ y ∈ r.head?, y.kind ≠ .pattern := by
        rintro rfl rfl y hy hk
        obtain ⟨n, rfl⟩ := Option.ne_none_iff_exists'.1 (hi.1.resolve_right fun h => h rfl)
        obtain ⟨p, m, is', rfl⟩ := h.bare_of_pattern hy hk
        exact habsorbs _ rfl trivial
      obtain ⟨s, hs, rfl, hfree, hpart⟩ := bare?_item o free hi hpattern hmodifier
      obtain ⟨x, xs, hxs, hopens⟩ := hi.opens
      have hkind : x.kind = .name ∨ x.kind = .pattern := by
        cases name with
        | some n => exact .inl hopens
        | none => exact .inr hopens
      rw [hxs, List.cons_append] at hs ⊢
      rw [Template.parts?_bare hkind, hs, Except.toOption, Option.bind_some, ih, Option.map_some,
        hfree, ← hpart]
      rfl
    | wildcard star run =>
      obtain ⟨hrest, hfree, hpart⟩ := wildcard_item o free hi hp
      have hread : Template.parts? o free (star :: (run ++ r)) = _ := Template.parts?_wildcard hi.1
      rw [hrest, hfree, ih, Option.map_some, ← hpart] at hread
      exact hread
    | group b =>
      have hb : b.IsProper := hi
      have hmodifier : b.modifier = none → ∀ y ∈ r.head?, y.kind.modifier? = none := by
        intro hnone y hy
        refine h.modifier?_head y hy fun hk => ?_
        obtain ⟨star, run, is', rfl⟩ := h.wildcard_of_asterisk hy hk
        exact habsorbs _ rfl hnone
      obtain ⟨s, hs, rfl, hfree, hpart⟩ := group?_item o free hb hfull hmodifier
      have hlexemes : (Item.group b).lexemes ++ s.rest =
          b.opening :: (b.inside ++ b.closing :: (b.modifier.toList ++ s.rest)) := by
        simp [Item.lexemes, Braced.lexemes]
      rw [hlexemes, Template.parts?_group hb.opening, hs, Except.toOption, Option.bind_some, ih,
        Option.map_some, hfree, ← hpart]
      rfl

end

end PathTemplate
