import PathTemplate.Proofs.Template.Item

/-!
# The grammar of templates

* `Item.Writes`, `Item.fields` — what is written in an item, and the fields of a part where it is;
* `Item.writes_part`, `parts?_of_derives`, `exists_derives` — the part of an item has what is
  written in it, and parts are read only where there are items;
* `exists_isGreedy` — where there are items, there are greedy ones;
* `Template.parse_iff_derives` — a template text is accepted if and only if its lexemes are made
  of items, and nothing that is written in it gets lost.
-/

namespace PathTemplate

namespace Lexeme

/-- The lexeme stands for something that is written out: literal text, a name or a pattern. -/
def isWritten (x : Lexeme) : Bool := x.isText || x.kind = .name || x.kind = .pattern

/-- All that is written out. -/
def written (xs : List Lexeme) : Text := (xs.filter isWritten).flatMap value

/-- The lexemes end, and only the last one is an end. -/
def EndsOnce : List Lexeme → Prop
  | [] => False
  | x :: xs => if x.kind = .finish then xs = [] else EndsOnce xs

end Lexeme

open Lexeme (text afterText take? takeModifier continuesName written EndsOnce)

namespace Item

/-- The part has what is written in the item; `f` is what becomes of literal text. -/
def Writes (f : Text → Text) : Item → Part → Prop
  | text run, .text t => t = f (run.flatMap Lexeme.value)
  | bare name pattern modifier, .param p =>
    p.before = [] ∧ p.after = [] ∧ (∀ x ∈ name, p.name = x.value) ∧
    p.pattern = pattern.map Lexeme.value ∧
      p.modifier = modifier.bind fun x => x.kind.modifier?
  | wildcard _ run, .param p =>
    p.before = [] ∧ p.after = [] ∧ (run ≠ [] → p.name = run.flatMap Lexeme.value) ∧
    p.modifier = some .zeroOrMore
  | group b, .param p =>
    p.before = f (b.before.flatMap Lexeme.value) ∧ p.after = f (b.after.flatMap Lexeme.value) ∧
      (∀ x ∈ b.name, p.name = x.value) ∧ (b.name = none → b.pattern = none → p.name = []) ∧
      p.pattern = b.pattern.map Lexeme.value ∧
      (∀ s ∈ b.separator, p.separator = some (f (s.2.flatMap Lexeme.value))) ∧
      p.modifier = b.modifier.bind fun x => x.kind.modifier?
  | _, _ => False

/-- The fields of a part that are written in the item, in order; all others are generated. -/
def fields : Item → Part → List Text
  | text _, .text t => [t]
  | bare name pattern _, .param p =>
    (if name.isSome then [p.name] else []) ++ (if pattern.isSome then p.pattern.toList else [])
  | wildcard _ run, .param p => if run = [] then [] else [p.name]
  | group b, .param p =>
    [p.before] ++ (if b.name.isSome then [p.name] else []) ++
    (if b.pattern.isSome then p.pattern.toList else []) ++
      [p.after] ++ (if b.separator.isSome then p.separator.toList else [])
  | _, _ => []

end Item

section

variable {o : ParseOptions} {free : Nat} {i : Item} {is : List Item} {xs r : List Lexeme}
  {x : Lexeme}

/-! ### what is read where there are items -/

/-- The part of an item has what is written in it. -/
theorem Item.writes_part (o : ParseOptions) (free : Nat) (i : Item) :
    i.Writes o.encodePath.apply (i.part o free) := by
  cases i with
  | text run => rfl
  | bare name pattern modifier => exact ⟨rfl, rfl, by rintro x ⟨⟩; rfl, rfl, rfl⟩
  | wildcard star run => exact ⟨rfl, rfl, fun hne => by simp [hne, Template.nameOr], rfl⟩
  | group b =>
    refine ⟨rfl, rfl, fun x hx => ?_, fun hnone hnone' => ?_, rfl, fun s hs => ?_, rfl⟩
    · simp [Option.mem_def.1 hx, Template.nameOr]
    · simp [hnone, hnone']
    · simp [Option.mem_def.1 hs]

theorem forall₂_writes_parts (o : ParseOptions) (free : Nat) (is : List Item) :
    List.Forall₂ (Item.Writes o.encodePath.apply) is (Item.parts o free is) := by
  induction is generalizing free with
  | nil => exact .nil
  | cons i is ih => exact .cons (i.writes_part o free) (ih _)

variable (o free) in
/-- The parts that are read have what is written in the items, one by one. -/
theorem parts?_of_derives (h : Derives is xs) (hg : IsGreedy is) :
    ∃ ps, Template.parts? o free xs = some ps ∧
      List.Forall₂ (Item.Writes o.encodePath.apply) is ps :=
  ⟨_, parts?_eq_of_derives o free h hg, forall₂_writes_parts o free is⟩

/-! ### items where something is read -/

theorem endsOnce_append_iff (hx : ∀ x ∈ xs, x.kind ≠ .finish) :
    EndsOnce (xs ++ r) ↔ EndsOnce r := by
  induction xs with
  | nil => rfl
  | cons x xs ih =>
    rw [List.cons_append, EndsOnce, if_neg (hx x (by simp)),
      ih fun y hy => hx y (List.mem_cons_of_mem x hy)]

/-- No item has an end. -/
theorem Item.IsProper.kind_ne_finish (hi : i.IsProper) : ∀ x ∈ i.lexemes, x.kind ≠ .finish := by
  have htext : ∀ {x : Lexeme}, x.isText = true → x.kind ≠ .finish := by
    intro x hx hk
    simp [Lexeme.isText, hk] at hx
  intro x hx hk
  cases i with
  | text run => exact htext (hi.2 x hx) hk
  | bare name pattern modifier =>
    obtain ⟨-, hname, hpattern, hmodifier⟩ := hi
    simp only [Item.lexemes, List.mem_append, Option.mem_toList] at hx
    rcases hx with hx | hx | hx
    · simp [hname x hx] at hk
    · simp [hpattern x hx] at hk
    · rcases hmodifier x hx with h | h <;> simp [h] at hk
  | wildcard star run =>
    rcases List.mem_cons.1 hx with rfl | hx
    · simp [hi.1] at hk
    · have hrun := hi.2 x hx
      simp [continuesName, hk] at hrun
  | group b =>
    have hb : b.IsProper := hi
    have hseparator : x ∉ b.separatorLexemes := by
      intro hx
      unfold Braced.separatorLexemes at hx
      cases hs : b.separator with
      | none => simp [hs] at hx
      | some s =>
        obtain ⟨hk', hrun⟩ := hb.separator s hs
        rw [hs] at hx
        rcases List.mem_cons.1 hx with rfl | hx
        · simp [hk'] at hk
        · exact htext (hrun x hx) hk
    simp only [Item.lexemes, Braced.lexemes, Braced.inside, List.mem_cons, List.mem_append,
      Option.mem_toList] at hx
    rcases hx with rfl | (hx | hx | hx | hx | hx) | rfl | hx
    · simp [hb.opening] at hk
    · exact htext (hb.before x hx) hk
    · simp [hb.name x hx] at hk
    · simp [hb.pattern x hx] at hk
    · exact htext (hb.after x hx) hk
    · exact hseparator hx
    · simp [hb.closing] at hk
    · exact hb.modifier x hx (by simp [hk, Lexeme.Kind.modifier?])

theorem exists_take? (k : Lexeme.Kind) (xs : List Lexeme) :
    ∃ n : Option Lexeme, xs = n.toList ++ (take? k xs).2 ∧ (take? k xs).1 = n.map Lexeme.value ∧
      ∀ x ∈ n, x.kind = k := by
  cases xs with
  | nil => exact ⟨none, rfl, rfl, by simp⟩
  | cons x xs =>
    by_cases hx : x.kind = k
    · exact ⟨some x, by simp [take?, hx], by simp [take?, hx], by simpa using hx⟩
    · exact ⟨none, by simp [take?, hx], by simp [take?, hx], by simp⟩

theorem exists_takeModifier (xs : List Lexeme) :
    ∃ m : Option Lexeme, xs = m.toList ++ (takeModifier xs).2 ∧
      ∀ x ∈ m, x.kind.modifier? ≠ none := by
  cases xs with
  | nil => exact ⟨none, rfl, by simp⟩
  | cons x xs =>
    cases hx : x.kind.modifier? with
    | none => exact ⟨none, by simp [takeModifier, hx], by simp⟩
    | some m => exact ⟨some x, by simp [takeModifier, hx], by simp [hx]⟩

theorem exists_bare {s : Template.Step} (hx : x.kind = .name ∨ x.kind = .pattern)
    (h : Template.bare? o free (x :: xs) = .ok s) :
    ∃ i : Item, i.IsProper ∧ i.Precedes s.rest ∧ x :: xs = i.lexemes ++ s.rest := by
  obtain ⟨name, hname, -, hnkind⟩ := exists_take? .name (x :: xs)
  obtain ⟨pattern, hpattern, -, hpkind⟩ := exists_take? .pattern (take? .name (x :: xs)).2
  have hsome : name ≠ none ∨ pattern ≠ none := by
    by_contra hnone
    rw [not_or, not_not, not_not] at hnone
    obtain ⟨rfl, rfl⟩ := hnone
    rcases hx with hx | hx <;> simp [take?, hx] at hname hpattern
  unfold Template.bare? at h
  simp only at h
  have hall : x :: xs =
      name.toList ++ (pattern.toList ++ (take? .pattern (take? .name (x :: xs)).2).2) := by
    rw [← hpattern, ← hname]
  split at h
  · rename_i y rest hrest
    rw [hrest] at hall
    split at h
    · cases h
    · rename_i hy
      cases h
      exact ⟨.bare name pattern (some y), ⟨hsome, hnkind, hpkind, by simpa using .inl hy⟩,
          trivial, by
        simpa [Item.lexemes] using hall⟩
    · rename_i hy
      cases h
      exact ⟨.bare name pattern (some y), ⟨hsome, hnkind, hpkind, by simpa using .inr hy⟩,
          trivial, by
        simpa [Item.lexemes] using hall⟩
    · rename_i hy _ _
      cases h
      exact ⟨.bare name pattern none, ⟨hsome, hnkind, hpkind, by simp⟩, by
          simpa [Item.Precedes] using hy, by
        simpa [Item.lexemes] using hall⟩
  · rename_i hrest
    cases h
    rw [hrest] at hall
    exact ⟨.bare name pattern none, ⟨hsome, hnkind, hpkind, by simp⟩, by simp [Item.Precedes], by
      simpa [Item.lexemes] using hall⟩

theorem takeWhile_isText_append (xs : List Lexeme) :
    xs = xs.takeWhile Lexeme.isText ++ afterText xs :=
  (List.takeWhile_append_dropWhile).symm

theorem isText_of_mem_takeWhile : x ∈ xs.takeWhile Lexeme.isText → x.isText = true :=
  fun hx => List.mem_takeWhile_imp hx

theorem exists_group {s : Template.Step} (hx : x.kind = .opening)
    (h : Template.group? o free xs = .ok s) :
    ∃ b : Braced, b.IsProper ∧ x :: xs = b.lexemes ++ s.rest := by
  obtain ⟨name, hname, -, hnkind⟩ := exists_take? .name (afterText xs)
  obtain ⟨pattern, hpattern, -, hpkind⟩ := exists_take? .pattern (take? .name (afterText xs)).2
  unfold Template.group? at h
  simp only at h
  generalize hr₁ : (take? .pattern (take? .name (afterText xs)).2).2 = r₁ at hpattern h
  obtain ⟨semicolon, hsemicolon, hwritten, hskind⟩ := exists_take? .semicolon (afterText r₁)
  generalize take? .semicolon (afterText r₁) = p at hsemicolon hwritten h
  obtain ⟨v, r₂⟩ := p
  simp only at hsemicolon hwritten h
  have hxs : xs =
      xs.takeWhile Lexeme.isText ++
        (name.toList ++
          (pattern.toList ++ (r₁.takeWhile Lexeme.isText ++ (semicolon.toList ++ r₂)))) := by
    rw [← hsemicolon, ← takeWhile_isText_append r₁, ← hpattern, ← hname]
    exact takeWhile_isText_append xs
  have hapart : name = none → pattern = none → r₁.takeWhile Lexeme.isText = [] := by
    rintro rfl rfl
    rw [Option.toList_none, List.nil_append] at hname hpattern
    have hhead := Template.isText_head_afterText xs
    rw [hname, hpattern] at hhead
    cases r₁ with
    | nil => rfl
    | cons y r₁ => simp [hhead y rfl]
  -- the separator, up to the closing brace
  obtain ⟨separator, hseparator, hsplit⟩ : ∃ separator : Option (Lexeme × List Lexeme),
      (∀ s ∈ separator, s.1.kind = .semicolon ∧ ∀ x ∈ s.2, x.isText = true) ∧
      semicolon.toList ++ r₂ =
        separator.elim [] (fun s => s.1 :: s.2) ++ (if v.isSome then afterText r₂ else r₂) := by
    cases semicolon with
    | none => exact ⟨none, by simp, by simp [hwritten]⟩
    | some x =>
      refine ⟨some (x, r₂.takeWhile Lexeme.isText), ?_, ?_⟩
      · rintro s ⟨⟩
        exact ⟨hskind x rfl, fun y hy => isText_of_mem_takeWhile hy⟩
      · simp [hwritten, ← takeWhile_isText_append]
  rw [hsplit] at hxs
  split at h
  · cases h
  · rename_i y rest hrest
    rw [hrest] at hxs
    split at h
    · cases h
    · rename_i hy
      cases h
      obtain ⟨modifier, hmodifier, hmkind⟩ := exists_takeModifier rest
      refine ⟨⟨x, xs.takeWhile Lexeme.isText, name, pattern, r₁.takeWhile Lexeme.isText, separator,
          y, modifier⟩, ⟨hx, fun y hy => isText_of_mem_takeWhile hy, hnkind, hpkind,
          fun y hy => isText_of_mem_takeWhile hy, fun h₁ h₂ => .inr (hapart h₁ h₂), hseparator,
          by simpa using hy, hmkind⟩, ?_⟩
      conv_lhs => rw [hxs, hmodifier]
      simp [Braced.lexemes, Braced.inside, Braced.separatorLexemes]

theorem exists_derives {ps : List Part} (hend : EndsOnce xs)
    (h : Template.parts? o free xs = some ps) : ∃ is, Derives is xs := by
  have step : ∀ {i : Item} {xs r : List Lexeme}, i.IsProper → i.Precedes r → xs = i.lexemes ++ r →
      EndsOnce xs → (EndsOnce r → ∃ is, Derives is r) → ∃ is, Derives is xs := by
    rintro i _ r hi hp rfl hend ih
    obtain ⟨is, his⟩ := ih ((endsOnce_append_iff hi.kind_ne_finish).1 hend)
    exact ⟨i :: is, .cons hi hp his⟩
  have hread := Template.areRead_of_partsFrom (toOption_eq_some_iff.1 h)
  clear h
  induction hread with
  | nil => exact hend.elim
  | finish hx =>
    rw [EndsOnce, if_pos hx] at hend
    exact ⟨[], hend ▸ .finish hx⟩
  | @text _ x xs _ hx _ ih =>
    exact step (i := .text ((x :: xs).takeWhile Lexeme.isText))
      ⟨by simp [hx], fun y hy => isText_of_mem_takeWhile hy⟩ (Template.isText_head_afterText _)
      (takeWhile_isText_append _) hend ih
  | param hs _ ih =>
    cases hs with
    | bare hx hs =>
      obtain ⟨i, hi, hp, hxs⟩ := exists_bare hx hs
      exact step hi hp hxs hend ih
    | @wildcard x xs hx =>
      refine step (i := .wildcard x (xs.takeWhile continuesName))
        ⟨hx, fun y hy => List.mem_takeWhile_imp hy⟩ ?_ ?_ hend ih
      · intro y hy
        have hhead := List.head?_dropWhile_not continuesName xs
        rw [show (xs.dropWhile continuesName).head? = some y from hy] at hhead
        simpa using hhead
      · exact congrArg (x :: ·) List.takeWhile_append_dropWhile.symm
    | group hx hs =>
      obtain ⟨b, hb, hxs⟩ := exists_group hx hs
      exact step (i := .group b) hb trivial hxs hend ih

/-! ### greedy items -/

/-- Literal text between braces can be read as early as possible. -/
theorem Item.IsProper.exists_isFull (hi : i.IsProper) :
    ∃ j : Item, j.IsProper ∧ j.IsFull ∧ j.lexemes = i.lexemes ∧
      ∀ r, i.Precedes r → j.Precedes r := by
  by_cases hfull : i.IsFull
  · exact ⟨i, hi, hfull, rfl, fun _ h => h⟩
  cases i with
  | text run => exact absurd trivial hfull
  | bare name pattern modifier => exact absurd trivial hfull
  | wildcard star run => exact absurd trivial hfull
  | group b =>
    have hb : b.IsProper := hi
    simp only [IsFull, Classical.not_imp] at hfull
    obtain ⟨hname, hpattern, hafter⟩ := hfull
    have hbefore := (hb.apart hname hpattern).resolve_right hafter
    refine ⟨.group { b with before := b.after, after := [] }, ⟨hb.opening, hb.after, hb.name,
        hb.pattern, by simp, fun _ _ => .inr rfl, hb.separator, hb.closing, hb.modifier⟩,
      fun _ _ => rfl, ?_, fun _ _ => trivial⟩
    simp [lexemes, Braced.lexemes, Braced.inside, Braced.separatorLexemes, hname, hpattern, hbefore]

/-- Literal text can be put before items. -/
theorem exists_derives_append (h : Derives is r) (hg : IsGreedy is)
    (hx : ∀ x ∈ xs, x.isText = true) : ∃ is', Derives is' (xs ++ r) ∧ IsGreedy is' := by
  by_cases hnil : xs = []
  · exact ⟨is, by rwa [hnil], hg⟩
  by_cases hfirst : ∃ run is', is = .text run :: is'
  · obtain ⟨run, is', rfl⟩ := hfirst
    obtain _ | ⟨hi, hp, h⟩ := h
    refine ⟨.text (xs ++ run) :: is', ?_, trivial, fun j _ => by cases j <;> simp [Item.Absorbs],
      hg.2.2⟩
    have hcons := Derives.cons (i := .text (xs ++ run))
      ⟨by simp [hnil], fun x hx' => (List.mem_append.1 hx').elim (hx x) (hi.2 x)⟩ hp h
    simpa [Item.lexemes] using hcons
  · refine ⟨.text xs :: is, .cons ⟨hnil, hx⟩ (fun y hy => ?_) h, trivial,
      fun j _ => by cases j <;> simp [Item.Absorbs], hg⟩
    rcases h.head y hy with ⟨hk, -⟩ | ⟨i, is', rfl, -, hopens⟩
    · simp [Lexeme.isText, hk]
    · cases i with
      | text run => exact absurd ⟨run, is', rfl⟩ hfirst
      | bare name pattern modifier =>
        cases name <;> simp [Lexeme.isText, show y.kind = _ from hopens]
      | wildcard star run => simp [Lexeme.isText, show y.kind = _ from hopens]
      | group b => simp [Lexeme.isText, show y.kind = _ from hopens]

theorem exists_isGreedy (h : Derives is xs) : ∃ is', Derives is' xs ∧ IsGreedy is' := by
  induction h with
  | finish hx => exact ⟨[], .finish hx, trivial⟩
  | @cons i is r hi hp h ih =>
    obtain ⟨is', h', hg⟩ := ih
    obtain ⟨j, hj, hfull, hlexemes, hprecedes⟩ := hi.exists_isFull
    rw [← hlexemes]
    replace hp := hprecedes r hp
    by_cases habsorbs : ∃ k is'', is' = k :: is'' ∧ j.Absorbs k
    swap
    · refine ⟨j :: is', .cons hj hp h', hfull,
        fun k hk => fun hjk => habsorbs ⟨k, is'.tail, ?_, hjk⟩, hg⟩
      exact List.eq_cons_of_mem_head? hk
    -- the next item is read as a missing piece of this one
    obtain ⟨k, is'', rfl, hjk⟩ := habsorbs
    obtain _ | @⟨_, _, r, hk, hkp, h'⟩ := h'
    unfold Item.Absorbs at hjk
    split at hjk
    · rename_i n p m
      refine ⟨.bare (some n) (some p) m :: is'', ?_, trivial, fun l _ => by simp [Item.Absorbs],
        hg.2.2⟩
      have hcons := Derives.cons (i := .bare (some n) (some p) m)
        ⟨by simp, hj.2.1, hk.2.2.1, hk.2.2.2⟩ (by cases m <;> exact hkp) h'
      simpa [Item.lexemes] using hcons
    · rename_i b star run
      have hb : b.IsProper := hj
      obtain ⟨is₃, h₃, hg₃⟩ := exists_derives_append h' hg.2.2 fun x hx => by
        have hrun := hk.2 x hx
        simp only [continuesName, Bool.and_eq_true, decide_eq_true_eq] at hrun
        simp [Lexeme.isText, hrun.1]
      refine ⟨.group { b with modifier := some star } :: is₃, ?_, hfull,
        fun l _ => by cases l <;> simp [Item.Absorbs], hg₃⟩
      have hcons := Derives.cons (i := .group { b with modifier := some star })
        ⟨hb.opening, hb.before, hb.name, hb.pattern, hb.after, hb.apart, hb.separator,
          hb.closing, by
          rintro x ⟨⟩
          simp [hk.1, Lexeme.Kind.modifier?]⟩ trivial h₃
      simpa [Item.lexemes, Braced.lexemes, Braced.inside, Braced.separatorLexemes, hjk] using hcons
    · exact hjk.elim

/-! ### nothing gets lost -/

theorem written_append (xs ys : List Lexeme) : written (xs ++ ys) = written xs ++ written ys := by
  simp [written]

theorem written_cons (x : Lexeme) (xs : List Lexeme) :
    written (x :: xs) = (if x.isWritten then x.value else []) ++ written xs := by
  cases hx : x.isWritten <;> simp [written, hx]

theorem written_text (hx : ∀ x ∈ xs, x.isText = true) : written xs = xs.flatMap Lexeme.value := by
  rw [written, List.filter_eq_self.2 fun x hx' => by simp [Lexeme.isWritten, hx x hx']]

/-- A lexeme that may be there is written out, if it is a name or a pattern. -/
theorem written_toList {n : Option Lexeme} {k : Lexeme.Kind} (hn : ∀ x ∈ n, x.kind = k)
    (hk : k = .name ∨ k = .pattern) : written n.toList = (n.map Lexeme.value).getD [] := by
  cases n with
  | none => rfl
  | some x => rcases hk with rfl | rfl <;> simp [Lexeme.isWritten, hn x rfl, written]

theorem written_modifier {m : Option Lexeme} (hm : ∀ x ∈ m, x.kind.modifier? ≠ none) :
    written m.toList = [] := by
  cases m with
  | none => rfl
  | some x =>
    have hx := hm x rfl
    cases hk : x.kind <;> simp [hk, Lexeme.Kind.modifier?] at hx <;>
      simp [Lexeme.isWritten, Lexeme.isText, hk, written]

/-- The fields of a part that are written in its item are what is written out there. -/
theorem Item.IsProper.flatten_fields {part : Part} (hi : i.IsProper) (h : i.Writes id part) :
    (i.fields part).flatten = written i.lexemes := by
  cases i with
  | text run =>
    cases part with
    | param p => exact h.elim
    | text t =>
      obtain rfl : t = run.flatMap Lexeme.value := h
      simp [fields, lexemes, written_text hi.2]
  | bare name pattern modifier =>
    cases part with
    | text t => exact h.elim
    | param p =>
      obtain ⟨-, -, hname, hpattern, -⟩ := h
      obtain ⟨-, hn, hp, hm⟩ := hi
      have hm' : ∀ x ∈ modifier, x.kind.modifier? ≠ none := by
        intro x hx
        rcases hm x hx with hk | hk <;> simp [hk, Lexeme.Kind.modifier?]
      rw [lexemes, written_append, written_append, written_toList hn (.inl rfl),
        written_toList hp (.inr rfl), written_modifier hm', fields, hpattern]
      cases name <;> cases pattern <;> simp [hname]
  | wildcard star run =>
    cases part with
    | text t => exact h.elim
    | param p =>
      obtain ⟨-, -, hname, -⟩ := h
      have hrun : ∀ x ∈ run, x.isText = true := fun x hx => by
        have := hi.2 x hx
        simp only [continuesName, Bool.and_eq_true, decide_eq_true_eq] at this
        simp [Lexeme.isText, this.1]
      rw [lexemes, written_cons, written_text hrun, fields]
      by_cases hnil : run = []
      · simp [hnil, Lexeme.isWritten, Lexeme.isText, hi.1]
      · simp [hnil, hname hnil, Lexeme.isWritten, Lexeme.isText, hi.1]
  | group b =>
    cases part with
    | text t => exact h.elim
    | param p =>
      obtain ⟨hbefore, hafter, hname, -, hpattern, hseparator, -⟩ := h
      have hb : b.IsProper := hi
      have hseparator' : written b.separatorLexemes =
          (b.separator.map fun s => s.2.flatMap Lexeme.value).getD [] := by
        unfold Braced.separatorLexemes
        cases hs : b.separator with
        | none => rfl
        | some s =>
          obtain ⟨hk, hrun⟩ := hb.separator s hs
          simp [written_cons, written_text hrun, Lexeme.isWritten, Lexeme.isText, hk]
      have hbrace : b.opening.isWritten = false ∧ b.closing.isWritten = false := by
        simp [Lexeme.isWritten, Lexeme.isText, hb.opening, hb.closing]
      simp only [lexemes, Braced.lexemes, Braced.inside, written_cons, written_append,
        written_text hb.before, written_toList hb.name (.inl rfl),
        written_toList hb.pattern (.inr rfl), written_text hb.after, hseparator',
        written_modifier hb.modifier, hbrace, fields, hbefore, hafter, hpattern]
      cases hn : b.name <;> cases hs : b.separator <;> cases b.pattern <;>
        simp [hname, hseparator, hn, hs]

theorem flatten_fields_of_derives (h : Derives is xs) {ps : List Part}
    (hps : List.Forall₂ (Item.Writes id) is ps) :
    (List.zipWith Item.fields is ps).flatten.flatten = written xs := by
  induction h generalizing ps with
  | finish hx =>
    cases hps
    simp [written, Lexeme.isWritten, Lexeme.isText, hx]
  | cons hi hp h ih =>
    obtain _ | ⟨hpart, hps⟩ := hps
    rw [List.zipWith_cons_cons, List.flatten_cons, List.flatten_append, hi.flatten_fields hpart,
      ih hps, written_append]

/-! ### template texts -/

theorem Lexeme.kind_ne_finish_of_next {index : Nat} {c : Char} {rest after : Text}
    (h : next index c rest = .ok (x, after)) : x.kind ≠ .finish := by
  unfold next at h
  split at h
  · rename_i hk
    cases h
    rintro rfl
    unfold Kind.ofMark? at hk
    split at hk <;> cases hk
  · split at h
    · cases h
    · cases h
      simp
    · split at h
      · cases h
      · cases h
      · cases h
        simp
    · split at h
      · cases h
      · cases h
        simp
    · cases h
    · split at h
      · cases h
      · cases h
      · cases h
        simp
    · cases h
      simp

theorem Lexeme.endsOnce_of_scan {index : Nat} {t : Text} (h : scan index t = .ok xs) :
    EndsOnce xs := by
  induction hn : t.length using Nat.strongRecOn generalizing index t xs with
  | _ n ih =>
    cases t with
    | nil =>
      rw [scan] at h
      cases h
      simp [EndsOnce]
    | cons c rest =>
      rw [scan] at h
      split at h
      · cases h
      · rename_i x after hnext
        obtain ⟨ys, hys, rfl⟩ := exists_of_map_eq_ok h
        have hlen := length_of_next hnext
        rw [EndsOnce, if_neg (kind_ne_finish_of_next hnext)]
        exact ih after.length (by simp only [List.length_cons] at hn; omega) hys rfl

/-- A template text is accepted if and only if its lexemes are made of items.  The parts that are
read are then those of the items, when these are taken to be greedy, and what is written in the
parts is what is written out in the lexemes. -/
theorem Template.parse_iff_derives {t : Text} (hxs : Lexeme.ofText t = .ok xs) :
    ((∃ d, parse o t = .ok d) ↔ ∃ is, Derives is xs) ∧
    ∀ d, parse o t = .ok d →
      (∃ is, Derives is xs ∧ IsGreedy is) ∧
        ∀ is, Derives is xs → IsGreedy is →
          List.Forall₂ (Item.Writes o.encodePath.apply) is d.parts ∧
            ((∀ t, o.encodePath.apply t = t) →
              (List.zipWith Item.fields is d.parts).flatten.flatten = written xs) := by
  have hparse : ∀ d, parse o t = .ok d ↔ ∃ ps, parts? o 0 xs = some ps ∧ d = ⟨ps, o.delimiter⟩ := by
    intro d
    simp only [parse, hxs, parts?]
    cases partsFrom o 0 xs with
    | error e => simp [Except.map, Except.toOption]
    | ok ps => simp [Except.map, Except.toOption, eq_comm]
  have hderives : ∀ d, parse o t = .ok d → ∃ is, Derives is xs := by
    intro d hd
    obtain ⟨ps, hps, -⟩ := (hparse d).1 hd
    exact exists_derives (Lexeme.endsOnce_of_scan hxs) hps
  refine ⟨⟨?_, ?_⟩, fun d hd => ⟨?_, fun is his hg => ?_⟩⟩
  · rintro ⟨d, hd⟩
    exact hderives d hd
  · rintro ⟨is, his⟩
    obtain ⟨is', his', hg⟩ := exists_isGreedy his
    obtain ⟨ps, hps, -⟩ := parts?_of_derives o 0 his' hg
    exact ⟨_, (hparse _).2 ⟨ps, hps, rfl⟩⟩
  · obtain ⟨is, his⟩ := hderives d hd
    exact exists_isGreedy his
  · obtain ⟨ps, hps, hwrites⟩ := parts?_of_derives o 0 his hg
    obtain ⟨ps', hps', rfl⟩ := (hparse d).1 hd
    obtain rfl : ps = ps' := Option.some.inj (hps.symm.trans hps')
    refine ⟨hwrites, fun hid => flatten_fields_of_derives his ?_⟩
    rwa [show o.encodePath.apply = id from funext hid] at hwrites

theorem Template.parse_derives_files :
    ∃ xs d is, Lexeme.ofText "/:a(b)?\x7bc:d;-\x7d*e*f".toList = .ok xs ∧
      parse {} "/:a(b)?\x7bc:d;-\x7d*e*f".toList = .ok d ∧ Derives is xs ∧ IsGreedy is ∧
      List.Forall₂ (Item.Writes id) is d.parts ∧
      (List.zipWith Item.fields is d.parts).flatten.flatten = "/abcd-ef".toList := by
  obtain ⟨xs, hxs⟩ := exists_ok_of_isSome (x := Lexeme.ofText "/:a(b)?\x7bc:d;-\x7d*e*f".toList)
    (by decide +kernel)
  obtain ⟨d, hd⟩ := exists_ok_of_isSome (x := parse {} "/:a(b)?\x7bc:d;-\x7d*e*f".toList)
    (by decide +kernel)
  have hwritten : (Lexeme.ofText "/:a(b)?\x7bc:d;-\x7d*e*f".toList).toOption.map written =
      some "/abcd-ef".toList := by
    decide +kernel
  rw [hxs] at hwritten
  obtain ⟨-, hparts⟩ := parse_iff_derives (o := {}) hxs
  obtain ⟨⟨is, his, hg⟩, hall⟩ := hparts d hd
  obtain ⟨hwrites, hfields⟩ := hall is his hg
  exact ⟨xs, d, is, hxs, hd, his, hg, hwrites,
    (hfields fun _ => rfl).trans (Option.some.inj hwritten)⟩

end

end PathTemplate