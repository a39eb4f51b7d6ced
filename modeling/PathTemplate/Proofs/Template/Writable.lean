import PathTemplate.Proofs.Template.Parts

/-!
# What a template text can say

* `Param.IsWritable`, `Template.AreWritable` — no empty text, no two texts in a row, and
  parameters that can be written; `Template.areWritable_iff` says so of all parts at once;
* `Lexeme.IsSound` — what the value of a lexeme is like;
* `Template.areWritable_of_parse` — the parts that are read from a text can be written;
* `Lexeme.IsPatternless`, `Template.pattern_of_isPatternless` — which patterns parameters have if
  none is written out.
-/

namespace PathTemplate

open Unicode (isIdentifier)

/-- The parameter can be written. -/
structure Param.IsWritable (p : Param) : Prop where
  unnamed : p.name = [] → p.pattern = none ∧ p.after = []
  pattern : ∀ q ∈ p.pattern, Lexeme.IsPattern q
  separator : p.isRepeating = true → p.separator.isSome = true

/-- The parts can be written: texts are not empty and do not touch, and so on. -/
def Template.AreWritable : List Part → Prop
  | [] => True
  | .text t :: rest => t ≠ [] ∧ (∀ p ∈ rest.head?, p.param?.isSome) ∧ AreWritable rest
  | .param p :: rest => p.IsWritable ∧ AreWritable rest

theorem Template.areWritable_iff {ps : List Part} :
    AreWritable ps ↔
    .text [] ∉ ps ∧ ps.IsChain (fun x y => x.param?.isSome = true ∨ y.param?.isSome = true) ∧
      ∀ p, .param p ∈ ps → p.IsWritable := by
  induction ps with
  | nil => simp [AreWritable]
  | cons x rest ih =>
    cases x with
    | text t =>
      simp only [AreWritable, ih, List.isChain_cons, Part.param?, Option.isSome_none,
        Bool.false_eq_true, false_or, List.mem_cons, Part.text.injEq, reduceCtorEq, not_or]
      constructor
      · rintro ⟨ht, hhead, htext, hchain, hparam⟩
        exact ⟨⟨ht.symm, htext⟩, ⟨hhead, hchain⟩, hparam⟩
      · rintro ⟨⟨ht, htext⟩, ⟨hhead, hchain⟩, hparam⟩
        exact ⟨Ne.symm ht, hhead, htext, hchain, hparam⟩
    | param p =>
      simp only [AreWritable, ih, List.isChain_cons, Part.param?, Option.isSome_some, true_or,
        implies_true, true_and, List.mem_cons, Part.param.injEq, reduceCtorEq, false_or,
        forall_eq_or_imp]
      constructor
      · rintro ⟨hp, htext, hchain, hparam⟩
        exact ⟨htext, hchain, hp, hparam⟩
      · rintro ⟨htext, hchain, hp, hparam⟩
        exact ⟨hp, htext, hchain, hparam⟩

namespace Lexeme

/-! ### the values of lexemes -/

/-- The value of a lexeme is not empty if it is literal text or a name, and a pattern stands for
itself. -/
structure IsSound (x : Lexeme) : Prop where
  text : x.isText = true → x.value ≠ []
  name : x.kind = .name → x.value ≠ []
  pattern : x.kind = .pattern → IsPattern x.value

theorem isSound_mark {c : Char} {k : Kind} (h : Kind.ofMark? c = some k) (i : Nat) (v : Text) :
    IsSound ⟨k, i, v⟩ := by
  unfold Kind.ofMark? at h
  split at h <;> cases h <;> exact ⟨by simp [isText], by simp, by simp⟩

theorem isPattern_of_patternBody {s i : Nat} {t p after : Text}
    (h : patternBody s 0 i t = .ok (p, after)) (hp : p ≠ []) (ht : t.head? ≠ some '?') :
    IsPattern p := by
  obtain ⟨rfl, hbody⟩ := body?_eq_some h
  refine ⟨hp, ?_, hbody⟩
  obtain ⟨c, p, rfl⟩ := List.exists_cons_of_ne_nil hp
  simpa using ht

theorem isSound_next {c : Char} {rest after : Text} {x : Lexeme}
    (h : next 0 c rest = .ok (x, after)) : x.IsSound := by
  unfold next at h
  split at h
  · rename_i hk
    cases h
    exact isSound_mark hk _ _
  · split at h
    · cases h
    · cases h
      exact ⟨by simp, by simp, by simp⟩
    · split at h
      · cases h
      · cases h
      · rename_i hne _
        cases h
        exact ⟨by simp [isText], fun _ => hne, by simp⟩
    · split at h
      · cases h
      · rename_i hne
        cases h
        exact ⟨by simp [isText], by simpa using hne, by simp⟩
    · cases h
    · rename_i hq
      split at h
      · cases h
      · cases h
      · rename_i hne hb
        cases h
        refine ⟨by simp [isText], by simp, fun _ => isPattern_of_patternBody hb hne fun hh => ?_⟩
        exact (List.head?_eq_some_iff.1 hh).elim hq
    · cases h
      exact ⟨by simp, by simp, by simp⟩

theorem isSound_of_read? {t : Text} {xs : List Lexeme} (h : read? t = some xs) :
    ∀ x ∈ xs, x.IsSound := by
  induction hn : t.length using Nat.strongRecOn generalizing t xs with
  | _ n ih =>
    cases t with
    | nil =>
      cases read?_nil.symm.trans h
      simpa using ⟨by simp [isText], by simp, by simp⟩
    | cons c rest =>
      rw [read?_cons] at h
      obtain ⟨⟨x, after⟩, hx, h⟩ := Option.bind_eq_some_iff.1 h
      obtain ⟨ys, hys, rfl⟩ := Option.map_eq_some_iff.1 h
      have hx := toOption_eq_some_iff.1 hx
      have hlen := length_of_next hx
      have hs := isSound_next hx
      intro y hy
      rcases List.mem_cons.1 hy with rfl | hy
      · exact ⟨hs.text, hs.name, hs.pattern⟩
      · exact ih after.length (by simp only [List.length_cons] at hn; omega) hys rfl y hy

theorem isSound_of_ofText {t : Text} {xs : List Lexeme} (h : ofText t = .ok xs) :
    ∀ x ∈ xs, x.IsSound := by
  have hread : read? t = some (xs.map unplaced) := by simp [read?, h, Except.toOption]
  intro x hx
  have hs := isSound_of_read? hread _ (List.mem_map_of_mem hx)
  exact ⟨hs.text, hs.name, hs.pattern⟩

end Lexeme

namespace Template

open Lexeme (text afterText take? takeModifier continuesName)

/-! ### what is taken -/

theorem nameOr_ne_nil (free : Nat) {name : Option Text} (hn : ∀ n ∈ name, n ≠ []) :
    (nameOr free name).1 ≠ [] := by
  cases name with
  | none => exact Nat.toDigits_ne_nil
  | some n => exact hn n rfl

theorem afterText_subset (xs : List Lexeme) : afterText xs ⊆ xs := List.dropWhile_subset _

theorem take?_subset (k : Lexeme.Kind) (xs : List Lexeme) : (take? k xs).2 ⊆ xs := by
  cases xs with
  | nil => simp [take?]
  | cons x xs => by_cases hx : x.kind = k <;> simp [take?, hx]

theorem takeModifier_subset (xs : List Lexeme) : (takeModifier xs).2 ⊆ xs := by
  cases xs with
  | nil => simp [takeModifier]
  | cons x xs => cases h : x.kind.modifier? <;> simp [takeModifier, h]

theorem mem_of_take? {k : Lexeme.Kind} {xs : List Lexeme} {v : Text} (h : v ∈ (take? k xs).1) :
    ∃ x ∈ xs, x.kind = k ∧ x.value = v := by
  cases xs with
  | nil => cases h
  | cons x xs =>
    by_cases hx : x.kind = k
    · simp only [take?, if_pos hx] at h
      exact ⟨x, by simp, hx, Option.some.inj h⟩
    · simp [take?, hx] at h

theorem text_eq_nil {xs : List Lexeme} (h : ∀ x ∈ xs.head?, x.isText = false) : text xs = [] := by
  cases xs with
  | nil => rfl
  | cons x xs => simp [text, h x rfl]

section

variable {o : ParseOptions} {free : Nat} {xs : List Lexeme} {s : Step}

/-! ### what each form leaves, and its pattern -/

/-- A parameter outside braces has the pattern after its name; what follows are lexemes that were
there. -/
theorem rest_and_pattern_of_bare? (h : bare? o free xs = .ok s) :
    s.rest ⊆ xs ∧ s.param.pattern = (take? .pattern (take? .name xs).2).1 := by
  have hsub := List.Subset.trans (take?_subset .pattern (take? .name xs).2) (take?_subset .name xs)
  unfold bare? at h
  simp only at h
  split at h
  · rename_i y rest heq
    rw [heq] at hsub
    have hrest := List.Subset.trans (List.subset_cons_self y rest) hsub
    split at h <;> cases h
    · exact ⟨hrest, rfl⟩
    · exact ⟨hrest, rfl⟩
    · exact ⟨hsub, rfl⟩
  · cases h
    exact ⟨by simp, rfl⟩

theorem rest_of_wildcard (o : ParseOptions) (free : Nat) (xs : List Lexeme) :
    (wildcard o free xs).rest ⊆ xs :=
  List.dropWhile_subset _

/-- A group has the pattern after its name; what follows are lexemes that were there. -/
theorem rest_and_pattern_of_group? (h : group? o free xs = .ok s) :
    s.rest ⊆ xs ∧ s.param.pattern = (take? .pattern (take? .name (afterText xs)).2).1 := by
  have hsub : (take? .pattern (take? .name (afterText xs)).2).2 ⊆ xs :=
    List.Subset.trans (List.Subset.trans (take?_subset _ _) (take?_subset _ _)) (afterText_subset _)
  unfold group? at h
  simp only at h
  generalize take? .pattern (take? .name (afterText xs)).2 = q at *
  have hsub' : (take? .semicolon (afterText q.2)).2 ⊆ xs :=
    List.Subset.trans (List.Subset.trans (take?_subset _ _) (afterText_subset _)) hsub
  generalize take? .semicolon (afterText q.2) = r at *
  split at h
  · cases h
  · rename_i x rest heq
    have hrest : x :: rest ⊆ xs := by
      rw [← heq]
      split
      · exact List.Subset.trans (afterText_subset _) hsub'
      · exact hsub'
    split at h
    · cases h
    · cases h
      exact ⟨List.Subset.trans (takeModifier_subset rest)
          (List.Subset.trans (List.subset_cons_self x rest) hrest), rfl⟩

theorem exists_pattern_of_bare? (h : bare? o free xs = .ok s) :
    ∀ q ∈ s.param.pattern, ∃ x ∈ xs, x.kind = .pattern ∧ x.value = q := by
  intro q hq
  rw [(rest_and_pattern_of_bare? h).2] at hq
  obtain ⟨x, hx, hk⟩ := mem_of_take? hq
  exact ⟨x, take?_subset _ _ hx, hk⟩

theorem exists_pattern_of_group? (h : group? o free xs = .ok s) :
    ∀ q ∈ s.param.pattern, ∃ x ∈ xs, x.kind = .pattern ∧ x.value = q := by
  intro q hq
  rw [(rest_and_pattern_of_group? h).2] at hq
  obtain ⟨x, hx, hk⟩ := mem_of_take? hq
  exact ⟨x, afterText_subset _ (take?_subset _ _ hx), hk⟩

/-! ### each form can be written -/

theorem isWritable_bare? (hxs : ∀ x ∈ xs, x.IsSound) (h : bare? o free xs = .ok s) :
    s.param.IsWritable := by
  have hname : (nameOr free (take? .name xs).1).1 ≠ [] := by
    refine nameOr_ne_nil free fun n hn => ?_
    obtain ⟨y, hy, hk, rfl⟩ := mem_of_take? hn
    exact (hxs y hy).name hk
  have hpattern : ∀ q ∈ s.param.pattern, Lexeme.IsPattern q := by
    intro q hq
    obtain ⟨y, hy, hk, rfl⟩ := exists_pattern_of_bare? h q hq
    exact (hxs y hy).pattern hk
  unfold bare? at h
  simp only at h
  split at h
  · split at h <;> cases h
    · exact ⟨fun hn => absurd hn hname, hpattern, by simp [Param.isRepeating, Modifier.isRepeating]⟩
    · exact ⟨fun hn => absurd hn hname, hpattern, by simp⟩
    · exact ⟨fun hn => absurd hn hname, hpattern, by simp [Param.isRepeating]⟩
  · cases h
    exact ⟨fun hn => absurd hn hname, hpattern, by simp [Param.isRepeating]⟩

variable (o free xs) in
theorem isWritable_wildcard : (wildcard o free xs).param.IsWritable := by
  have hname : (wildcard o free xs).param.name ≠ [] := by
    refine nameOr_ne_nil free fun n hn => ?_
    split at hn
    · cases hn
    · rename_i h
      cases hn
      exact h
  refine ⟨fun hn => absurd hn hname, fun q hq => ?_, fun _ => rfl⟩
  cases hq
  exact Lexeme.isPattern_stretch o.delimiter

/-- Nothing is taken where the first lexeme is of another kind. -/
theorem take?_snd_of_none {k : Lexeme.Kind} {xs : List Lexeme} (h : (take? k xs).1 = none) :
    (take? k xs).2 = xs := by
  cases xs with
  | nil => rfl
  | cons x xs => by_cases hx : x.kind = k <;> simp_all [take?]

theorem isWritable_group? (hid : ∀ t, o.encodePath.apply t = t) (hxs : ∀ x ∈ xs, x.IsSound)
    (h : group? o free xs = .ok s) : s.param.IsWritable := by
  have hpattern : ∀ q ∈ s.param.pattern, Lexeme.IsPattern q := by
    intro q hq
    obtain ⟨y, hy, hk, rfl⟩ := exists_pattern_of_group? h q hq
    exact (hxs y hy).pattern hk
  unfold group? at h
  simp only [hid] at h
  have hnone : (take? .name (afterText xs)).1 = none →
      (take? .pattern (take? .name (afterText xs)).2).1 = none →
      text (take? .pattern (take? .name (afterText xs)).2).2 = [] := by
    intro hn hp
    rw [take?_snd_of_none hp, take?_snd_of_none hn]
    exact text_eq_nil (isText_head_afterText xs)
  have hname : ∀ n ∈ (take? .name (afterText xs)).1, n ≠ [] := by
    intro n hn
    obtain ⟨y, hy, hk, rfl⟩ := mem_of_take? hn
    exact (hxs y (afterText_subset _ hy)).name hk
  generalize take? .pattern (take? .name (afterText xs)).2 = q at *
  generalize (take? .name (afterText xs)).1 = name at *
  generalize take? .semicolon (afterText q.2) = r at *
  split at h
  · cases h
  · split at h
    · cases h
    · cases h
      refine ⟨?_, hpattern, ?_⟩
      · simp only
        split
        · rename_i hboth
          simp only [Bool.and_eq_true, Option.isNone_iff_eq_none] at hboth
          exact fun _ => ⟨hboth.2, hnone hboth.1 hboth.2⟩
        · exact fun hn => absurd hn (nameOr_ne_nil free hname)
      · simp only [Param.isRepeating]
        intro hr
        cases r.1 with
        | none => simp [hr]
        | some v => rfl

end

/-! ### parts that were read -/

theorem Step.Opens.rest {o : ParseOptions} {free : Nat} {xs : List Lexeme} {s : Step}
    (h : s.Opens o free xs) : s.rest ⊆ xs := by
  cases h with
  | bare _ h => exact (rest_and_pattern_of_bare? h).1
  | wildcard _ => exact List.Subset.trans (rest_of_wildcard o free _) (List.subset_cons_self _ _)
  | group _ h =>
    exact List.Subset.trans (rest_and_pattern_of_group? h).1 (List.subset_cons_self _ _)

theorem Step.Opens.isWritable {o : ParseOptions} {free : Nat} {xs : List Lexeme} {s : Step}
    (hid : ∀ t, o.encodePath.apply t = t) (hxs : ∀ x ∈ xs, x.IsSound) (h : s.Opens o free xs) :
    s.param.IsWritable := by
  cases h with
  | bare _ h => exact isWritable_bare? hxs h
  | wildcard _ => exact isWritable_wildcard o free _
  | group _ h => exact isWritable_group? hid (fun y hy => hxs y (List.mem_cons_of_mem _ hy)) h

theorem AreRead.areWritable {o : ParseOptions} (hid : ∀ t, o.encodePath.apply t = t) {free : Nat}
    {xs : List Lexeme} {ps : List Part} (h : AreRead o free xs ps) (hxs : ∀ x ∈ xs, x.IsSound) :
    AreWritable ps ∧ ((∀ x ∈ xs.head?, x.isText = false) → ∀ p ∈ ps.head?, p.param?.isSome) := by
  induction h with
  | nil => exact ⟨trivial, by simp⟩
  | finish _ => exact ⟨trivial, by simp⟩
  | @text _ x xs _ ht _ ih =>
    obtain ⟨hqs, hhead⟩ := ih fun y hy => hxs y (afterText_subset _ hy)
    have hx := (hxs x (by simp)).text ht
    rw [hid]
    exact ⟨⟨by simp [Lexeme.text, ht, hx], hhead (isText_head_afterText _), hqs⟩,
      fun hx => absurd ht (by simp [hx x rfl])⟩
  | param hs _ ih =>
    refine ⟨⟨hs.isWritable hid hxs, (ih fun y hy => hxs y (hs.rest hy)).1⟩, fun _ p hp => ?_⟩
    cases hp
    rfl

/-- A template that is read has the parts that its lexemes stand for. -/
theorem exists_areRead {o : ParseOptions} {t : Text} {d : Template} (h : parse o t = .ok d) :
    ∃ xs, Lexeme.ofText t = .ok xs ∧ AreRead o 0 xs d.parts ∧ d.delimiter = o.delimiter := by
  unfold parse at h
  split at h
  · cases h
  · rename_i xs hxs
    obtain ⟨ps, hps, rfl⟩ := exists_of_map_eq_ok h
    exact ⟨xs, hxs, areRead_of_partsFrom hps, rfl⟩

theorem areWritable_of_parse {o : ParseOptions} (hid : ∀ t, o.encodePath.apply t = t) {t : Text}
    {d : Template} (h : parse o t = .ok d) : AreWritable d.parts := by
  obtain ⟨xs, hxs, hread, -⟩ := exists_areRead h
  exact (hread.areWritable hid (Lexeme.isSound_of_ofText hxs)).1

/-! ### patterns that are written out -/

/-- The pattern of a parameter that opens some lexemes is written out there, or it is what a
wildcard stands for. -/
theorem Step.Opens.pattern {o : ParseOptions} {free : Nat} {xs : List Lexeme} {s : Step}
    (h : s.Opens o free xs) :
    ∀ q ∈ s.param.pattern, q = Expression.stretch o.delimiter ∨
      ∃ x ∈ xs, x.kind = .pattern ∧ x.value = q := by
  intro q hq
  cases h with
  | bare _ h => exact .inr (exists_pattern_of_bare? h q hq)
  | wildcard _ =>
    cases hq
    exact .inl rfl
  | group _ h =>
    obtain ⟨x, hx, hk⟩ := exists_pattern_of_group? h q hq
    exact .inr ⟨x, List.mem_cons_of_mem _ hx, hk⟩

theorem AreRead.pattern {o : ParseOptions} {free : Nat} {xs : List Lexeme} {ps : List Part}
    (h : AreRead o free xs ps) {p : Param} (hp : .param p ∈ ps) :
    ∀ q ∈ p.pattern, q = Expression.stretch o.delimiter ∨
      ∃ x ∈ xs, x.kind = .pattern ∧ x.value = q := by
  induction h with
  | nil => cases hp
  | finish _ => cases hp
  | text _ _ ih =>
    intro q hq
    exact (ih ((List.mem_cons.1 hp).resolve_left (by simp)) q hq).imp_right fun ⟨x, hx, hk⟩ => ⟨x,
      afterText_subset _ hx, hk⟩
  | param hs _ ih =>
    intro q hq
    rcases List.mem_cons.1 hp with heq | hp
    · cases heq
      exact hs.pattern q hq
    · exact (ih hp q hq).imp_right fun ⟨x, hx, hk⟩ => ⟨x, hs.rest hx, hk⟩

end Template

/-- No pattern is written out in a text. -/
def Lexeme.IsPatternless (t : Text) : Prop := ∀ xs, ofText t = .ok xs → ∀ x ∈ xs, x.kind ≠ .pattern

instance (t : Text) : Decidable (Lexeme.IsPatternless t) :=
  decidable_of_iff (∀ xs ∈ (Lexeme.ofText t).toOption, ∀ x ∈ xs, x.kind ≠ .pattern)
    (forall_congr' fun _ => by rw [Option.mem_def, toOption_eq_some_iff])

/-- If no pattern is written out, parameters have none, or that of a wildcard. -/
theorem Template.pattern_of_isPatternless {o : ParseOptions} {t : Text} {d : Template}
    (ht : Lexeme.IsPatternless t) (h : parse o t = .ok d) :
    ∀ p ∈ d.allParams, p.pattern = none ∨ p.pattern = some (Expression.stretch d.delimiter) := by
  intro p hp
  obtain ⟨xs, hxs, hread, hdelimiter⟩ := exists_areRead h
  cases hq : p.pattern with
  | none => exact .inl rfl
  | some q =>
    rcases hread.pattern (mem_allParams.1 hp) q hq with rfl | ⟨x, hx, hk, -⟩
    · exact .inr (by rw [hdelimiter])
    · exact absurd hk (ht xs hxs x hx)

end PathTemplate
