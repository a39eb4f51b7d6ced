import PathTemplate.Proofs.Template.Scan

/-!
# Reading parts one by one

What the three forms of a parameter are read from, and literal text.  Lexemes carry no places here:
what is read does not depend on them.

* `Template.partsFrom_text`, `partsFrom_bare`, `partsFrom_wildcard`, `partsFrom_group`,
  `partsFrom_finish` — the first part;
* `Template.parts?` — the parts that some lexemes stand for, if they stand for any, with the same
  equations;
* `Step.Opens`, `Template.AreRead`, `Template.areRead_of_partsFrom` — which lexemes parts are read
  from, for induction;
* `Template.parse_toOption` — reading a template text is scanning it and then reading its parts.
-/

namespace PathTemplate

open Unicode (isIdentifier)

namespace Template

open Lexeme (text afterText take? takeModifier continuesName unplaced)

/-- The parts that some lexemes stand for. -/
def parts? (o : ParseOptions) (free : Nat) (xs : List Lexeme) : Option (List Part) :=
  (partsFrom o free xs).toOption

/-! ### places do not matter -/

theorem text_unplaced (xs : List Lexeme) : text (xs.map unplaced) = text xs := by
  induction xs with
  | nil => rfl
  | cons x xs ih =>
    simp only [text, List.map_cons] at ih ⊢
    by_cases hx : x.isText = true
    · rw [List.takeWhile_cons_of_pos hx, List.takeWhile_cons_of_pos (by exact hx),
        List.flatMap_cons, List.flatMap_cons, ih]
      rfl
    · rw [List.takeWhile_cons_of_neg hx, List.takeWhile_cons_of_neg (by exact hx)]

theorem afterText_unplaced (xs : List Lexeme) :
    afterText (xs.map unplaced) = (afterText xs).map unplaced := by
  simp only [afterText, List.dropWhile_map]
  rfl

theorem take?_unplaced (k : Lexeme.Kind) (xs : List Lexeme) :
    take? k (xs.map unplaced) = ((take? k xs).1, (take? k xs).2.map unplaced) := by
  cases xs with
  | nil => rfl
  | cons x xs =>
    simp only [List.map_cons, take?]
    by_cases hx : x.kind = k <;> simp [hx]

theorem takeModifier_unplaced (xs : List Lexeme) :
    takeModifier (xs.map unplaced) = ((takeModifier xs).1, (takeModifier xs).2.map unplaced) := by
  cases xs with
  | nil => rfl
  | cons x xs =>
    simp only [List.map_cons, takeModifier, Lexeme.unplaced_kind]
    cases x.kind.modifier? <;> simp

/-- A step without the places of what follows. -/
def Step.unplaced (s : Step) : Step := { s with rest := s.rest.map Lexeme.unplaced }

theorem bare?_unplaced (o : ParseOptions) (free : Nat) (xs : List Lexeme) :
    (bare? o free (xs.map unplaced)).toOption = (bare? o free xs).toOption.map Step.unplaced := by
  unfold bare?
  simp only [take?_unplaced]
  cases (take? .pattern (take? .name xs).2).2 with
  | nil => rfl
  | cons x rest =>
    simp only [List.map_cons, Lexeme.unplaced_kind]
    cases x.kind <;> rfl

theorem wildcard_unplaced (o : ParseOptions) (free : Nat) (xs : List Lexeme) :
    wildcard o free (xs.map unplaced) = (wildcard o free xs).unplaced := by
  have ht : ∀ xs : List Lexeme, ((xs.map unplaced).takeWhile continuesName).flatMap Lexeme.value =
      (xs.takeWhile continuesName).flatMap Lexeme.value := by
    intro xs
    rw [List.takeWhile_map, List.flatMap_map]
    rfl
  unfold wildcard
  simp only [ht, List.dropWhile_map]
  rfl

theorem group?_unplaced (o : ParseOptions) (free : Nat) (xs : List Lexeme) :
    (group? o free (xs.map unplaced)).toOption = (group? o free xs).toOption.map Step.unplaced := by
  unfold group?
  simp only [text_unplaced, afterText_unplaced, take?_unplaced]
  generalize (take? .semicolon (afterText (take? .pattern (take? .name (afterText xs)).2).2)).1 =
    semicolon
  generalize (take? .semicolon (afterText (take? .pattern (take? .name (afterText xs)).2).2)).2 = ys
  have hys : (if semicolon.isSome = true then (afterText ys).map unplaced else ys.map unplaced) =
      (if semicolon.isSome = true then afterText ys else ys).map unplaced := by
    split <;> rfl
  rw [hys]
  cases (if semicolon.isSome = true then afterText ys else ys) with
  | nil => rfl
  | cons x rest =>
    simp only [List.map_cons, Lexeme.unplaced_kind, takeModifier_unplaced]
    split <;> rfl

/-! ### what is taken -/

theorem text_append {xs ys : List Lexeme} (hx : ∀ x ∈ xs, x.isText = true)
    (hy : ∀ y ∈ ys.head?, y.isText = false) : text (xs ++ ys) = xs.flatMap Lexeme.value := by
  rw [text, takeWhile_append_of_head hx hy]

theorem afterText_append {xs ys : List Lexeme} (hx : ∀ x ∈ xs, x.isText = true)
    (hy : ∀ y ∈ ys.head?, y.isText = false) : afterText (xs ++ ys) = ys :=
  dropWhile_append_of_head hx hy

theorem isText_head_afterText (xs : List Lexeme) :
    ∀ x ∈ (afterText xs).head?, x.isText = false := by
  intro x hx
  have h := List.head?_dropWhile_not Lexeme.isText xs
  rw [show (xs.dropWhile Lexeme.isText).head? = some x from hx] at h
  simpa using h

theorem take?_of_head {k : Lexeme.Kind} {ys : List Lexeme} (hy : ∀ y ∈ ys.head?, y.kind ≠ k) :
    take? k ys = (none, ys) := by
  cases ys with
  | nil => rfl
  | cons y ys => simp [take?, hy y rfl]

/-! ### the first part -/

theorem partsFrom_text {o : ParseOptions} {free : Nat} {x : Lexeme} {xs : List Lexeme}
    (hx : x.isText = true) :
    partsFrom o free (x :: xs) =
      (partsFrom o free (afterText (x :: xs))).map
        (.text (o.encodePath.apply (text (x :: xs))) :: ·) := by
  rw [partsFrom, dif_pos hx]

theorem partsFrom_bare {o : ParseOptions} {free : Nat} {x : Lexeme} {xs : List Lexeme}
    (hx : x.kind = .name ∨ x.kind = .pattern) :
    partsFrom o free (x :: xs) =
      (bare? o free (x :: xs)).bind fun s => (partsFrom o s.free s.rest).map
        (.param s.param :: ·) := by
  have ht : ¬x.isText = true := by rcases hx with hx | hx <;> simp [Lexeme.isText, hx]
  rw [partsFrom, dif_neg ht, dif_pos hx]
  split <;> rename_i h <;> simp only [h] <;> rfl

theorem partsFrom_wildcard {o : ParseOptions} {free : Nat} {x : Lexeme} {xs : List Lexeme}
    (hx : x.kind = .asterisk) :
    partsFrom o free (x :: xs) =
      (partsFrom o (wildcard o free xs).free (wildcard o free xs).rest).map
        (.param (wildcard o free xs).param :: ·) := by
  rw [partsFrom, dif_neg (by simp [Lexeme.isText, hx]), dif_neg (by simp [hx]), if_pos hx]

theorem partsFrom_group {o : ParseOptions} {free : Nat} {x : Lexeme} {xs : List Lexeme}
    (hx : x.kind = .opening) :
    partsFrom o free (x :: xs) =
      (group? o free xs).bind fun s => (partsFrom o s.free s.rest).map (.param s.param :: ·) := by
  rw [partsFrom, dif_neg (by simp [Lexeme.isText, hx]), dif_neg (by simp [hx]),
    if_neg (by simp [hx]), if_pos hx]
  split <;> rename_i h <;> simp only [h] <;> rfl

theorem partsFrom_finish {o : ParseOptions} {free : Nat} {x : Lexeme} {xs : List Lexeme}
    (hx : x.kind = .finish) : partsFrom o free (x :: xs) = .ok [] := by
  rw [partsFrom, dif_neg (by simp [Lexeme.isText, hx]), dif_neg (by simp [hx]),
    if_neg (by simp [hx]), if_neg (by simp [hx]), if_pos hx]

theorem partsFrom_other {o : ParseOptions} {free : Nat} {x : Lexeme} {xs : List Lexeme}
    (ht : ¬x.isText = true) (hb : ¬(x.kind = .name ∨ x.kind = .pattern)) (ha : ¬x.kind = .asterisk)
    (hg : ¬x.kind = .opening) (hf : ¬x.kind = .finish) :
    partsFrom o free (x :: xs) = .error (.unexpected x.kind x.index .finish) := by
  rw [partsFrom, dif_neg ht, dif_neg hb, if_neg ha, if_neg hg, if_neg hf]

/-! ### the first part, if parts can be read -/

@[simp] theorem parts?_nil (o : ParseOptions) (free : Nat) : parts? o free [] = some [] := by
  simp [parts?, partsFrom, Except.toOption]

theorem parts?_text {o : ParseOptions} {free : Nat} {x : Lexeme} {xs : List Lexeme}
    (hx : x.isText = true) :
    parts? o free (x :: xs) =
      (parts? o free (afterText (x :: xs))).map
        (.text (o.encodePath.apply (text (x :: xs))) :: ·) := by
  rw [parts?, partsFrom_text hx, toOption_map]
  rfl

theorem toOption_bind {ε α β : Type} (x : Except ε α) (f : α → Except ε β) :
    (x.bind f).toOption = x.toOption.bind fun a => (f a).toOption := by
  cases x <;> rfl

theorem parts?_bare {o : ParseOptions} {free : Nat} {x : Lexeme} {xs : List Lexeme}
    (hx : x.kind = .name ∨ x.kind = .pattern) :
    parts? o free (x :: xs) =
      (bare? o free (x :: xs)).toOption.bind fun s => (parts? o s.free s.rest).map
        (.param s.param :: ·) := by
  simp only [parts?, partsFrom_bare hx, toOption_bind, toOption_map]

theorem parts?_wildcard {o : ParseOptions} {free : Nat} {x : Lexeme} {xs : List Lexeme}
    (hx : x.kind = .asterisk) :
    parts? o free (x :: xs) =
      (parts? o (wildcard o free xs).free (wildcard o free xs).rest).map
        (.param (wildcard o free xs).param :: ·) := by
  simp only [parts?, partsFrom_wildcard hx, toOption_map]

theorem parts?_group {o : ParseOptions} {free : Nat} {x : Lexeme} {xs : List Lexeme}
    (hx : x.kind = .opening) :
    parts? o free (x :: xs) =
      (group? o free xs).toOption.bind fun s => (parts? o s.free s.rest).map
        (.param s.param :: ·) := by
  simp only [parts?, partsFrom_group hx, toOption_bind, toOption_map]

theorem parts?_finish {o : ParseOptions} {free : Nat} {x : Lexeme} {xs : List Lexeme}
    (hx : x.kind = .finish) : parts? o free (x :: xs) = some [] := by
  rw [parts?, partsFrom_finish hx]
  rfl

theorem parts?_other {o : ParseOptions} {free : Nat} {x : Lexeme} {xs : List Lexeme}
    (ht : ¬x.isText = true) (hb : ¬(x.kind = .name ∨ x.kind = .pattern)) (ha : ¬x.kind = .asterisk)
    (hg : ¬x.kind = .opening) (hf : ¬x.kind = .finish) : parts? o free (x :: xs) = none := by
  rw [parts?, partsFrom_other ht hb ha hg hf]
  rfl

theorem parts?_unplaced (o : ParseOptions) (free : Nat) (xs : List Lexeme) :
    parts? o free (xs.map unplaced) = parts? o free xs := by
  induction hn : xs.length using Nat.strongRecOn generalizing free xs with
  | _ n ih =>
    have step : ∀ s : Step, s.rest.length < n →
        (parts? o s.unplaced.free s.unplaced.rest).map (.param s.unplaced.param :: ·) =
          (parts? o s.free s.rest).map (.param s.param :: ·) := by
      intro s hs
      exact congrArg (Option.map _) (ih _ hs s.free s.rest rfl)
    cases xs with
    | nil => rfl
    | cons x xs =>
      rw [List.length_cons] at hn
      rw [List.map_cons]
      by_cases ht : x.isText = true
      · rw [parts?_text (by exact ht), parts?_text ht, ← List.map_cons, afterText_unplaced,
          text_unplaced]
        have hlen : (afterText (x :: xs)).length < n := by
          have := length_dropWhile_le Lexeme.isText xs
          simp only [afterText, List.dropWhile_cons, ht, if_true]
          omega
        rw [ih _ hlen _ _ rfl]
      by_cases hb : x.kind = .name ∨ x.kind = .pattern
      · rw [parts?_bare (by exact hb), parts?_bare hb, ← List.map_cons, bare?_unplaced]
        cases h : bare? o free (x :: xs) with
        | error e => rfl
        | ok s =>
          have := length_of_bare? hb h
          exact step s (by omega)
      by_cases ha : x.kind = .asterisk
      · rw [parts?_wildcard (by exact ha), parts?_wildcard ha, wildcard_unplaced]
        have := length_of_wildcard o free xs
        exact step _ (by omega)
      by_cases hg : x.kind = .opening
      · rw [parts?_group (by exact hg), parts?_group hg, group?_unplaced]
        cases h : group? o free xs with
        | error e => rfl
        | ok s =>
          have := length_of_group? h
          exact step s (by omega)
      by_cases hf : x.kind = .finish
      · rw [parts?_finish (by exact hf), parts?_finish hf]
      · rw [parts?_other (by exact ht) (by exact hb) (by exact ha) (by exact hg) (by exact hf),
          parts?_other ht hb ha hg hf]

/-- Reading a template text, in two steps without places. -/
theorem parse_toOption (o : ParseOptions) (t : Text) :
    (parse o t).toOption = ((Lexeme.read? t).bind (parts? o 0)).map (⟨·, o.delimiter⟩) := by
  unfold parse Lexeme.read?
  cases Lexeme.ofText t with
  | error e => rfl
  | ok xs =>
    simp only [Except.toOption, Option.map_some, Option.bind_some, parts?_unplaced]
    exact toOption_map _ _

/-! ### parts and their lexemes -/

/-- The parameter that some lexemes start with, in one of its three forms. -/
inductive Step.Opens (o : ParseOptions) (free : Nat) : List Lexeme → Step → Prop
  | bare {x : Lexeme} {xs : List Lexeme} {s : Step} (hx : x.kind = .name ∨ x.kind = .pattern)
      (h : bare? o free (x :: xs) = .ok s) : Opens o free (x :: xs) s
  | wildcard {x : Lexeme} {xs : List Lexeme} (hx : x.kind = .asterisk) :
      Opens o free (x :: xs) (wildcard o free xs)
  | group {x : Lexeme} {xs : List Lexeme} {s : Step} (hx : x.kind = .opening)
      (h : group? o free xs = .ok s) : Opens o free (x :: xs) s

/-- The parts that some lexemes stand for, one after the other. -/
inductive AreRead (o : ParseOptions) : (free : Nat) → List Lexeme → List Part → Prop
  | nil {free : Nat} : AreRead o free [] []
  | finish {free : Nat} {x : Lexeme} {xs : List Lexeme} (hx : x.kind = .finish) :
      AreRead o free (x :: xs) []
  | text {free : Nat} {x : Lexeme} {xs : List Lexeme} {ps : List Part} (hx : x.isText = true)
      (h : AreRead o free (afterText (x :: xs)) ps) :
      AreRead o free (x :: xs) (.text (o.encodePath.apply (Lexeme.text (x :: xs))) :: ps)
  | param {free : Nat} {xs : List Lexeme} {s : Step} {ps : List Part} (hs : s.Opens o free xs)
      (h : AreRead o s.free s.rest ps) : AreRead o free xs (.param s.param :: ps)

theorem areRead_of_partsFrom {o : ParseOptions} {free : Nat} {xs : List Lexeme} {ps : List Part}
    (h : partsFrom o free xs = .ok ps) : AreRead o free xs ps := by
  fun_induction partsFrom o free xs generalizing ps with
  | case1 =>
    cases h
    exact .nil
  | case2 free x rest hx _ ih =>
    obtain ⟨qs, hqs, rfl⟩ := exists_of_map_eq_ok h
    exact .text hx (ih hqs)
  | case3 => cases h
  | case4 free x rest _ hx s hs _ ih =>
    obtain ⟨qs, hqs, rfl⟩ := exists_of_map_eq_ok h
    exact .param (.bare hx hs) (ih hqs)
  | case5 free x rest _ _ hx =>
    rename_i ih
    obtain ⟨qs, hqs, rfl⟩ := exists_of_map_eq_ok h
    exact .param (.wildcard hx) (ih hqs)
  | case6 => cases h
  | case7 free x rest _ _ _ hx s hs _ ih =>
    obtain ⟨qs, hqs, rfl⟩ := exists_of_map_eq_ok h
    exact .param (.group hx hs) (ih hqs)
  | case8 free x rest _ _ _ _ hx =>
    cases h
    exact .finish hx
  | case9 => cases h

end Template

end PathTemplate
