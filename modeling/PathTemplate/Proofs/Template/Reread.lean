import PathTemplate.Path
import PathTemplate.Proofs.Template.Print

/-!
# Reading what was printed

* `Pen.merges` — two neighbours are read as one when printed: an asterisk after a parameter
  without a modifier would be taken for a modifier, and a lone pattern after a lone quoted name for
  the pattern of that name;
* `Template.printsApart` — no two neighbours are read as one;
* `Path.parse_print_iff_printsApart` — reading a printed template gives it back exactly if no two
  neighbours are read as one.
-/

namespace PathTemplate

open Unicode (isIdentifier)

namespace Template.Pen

open Lexeme (read? literal)

variable (delimiter : Text)

/-! ### neighbours that are read as one -/

/-- What is printed for `q` right after `p` is read as a part of `p`: `p` has no modifier and `q`
starts with an asterisk, or `p` is a lone name and `q` a lone pattern. -/
def merges (pen : Pen) (p q : Param) : Bool :=
  p.modifier.isNone &&
    ((pen.param delimiter p).2.isStarred delimiter q ||
      (pen.isBare delimiter p && p.pattern.isNone && (pen.param delimiter p).2.isBare delimiter q &&
        q.pattern.isSome && (pen.param delimiter p).2.isSynthesized q))

/-- No two neighbours are read as one. -/
def apart : Pen → List Part → Bool
  | _, [] => true
  | pen, .text _ :: rest => apart ⟨pen.free, false⟩ rest
  | pen, .param p :: rest =>
    (rest.head?.bind Part.param?).all (!pen.merges delimiter p ·) &&
    apart (pen.param delimiter p).2 rest

/-! ### reading it again -/

open Lexeme (text afterText take? takeModifier continuesName)

variable {delimiter}

theorem isText_of_mem_literal (guarded : Bool) (t : Text) {x : Lexeme}
    (hx : x ∈ literal guarded t) : x.isText = true := by
  induction t generalizing guarded with
  | nil => cases hx
  | cons c t ih =>
    rcases List.mem_cons.1 hx with rfl | hx
    · simp only [Lexeme.isText]
      split <;> rfl
    · exact ih false hx

theorem flatMap_value_literal (guarded : Bool) (t : Text) :
    (literal guarded t).flatMap Lexeme.value = t := by
  induction t generalizing guarded with
  | nil => rfl
  | cons c t ih => rw [literal, List.flatMap_cons, ih]; rfl

theorem text_literal_append (guarded : Bool) (t : Text) {ys : List Lexeme}
    (hy : ∀ y ∈ ys.head?, y.isText = false) : text (literal guarded t ++ ys) = t := by
  rw [text_append (fun x hx => isText_of_mem_literal guarded t hx) hy, flatMap_value_literal]

theorem afterText_literal_append (guarded : Bool) (t : Text) {ys : List Lexeme}
    (hy : ∀ y ∈ ys.head?, y.isText = false) : afterText (literal guarded t ++ ys) = ys :=
  afterText_append (fun _ hx => isText_of_mem_literal guarded t hx) hy

/-- The first lexeme after literal text is literal text, or the first one of what follows. -/
theorem kind_ne_of_literal_append {guarded : Bool} {t : Text} {ys : List Lexeme} {k : Lexeme.Kind}
    (hc : k ≠ .char) (he : k ≠ .escaped) (hy : ∀ y ∈ ys.head?, y.kind ≠ k) :
    ∀ y ∈ (literal guarded t ++ ys).head?, y.kind ≠ k := by
  cases t with
  | nil => exact hy
  | cons c t =>
    rintro y ⟨⟩
    simp only
    split
    · exact he.symm
    · exact hc.symm

theorem takeModifier_modifierLexemes {p : Param} {ys : List Lexeme}
    (hy : p.modifier = none → ∀ y ∈ ys.head?, y.kind.modifier? = none) :
    takeModifier (modifierLexemes p ++ ys) = (p.modifier, ys) := by
  unfold modifierLexemes
  cases hm : p.modifier with
  | none =>
    cases ys with
    | nil => rfl
    | cons y ys => simp [takeModifier, hy hm y rfl]
  | some m => simp [takeModifier]

theorem parts?_literal {o : ParseOptions} (hid : ∀ t, o.encodePath.apply t = t) {free : Nat}
    {guarded : Bool} {t : Text} {ys : List Lexeme} (ht : t ≠ [])
    (hy : ∀ y ∈ ys.head?, y.isText = false) :
    parts? o free (literal guarded t ++ ys) = (parts? o free ys).map (.text t :: ·) := by
  have htext := text_literal_append guarded t hy
  have hafter := afterText_literal_append guarded t hy
  obtain ⟨c, t, rfl⟩ := List.exists_cons_of_ne_nil ht
  rw [literal, List.cons_append] at htext hafter ⊢
  rw [parts?_text (isText_of_mem_literal guarded (c :: t) (List.mem_cons_self ..)), htext, hafter,
    hid]

theorem continuesName_of_mem_plainLexemes {name : Text} (hn : ∀ c ∈ name, isIdentifier c = true)
    {x : Lexeme} (hx : x ∈ plainLexemes name) : continuesName x = true := by
  obtain ⟨c, hc, rfl⟩ := List.mem_map.1 hx
  simp [continuesName, hn c hc]

theorem flatMap_takeWhile_plainLexemes {name : Text} {ys : List Lexeme}
    (hn : ∀ c ∈ name, isIdentifier c = true) (hy : ∀ y ∈ ys.head?, continuesName y = false) :
    ((plainLexemes name ++ ys).takeWhile continuesName).flatMap Lexeme.value = name := by
  rw [takeWhile_append_of_head (fun x hx => continuesName_of_mem_plainLexemes hn hx) hy,
    plainLexemes, List.flatMap_map]
  simp

theorem dropWhile_plainLexemes {name : Text} {ys : List Lexeme}
    (hn : ∀ c ∈ name, isIdentifier c = true) (hy : ∀ y ∈ ys.head?, continuesName y = false) :
    (plainLexemes name ++ ys).dropWhile continuesName = ys :=
  dropWhile_append_of_head (fun _ hx => continuesName_of_mem_plainLexemes hn hx) hy

theorem parts?_starred {o : ParseOptions} {pen : Pen} {p : Param} {ys : List Lexeme}
    (hs : pen.isStarred o.delimiter p = true) (hy : ∀ y ∈ ys.head?, continuesName y = false) :
    parts? o pen.free (pen.lexemes o.delimiter p ++ ys) =
      (parts? o (pen.param o.delimiter p).2.free ys).map (.param p :: ·) := by
  have hs' := hs
  simp only [isStarred, isWildcard, Bool.and_eq_true, List.isEmpty_iff, decide_eq_true_eq] at hs'
  obtain ⟨⟨⟨⟨⟨hb, ha⟩, hm⟩, hsep⟩, hpat⟩, hname⟩ := hs'
  have hp : p =
      ⟨p.name, [], [], some (Expression.stretch o.delimiter), some .zeroOrMore,
        some o.delimiter⟩ := by
    cases p
    simp_all
  have hs' : (isWildcard o.delimiter p && (pen.isSynthesized p || isPlainName p.name)) = true := hs
  rw [lexemes, if_pos hs, List.cons_append, parts?_wildcard rfl, param, if_pos hs']
  by_cases hsyn : pen.isSynthesized p = true
  · have hw : wildcard o pen.free ys = ⟨p, ys, pen.free + 1⟩ := by
      have hn : p.name = Text.ofNat pen.free := by simpa [isSynthesized] using hsyn
      cases ys with
      | nil => simp [wildcard, nameOr, ← hn, ← hp]
      | cons y ys => simp [wildcard, nameOr, hy y rfl, ← hn, ← hp]
    simp [hsyn, hw]
  · have hplain : isPlainName p.name = true := by simpa [hsyn] using hname
    simp only [isPlainName, Bool.and_eq_true, Bool.not_eq_true', List.isEmpty_eq_false_iff,
      List.all_eq_true] at hplain
    have htake := flatMap_takeWhile_plainLexemes hplain.2 hy
    have hdrop := dropWhile_plainLexemes hplain.2 hy
    have hw : wildcard o pen.free (plainLexemes p.name ++ ys) = ⟨p, ys, pen.free⟩ := by
      simp only [wildcard, htake, hdrop, if_neg hplain.1, nameOr, ← hp]
    simp [hsyn, hw]

/-- The name and the pattern of a parameter are read back, if no pattern follows a lone name. -/
theorem take?_nameLexemes (pen : Pen) {p : Param} {zs : List Lexeme}
    (hz : p.pattern = none → ∀ z ∈ zs.head?, z.kind ≠ .pattern) :
    nameOr pen.free (take? .name (pen.nameLexemes p ++ zs)).1 =
      (p.name, (pen.nameAndPattern p).2.free) ∧
    take? .pattern (take? .name (pen.nameLexemes p ++ zs)).2 = (p.pattern, zs) ∧
    ((take? .name (pen.nameLexemes p ++ zs)).1.isNone && p.pattern.isNone) = false := by
  unfold nameLexemes nameAndPattern
  cases hp : p.pattern with
  | none => exact ⟨by simp [take?, nameOr], take?_of_head (hz hp), by simp [take?]⟩
  | some q =>
    by_cases hs : pen.isSynthesized p = true
    · have hn : p.name = Text.ofNat pen.free := by simpa [isSynthesized] using hs
      simp [hs, take?, nameOr, hn]
    · simp [hs, take?, nameOr]

theorem nameLexemes_eq_cons (pen : Pen) (p : Param) :
    ∃ x xs, pen.nameLexemes p = x :: xs ∧ (x.kind = .name ∨ x.kind = .pattern) := by
  unfold nameLexemes
  split
  · exact ⟨_, _, rfl, .inl rfl⟩
  · split
    · exact ⟨_, _, rfl, .inr rfl⟩
    · exact ⟨_, _, rfl, .inl rfl⟩

theorem bare?_nameLexemes {o : ParseOptions} {pen : Pen} {p : Param} {ys : List Lexeme}
    (hb : pen.isBare o.delimiter p = true)
    (hm : p.modifier = none → ∀ y ∈ ys.head?, y.kind.modifier? = none)
    (hpat : p.modifier = none → p.pattern = none → ∀ y ∈ ys.head?, y.kind ≠ .pattern) :
    bare? o pen.free (pen.nameLexemes p ++ (modifierLexemes p ++ ys)) =
      .ok ⟨p, ys, (pen.nameAndPattern p).2.free⟩ := by
  have hz : p.pattern = none → ∀ z ∈ (modifierLexemes p ++ ys).head?, z.kind ≠ .pattern := by
    intro hn
    unfold modifierLexemes
    cases hp : p.modifier with
    | none => exact hpat hp hn
    | some m => rintro z ⟨⟩; cases m <;> decide
  obtain ⟨hname, htake, -⟩ := take?_nameLexemes pen hz
  unfold bare?
  simp only [htake, hname]
  simp only [isBare, Bool.and_eq_true, List.isEmpty_iff] at hb
  obtain ⟨⟨⟨⟨-, hbefore⟩, hafter⟩, -⟩, hsep⟩ := hb
  obtain ⟨name, before, after, pattern, modifier, separator⟩ := p
  cases modifier with
  | none =>
    cases ys with
    | nil => simp_all [modifierLexemes]
    | cons y ys =>
      have hy := hm rfl y rfl
      cases hk : y.kind <;> simp_all [modifierLexemes, Lexeme.Kind.modifier?]
  | some m => cases m <;> simp_all [modifierLexemes, Modifier.kind]

theorem parts?_lone {o : ParseOptions} {pen : Pen} {p : Param} {ys : List Lexeme}
    (hs : ¬pen.isStarred o.delimiter p = true) (hb : pen.isBare o.delimiter p = true)
    (hm : p.modifier = none → ∀ y ∈ ys.head?, y.kind.modifier? = none)
    (hpat : p.modifier = none → p.pattern = none → ∀ y ∈ ys.head?, y.kind ≠ .pattern) :
    parts? o pen.free (pen.lexemes o.delimiter p ++ ys) =
      (parts? o (pen.param o.delimiter p).2.free ys).map (.param p :: ·) := by
  have hs' : ¬(isWildcard o.delimiter p && (pen.isSynthesized p || isPlainName p.name)) = true := hs
  have h := bare?_nameLexemes hb hm hpat
  obtain ⟨x, xs, hx, hk⟩ := nameLexemes_eq_cons pen p
  rw [lexemes, if_neg hs, if_pos hb, List.append_assoc, param, if_neg hs', if_pos hb]
  rw [hx, List.cons_append] at h ⊢
  rw [parts?_bare hk, h]
  rfl

/-- The lexemes between the braces of a parameter. -/
def innerLexemes (pen : Pen) (p : Param) : List Lexeme :=
  literal false p.before ++ ((if p.isCapturing then pen.nameLexemes p else []) ++
    (literal (p.isCapturing && (pen.nameAndPattern p).2.openName) p.after ++
      ((writtenSeparator p).elim [] fun s => ⟨.semicolon, 0, [';']⟩ :: literal false s)))

theorem take?_separator (p : Param) (zs : List Lexeme) :
    let xs := ((writtenSeparator p).elim [] fun s => (⟨.semicolon, 0, [';']⟩ : Lexeme) ::
    literal false s) ++
      ⟨.closing, 0, ['}']⟩ :: zs
    (take? .semicolon xs).1.map (fun _ => text (take? .semicolon xs).2) = writtenSeparator p ∧
      (if (take? .semicolon xs).1.isSome = true then afterText (take? .semicolon xs).2 else
      (take? .semicolon xs).2) =
        ⟨.closing, 0, ['}']⟩ :: zs := by
  cases writtenSeparator p with
  | none => simp [take?]
  | some s =>
    have hy : ∀ y ∈ ((⟨.closing, 0, ['}']⟩ : Lexeme) :: zs).head?, y.isText = false := by
      rintro y ⟨⟩; rfl
    have htext := text_literal_append false s hy
    have hafter := afterText_literal_append false s hy
    simp [take?, htext, hafter]

theorem group?_innerLexemes {o : ParseOptions} (hid : ∀ t, o.encodePath.apply t = t)
    (pen : Pen) {p : Param} (hp : p.IsWritable) (zs : List Lexeme) :
    group? o pen.free (pen.innerLexemes p ++ ⟨.closing, 0, ['}']⟩ :: zs) =
      .ok ⟨{ p with
              modifier := (takeModifier zs).1
              separator := (writtenSeparator p).or (if (takeModifier zs).1.any Modifier.isRepeating
                  then some (p.after ++ p.before) else none) },
            (takeModifier zs).2, if p.isCapturing then (pen.nameAndPattern p).2.free else
                pen.free⟩ := by
  obtain ⟨hsep, hclose⟩ := take?_separator p zs
  unfold innerLexemes
  simp only [List.append_assoc]
  generalize htail : (((writtenSeparator p).elim [] fun s => (⟨.semicolon, 0, [';']⟩ : Lexeme) ::
        literal false s) ++ ⟨.closing, 0, ['}']⟩ :: zs) = tail at *
  have hkind : ∀ y ∈ tail.head?, y.kind = .semicolon ∨ y.kind = .closing := by
    subst htail
    cases writtenSeparator p with
    | none => rintro y ⟨⟩; exact .inr rfl
    | some s => rintro y ⟨⟩; exact .inl rfl
  have htext : ∀ y ∈ tail.head?, y.isText = false := by
    intro y hy
    rcases hkind y hy with h | h <;> simp [Lexeme.isText, h]
  cases hcap : p.isCapturing with
  | false =>
    have hn : p.name = [] := by simpa [Param.isCapturing] using hcap
    obtain ⟨hpat, hafter⟩ := hp.unnamed hn
    have h₁ : take? .name tail = (none, tail) :=
      take?_of_head fun y hy => by rcases hkind y hy with h | h <;> simp [h]
    have h₂ : take? .pattern tail = (none, tail) :=
      take?_of_head fun y hy => by rcases hkind y hy with h | h <;> simp [h]
    have h₃ : text tail = [] := text_literal_append false [] htext
    have h₄ : afterText tail = tail := afterText_literal_append false [] htext
    unfold group?
    simp only [hafter, Bool.false_eq_true, if_false, literal, List.nil_append,
      text_literal_append _ _ htext, afterText_literal_append _ _ htext, h₁, h₂, h₃, h₄, hsep,
      hclose]
    simp [hid, hn, hpat]
    cases writtenSeparator p <;> rfl
  | true =>
    have hnext : ∀ k : Lexeme.Kind, k ≠ .char → k ≠ .escaped → k ≠ .semicolon → k ≠ .closing →
        ∀ y ∈ (literal (true && (pen.nameAndPattern p).2.openName) p.after ++ tail).head?,
          y.kind ≠ k := by
      intro k h₁ h₂ h₃ h₄
      refine kind_ne_of_literal_append h₁ h₂ fun y hy => ?_
      rcases hkind y hy with h | h
      · exact h ▸ h₃.symm
      · exact h ▸ h₄.symm
    obtain ⟨hname, htake, hnone⟩ := take?_nameLexemes pen
      fun _ : p.pattern = none => hnext .pattern (by decide) (by decide) (by decide) (by decide)
    have hnames : ∀ zs : List Lexeme, ∀ y ∈ (pen.nameLexemes p ++ zs).head?, y.isText = false := by
      obtain ⟨x, xs, hx, hk⟩ := nameLexemes_eq_cons pen p
      rintro zs y hy
      rw [hx] at hy
      cases hy
      rcases hk with hk | hk <;> simp [Lexeme.isText, hk]
    unfold group?
    simp only [if_true, text_literal_append _ _ (hnames _), afterText_literal_append _ _ (hnames _),
      htake, hname, hnone, text_literal_append _ _ htext, afterText_literal_append _ _ htext, hsep,
      hclose, hid]
    simp
    cases writtenSeparator p <;> rfl

/-- A separator that is not written is the one that reading supplies. -/
theorem writtenSeparator_or {p : Param} (hp : p.IsWritable) :
    (writtenSeparator p).or (if p.isRepeating then some (p.after ++ p.before) else none) =
      p.separator := by
  unfold writtenSeparator
  by_cases h : p.separator = if p.isRepeating then some (p.after ++ p.before) else none
  · rw [if_pos h, h]
    rfl
  · rw [if_neg h]
    cases hs : p.separator with
    | some s => rfl
    | none =>
      have hr : ¬p.isRepeating = true := fun hr => by simpa [hs] using hp.separator hr
      rw [if_neg hr]
      rfl

/-- A parameter in braces is read back, if no modifier is read for one that has none. -/
theorem parts?_braces {o : ParseOptions} (hid : ∀ t, o.encodePath.apply t = t) {pen : Pen}
    {p : Param} {ys : List Lexeme} (hp : p.IsWritable) (hs : ¬pen.isStarred o.delimiter p = true)
    (hb : ¬pen.isBare o.delimiter p = true)
    (hm : p.modifier = none → ∀ y ∈ ys.head?, y.kind.modifier? = none) :
    parts? o pen.free (pen.lexemes o.delimiter p ++ ys) =
      (parts? o (pen.param o.delimiter p).2.free ys).map (.param p :: ·) := by
  have hs' : ¬(isWildcard o.delimiter p && (pen.isSynthesized p || isPlainName p.name)) = true := hs
  have h := group?_innerLexemes hid pen hp (modifierLexemes p ++ ys)
  rw [takeModifier_modifierLexemes hm] at h
  have hsep := writtenSeparator_or hp
  unfold Param.isRepeating at hsep
  rw [lexemes, if_neg hs, if_neg hb, param, if_neg hs', if_neg hb, isCapturing_or hp]
  simp only [innerLexemes, List.append_assoc, List.cons_append] at h ⊢
  rw [parts?_group rfl, h]
  simp only [hsep, Except.toOption, Option.bind_some]
  cases p.isCapturing <;> rfl

/-! ### which lexeme comes first -/

variable (delimiter) in
/-- The kind of the first lexeme of a parameter. -/
def firstKind (pen : Pen) (p : Param) : Lexeme.Kind :=
  if pen.isStarred delimiter p then .asterisk
  else if pen.isBare delimiter p then if p.pattern.isSome && pen.isSynthesized p then
    .pattern else .name
  else .opening

variable (delimiter) in
theorem lexemes_eq_cons (pen : Pen) (p : Param) :
    ∃ x xs, pen.lexemes delimiter p = x :: xs ∧ x.kind = pen.firstKind delimiter p := by
  unfold lexemes firstKind
  split
  · exact ⟨_, _, rfl, rfl⟩
  · split
    · unfold nameLexemes
      cases p.pattern with
      | none => exact ⟨_, _, rfl, rfl⟩
      | some q => by_cases hs : pen.isSynthesized p = true <;> simp [hs]
    · exact ⟨_, _, rfl, rfl⟩

/-- What the first lexeme of some parts tells about the first part. -/
theorem head_allLexemes {pen : Pen} {ps : List Part} (hps : AreWritable ps) {y : Lexeme}
    (hy : y ∈ (pen.allLexemes delimiter ps).head?) :
    y.kind = .finish ∨
    ((∃ t, ps.head? = some (.text t)) ∧ y.isText = true ∧
      (pen.openName = true → continuesName y = false)) ∨
    ∃ p, ps.head? = some (.param p) ∧ y.kind = pen.firstKind delimiter p := by
  match ps with
  | [] =>
    cases hy
    exact .inl rfl
  | .text [] :: _ => exact absurd rfl hps.1
  | .text (c :: t) :: rest =>
    cases hy
    refine .inr (.inl ⟨⟨_, rfl⟩,
          isText_of_mem_literal pen.openName (c :: t) (List.mem_cons_self ..), fun ho => ?_⟩)
    cases hc : isIdentifier c <;> simp [continuesName, ho, hc]
  | .param p :: rest =>
    obtain ⟨x, xs, hx, hk⟩ := lexemes_eq_cons delimiter pen p
    rw [allLexemes, hx] at hy
    cases hy
    exact .inr (.inr ⟨p, rfl, hk⟩)

theorem firstKind_isText (pen : Pen) (p : Param) {y : Lexeme}
    (hy : y.kind = pen.firstKind delimiter p) : y.isText = false := by
  unfold firstKind at hy
  unfold Lexeme.isText
  rw [hy]
  split
  · rfl
  · split
    · split <;> rfl
    · rfl

theorem modifier?_firstKind {pen : Pen} {p : Param} (hs : ¬pen.isStarred delimiter p = true) :
    (pen.firstKind delimiter p).modifier? = none := by
  unfold firstKind
  rw [if_neg hs]
  split
  · split <;> rfl
  · rfl

theorem continuesName_head {pen : Pen} {ps : List Part} (hps : AreWritable ps)
    (ho : pen.openName = true) :
    ∀ y ∈ (pen.allLexemes delimiter ps).head?, continuesName y = false := by
  intro y hy
  obtain hk | ⟨-, -, hc⟩ | ⟨p, -, hk⟩ := head_allLexemes hps hy
  · simp [continuesName, hk]
  · exact hc ho
  · have := firstKind_isText pen p hk
    simp_all [continuesName, Lexeme.isText]

/-! ### apart or merged -/

theorem not_isStarred_of_modifier {pen : Pen} {p : Param} (hm : p.modifier = none) :
    ¬pen.isStarred delimiter p = true := by
  simp [isStarred, isWildcard, hm]

theorem parts?_param {o : ParseOptions} (hid : ∀ t, o.encodePath.apply t = t) {pen : Pen}
    {p : Param} {rest : List Part} (hp : p.IsWritable) (hrest : AreWritable rest)
    (hm : ∀ q, rest.head? = some (.param q) → pen.merges o.delimiter p q = false) :
    parts? o pen.free (pen.allLexemes o.delimiter (.param p :: rest)) =
      (parts? o (pen.param o.delimiter p).2.free
        ((pen.param o.delimiter p).2.allLexemes o.delimiter rest)).map (.param p :: ·) := by
  rw [allLexemes]
  have hmod : p.modifier = none →
      ∀ y ∈ ((pen.param o.delimiter p).2.allLexemes o.delimiter rest).head?, y.kind.modifier? =
        none := by
    intro hn y hy
    obtain hk | ⟨-, ht, -⟩ | ⟨q, hq, hk⟩ := head_allLexemes hrest hy
    · rw [hk]; rfl
    · cases hk : y.kind <;> simp_all [Lexeme.isText, Lexeme.Kind.modifier?]
    · rw [hk]
      refine modifier?_firstKind fun hs => ?_
      simpa [merges, hn, hs] using hm q hq
  by_cases hs : pen.isStarred o.delimiter p = true
  · refine parts?_starred hs (continuesName_head hrest ?_)
    have hs' : (isWildcard o.delimiter p && (pen.isSynthesized p || isPlainName p.name)) = true :=
      hs
    rw [param, if_pos hs']
    split <;> rfl
  by_cases hb : pen.isBare o.delimiter p = true
  · refine parts?_lone hs hb hmod fun hn hpat y hy hk => ?_
    obtain hk' | ⟨-, ht, -⟩ | ⟨q, hq, hk'⟩ := head_allLexemes hrest hy
    · simp [hk] at hk'
    · simp [Lexeme.isText, hk] at ht
    · have hne := hm q hq
      rw [hk, firstKind] at hk'
      simp [merges, hn, hb, hpat] at hne
      split at hk'
      · cases hk'
      · split at hk'
        · split at hk'
          · simp_all
          · cases hk'
        · cases hk'
  · exact parts?_braces hid hp hs hb hmod

theorem firstKind_of_merges {pen : Pen} {p q : Param} (hm : pen.merges delimiter p q = true) :
    p.modifier = none ∧
      ((pen.param delimiter p).2.firstKind delimiter q = .asterisk ∨
        (pen.isBare delimiter p = true ∧ p.pattern = none ∧
          (pen.param delimiter p).2.firstKind delimiter q = .pattern)) := by
  simp only [merges, Bool.and_eq_true, Bool.or_eq_true, Option.isNone_iff_eq_none] at hm
  obtain ⟨hn, hq⟩ := hm
  refine ⟨hn, ?_⟩
  unfold firstKind
  by_cases hs : (pen.param delimiter p).2.isStarred delimiter q = true
  · exact .inl (if_pos hs)
  · obtain hq | ⟨⟨⟨⟨hb, hpat⟩, hb'⟩, hpat'⟩, hsyn⟩ := hq
    · exact absurd hq hs
    · exact .inr ⟨hb, hpat, by simp [hs, hb', hpat', hsyn]⟩

theorem bare?_asterisk {o : ParseOptions} {pen : Pen} {p : Param} {x : Lexeme} {ys : List Lexeme}
    (hx : x.kind = .asterisk) :
    (bare? o pen.free (pen.nameLexemes p ++ x :: ys)).toOption = none := by
  have hz : p.pattern = none → ∀ z ∈ (x :: ys).head?, z.kind ≠ .pattern := by
    rintro - z ⟨⟩
    simp [hx]
  obtain ⟨hname, htake, -⟩ := take?_nameLexemes pen hz
  unfold bare?
  simp only [htake, hname, hx]
  rfl

theorem bare?_pattern {o : ParseOptions} {free : Nat} {x y : Lexeme} {ys : List Lexeme} {s : Step}
    (hx : x.kind = .name) (hy : y.kind = .pattern) (h : bare? o free (x :: y :: ys) = .ok s) :
    s.param.pattern = some y.value := by
  unfold bare? at h
  simp only [take?, hx, hy, if_true] at h
  split at h
  · split at h <;> cases h <;> rfl
  · cases h
    rfl

theorem parts?_ne_of_merges {o : ParseOptions} (hid : ∀ t, o.encodePath.apply t = t) {pen : Pen}
    {p q : Param} {rest : List Part} (hp : p.IsWritable) (hm : pen.merges o.delimiter p q = true) :
    parts? o pen.free (pen.allLexemes o.delimiter (.param p :: .param q :: rest)) ≠
      some (.param p :: .param q :: rest) := by
  obtain ⟨hn, hq⟩ := firstKind_of_merges hm
  have hs : ¬pen.isStarred o.delimiter p = true := not_isStarred_of_modifier hn
  obtain ⟨x, xs, hx, hk⟩ := lexemes_eq_cons o.delimiter (pen.param o.delimiter p).2 q
  rw [allLexemes, allLexemes, hx, lexemes, if_neg hs]
  by_cases hb : pen.isBare o.delimiter p = true
  · obtain ⟨y, ys, hy, hyk⟩ := nameLexemes_eq_cons pen p
    have hcons : ∀ zs, pen.nameLexemes p ++ modifierLexemes p ++ zs = y :: (ys ++ zs) := by
      intro zs
      simp [hy, modifierLexemes, hn]
    rw [if_pos hb, hcons, parts?_bare hyk, ← List.cons_append, ← hy]
    obtain hq | ⟨-, hpat, hq⟩ := hq
    · rw [List.cons_append, bare?_asterisk (hk.trans hq)]
      simp
    · have hname : pen.nameLexemes p = [⟨.name, 0, p.name⟩] := by simp [nameLexemes, hpat]
      intro h
      obtain ⟨s, hs, h⟩ := Option.bind_eq_some_iff.1 h
      obtain ⟨ps, -, h⟩ := Option.map_eq_some_iff.1 h
      rw [hname] at hs
      have hpattern := bare?_pattern rfl (hk.trans hq) (toOption_eq_some_iff.1 hs)
      simp only [List.cons.injEq, Part.param.injEq] at h
      simp [h.1, hpat] at hpattern
  · obtain hq | ⟨hb', -, -⟩ := hq
    · have hg := group?_innerLexemes hid pen hp (x :: (xs ++ allLexemes o.delimiter
        ((pen.param o.delimiter p).2.param o.delimiter q).2 rest))
      have htake : ∀ zs, takeModifier (x :: zs) = (some .zeroOrMore, zs) := by
        intro zs
        simp [takeModifier, hk.trans hq, Lexeme.Kind.modifier?]
      have hmod : modifierLexemes p = [] := by simp [modifierLexemes, hn]
      rw [htake] at hg
      rw [if_neg hb]
      simp only [innerLexemes, List.append_assoc, List.cons_append, hmod, List.nil_append] at hg ⊢
      rw [parts?_group rfl, hg]
      intro h
      obtain ⟨s, hs, h⟩ := Option.bind_eq_some_iff.1 h
      obtain ⟨ps, -, h⟩ := Option.map_eq_some_iff.1 h
      cases hs
      simp only [List.cons.injEq, Part.param.injEq] at h
      have := congrArg Param.modifier h.1
      simp [hn] at this
    · exact absurd hb' hb

/-- Parts that can be written are read back exactly if no two neighbours are read as one. -/
theorem parts?_allLexemes_iff {o : ParseOptions} (hid : ∀ t, o.encodePath.apply t = t) (pen : Pen)
    {ps : List Part} (hps : AreWritable ps) :
    parts? o pen.free (pen.allLexemes o.delimiter ps) = some ps ↔
    pen.apart o.delimiter ps = true := by
  induction ps generalizing pen with
  | nil => simp [allLexemes, parts?_finish, apart]
  | cons x rest ih =>
    cases x with
    | text t =>
      obtain ⟨ht, hhead, hrest⟩ := hps
      have hy : ∀ y ∈ (allLexemes o.delimiter ⟨pen.free, false⟩ rest).head?, y.isText = false := by
        intro y hy
        obtain hk | ⟨⟨t, ht⟩, -, -⟩ | ⟨p, -, hk⟩ := head_allLexemes hrest hy
        · simp [Lexeme.isText, hk]
        · simpa [Part.param?] using hhead _ ht
        · exact firstKind_isText _ p hk
      rw [allLexemes, parts?_literal hid ht hy, apart, ← ih ⟨pen.free, false⟩ hrest]
      simp
    | param p =>
      obtain ⟨hp, hrest⟩ := hps
      by_cases hm : ∃ q, rest.head? = some (.param q) ∧ pen.merges o.delimiter p q = true
      · obtain ⟨q, hq, hm⟩ := hm
        obtain ⟨rest, rfl⟩ := List.head?_eq_some_iff.1 hq
        simp only [parts?_ne_of_merges hid hp hm, false_iff, apart]
        simp [Part.param?, hm]
      · have hm' : ∀ q, rest.head? = some (.param q) → pen.merges o.delimiter p q = false := by
          intro q hq
          simpa using fun h => hm ⟨q, hq, h⟩
        have hall : (rest.head?.bind Part.param?).all (!pen.merges o.delimiter p ·) = true := by
          rw [Option.all_eq_true]
          intro q hq
          obtain ⟨x, hx, hq⟩ := Option.bind_eq_some_iff.1 hq
          cases x with
          | text t => cases hq
          | param p => cases hq; simp [hm' _ hx]
        rw [parts?_param hid hp hrest hm', apart, hall, Bool.true_and, ← ih _ hrest]
        simp

end Template.Pen

/-- No two neighbours are read as one where the template is printed. -/
def Template.printsApart (d : Template) : Bool := Template.Pen.apart d.delimiter {} d.parts

/-- Reading a printed template gives the template back exactly if no two neighbours are read as
one. -/
theorem Template.parse_print_iff {o : ParseOptions} (hid : ∀ t, o.encodePath.apply t = t)
    {d : Template} (hdelimiter : d.delimiter = o.delimiter) (hps : AreWritable d.parts) :
    Template.parse o d.print = .ok d ↔ d.printsApart = true := by
  have hd : d = ⟨d.parts, o.delimiter⟩ := by rw [← hdelimiter]
  have hprint : d.print = Pen.parts o.delimiter {} d.parts := by
    rw [hd]
    rfl
  have hread := Pen.parts?_allLexemes_iff hid {} hps
  rw [← toOption_eq_some_iff, parse_toOption, hprint, Pen.read?_parts o.delimiter hps,
    Option.bind_some]
  unfold printsApart
  rw [hd, ← hread]
  simp

/-- Printing undoes reading exactly if no two neighbours are read as one. -/
theorem Path.parse_print_iff_printsApart {o : ParseOptions} (hid : ∀ t, o.encodePath.apply t = t)
    {t : Text} {d : Template} (h : Path.parse o t = .ok d) :
    Path.parse o d.print = .ok d ↔ d.printsApart = true := by
  obtain ⟨hne, hparse⟩ := Path.parse_eq_ok_iff.1 h
  obtain ⟨-, -, -, hdelimiter⟩ := Template.exists_areRead hparse
  rw [Path.parse_eq_ok_iff,
    ← Template.parse_print_iff hid hdelimiter (Template.areWritable_of_parse hid hparse)]
  exact and_iff_right hne

/-- A name that ends before a group, a group with a separator, an asterisk with a name. -/
theorem Path.parse_print_of_printsApart : ∃ d, Path.parse {} "/:a\x7b/:b;-\x7d+*c".toList = .ok d ∧
    Path.parse {} d.print = .ok d := by
  let d : Template :=
    ⟨[.text ['/'], .param { name := ['a'] },
        .param
          { name := ['b'], before := ['/'], modifier := some .oneOrMore, separator := some ['-'] },
        .param { name := ['c'], pattern := some (Expression.stretch ['/']),
                 modifier := some .zeroOrMore, separator := some ['/'] }], ['/']⟩
  have hd : Path.parse {} "/:a\x7b/:b;-\x7d+*c".toList = .ok d := by cbv
  exact ⟨d, hd, (Path.parse_print_iff_printsApart (fun _ => rfl) hd).2 (by cbv)⟩

/-- A group that stands for a wildcard is printed with an asterisk, which cannot follow a name. -/
theorem Path.parse_print_ne_of_asterisk :
    ∃ d, Path.parse {} ":a\x7b:b((?:(?!/).)+);/\x7d*".toList = .ok d ∧ d.print = ":a*b".toList ∧
      Path.parse {} d.print ≠ .ok d := by
  let d : Template :=
    ⟨[.param { name := ['a'] }, .param { name := ['b'], pattern := some (Expression.stretch ['/']),
                                         modifier := some .zeroOrMore, separator := some ['/'] }],
      ['/']⟩
  have hd : Path.parse {} ":a\x7b:b((?:(?!/).)+);/\x7d*".toList = .ok d := by cbv
  have hprint : d.print = ":a*b".toList := by cbv
  have herror : Path.parse {} ":a*b".toList = .error (.pattern (.asteriskAfterParam 2 ['a'])) := by
    cbv
  exact ⟨d, hd, hprint, by rw [hprint, herror]; simp⟩

end PathTemplate
