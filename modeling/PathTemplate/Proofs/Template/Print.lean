import PathTemplate.Proofs.Template.Writable

/-!
# The lexemes of printed text

* `Pen.lexemes`, `Pen.allLexemes` — the lexemes that a parameter and that all parts are printed
  with;
* `Pen.read?_param`, `Pen.read?_parts` — scanning printed text gives these lexemes: no name runs
  on into what is printed after it.
-/

namespace PathTemplate

open Unicode (isIdentifier)

/-- The kind of lexeme that is written for a modifier. -/
def Modifier.kind : Modifier → Lexeme.Kind
  | .optional => .question
  | .zeroOrMore => .asterisk
  | .oneOrMore => .plus

@[simp] theorem Modifier.ofMark?_char (m : Modifier) :
    Lexeme.Kind.ofMark? m.char = some m.kind := by
  cases m <;> rfl

@[simp] theorem Modifier.modifier?_kind (m : Modifier) : m.kind.modifier? = some m := by
  cases m <;> rfl

namespace Template.Pen

open Lexeme (read? EndsName literal)

variable (delimiter : Text)

/-! ### the lexemes of what is printed -/

/-- The parameter is written with an asterisk. -/
def isStarred (pen : Pen) (p : Param) : Bool :=
  isWildcard delimiter p && (pen.isSynthesized p || isPlainName p.name)

/-- The lexemes of the name and the pattern of a parameter. -/
def nameLexemes (pen : Pen) (p : Param) : List Lexeme :=
  match p.pattern with
  | none => [⟨.name, 0, p.name⟩]
  | some pattern =>
    if pen.isSynthesized p then [⟨.pattern, 0, pattern⟩] else [⟨.name, 0, p.name⟩,
    ⟨.pattern, 0, pattern⟩]

/-- The lexeme of a modifier. -/
def modifierLexemes (p : Param) : List Lexeme :=
  p.modifier.toList.map fun m => ⟨m.kind, 0, [m.char]⟩

/-- The lexemes of a plain name after an asterisk. -/
def plainLexemes (name : Text) : List Lexeme := name.map fun c => ⟨.char, 0, [c]⟩

/-- The lexemes of a parameter. -/
def lexemes (pen : Pen) (p : Param) : List Lexeme :=
  if pen.isStarred delimiter p then
    ⟨.asterisk, 0, ['*']⟩ :: if pen.isSynthesized p then [] else plainLexemes p.name
  else if pen.isBare delimiter p then pen.nameLexemes p ++ modifierLexemes p
  else
    ⟨.opening, 0, ['{']⟩ :: literal false p.before ++
    (if p.isCapturing then pen.nameLexemes p else []) ++
      literal (p.isCapturing && (pen.nameAndPattern p).2.openName) p.after ++
      ((writtenSeparator p).elim [] fun s => ⟨.semicolon, 0, [';']⟩ :: literal false s) ++
      ⟨.closing, 0, ['}']⟩ :: modifierLexemes p

/-- The lexemes of the parts that follow. -/
def allLexemes : Pen → List Part → List Lexeme
  | _, [] => [⟨.finish, 0, []⟩]
  | pen, .text t :: rest => literal pen.openName t ++ allLexemes ⟨pen.free, false⟩ rest
  | pen, .param p :: rest => pen.lexemes delimiter p ++ allLexemes (pen.param delimiter p).2 rest

theorem isCapturing_or {p : Param} (hp : p.IsWritable) :
    (p.isCapturing || p.pattern.isSome) = p.isCapturing := by
  by_cases hn : p.name = []
  · simp [(hp.unnamed hn).1]
  · simp [Param.isCapturing, hn]

theorem read?_nameAndPattern {pen : Pen} {p : Param} {rest : Text} (hp : p.IsWritable)
    (hn : p.name ≠ []) (hr : (pen.nameAndPattern p).2.openName = true → EndsName rest) :
    read? ((pen.nameAndPattern p).1 ++ rest) = (read? rest).map (pen.nameLexemes p ++ ·) := by
  have hname : ∀ rest : Text, (isPlainName p.name = true → EndsName rest) →
      read? (':' :: ((if isPlainName p.name = true then p.name else quoteName p.name) ++ rest)) =
        (read? rest).map (⟨.name, 0, p.name⟩ :: ·) := by
    intro rest hr
    split
    · rename_i hplain
      exact Lexeme.read?_name hplain (hr hplain)
    · exact Lexeme.read?_quoted hn rest
  unfold nameAndPattern nameLexemes at *
  cases hpat : p.pattern with
  | none =>
    simp only [hpat] at hr ⊢
    exact hname rest hr
  | some q =>
    have hq := hp.pattern q hpat
    simp only
    split
    · simpa using Lexeme.read?_pattern hq rest
    · have h := hname ('(' :: (q ++ ')' :: rest)) (fun _ => by intro c hc; cases hc; decide)
      rw [Lexeme.read?_pattern hq] at h
      simpa [Option.map_map, Function.comp_def] using h

theorem read?_modifierText (p : Param) (rest : Text) :
    read? (modifierText p ++ rest) = (read? rest).map (modifierLexemes p ++ ·) := by
  unfold modifierText modifierLexemes
  cases p.modifier with
  | none => simp
  | some m => exact Lexeme.read?_mark (by simp) rest

theorem read?_plain {name rest : Text} (hn : ∀ c ∈ name, isIdentifier c = true) :
    read? (name ++ rest) = (read? rest).map (plainLexemes name ++ ·) := by
  induction name with
  | nil => simp [plainLexemes]
  | cons c name ih =>
    have hc := Unicode.isReserved_eq_false_of_isIdentifier (hn c (by simp))
    rw [List.cons_append, Lexeme.read?_char hc, ih fun d hd => hn d (by simp [hd])]
    simp [plainLexemes, Option.map_map, Function.comp_def]

theorem endsName_escape_append {guarded : Bool} {t rest : Text} (hg : guarded = true)
    (hr : t = [] → EndsName rest) : EndsName (escape guarded t ++ rest) := by
  cases t with
  | nil => exact hr rfl
  | cons c t =>
    intro d hd
    rw [escape, hg, Bool.true_and] at hd
    split at hd
    · cases hd
      decide
    · rename_i hc
      cases hd
      exact (Bool.or_eq_false_iff.1 (Bool.not_eq_true _ ▸ hc)).1

theorem read?_separatorText (p : Param) (rest : Text) :
    read? (((writtenSeparator p).elim [] fun s => ';' :: escape false s) ++ rest) =
      (read? rest).map (((writtenSeparator p).elim [] fun s => ⟨.semicolon, 0, [';']⟩ ::
        literal false s) ++ ·) := by
  cases writtenSeparator p with
  | none => simp
  | some s =>
    simp only [Option.elim_some, List.cons_append]
    rw [Lexeme.read?_mark (k := .semicolon) rfl, Lexeme.read?_literal]
    simp [Option.map_map, Function.comp_def]

/-- The pen after a parameter in braces leaves no name open, and neither does one after a
modifier. -/
theorem read?_param {pen : Pen} {p : Param} {rest : Text} (hp : p.IsWritable)
    (hr : (pen.param delimiter p).2.openName = true → EndsName rest) :
    read? ((pen.param delimiter p).1 ++ rest) =
      (read? rest).map (pen.lexemes delimiter p ++ ·) := by
  have hstar : ∀ rest : Text, read? ('*' :: rest) = (read? rest).map (⟨.asterisk, 0, ['*']⟩ :: ·) :=
    fun rest => Lexeme.read?_mark rfl rest
  unfold param lexemes at *
  by_cases hs : pen.isStarred delimiter p = true
  · have hs' : (isWildcard delimiter p && (pen.isSynthesized p || isPlainName p.name)) = true := hs
    simp only [hs, hs', if_true] at hr ⊢
    by_cases hsyn : pen.isSynthesized p = true
    · simpa [hsyn] using hstar rest
    · simp only [hsyn, Bool.false_eq_true, if_false] at hr ⊢
      have hplain : isPlainName p.name = true := by
        simpa [hsyn] using (Bool.and_eq_true_iff.1 hs').2
      have hall : ∀ c ∈ p.name, isIdentifier c = true := by
        simpa [isPlainName] using (Bool.and_eq_true_iff.1 hplain).2
      rw [List.cons_append, hstar, read?_plain hall]
      simp [Option.map_map, Function.comp_def]
  · have hs' : ¬(isWildcard delimiter p && (pen.isSynthesized p || isPlainName p.name)) = true := hs
    simp only [hs, hs', if_false, Bool.false_eq_true] at hr ⊢
    by_cases hb : pen.isBare delimiter p = true
    · simp only [hb, if_true] at hr ⊢
      have hn : p.name ≠ [] := by
        intro hn
        simp [isBare, Param.isCapturing, hn] at hb
      rw [List.append_assoc, read?_nameAndPattern hp hn, read?_modifierText]
      · simp [Option.map_map, Function.comp_def]
      · intro ho
        cases hm : p.modifier with
        | none => simpa [modifierText, hm] using hr (by simp [ho, hm])
        | some m =>
          intro c hc
          cases m <;> (simp [modifierText, hm, Modifier.char] at hc; subst hc; decide)
    · simp only [hb, if_false, Bool.false_eq_true, isCapturing_or hp] at hr ⊢
      have hopen :
          ∀ rest : Text, read? ('{' :: rest) = (read? rest).map (⟨.opening, 0, ['{']⟩ :: ·) :=
        fun rest => Lexeme.read?_mark rfl rest
      have hclose :
          ∀ rest : Text, read? ('}' :: rest) = (read? rest).map (⟨.closing, 0, ['}']⟩ :: ·) :=
        fun rest => Lexeme.read?_mark rfl rest
      cases hcap : p.isCapturing with
      | false =>
        simp only [Bool.false_eq_true, if_false, Bool.false_and, List.append_nil, List.append_assoc,
          List.cons_append, List.nil_append]
        rw [hopen, Lexeme.read?_literal, Lexeme.read?_literal, read?_separatorText, hclose,
          read?_modifierText]
        simp [Option.map_map, Function.comp_def]
      | true =>
        have hn : p.name ≠ [] := by simpa [Param.isCapturing] using hcap
        simp only [if_true, Bool.true_and, List.append_assoc, List.cons_append, List.nil_append]
        rw [hopen, Lexeme.read?_literal, read?_nameAndPattern hp hn, Lexeme.read?_literal,
          read?_separatorText, hclose, read?_modifierText]
        · simp [Option.map_map, Function.comp_def]
        · intro ho
          refine endsName_escape_append ho fun _ => ?_
          cases writtenSeparator p with
          | none => intro c hc; cases hc; decide
          | some s => intro c hc; cases hc; decide

/-- What is printed after a name ends that name. -/
theorem endsName_parts {pen : Pen} {ps : List Part} (hps : AreWritable ps)
    (ho : pen.openName = true) : EndsName (parts delimiter pen ps) := by
  cases ps with
  | nil => intro c hc; cases hc
  | cons x rest =>
    cases x with
    | text t =>
      exact endsName_escape_append ho fun ht => absurd ht hps.1
    | param p =>
      intro d hd
      simp only [parts, param] at hd
      split at hd
      · split at hd <;> (cases hd; decide)
      · split at hd
        · simp only [nameAndPattern] at hd
          split at hd
          · cases hd; decide
          · split at hd <;> (cases hd; decide)
        · cases hd; decide

theorem read?_parts {pen : Pen} {ps : List Part} (hps : AreWritable ps) :
    read? (parts delimiter pen ps) = some (pen.allLexemes delimiter ps) := by
  induction ps generalizing pen with
  | nil => exact Lexeme.read?_nil
  | cons x rest ih =>
    cases x with
    | text t =>
      rw [parts, Lexeme.read?_literal, ih hps.2.2]
      rfl
    | param p =>
      rw [parts, read?_param delimiter hps.1 (endsName_parts delimiter hps.2), ih hps.2]
      rfl

end Template.Pen

end PathTemplate
