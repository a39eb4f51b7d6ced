import PathTemplate.Template.Parser
import PathTemplate.Template.Printer
import Mathlib

/-!
# Scanning text piece by piece

The places of lexemes matter to errors only.  This module leaves them out and says what stands at
the start of the lexemes of a text:

* `Lexeme.unplaced`, `Lexeme.read?` — a lexeme, and the lexemes of a text, without their places;
* `Lexeme.read?_mark`, `read?_char`, `read?_escaped`, `read?_name`, `read?_quoted`,
  `read?_pattern` — one equation for each way to write a lexeme, whatever follows;
* `Lexeme.IsPattern` — a text that stands for itself between parentheses;
* `Lexeme.literal`, `Lexeme.read?_literal` — the lexemes of literal text, as a template is written
  with it.
-/

namespace PathTemplate

open Unicode (isIdentifier)
open Template (isReserved escape escapeChar quoteName isPlainName)

/-! ### stretches of a list -/

theorem takeWhile_append_of_head {α : Type} {p : α → Bool} {xs ys : List α}
    (hx : ∀ x ∈ xs, p x = true) (hy : ∀ y ∈ ys.head?, p y = false) :
    (xs ++ ys).takeWhile p = xs := by
  rw [List.takeWhile_append_of_pos hx]
  cases ys with
  | nil => simp
  | cons y ys => simp [hy y rfl]

theorem dropWhile_append_of_head {α : Type} {p : α → Bool} {xs ys : List α}
    (hx : ∀ x ∈ xs, p x = true) (hy : ∀ y ∈ ys.head?, p y = false) :
    (xs ++ ys).dropWhile p = ys := by
  rw [List.dropWhile_append_of_pos hx]
  cases ys with
  | nil => simp
  | cons y ys => simp [hy y rfl]

/-! ### characters -/

theorem Unicode.isReserved_eq_false_of_isIdentifier {c : Char} (h : isIdentifier c = true) :
    isReserved c = false := by
  by_contra hr
  have hc : c ∈ ['{', '}', '(', ')', '+', '?', '!', ':', '*', ';', '@', ',', '\\'] := by
    exact List.contains_iff_mem.1 (by simpa only [isReserved, Bool.not_eq_false] using hr)
  have hall : ['{', '}', '(', ')', '+', '?', '!', ':', '*', ';', '@', ',', '\\'].all
        (!isIdentifier ·) = true := by
    decide
  simpa [h] using List.all_eq_true.1 hall c hc

theorem Unicode.ne_quote_of_isIdentifier {c : Char} (h : isIdentifier c = true) : c ≠ '"' := by
  rintro rfl
  revert h
  decide

namespace Lexeme

/-- The lexeme without its place. -/
def unplaced (x : Lexeme) : Lexeme := { x with index := 0 }

@[simp] theorem unplaced_kind (x : Lexeme) : x.unplaced.kind = x.kind := rfl
@[simp] theorem unplaced_value (x : Lexeme) : x.unplaced.value = x.value := rfl

/-- The lexemes of a text without their places, if the text has lexemes. -/
def read? (t : Text) : Option (List Lexeme) := (ofText t).toOption.map (List.map unplaced)

/-- The lexeme that starts with `c`, without its place, and the text after it. -/
def next? (c : Char) (rest : Text) : Option (Lexeme × Text) := (next 0 c rest).toOption

/-! ### places do not matter -/

theorem patternBody_toOption (s s' depth i i' : Nat) (t : Text) :
    (patternBody s depth i t).toOption = (patternBody s' depth i' t).toOption := by
  have hmap : ∀ {α β : Type} (f : α → β) {x y : Except SyntaxError α}, x.toOption = y.toOption →
      (x.map f).toOption = (y.map f).toOption := by
    intro α β f x y h
    rw [toOption_map, toOption_map, h]
  fun_induction patternBody s depth i t generalizing i' with
  | case1 => simp [patternBody, Except.toOption]
  | case2 => simp [patternBody, Except.toOption]
  | case3 depth i c rest ih => simpa only [patternBody] using hmap _ (ih _)
  | case4 => simp [patternBody]
  | case5 i rest depth ih => simpa only [patternBody] using hmap _ (ih _)
  | case6 depth i rest h => simp [patternBody, h, Except.toOption]
  | case7 depth i rest h ih =>
    simp only [patternBody, h, Bool.false_eq_true, if_false]
    exact hmap _ (ih _)
  | case8 depth i c rest h₁ h₂ h₃ h₄ h₅ ih =>
    rw [patternBody.eq_7 _ _ _ _ _ (by assumption) (by assumption) (by assumption) (by assumption)
      (by assumption)]
    exact hmap _ (ih _)

theorem next_toOption (i j : Nat) (c : Char) (rest : Text) :
    (next i c rest).toOption.map (Prod.map unplaced id) =
      (next j c rest).toOption.map (Prod.map unplaced id) := by
  unfold next
  split
  · rfl
  · split
    · rfl
    · rfl
    · split <;> rfl
    · split <;> rfl
    · rfl
    · have h := patternBody_toOption i j 0 (i + 1) (j + 1) rest
      cases hi : patternBody i 0 (i + 1) rest <;> cases hj : patternBody j 0 (j + 1) rest <;>
        simp only [hi, hj, Except.toOption, reduceCtorEq, Option.some.injEq] at h
      · rfl
      · subst h
        split <;> simp_all [Except.toOption, unplaced]
    · rfl

theorem scan_toOption (i j : Nat) (t : Text) :
    (scan i t).toOption.map (List.map unplaced) = (scan j t).toOption.map (List.map unplaced) := by
  induction hn : t.length using Nat.strongRecOn generalizing i j t with
  | _ n ih =>
    cases t with
    | nil => simp [scan, Except.toOption, unplaced]
    | cons c rest =>
      have h := next_toOption i j c rest
      rw [scan, scan]
      split <;> rename_i hi <;> split <;> rename_i hj <;>
        simp only [hi, hj, Except.toOption, Option.map_some, Option.map_none, reduceCtorEq,
          Option.some.injEq, Prod.map_apply, id_eq, Prod.mk.injEq] at h
      · rfl
      · rename_i x after y _
        obtain ⟨hx, rfl⟩ := h
        have hlen := length_of_next hi
        have := ih after.length (by simp only [List.length_cons] at hn; omega)
          (i + (rest.length + 1 - after.length)) (j + (rest.length + 1 - after.length)) after rfl
        rw [toOption_map, toOption_map, Option.map_map, Option.map_map]
        simp only [Function.comp_def, List.map_cons, hx]
        simpa [Option.map_map, Function.comp_def] using congrArg (Option.map (y.unplaced :: ·)) this

/-! ### the start of a text -/

@[simp] theorem read?_nil : read? [] = some [⟨.finish, 0, []⟩] := by
  simp [read?, ofText, scan, Except.toOption, unplaced]

/-- A text that starts with a lexeme has that lexeme first, and then those of the text after it. -/
theorem read?_cons (c : Char) (rest : Text) :
    read? (c :: rest) = (next? c rest).bind fun p => (read? p.2).map (p.1.unplaced :: ·) := by
  unfold read? next? ofText
  rw [scan]
  split
  · rename_i hn
    simp [hn, Except.toOption]
  · rename_i x after hn
    have h := scan_toOption (0 + (rest.length + 1 - after.length)) 0 after
    simp only [hn, toOption_map, Option.map_map]
    simpa [Except.toOption, Option.map_map, Function.comp_def]
      using congrArg (Option.map (x.unplaced :: ·)) h

theorem read?_cons_of_next {c : Char} {rest after : Text} {x : Lexeme}
    (h : next 0 c rest = .ok (x, after)) :
    read? (c :: rest) = (read? after).map (x.unplaced :: ·) := by
  simp [read?_cons, next?, h, Except.toOption]

theorem read?_mark {c : Char} {k : Kind} (hc : Kind.ofMark? c = some k) (rest : Text) :
    read? (c :: rest) = (read? rest).map (⟨k, 0, [c]⟩ :: ·) := by
  have hn : next 0 c rest = .ok (⟨k, 0, [c]⟩, rest) := by simp [next, hc]
  exact read?_cons_of_next hn

theorem read?_escaped (c : Char) (rest : Text) :
    read? ('\\' :: c :: rest) = (read? rest).map (⟨.escaped, 0, [c]⟩ :: ·) := by
  have hn : next 0 '\\' (c :: rest) = .ok (⟨.escaped, 0, [c]⟩, rest) := by simp [next, Kind.ofMark?]
  exact read?_cons_of_next hn

theorem read?_char {c : Char} (hc : isReserved c = false) (rest : Text) :
    read? (c :: rest) = (read? rest).map (⟨.char, 0, [c]⟩ :: ·) := by
  simp only [isReserved, List.contains_eq_mem, List.mem_cons, List.not_mem_nil, or_false,
    decide_eq_false_iff_not, not_or] at hc
  obtain ⟨h₁, h₂, h₃, -, h₅, h₆, h₇, h₈, h₉, h₁₀, h₁₁, h₁₂, h₁₃⟩ := hc
  have hm : Kind.ofMark? c = none := by simp [Kind.ofMark?, *]
  have hn : next 0 c rest = .ok (⟨.char, 0, [c]⟩, rest) := by
    unfold next
    rw [hm]
    split <;> simp_all
  exact read?_cons_of_next hn

/-! ### names -/

/-- The text does not go on with a character of a plain name. -/
def EndsName (rest : Text) : Prop := ∀ c ∈ rest.head?, isIdentifier c = false

theorem read?_name {name rest : Text} (hn : isPlainName name = true) (hr : EndsName rest) :
    read? (':' :: (name ++ rest)) = (read? rest).map (⟨.name, 0, name⟩ :: ·) := by
  simp only [isPlainName, Bool.and_eq_true, Bool.not_eq_true', List.isEmpty_eq_false_iff,
    List.all_eq_true] at hn
  obtain ⟨hne, hall⟩ := hn
  have ht := takeWhile_append_of_head hall hr
  have hd := dropWhile_append_of_head hall hr
  obtain ⟨c, name, rfl⟩ := List.exists_cons_of_ne_nil hne
  have hc := Unicode.ne_quote_of_isIdentifier (hall c (by simp))
  have hnext : next 0 ':' (c :: name ++ rest) = .ok (⟨.name, 0, c :: name⟩, rest) := by
    unfold next
    split
    · simp_all [Kind.ofMark?]
    · split <;> simp_all
  exact read?_cons_of_next hnext

theorem quotedName_quoteName (name rest : Text) :
    quotedName
        (name.flatMap (fun c => if c = '"' ∨ c = '\\' then ['\\', c] else [c]) ++ '"' :: rest) =
      some (name, rest) := by
  induction name with
  | nil => simp [quotedName]
  | cons c name ih =>
    rw [List.flatMap_cons]
    split
    · simp [quotedName, ih]
    · rename_i h
      simp only [not_or] at h
      rw [List.append_assoc, List.singleton_append, quotedName, ih]
      · rfl
      all_goals simp_all

theorem read?_quoted {name : Text} (hn : name ≠ []) (rest : Text) :
    read? (':' :: (quoteName name ++ rest)) = (read? rest).map (⟨.name, 0, name⟩ :: ·) := by
  have hq := quotedName_quoteName name rest
  have hnext : next 0 ':' (quoteName name ++ rest) = .ok (⟨.name, 0, name⟩, rest) := by
    unfold next
    simp only [Kind.ofMark?, quoteName, List.append_assoc, List.cons_append,
      List.nil_append, hq]
    split <;> simp_all
  exact read?_cons_of_next hnext

/-! ### patterns -/

/-- A pattern of which `depth` parentheses are open, and the text after it. -/
def body? (depth : Nat) (t : Text) : Option (Text × Text) := (patternBody 0 depth 0 t).toOption

theorem patternBody_eq_body? (s depth i : Nat) (t : Text) :
    (patternBody s depth i t).toOption = body? depth t :=
  patternBody_toOption ..

theorem body?_escape (depth : Nat) (c : Char) (t : Text) :
    body? depth ('\\' :: c :: t) = (body? depth t).map fun p => ('\\' :: c :: p.1, p.2) := by
  rw [body?, patternBody, toOption_map, patternBody_eq_body?]

theorem body?_close (depth : Nat) (t : Text) :
    body? (depth + 1) (')' :: t) = (body? depth t).map fun p => (')' :: p.1, p.2) := by
  rw [body?, patternBody, toOption_map, patternBody_eq_body?]

theorem body?_open {depth : Nat} {t : Text} (h : opensCapture t = false) :
    body? depth ('(' :: t) = (body? (depth + 1) t).map fun p => ('(' :: p.1, p.2) := by
  rw [body?, patternBody, h, if_neg (by simp), toOption_map, patternBody_eq_body?]

theorem body?_char {depth : Nat} {c : Char} (t : Text) (h₁ : c ≠ '\\') (h₂ : c ≠ '(')
    (h₃ : c ≠ ')') : body? depth (c :: t) = (body? depth t).map fun p => (c :: p.1, p.2) := by
  rw [body?, patternBody, toOption_map, patternBody_eq_body?]
  · exact fun h => absurd h h₁
  · exact fun _ _ h => absurd h h₁
  · exact fun h => absurd h h₂
  · exact fun _ h => absurd h h₃
  · exact fun _ _ h => absurd h h₃

/-- The text stands for itself between parentheses. -/
def IsPattern (p : Text) : Prop :=
  p ≠ [] ∧ p.head? ≠ some '?' ∧ ∀ rest, body? 0 (p ++ ')' :: rest) = some (p, rest)

theorem next_pattern {p : Text} (hp : IsPattern p) (rest : Text) :
    next 0 '(' (p ++ ')' :: rest) = .ok (⟨.pattern, 0, p⟩, rest) := by
  obtain ⟨hne, hq, hbody⟩ := hp
  have hb : patternBody 0 0 (0 + 1) (p ++ ')' :: rest) = .ok (p, rest) := by
    have h := patternBody_eq_body? 0 0 (0 + 1) (p ++ ')' :: rest)
    rw [hbody] at h
    cases hx : patternBody 0 0 (0 + 1) (p ++ ')' :: rest) <;> simp_all [Except.toOption]
  obtain ⟨c, p, rfl⟩ := List.exists_cons_of_ne_nil hne
  unfold next
  split
  · simp_all [Kind.ofMark?]
  · split <;> simp_all

theorem read?_pattern {p : Text} (hp : IsPattern p) (rest : Text) :
    read? ('(' :: (p ++ ')' :: rest)) = (read? rest).map (⟨.pattern, 0, p⟩ :: ·) :=
  read?_cons_of_next (next_pattern hp rest)

/-- Whether a parenthesis opens a group that captures is seen before the parenthesis that closes
it. -/
theorem opensCapture_append (p rest rest' : Text) :
    opensCapture (p ++ ')' :: rest) = opensCapture (p ++ ')' :: rest') := by
  rcases p with _ | ⟨a, _ | ⟨b, _ | ⟨c, p⟩⟩⟩
  · rfl
  · by_cases ha : a = '?'
    · subst ha; rfl
    · simp [opensCapture, ha]
  · by_cases ha : a = '?'
    · subst ha
      by_cases hb : b = '<'
      · subst hb; rfl
      · simp [opensCapture, hb]
    · simp [opensCapture, ha]
  · by_cases ha : a = '?'
    · subst ha
      by_cases hb : b = '<'
      · subst hb
        by_cases hc : c = '='
        · subst hc; rfl
        · by_cases hc' : c = '!'
          · subst hc'; rfl
          · simp [opensCapture, hc, hc']
      · by_cases hb' : b = 'P'
        · subst hb'
          by_cases hc : c = '<'
          · subst hc; rfl
          · simp [opensCapture, hc]
        · simp [opensCapture, hb, hb']
    · simp [opensCapture, ha]

/-- A pattern that was read stands in the text before the parenthesis that closes it, and reads as
itself whatever follows that. -/
theorem body?_eq_some {s depth i : Nat} {t p after : Text}
    (h : patternBody s depth i t = .ok (p, after)) :
    t = p ++ ')' :: after ∧ ∀ rest, body? depth (p ++ ')' :: rest) = some (p, rest) := by
  fun_induction patternBody s depth i t generalizing p after with
  | case1 => cases h
  | case2 => cases h
  | case3 depth i c t ih =>
    obtain ⟨⟨q, a⟩, hq, hp⟩ := exists_of_map_eq_ok h
    obtain ⟨rfl, hrest⟩ := ih hq
    cases hp
    refine ⟨rfl, fun rest => ?_⟩
    rw [List.cons_append, List.cons_append, body?_escape, hrest]
    rfl
  | case4 i t =>
    cases h
    exact ⟨rfl, fun rest => rfl⟩
  | case5 i t depth ih =>
    obtain ⟨⟨q, a⟩, hq, hp⟩ := exists_of_map_eq_ok h
    obtain ⟨rfl, hrest⟩ := ih hq
    cases hp
    refine ⟨rfl, fun rest => ?_⟩
    rw [List.cons_append, body?_close, hrest]
    rfl
  | case6 => cases h
  | case7 depth i t hc ih =>
    obtain ⟨⟨q, a⟩, hq, hp⟩ := exists_of_map_eq_ok h
    obtain ⟨rfl, hrest⟩ := ih hq
    cases hp
    refine ⟨rfl, fun rest => ?_⟩
    rw [opensCapture_append q _ rest, Bool.not_eq_true] at hc
    rw [List.cons_append, body?_open hc, hrest]
    rfl
  | case8 depth i c t h₁ h₂ h₃ h₄ h₅ ih =>
    obtain ⟨⟨q, a⟩, hq, hp⟩ := exists_of_map_eq_ok h
    obtain ⟨rfl, hrest⟩ := ih hq
    cases hp
    have hc : c ≠ '\\' := by
      intro hc
      obtain ⟨d, r, hd⟩ := List.exists_cons_of_ne_nil (show q ++ ')' :: after ≠ [] by simp)
      exact h₂ d r hc hd
    have hc' : c ≠ ')' := by
      intro hc
      cases depth with
      | zero => exact h₃ rfl hc
      | succ depth => exact h₄ depth rfl hc
    refine ⟨rfl, fun rest => ?_⟩
    rw [List.cons_append, body?_char _ hc h₅ hc', hrest]
    rfl

theorem body?_quote (depth : Nat) (t rest : Text) :
    body? depth (Expression.quote t ++ rest) =
      (body? depth rest).map fun p => (Expression.quote t ++ p.1, p.2) := by
  induction t with
  | nil => simp
  | cons c t ih =>
    rw [Expression.quote_cons, List.append_assoc]
    unfold Expression.quoteChar
    split
    · simp [body?_escape, ih, Function.comp_def]
    · rename_i hc
      have h : ∀ d, Expression.isSpecial d = true → c ≠ d := fun d hd h => hc (h ▸ hd)
      rw [List.singleton_append, body?_char _ (h _ (by decide)) (h _ (by decide)) (h _ (by decide)),
        ih]
      simp [Function.comp_def]

theorem isPattern_stretch (delimiter : Text) : IsPattern (Expression.stretch delimiter) := by
  refine ⟨by simp [Expression.stretch, Expression.outside],
    by simp [Expression.stretch, Expression.outside], fun rest => ?_⟩
  have h : ∀ t, body? 0 ('+' :: ')' :: t) = some (['+'], t) := fun t => rfl
  simp only [Expression.stretch, Expression.outside, List.cons_append, List.nil_append,
    List.append_assoc]
  rw [body?_open (by rfl), body?_char _ (by decide) (by decide) (by decide),
    body?_char _ (by decide) (by decide) (by decide), body?_open (by rfl),
    body?_char _ (by decide) (by decide) (by decide),
    body?_char _ (by decide) (by decide) (by decide), body?_quote, body?_close,
    body?_char _ (by decide) (by decide) (by decide), body?_close, h]
  simp

/-! ### literal text -/

/-- The lexemes of literal text.  `guarded` says that a plain name ends before it. -/
def literal (guarded : Bool) : Text → List Lexeme
  | [] => []
  | c :: t =>
    ⟨if (guarded && isIdentifier c) || isReserved c then .escaped else .char, 0, [c]⟩ ::
      literal false t

theorem read?_escape_cons (escaped : Bool) {c : Char} (hc : escaped = false → isReserved c = false)
    (rest : Text) :
    read? ((if escaped then ['\\', c] else [c]) ++ rest) =
      (read? rest).map (⟨if escaped then .escaped else .char, 0, [c]⟩ :: ·) := by
  cases escaped with
  | false => exact read?_char (hc rfl) rest
  | true => exact read?_escaped c rest

theorem read?_literal (guarded : Bool) (t rest : Text) :
    read? (escape guarded t ++ rest) = (read? rest).map (literal guarded t ++ ·) := by
  have hplain :
      ∀ t, read? (t.flatMap escapeChar ++ rest) = (read? rest).map (literal false t ++ ·) := by
    intro t
    induction t with
    | nil => simp [literal]
    | cons c t ih =>
      rw [List.flatMap_cons, List.append_assoc, escapeChar, read?_escape_cons _ (by simp), ih]
      simp [literal, Function.comp_def]
  cases t with
  | nil => simp [escape, literal]
  | cons c t =>
    rw [escape, List.append_assoc, read?_escape_cons _ (by simp), hplain]
    simp [literal, Function.comp_def]

end Lexeme

end PathTemplate
