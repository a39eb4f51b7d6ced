import PathTemplate.Path
import PathTemplate.Proofs.Template.Grammar
import PathTemplate.Proofs.Template.Slices
import PathTemplate.Proofs.Template.Writable

/-!
# Errors point at what is wrong

A text that is no template is refused with an error that knows a place.  This module says what
stands there.

* `SyntaxError.PointsInto` — for each cause, the characters at the place of the offence;
* `Lexeme.pointsInto_of_next`, `Lexeme.pointsInto_of_scan` — so it is for a text that cannot be
  scanned;
* `SyntaxError.IsAt`, `Template.exists_isAt` — reading parts stops at a lexeme, which is no
  literal text;
* `Lexeme.Tiles.cases_of_mem` — a lexeme stands in the text at its place;
* `Path.pointsInto_of_parse` — so it is for every text that is refused.
-/

namespace PathTemplate

/-- The character that lexemes of this kind start with; literal characters have none in common, and
the end has none. -/
def Lexeme.Kind.opener? : Lexeme.Kind → Option Char
  | .opening => some '{'
  | .closing => some '}'
  | .question => some '?'
  | .asterisk => some '*'
  | .plus => some '+'
  | .semicolon => some ';'
  | .bang => some '!'
  | .atSign => some '@'
  | .comma => some ','
  | .name => some ':'
  | .pattern => some '('
  | .escaped => some '\\'
  | .char | .finish => none

namespace SyntaxError

/-- At the place of the offence the text has what the error is about. -/
def PointsInto (t : Text) : SyntaxError → Prop
  | loneEscape i => t[i]? = some '\\' ∧ i + 1 = t.length
  | missingName i => t[i]? = some ':'
  | unterminatedQuote i => ∃ j, i = j + 1 ∧ t[j]? = some ':' ∧ t[i]? = some '"'
  | leadingQuestionMark i => ∃ j, i = j + 1 ∧ t[j]? = some '(' ∧ t[i]? = some '?'
  | capturingGroup i | unbalancedPattern i => t[i]? = some '('
  | missingPattern i => t[i]? = some '(' ∧ t[i + 1]? = some ')'
  | asteriskAfterParam i _ => t[i]? = some '*'
  | unexpected kind i expected =>
    kind ≠ .char ∧ kind ≠ .escaped ∧ (kind = .finish → expected = .closing ∧ i = t.length) ∧
      (kind ≠ .finish → ∃ c, t[i]? = some c ∧ kind.opener? = some c)

/-- The error is about this lexeme, which is no literal text. -/
def IsAt (x : Lexeme) : SyntaxError → Prop
  | asteriskAfterParam i _ => i = x.index ∧ x.kind = .asterisk
  | unexpected kind i expected =>
    kind = x.kind ∧ i = x.index ∧ x.isText = false ∧ (kind = .finish → expected = .closing)
  | _ => False

end SyntaxError

open SyntaxError (PointsInto IsAt)

namespace Lexeme

variable {u t rest after v s : Text} {c : Char} {k : Kind} {e : SyntaxError} {x : Lexeme}
  {xs : List Lexeme}

/-! ### texts that cannot be scanned -/

theorem getElem?_append_length (u : Text) (c : Char) (t : Text) :
    (u ++ c :: t)[u.length]? = some c := by
  simp

theorem getElem?_append_length_succ (u : Text) (c d : Char) (t : Text) :
    (u ++ c :: d :: t)[u.length + 1]? = some d := by
  simp

/-- A pattern that cannot be read is not closed, or has a parenthesis that opens a capturing
group. -/
theorem patternBody_eq_error {start depth : Nat}
    (h : patternBody start depth u.length t = .error e) :
    e = .unbalancedPattern start ∨ ∃ i, e = .capturingGroup i ∧ (u ++ t)[i]? = some '(' := by
  generalize hi : u.length = i at h
  fun_induction patternBody start depth i t generalizing u with
  | case1 => exact .inl (by cases h; rfl)
  | case2 => exact .inl (by cases h; rfl)
  | case3 depth i c rest ih =>
    have hrest := ih (u := u ++ ['\\', c]) (by simp [hi]) (eq_error_of_map h)
    simpa using hrest
  | case4 => cases h
  | case5 i rest depth ih =>
    have hrest := ih (u := u ++ [')']) (by simp [hi]) (eq_error_of_map h)
    simpa using hrest
  | case6 depth i rest _ =>
    cases h
    exact .inr ⟨_, rfl, by simp [← hi]⟩
  | case7 depth i rest _ ih =>
    have hrest := ih (u := u ++ ['(']) (by simp [hi]) (eq_error_of_map h)
    simpa using hrest
  | case8 depth i c rest _ _ _ _ _ ih =>
    have hrest := ih (u := u ++ [c]) (by simp [hi]) (eq_error_of_map h)
    simpa using hrest

theorem pointsInto_of_next (h : next u.length c rest = .error e) :
    e.PointsInto (u ++ c :: rest) := by
  have hc := getElem?_append_length u c rest
  revert h
  fun_cases next u.length c rest with
  | case1 | case3 | case6 | case8 | case12 | case13 => rintro ⟨⟩
  | case2 =>
    -- a backslash at the end of the text
    rintro ⟨⟩
    exact ⟨hc, by simp⟩
  | case4 =>
    -- a quoted name that is not closed
    rintro ⟨⟩
    exact ⟨_, rfl, hc, getElem?_append_length_succ ..⟩
  | case5 | case7 =>
    -- a name without characters
    rintro ⟨⟩
    exact hc
  | case9 =>
    -- a group that starts with a question mark
    rintro ⟨⟩
    exact ⟨_, rfl, hc, getElem?_append_length_succ ..⟩
  | case10 rest e' _ hbody =>
    -- a pattern that is not closed, or captures
    rintro ⟨⟩
    have hlength : u.length + 1 = (u ++ ['(']).length := by simp
    rw [hlength] at hbody
    rcases patternBody_eq_error hbody with rfl | ⟨i, rfl, hi⟩
    · exact hc
    · simpa [PointsInto] using hi
  | case11 rest _ _ hbody =>
    -- a pattern without characters
    rintro ⟨⟩
    obtain ⟨rfl, -⟩ := body?_eq_some hbody
    exact ⟨hc, getElem?_append_length_succ ..⟩

/-- A text that cannot be scanned is refused with an error that points to what is wrong. -/
theorem pointsInto_of_scan (h : scan u.length t = .error e) : e.PointsInto (u ++ t) := by
  generalize hi : u.length = i at h
  fun_induction scan i t generalizing u with
  | case1 => cases h
  | case2 i c rest e' hnext =>
    cases h
    subst hi
    exact pointsInto_of_next hnext
  | case3 i c rest x after hnext _ ih =>
    obtain ⟨-, s, hs, -⟩ := exists_source_of_next hnext
    have hlength : (u ++ s).length = i + (rest.length + 1 - after.length) := by
      have := congrArg List.length hs
      simp only [List.length_cons, List.length_append] at this ⊢
      omega
    rw [hs, ← List.append_assoc]
    exact ih hlength (eq_error_of_map h)

/-! ### lexemes in the text -/

/-- A lexeme starts with the character of its kind, unless it is a literal character. -/
theorem Source.exists_cons (h : Source after k v s) :
    ∃ c s', s = c :: s' ∧ (k ≠ .char → k.opener? = some c) := by
  cases h with
  | @mark c _ hc =>
    refine ⟨c, [], rfl, fun _ => ?_⟩
    unfold Kind.ofMark? at hc
    split at hc <;> cases hc <;> rfl
  | char _ _ => exact ⟨_, [], rfl, fun h => absurd rfl h⟩
  | escaped c => exact ⟨_, _, rfl, fun _ => rfl⟩
  | name _ _ _ => exact ⟨_, _, rfl, fun _ => rfl⟩
  | quoted _ _ => exact ⟨_, _, rfl, fun _ => rfl⟩
  | pattern _ => exact ⟨_, _, rfl, fun _ => rfl⟩

/-- At its place a lexeme has the character of its kind; the end stands after the text. -/
theorem Tiles.cases_of_mem (h : Tiles u.length t xs) (hx : x ∈ xs) :
    x.kind = .finish ∧ x.index = (u ++ t).length ∨
    x.kind ≠ .finish ∧
      ∃ c, (u ++ t)[x.index]? = some c ∧ (x.kind ≠ .char → x.kind.opener? = some c) := by
  generalize hi : u.length = i at h
  induction h generalizing u with
  | finish i =>
    rw [List.mem_singleton] at hx
    exact .inl (by simp [hx, hi])
  | @cons i k v s after xs hs _ ih =>
    rcases List.mem_cons.1 hx with rfl | hx
    · obtain ⟨c, s', rfl, hc⟩ := hs.exists_cons
      exact .inr ⟨hs.ne_finish, c, by simp [← hi], hc⟩
    · rw [← List.append_assoc]
      exact ih hx (by simp [hi])

/-! ### the end comes once -/

theorem EndsOnce.dropWhile {p : Lexeme → Bool} (hp : ∀ x, p x = true → x.kind ≠ .finish)
    (h : EndsOnce xs) : EndsOnce (xs.dropWhile p) := by
  rw [← List.takeWhile_append_dropWhile (p := p) (l := xs)] at h
  exact (endsOnce_append_iff fun x hx => hp x (List.mem_takeWhile_imp hx)).1 h

theorem EndsOnce.afterText (h : EndsOnce xs) : EndsOnce (afterText xs) :=
  h.dropWhile fun x hx hk => by simp [isText, hk] at hx

theorem EndsOnce.take? (hk : k ≠ .finish) (h : EndsOnce xs) : EndsOnce (take? k xs).2 := by
  obtain ⟨n, hn, -, hkind⟩ := exists_take? k xs
  rw [hn] at h
  exact (endsOnce_append_iff fun x hx => by rwa [hkind x (Option.mem_toList.1 hx)]).1 h

end Lexeme

theorem SyntaxError.IsAt.pointsInto {e : SyntaxError} {x : Lexeme} {xs : List Lexeme} {t : Text}
    (h : e.IsAt x) (hx : x ∈ xs) (hxs : Lexeme.ofText t = .ok xs) : e.PointsInto t := by
  have hplace := (Lexeme.tiles_of_scan (i := ([] : Text).length) hxs).cases_of_mem hx
  rw [List.nil_append] at hplace
  cases e with
  | asteriskAfterParam i name =>
    obtain ⟨rfl, hk⟩ := h
    rcases hplace with ⟨hfinish, -⟩ | ⟨-, c, hc, hopener⟩
    · simp [hk] at hfinish
    · rw [hk] at hopener
      obtain rfl : '*' = c := Option.some.inj (hopener (by simp))
      exact hc
  | unexpected kind i expected =>
    obtain ⟨rfl, rfl, htext, hexpected⟩ := h
    simp only [Lexeme.isText, Bool.or_eq_false_iff, decide_eq_false_iff_not] at htext
    refine ⟨htext.1, htext.2, fun hfinish => ⟨hexpected hfinish, ?_⟩, fun hfinish => ?_⟩
    · rcases hplace with ⟨-, hi⟩ | ⟨hne, -⟩
      · exact hi
      · exact absurd hfinish hne
    · rcases hplace with ⟨hk, -⟩ | ⟨-, c, hc, hopener⟩
      · exact absurd hk hfinish
      · exact ⟨c, hc, hopener htext.1⟩
  | _ => exact h.elim

namespace Template

open Lexeme (text afterText take? takeModifier continuesName EndsOnce)

variable {o : ParseOptions} {free : Nat} {xs : List Lexeme} {e : SyntaxError}

/-! ### lexemes at which reading stops -/

theorem exists_isAt_of_bare? (h : bare? o free xs = .error e) : ∃ x ∈ xs, e.IsAt x := by
  have hsub := List.Subset.trans (take?_subset .pattern (take? .name xs).2) (take?_subset .name xs)
  unfold bare? at h
  simp only at h
  split at h
  · rename_i y rest hrest
    rw [hrest] at hsub
    split at h
    · rename_i hk
      cases h
      exact ⟨y, hsub (by simp), rfl, hk⟩
    · cases h
    · cases h
    · cases h
  · cases h

theorem exists_isAt_of_group? (hend : EndsOnce xs) (h : group? o free xs = .error e) :
    ∃ x ∈ xs, e.IsAt x := by
  unfold group? at h
  simp only at h
  generalize hr : (take? .pattern (take? .name (afterText xs)).2).2 = r at h
  have hsub : r ⊆ xs := by
    rw [← hr]
    exact List.Subset.trans (List.Subset.trans (take?_subset _ _) (take?_subset _ _))
      (afterText_subset _)
  have hend : EndsOnce r := by
    rw [← hr]
    exact .take? (by simp) (.take? (by simp) hend.afterText)
  generalize hys : (if (take? .semicolon (afterText r)).1.isSome = true then afterText
      (take? .semicolon (afterText r)).2 else (take? .semicolon (afterText r)).2) = ys at h
  -- the closing brace is missed where neither literal text goes on nor the lexemes are over
  obtain ⟨hends, hmem, hhead⟩ : EndsOnce ys ∧ ys ⊆ xs ∧ ∀ y ∈ ys.head?, y.isText = false := by
    rw [← hys]
    split
    · refine ⟨(hend.afterText.take? (by simp)).afterText, ?_, isText_head_afterText _⟩
      exact List.Subset.trans (List.Subset.trans (afterText_subset _) (take?_subset _ _))
        (List.Subset.trans (afterText_subset _) hsub)
    · rename_i hnone
      rw [take?_snd_of_none (by simpa using hnone)]
      exact ⟨hend.afterText, List.Subset.trans (afterText_subset _) hsub, isText_head_afterText _⟩
  split at h
  · exact hends.elim
  · rename_i y rest
    split at h
    · cases h
      exact ⟨y, hmem (by simp), rfl, rfl, hhead y rfl, fun _ => rfl⟩
    · cases h

theorem Step.Opens.endsOnce {s : Step} (hs : s.Opens o free xs) (hend : EndsOnce xs) :
    EndsOnce s.rest := by
  cases hs with
  | bare hx hs =>
    obtain ⟨i, hi, -, hxs⟩ := exists_bare hx hs
    rw [hxs] at hend
    exact (endsOnce_append_iff hi.kind_ne_finish).1 hend
  | wildcard hx =>
    rw [EndsOnce, if_neg (by simp [hx])] at hend
    exact hend.dropWhile fun y hy hk => by simp [continuesName, hk] at hy
  | group hx hs =>
    obtain ⟨b, hb, hxs⟩ := exists_group hx hs
    rw [hxs] at hend
    exact (endsOnce_append_iff (Item.IsProper.kind_ne_finish (i := .group b) hb)).1 hend

/-- Where no parts can be read, reading stops at one of the lexemes. -/
theorem exists_isAt (hend : EndsOnce xs) (h : partsFrom o free xs = .error e) :
    ∃ x ∈ xs, e.IsAt x := by
  -- what stops the reading of the rest is one of all lexemes
  have later : ∀ {free : Nat} {xs : List Lexeme} {s : Step}, s.Opens o free xs → EndsOnce xs →
      (EndsOnce s.rest → ∃ x ∈ s.rest, e.IsAt x) → ∃ x ∈ xs, e.IsAt x := by
    intro free xs s hs hend ih
    obtain ⟨x, hx, hat⟩ := ih (hs.endsOnce hend)
    exact ⟨x, hs.rest hx, hat⟩
  fun_induction partsFrom o free xs with
  | case1 => cases h
  | case2 free x rest hx _ ih =>
    obtain ⟨y, hy, hat⟩ := ih hend.afterText (eq_error_of_map h)
    exact ⟨y, afterText_subset _ hy, hat⟩
  | case3 free x rest _ hx e' hs =>
    cases h
    exact exists_isAt_of_bare? hs
  | case4 free x rest _ hx s hs _ ih =>
    exact later (.bare hx hs) hend fun hend => ih hend (eq_error_of_map h)
  | case5 free x rest _ _ hx _ s ih =>
    exact later (.wildcard hx) hend fun hend => ih hend (eq_error_of_map h)
  | case6 free x rest _ _ _ hx e' hs =>
    cases h
    rw [EndsOnce, if_neg (by simp [hx])] at hend
    obtain ⟨y, hy, hat⟩ := exists_isAt_of_group? hend hs
    exact ⟨y, List.mem_cons_of_mem x hy, hat⟩
  | case7 free x rest _ _ _ hx s hs _ ih =>
    exact later (.group hx hs) hend fun hend => ih hend (eq_error_of_map h)
  | case8 => cases h
  | case9 free x rest htext _ _ _ hfinish =>
    cases h
    exact ⟨x, by simp, rfl, rfl, by simpa using htext, fun hk => absurd hk hfinish⟩

end Template

/-! ### texts that are refused -/

/-- A template text is refused with an error that points to what is wrong in it. -/
theorem Path.pointsInto_of_parse {o : ParseOptions} {t : Text} {e : SyntaxError}
    (h : Path.parse o t = .error (.pattern e)) : e.PointsInto t := by
  obtain ⟨-, h⟩ := parse_eq_pattern_error_iff.1 h
  unfold Template.parse at h
  split at h
  · rename_i hscan
    cases h
    exact Lexeme.pointsInto_of_scan (u := []) hscan
  · rename_i xs hxs
    obtain ⟨x, hx, hat⟩ := Template.exists_isAt (Lexeme.endsOnce_of_scan hxs) (eq_error_of_map h)
    exact hat.pointsInto hx hxs

/-- A name where the brace should be closed, a text that ends too early, and a group that
captures. -/
theorem Path.pointsInto_of_parse_wrong :
    (Path.parse {} "é\x7b(\\d+):n\x7d".toList = .error (.pattern (.unexpected .name 7 .closing)) ∧
      PointsInto "é\x7b(\\d+):n\x7d".toList (.unexpected .name 7 .closing)) ∧
    (Path.parse {} "é\x7ba".toList = .error (.pattern (.unexpected .finish 3 .closing)) ∧
      PointsInto "é\x7ba".toList (.unexpected .finish 3 .closing)) ∧
    Path.parse {} "é(\\((?<n>b))".toList = .error (.pattern (.capturingGroup 4)) ∧
      PointsInto "é(\\((?<n>b))".toList (.capturingGroup 4) := by
  have hname :
      Path.parse {} "é\x7b(\\d+):n\x7d".toList = .error (.pattern (.unexpected .name 7 .closing)) :=
    by cbv
  have hfinish :
      Path.parse {} "é\x7ba".toList = .error (.pattern (.unexpected .finish 3 .closing)) := by
    cbv
  have hgroup : Path.parse {} "é(\\((?<n>b))".toList = .error (.pattern (.capturingGroup 4)) := by
    cbv
  exact ⟨⟨hname, pointsInto_of_parse hname⟩, ⟨hfinish, pointsInto_of_parse hfinish⟩, hgroup,
    pointsInto_of_parse hgroup⟩

end PathTemplate
