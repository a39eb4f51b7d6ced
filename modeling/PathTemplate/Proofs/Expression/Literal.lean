import PathTemplate.Proofs.Expression.Reading
import PathTemplate.Expression.Quote

/-!
# Literal text and stretches between delimiters

* `Alike` — two texts are the same up to case, where case does not count; `Sense.text` — the sense
  of a quoted text;
* `Begins`, `Avoids` — a delimiter begins here; no delimiter begins in a text, given what follows
  it;
* `Sense.run`, `Sense.loose`, `Literal.sense` — runs of delimiters, and literal texts with such
  runs;
* `Sense.stretch`, `Sense.stretch_iff` — what a value without a pattern of its own may be.
-/

namespace PathTemplate

/-! ### texts up to case -/

theorem forall₂_append_left_iff {α β : Type} {R : α → β → Prop} {l₁ l₂ : List α} {l : List β} :
    List.Forall₂ R (l₁ ++ l₂) l ↔
    ∃ u v, List.Forall₂ R l₁ u ∧ List.Forall₂ R l₂ v ∧ l = u ++ v := by
  constructor
  · intro h
    induction l₁ generalizing l with
    | nil => exact ⟨[], l, .nil, h, rfl⟩
    | cons a l₁ ih =>
      obtain ⟨b, l', hb, hl, rfl⟩ := List.forall₂_cons_left_iff.1 h
      obtain ⟨u, v, hu, hv, rfl⟩ := ih hl
      exact ⟨b :: u, v, .cons hb hu, hv, rfl⟩
  · rintro ⟨u, v, hu, hv, rfl⟩
    exact List.rel_append hu hv

/-- The text `v` is the text `t`, up to case if case does not count. -/
def Alike (ic : Bool) (t v : Text) : Prop := List.Forall₂ (fun c d => matchesChar c ic d = true) t v

section

variable {ic : Bool} {s t u v D : Text} {p q : Cursor} {w : Captures}

theorem Alike.refl (ic : Bool) (t : Text) : Alike ic t t :=
  List.forall₂_same.2 fun c _ => matchesChar_refl c ic

theorem alike_cons_iff {c : Char} :
    Alike ic (c :: t) v ↔ ∃ d u, matchesChar c ic d = true ∧ Alike ic t u ∧ v = d :: u :=
  List.forall₂_cons_left_iff

/-- Where case counts, no other text is alike. -/
theorem alike_false_iff : Alike false t v ↔ v = t := by
  constructor
  · intro h
    induction h with
    | nil => rfl
    | cons hd _ ih => simp_all [matchesChar]
  · rintro rfl
    exact .refl false v

theorem Alike.symm (h : Alike ic t v) : Alike ic v t :=
  List.Forall₂.flip (List.Forall₂.imp (fun _ _ => matchesChar_symm) h)

theorem Alike.trans (h : Alike ic t u) (h' : Alike ic u v) : Alike ic t v := by
  induction h generalizing v with
  | nil => exact h'
  | cons hd _ ih =>
    obtain ⟨e, v, he, hv, rfl⟩ := alike_cons_iff.1 h'
    exact .cons (matchesChar_trans hd he) (ih hv)

/-- A delimiter begins at the start of a text. -/
def Begins (ic : Bool) (delimiter t : Text) : Prop := ∃ v rest, Alike ic delimiter v ∧ t = v ++ rest

theorem Begins.append (h : Begins ic D t) (r : Text) : Begins ic D (t ++ r) := by
  obtain ⟨v, rest, hv, rfl⟩ := h
  exact ⟨v, rest ++ r, hv, List.append_assoc ..⟩

/-- A delimiter that there is room for does not begin because of what follows. -/
theorem Begins.of_append {r : Text} (h : Begins ic D (t ++ r)) (hlen : D.length ≤ t.length) :
    Begins ic D t := by
  obtain ⟨v, rest, hv, heq⟩ := h
  have hlen' := hv.length_eq
  obtain ⟨s, rfl⟩ : v <+: t := by
    refine List.prefix_of_prefix_length_le (List.prefix_append v rest) ?_ (by omega)
    rw [← heq]
    exact List.prefix_append t r
  exact ⟨v, s, hv, rfl⟩

theorem Begins.alike (h : Begins ic D t) (ht : Alike ic t u) : Begins ic D u := by
  obtain ⟨v, rest, hv, rfl⟩ := h
  obtain ⟨v', rest', hv', -, rfl⟩ := forall₂_append_left_iff.1 ht
  exact ⟨v', rest', hv.trans hv', rfl⟩

/-- No delimiter begins in `v` where `rest` follows. -/
def Avoids (ic : Bool) (delimiter v rest : Text) : Prop :=
  ∀ a b, v = a ++ b → b ≠ [] → ¬Begins ic delimiter (b ++ rest)

theorem avoids_nil {rest : Text} : Avoids ic D [] rest := by
  intro a b h hb
  exact absurd (List.append_eq_nil_iff.1 h.symm).2 hb

theorem avoids_cons_iff {c : Char} {rest : Text} :
    Avoids ic D (c :: v) rest ↔ ¬Begins ic D (c :: v ++ rest) ∧ Avoids ic D v rest := by
  constructor
  · intro h
    exact ⟨h [] (c :: v) rfl (by simp), fun a b hab hb => h (c :: a) b (by rw [hab]; rfl) hb⟩
  · rintro ⟨h, h'⟩ a b hab hb
    cases a with
    | nil =>
      obtain rfl : c :: v = b := hab
      exact h
    | cons d a =>
      simp only [List.cons_append, List.cons.injEq] at hab
      exact h' a b hab.2 hb

/-! ### senses -/

namespace Sense

/-- Quoted text. -/
def text (ic : Bool) : Text → Sense
  | [] => nothing
  | c :: t => (one (matchesChar c ic)).seq (text ic t)

/-- Delimiters, as many as there are. -/
def run (ic : Bool) (delimiter : Text) : Sense :=
  ((text ic delimiter).rounds 1 none).seq (text ic delimiter).absent

/-- A text with runs of delimiters, as `Expression.loosenFrom` goes along it. -/
def loose (ic : Bool) (delimiter : Text) : (skip : Nat) → (inRun : Bool) → Text → Sense
  | _, _, [] => nothing
  | skip + 1, inRun, _ :: rest => loose ic delimiter skip inRun rest
  | 0, inRun, c :: rest =>
    if delimiter.isPrefixOf (c :: rest) then
      (if inRun then nothing else run ic delimiter).seq
      (loose ic delimiter (delimiter.length - 1) true rest)
    else (one (matchesChar c ic)).seq (loose ic delimiter 0 false rest)

/-- Characters in a line at which no delimiter begins. -/
def stretch (ic : Bool) (delimiter : Text) : Sense :=
  ((text ic delimiter).absent.seq (one CharSet.inLine.has)).rounds 1 none

theorem one_iff {test : Char → Bool} :
    one test p q w ↔ w = [] ∧ ∃ d, test d = true ∧ p.Takes [d] q := by
  simp only [one]
  tauto

theorem text_iff : text ic t p q w ↔ w = [] ∧ ∃ v, Alike ic t v ∧ p.Takes v q := by
  induction t generalizing p w with
  | nil =>
    constructor
    · rintro ⟨rfl, rfl⟩
      exact ⟨rfl, [], .nil, .refl q⟩
    · rintro ⟨rfl, v, hv, h⟩
      cases hv
      exact ⟨Cursor.takes_nil_iff.1 h, rfl⟩
  | cons c t ih =>
    constructor
    · rintro ⟨r, u, u', ⟨d, hd, hr, rfl⟩, h, rfl⟩
      obtain ⟨rfl, v, hv, hq⟩ := ih.1 h
      exact ⟨rfl, d :: v, .cons hd hv, hr.trans hq⟩
    · rintro ⟨rfl, x, hx, h⟩
      obtain ⟨d, v, hd, hv, rfl⟩ := alike_cons_iff.1 hx
      obtain ⟨r, hr, h⟩ := Cursor.takes_append_iff.1 (show p.Takes ([d] ++ v) q from h)
      exact ⟨r, [], [], ⟨d, hd, hr, rfl⟩, ih.2 ⟨rfl, v, hv, h⟩, rfl⟩

theorem absent_text_iff : (text ic D).absent p q w ↔ q = p ∧ w = [] ∧ ¬Begins ic D p.after := by
  refine and_congr_right fun _ => and_congr_right fun _ => ⟨?_, ?_⟩
  · rintro h ⟨v, rest, hv, ht⟩
    obtain ⟨r, hr, -⟩ := Cursor.exists_takes ht
    exact h r [] (text_iff.2 ⟨rfl, v, hv, hr⟩)
  · intro h r u hr
    obtain ⟨-, v, hv, hr⟩ := text_iff.1 hr
    exact h ⟨v, r.after, hv, hr.after⟩

theorem iterates_outside_iff {n : Nat} :
    Iterates ((text ic D).absent.seq (one CharSet.inLine.has)) n p q w ↔
      w = [] ∧ ∃ v, v.length = n ∧ p.Takes v q ∧ '\n' ∉ v ∧ Avoids ic D v q.after := by
  induction n generalizing p w with
  | zero =>
    constructor
    · rintro ⟨rfl, rfl⟩
      exact ⟨rfl, [], rfl, .refl q, by simp, avoids_nil⟩
    · rintro ⟨rfl, v, hv, h, -, -⟩
      obtain rfl := List.length_eq_zero_iff.1 hv
      exact ⟨Cursor.takes_nil_iff.1 h, rfl⟩
  | succ n ih =>
    constructor
    · rintro ⟨r, u, u', ⟨r', v', v'', habsent, ⟨d, hd, hr, rfl⟩, rfl⟩, h, rfl⟩
      obtain ⟨rfl, rfl, hb⟩ := absent_text_iff.1 habsent
      obtain ⟨rfl, v, hv, hq, hl, ha⟩ := ih.1 h
      refine ⟨rfl, d :: v, by simp [hv], hr.trans hq, ?_, avoids_cons_iff.2 ⟨?_, ha⟩⟩
      · have hd' : d ≠ '\n' := by simpa using hd
        simp [hl, hd'.symm]
      · rw [hr.after, hq.after] at hb
        exact hb
    · rintro ⟨rfl, v, hv, h, hl, ha⟩
      obtain ⟨d, v, rfl⟩ := List.exists_cons_of_length_eq_add_one hv
      obtain ⟨hb, ha⟩ := avoids_cons_iff.1 ha
      obtain ⟨r, hr, hq⟩ := Cursor.takes_append_iff.1 (show p.Takes ([d] ++ v) q from h)
      refine ⟨r, [], [], ⟨p, [], [], absent_text_iff.2 ⟨rfl, rfl, ?_⟩, ⟨d, ?_, hr, rfl⟩, rfl⟩,
        ih.2 ⟨rfl, v, by simpa using hv, hq, fun h => hl (List.mem_cons_of_mem _ h), ha⟩, rfl⟩
      · rw [h.after]
        exact hb
      · simp only [List.mem_cons, not_or] at hl
        simp [Ne.symm hl.1]

/-- A value without a pattern of its own: in one line, and without a delimiter that begins in it. -/
theorem stretch_iff :
    stretch ic D p q w ↔ w = [] ∧ ∃ v, v ≠ [] ∧ p.Takes v q ∧ '\n' ∉ v ∧ Avoids ic D v q.after := by
  constructor
  · rintro ⟨n, -, h⟩
    obtain ⟨rfl, v, hv, h⟩ := iterates_outside_iff.1 h
    refine ⟨rfl, v, ?_, h⟩
    rintro rfl
    simp at hv
    omega
  · rintro ⟨rfl, v, hv, h⟩
    refine ⟨v.length - 1, by simp, iterates_outside_iff.2 ⟨rfl, v, ?_, h⟩⟩
    have := List.length_pos_iff.2 hv
    omega

theorem isSilent_text (ic : Bool) (t : Text) : (text ic t).IsSilent := by
  intro p q w h
  obtain ⟨rfl, v, -, hv⟩ := text_iff.1 h
  exact ⟨rfl, v, hv⟩

theorem isSilent_loose (ic : Bool) (D : Text) (skip : Nat) (inRun : Bool) (t : Text) :
    (loose ic D skip inRun t).IsSilent := by
  fun_induction loose ic D skip inRun t with
  | case1 => exact isSilent_nothing
  | case2 skip inRun c rest ih => exact ih
  | case3 inRun c rest hD ih =>
    refine .seq ?_ ih
    cases inRun with
    | true => exact isSilent_nothing
    | false => exact ((isSilent_text ic D).rounds 1 none).seq isSilent_absent
  | case4 inRun c rest hD ih => exact (isSilent_one _).seq ih

theorem isSilent_stretch (ic : Bool) (D : Text) : (stretch ic D).IsSilent := by
  intro p q w h
  obtain ⟨rfl, v, -, hv, -⟩ := stretch_iff.1 h
  exact ⟨rfl, v, hv⟩

end Sense

end

/-! ### how these texts are read -/

namespace Expression

variable {once solid ic : Bool} {k g : Nat} {D : Text}

theorem denotes_quote (t : Text) : Denotes once (!t.isEmpty) ic k g g (quote t) (.text ic t) := by
  induction t with
  | nil => exact denotes_nil
  | cons c t ih => exact (denotesOne_quoteChar c).denotes.append ih

theorem denotes_delimiter (hD : D ≠ []) : Denotes once true ic k g g (quote D) (.text ic D) := by
  have h : (!D.isEmpty) = true := by simpa using hD
  have hquote : Denotes once (!D.isEmpty) ic k g g (quote D) (.text ic D) := denotes_quote D
  rwa [h] at hquote

theorem denotes_delimiterRun (hD : D ≠ []) :
    Denotes once true ic (k + 1) g g (delimiterRun D) (.run ic D) := by
  have htext : delimiterRun D =
      ['(', '?', ':'] ++ quote D ++ [')'] ++ ['+'] ++ (['(', '?', '!'] ++ quote D ++ [')']) := by
    simp [delimiterRun]
  rw [htext]
  exact ((denotes_delimiter hD).group.repeated repeats_some fun _ => .inl rfl).append
    (denotes_delimiter hD).absent

/-- What holds of nothing, and of a run or a character at which no delimiter begins if it holds of
the rest, holds of every text with loose delimiters. -/
theorem loosenFrom_induction {P : Text → Prop} (hnil : P [])
    (hrun : ∀ x, P x → P (delimiterRun D ++ x))
    (hchar : ∀ c rest x, ¬D <+: c :: rest → P x → P (quoteChar c ++ x)) (skip : Nat) (inRun : Bool)
    (t : Text) : P (loosenFrom D skip inRun t) := by
  induction t generalizing skip inRun with
  | nil =>
    unfold loosenFrom
    exact hnil
  | cons c t ih =>
    cases skip with
    | succ skip =>
      unfold loosenFrom
      exact ih skip inRun
    | zero =>
      unfold loosenFrom
      split
      · cases inRun with
        | true => exact ih _ _
        | false => exact hrun _ (ih _ _)
      · rename_i hpre
        exact hchar c t _ (fun h => hpre (List.isPrefixOf_iff_prefix.2 h)) (ih _ _)

theorem denotes_loosenFrom (hD : D ≠ []) (skip : Nat) (inRun : Bool) (t : Text) :
    Denotes once (!(loosenFrom D skip inRun t).isEmpty) ic (k + 1) g g (loosenFrom D skip inRun t)
      (.loose ic D skip inRun t) := by
  have hsolid : ∀ {x y : Text} {R S : Sense} {m : Nat},
      Denotes once (!x.isEmpty) ic (k + 1) g m x R → Denotes once (!y.isEmpty) ic (k + 1) m g y S →
      Denotes once (!(x ++ y).isEmpty) ic (k + 1) g g (x ++ y) (R.seq S) := by
    intro x y R S m hx hy
    have h : (!(x ++ y).isEmpty) = (!x.isEmpty || !y.isEmpty) := by cases x <;> simp
    rw [h]
    exact hx.append hy
  induction t generalizing skip inRun with
  | nil =>
    unfold loosenFrom Sense.loose
    exact denotes_nil
  | cons c t ih =>
    cases skip with
    | succ skip =>
      unfold loosenFrom Sense.loose
      exact ih skip inRun
    | zero =>
      unfold loosenFrom Sense.loose
      split
      · refine hsolid (m := g) ?_ (ih _ _)
        cases inRun with
        | true => exact denotes_nil
        | false => exact denotes_delimiterRun hD
      · have hone : (!(quoteChar c).isEmpty) = true := by
          unfold quoteChar
          split <;> rfl
        refine hsolid (m := g) ?_ (ih _ _)
        rw [hone]
        exact (denotesOne_quoteChar c).denotes

theorem Literal.source_ne_nil (l : Literal) {t : Text} (ht : t ≠ []) : l.source t ≠ [] := by
  obtain ⟨c, t, rfl⟩ := List.exists_cons_of_ne_nil ht
  unfold Literal.source
  split
  · unfold loosen loosenFrom
    split
    · simp [delimiterRun]
    · unfold quoteChar
      split <;> simp
  · rwa [ne_eq, quote_eq_nil_iff]

/-- The sense of literal text. -/
def Literal.sense (l : Literal) (ic : Bool) (t : Text) : Sense :=
  if l.loose ∧ l.delimiter ≠ [] then .loose ic l.delimiter 0 false t else .text ic t

theorem Literal.isSilent_sense (l : Literal) (ic : Bool) (t : Text) : (l.sense ic t).IsSilent := by
  unfold Literal.sense
  split
  · exact Sense.isSilent_loose ic l.delimiter 0 false t
  · exact Sense.isSilent_text ic t

theorem denotes_source (once ic : Bool) (k g : Nat) (l : Literal) (t : Text) :
    Denotes once (!(l.source t).isEmpty) ic (k + 1) g g (l.source t) (l.sense ic t) := by
  unfold Literal.source Literal.sense
  split
  · rename_i h
    exact denotes_loosenFrom h.2 0 false t
  · have hempty : (quote t).isEmpty = t.isEmpty := by
      rw [Bool.eq_iff_iff, List.isEmpty_iff, List.isEmpty_iff, quote_eq_nil_iff]
    rw [hempty]
    exact denotes_quote t

/-- As many characters as possible before the next delimiter have the same sense as few of them. -/
theorem denotes_stretch (once ic : Bool) (k g : Nat) (hD : D ≠ []) :
    Denotes once true ic (k + 2) g g (stretch D) (.stretch ic D) := by
  have htext : stretch D =
      ['(', '?', ':'] ++ ((['(', '?', '!'] ++ quote D ++ [')']) ++ ['.']) ++ [')'] ++ ['+'] := by
    simp [stretch, outside]
  rw [htext]
  exact ((denotes_delimiter hD).absent.append denotesOne_dot.denotes).group.repeated repeats_some
    fun _ => .inl rfl

theorem denotes_shortStretch (once ic : Bool) (k g : Nat) (hD : D ≠ []) :
    Denotes once true ic (k + 2) g g (shortStretch D) (.stretch ic D) := by
  have htext : shortStretch D =
      ['(', '?', ':'] ++ ((['(', '?', '!'] ++ quote D ++ [')']) ++ ['.']) ++ [')'] ++
        ['+', '?'] := by
    simp [shortStretch, outside]
  rw [htext]
  exact ((denotes_delimiter hD).absent.append denotesOne_dot.denotes).group.repeated repeats_few
    fun _ => .inl rfl

end Expression

end PathTemplate
