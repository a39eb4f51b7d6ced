import PathTemplate.Proofs.Groups
import PathTemplate.Proofs.Segment.Sense

/-!
# Loose delimiters

A loose delimiter is a run of delimiters, all of the run. What is matched without runs is matched
with them, too, as long as no delimiter follows the delimiters that are matched; only within a
single value there may be runs.

* `Clear` — between two places no delimiter is followed by another one; `RunsWithin` — in a text,
  none is but in some spans;
* `Sense.AlsoBetween` — between two places, what one sense matches another one matches, too;
* `Literal.alsoBetween_sense` — so it is with literal text and its loose form, between places that
  are clear;
* `Template.Lays.loose`, `Template.Splits.loose` — and so with parts, by what their groups have
  captured;
* `Path.run_loose` — a text that a matcher finds, the loose matcher finds, too.
-/

namespace PathTemplate

open Expression (Literal)

/-- No delimiter between two places is followed by another delimiter. -/
def Clear (ic : Bool) (D : Text) (a c : Cursor) : Prop :=
  ∀ (p q : Cursor) (v : Text), p.subject = a.subject → Alike ic D v → p.Takes v q →
  p.left ≤ a.left → c.left ≤ q.left →
    ¬Begins ic D q.after

/-- In the text `u`, a delimiter that is followed by another one is inside of one of these spans. -/
def RunsWithin (ic : Bool) (D u : Text) (spans : List Span) : Prop :=
  ∀ (p q : Cursor) (v : Text), p.subject = u → Alike ic D v → p.Takes v q → Begins ic D q.after →
    ∃ s ∈ spans, p.left ≤ s.start.left ∧ s.stop.left ≤ q.left

section

variable {ic : Bool} {D u v : Text} {a a' c c' p q : Cursor}

theorem Alike.length {t v : Text} (h : Alike ic t v) : v.length = t.length :=
  (List.Forall₂.length_eq h).symm

theorem Clear.mono (h : Clear ic D a c) (hs : a'.subject = a.subject) (ha : a'.left ≤ a.left)
    (hc : c.left ≤ c'.left) : Clear ic D a' c' :=
  fun p q v hp hv htakes hpa hcq => h p q v (hp.trans hs) hv htakes (Nat.le_trans hpa ha)
    (Nat.le_trans hc hcq)

/-- Places are clear if the spans with runs are before or after them. -/
theorem RunsWithin.clear {spans : List Span} (hD : D ≠ []) (hu : RunsWithin ic D u spans)
    (ha : a.subject = u) (hspans : ∀ s ∈ spans, a.left ≤ s.stop.left ∨ s.start.left ≤ c.left) :
    Clear ic D a c := by
  intro p q v hp hv htakes hpa hcq hb
  obtain ⟨s, hs, hstart, hstop⟩ := hu p q v (hp.trans ha) hv htakes hb
  have hlen := hv.length
  have hpos := List.length_pos_iff.2 hD
  have hleft := htakes.left
  rcases hspans s hs with h | h <;> omega

/-- Where delimiters have one character, it is enough to look at its places. -/
theorem runsWithin_of_isAlone {d : Char} (hd : IsAlone d) {spans : List Span}
    (h : ∀ i < u.length, u[i]? = some d → u[i + 1]? = some d →
      ∃ s ∈ spans, u.length ≤ i + s.start.left ∧ i + s.stop.left < u.length) :
    RunsWithin ic [d] u spans := by
  rintro p q v rfl hv htakes hb
  obtain rfl := (alike_delimiter_iff hd).1 hv
  obtain ⟨r, hr⟩ := (begins_delimiter_iff hd).1 hb
  have hu : p.subject = p.before.reverse ++ d :: d :: r := by
    rw [Cursor.subject, htakes.after, hr]; rfl
  have hleft := htakes.left
  have hlen : p.subject.length = p.before.length + p.left := by simp [Cursor.subject, Cursor.left]
  have hi : p.subject[p.before.length]? = some d := by rw [hu]; simp
  have hi' : p.subject[p.before.length + 1]? = some d := by rw [hu]; simp
  simp only [List.length_singleton] at hleft
  obtain ⟨s, hs, hstart, hstop⟩ := h _ (by omega) hi hi'
  exact ⟨s, hs, by omega, by omega⟩

end

/-! ### senses -/

namespace Sense

variable {a c : Cursor} {R R' S S' : Sense}

/-- Between two places, what `R` matches `S` matches too. -/
structure AlsoBetween (a c : Cursor) (R S : Sense) : Prop where
  advances : Advances R
  also : ∀ p q w, p.subject = a.subject → p.left ≤ a.left → c.left ≤ q.left → R p q w → S p q w

theorem IsSilent.alsoBetween (hR : R.IsSilent) (a c : Cursor) : R.AlsoBetween a c R :=
  ⟨fun p q w h => (hR p q w h).2, fun _ _ _ _ _ _ h => h⟩

theorem AlsoBetween.seq (hR : R.AlsoBetween a c R') (hS : S.AlsoBetween a c S') :
    (R.seq S).AlsoBetween a c (R'.seq S') := by
  refine ⟨fun p q w h => ?_, fun p q w hp hpa hcq h => ?_⟩
  · obtain ⟨r, u, v, hu, hv, -⟩ := h
    obtain ⟨x, hx⟩ := hR.advances _ _ _ hu
    obtain ⟨y, hy⟩ := hS.advances _ _ _ hv
    exact ⟨x ++ y, hx.trans hy⟩
  · obtain ⟨r, u, v, hu, hv, rfl⟩ := h
    obtain ⟨x, hx⟩ := hR.advances _ _ _ hu
    obtain ⟨y, hy⟩ := hS.advances _ _ _ hv
    have hpr := hx.left
    have hrq := hy.left
    exact ⟨r, u, v, hR.also _ _ _ hp hpa (by omega) hu,
      hS.also _ _ _ (hx.subject.trans hp) (by omega) hcq hv, rfl⟩

theorem AlsoBetween.iterates (hR : R.AlsoBetween a c R') (n : Nat) :
    AlsoBetween a c (Iterates R n) (Iterates R' n) := by
  induction n with
  | zero => exact isSilent_nothing.alsoBetween a c
  | succ n ih => exact hR.seq ih

theorem AlsoBetween.rounds (hR : R.AlsoBetween a c R') (lo : Nat) (hi : Option Nat) :
    (R.rounds lo hi).AlsoBetween a c (R'.rounds lo hi) := by
  refine ⟨fun p q w h => ?_, fun p q w hp hpa hcq h => ?_⟩
  · obtain ⟨n, -, h⟩ := h
    exact h.takes hR.advances
  · obtain ⟨n, hn, h⟩ := h
    exact ⟨n, hn, (hR.iterates (lo + n)).also _ _ _ hp hpa hcq h⟩

theorem AlsoBetween.modified (hR : R.AlsoBetween a c R') (m : Option Modifier) :
    (R.modified m).AlsoBetween a c (R'.modified m) :=
  modified_lift hR hR.rounds m

variable {ic : Bool} {D t : Text}

theorem text_append (s t : Text) : text ic (s ++ t) = (text ic s).seq (text ic t) := by
  induction s with
  | nil => simp [text]
  | cons c s ih => rw [List.cons_append, text, text, ih, seq_assoc]

/-- Between places that are clear, literal text is matched with its delimiters loose; `skip` of its
characters belong to the delimiter before `p`, and after a delimiter there is none. -/
theorem loose_of_text (hD : D ≠ []) (hclear : Clear ic D a c) (skip : Nat) (inRun : Bool) (t : Text)
    {p q : Cursor} {w : Captures} (hp : p.subject = a.subject) (hpa : p.left ≤ a.left)
    (hcq : c.left ≤ q.left)
    (hrun : inRun = true → ∃ (r : Cursor) (v : Text), r.left ≤ a.left ∧ Alike ic D v ∧ r.Takes v p)
    (h : text ic (t.drop skip) p q w) : loose ic D skip inRun t p q w := by
  have hlater : ∀ {t : Text} {p : Cursor} {w : Captures}, text ic t p q w → c.left ≤ p.left := by
    intro t p w h
    obtain ⟨-, v, hv⟩ := isSilent_text ic t _ _ _ h
    have := hv.left
    omega
  fun_induction loose ic D skip inRun t generalizing p w with
  | case1 => simpa [text] using h
  | case2 skip inRun d rest ih => exact ih hp hpa hrun h
  | case3 inRun d rest hpre ih =>
    obtain ⟨s, hs⟩ := List.isPrefixOf_iff_prefix.1 hpre
    have hrest : rest.drop (D.length - 1) = s := by
      obtain ⟨e, D, rfl⟩ := List.exists_cons_of_ne_nil hD
      simp only [List.cons_append, List.cons.injEq] at hs
      simp [← hs.2]
    rw [List.drop_zero, ← hs, text_append] at h
    obtain ⟨r, _, b, hdelimiter, hs', rfl⟩ := h
    obtain ⟨rfl, v, hv, hr⟩ := text_iff.1 hdelimiter
    have hpr := hr.left
    have hcr := hlater hs'
    -- a delimiter before this one would be next to it
    have hin : inRun = false := by
      by_contra hin
      obtain ⟨r', v', hr', hv', htakes⟩ := hrun (by simpa using hin)
      exact hclear r' p v' (htakes.subject.symm.trans hp) hv' htakes hr' (by omega) ⟨v, r.after, hv,
          hr.after⟩
    subst hin
    have habsent : ¬Begins ic D r.after := hclear p r v hp hv hr hpa hcr
    exact ⟨r, [], b,
      ⟨r, [], [], ⟨0, by simp, .one hdelimiter⟩, absent_text_iff.2 ⟨rfl, rfl, habsent⟩, rfl⟩,
      ih (hr.subject.trans hp) (by omega) (fun _ => ⟨p, v, hpa, hv, hr⟩) (by rwa [hrest]), rfl⟩
  | case4 inRun d rest hpre ih =>
    obtain ⟨r, u, b, hd, hrest, rfl⟩ := h
    obtain ⟨-, v, hv⟩ := isSilent_one _ _ _ _ hd
    have hpr := hv.left
    exact ⟨r, u, b, hd, ih (hv.subject.trans hp) (by omega) (by simp) hrest, rfl⟩

end Sense

section

variable {ic trailing : Bool} {D u : Text} {σ : Text → Sense} {g : Nat} {parts : List Part}
  {p : Param} {a b c : Cursor} {get : Nat → Option Span}

theorem Expression.Literal.alsoBetween_sense (hD : D ≠ []) (hclear : Clear ic D a c) (t : Text) :
    (Literal.sense ⟨D, false⟩ ic t).AlsoBetween a c (Literal.sense ⟨D, true⟩ ic t) := by
  have htight : Literal.sense ⟨D, false⟩ ic t = .text ic t := by simp [Literal.sense]
  have hloose : Literal.sense ⟨D, true⟩ ic t = .loose ic D 0 false t := by simp [Literal.sense, hD]
  rw [htight, hloose]
  exact ⟨fun p q w h => (Sense.isSilent_text ic t p q w h).2,
    fun p q w hp hpa hcq h => Sense.loose_of_text hD hclear 0 false t hp hpa hcq (by simp) h⟩

theorem Expression.Literal.sense_of_clear (hD : D ≠ []) {t : Text} (hclear : Clear ic D a c)
    (h : Literal.sense ⟨D, false⟩ ic t a c []) : Literal.sense ⟨D, true⟩ ic t a c [] :=
  (Literal.alsoBetween_sense hD hclear t).also _ _ _ rfl (Nat.le_refl _) (Nat.le_refl _) h

/-! ### parts -/

/-- The span of a single value. -/
def Param.single? (p : Param) (capture : Option Span) : Option Span :=
  if p.isCapturing && !p.isRepeating then capture else none

/-- The spans of the parameters with single values; `g` groups are before them. -/
def Template.singles (get : Nat → Option Span) : (g : Nat) → List Part → List Span
  | _, [] => []
  | g, .text _ :: rest => singles get g rest
  | g, .param p :: rest => (p.single? (get (g + 1))).toList ++ singles get (g + p.groups) rest

/-- A parameter leads on over a text, and the span of a single value is on the way. -/
theorem Param.Holds.takes {l : Literal} {capture : Option Span}
    (hσ : p.isCapturing = true → ∀ x, p.pattern = some x → (σ x).IsSilent)
    (h : p.Holds l ic σ capture a b) :
    (∃ v, a.Takes v b) ∧
    ∀ s, p.single? capture = some s →
      ∃ x y z, a.Takes x s.start ∧ s.start.Takes y s.stop ∧ s.stop.Takes z b := by
  cases hc : p.isCapturing with
  | false =>
    simp only [Holds, hc, Bool.false_eq_true, if_false] at h
    exact ⟨(isSilent_sense_of_text hc _ _ _ h).2, by simp [single?, hc]⟩
  | true =>
    simp only [Holds, hc, if_true] at h
    cases capture with
    | none =>
      obtain ⟨-, rfl⟩ := h
      exact ⟨⟨[], .refl b⟩, by simp [single?]⟩
    | some s =>
      obtain ⟨hbefore, hvalue, hafter⟩ := h
      obtain ⟨-, x, hx⟩ := l.isSilent_sense ic p.before _ _ _ hbefore
      obtain ⟨-, y, hy⟩ := isSilent_valuesSense (hσ hc) _ _ _ hvalue
      obtain ⟨-, z, hz⟩ := l.isSilent_sense ic p.after _ _ _ hafter
      refine ⟨⟨x ++ y ++ z, (hx.trans hy).trans hz⟩, fun s' hs' => ?_⟩
      obtain ⟨-, rfl⟩ : _ ∧ s = s' := by simpa [single?] using hs'
      exact ⟨x, y, z, hx, hy, hz⟩

/-- What a parameter holds it holds with loose delimiters, too, where it is clear around a single
value. -/
theorem Param.Holds.loose {capture : Option Span} (hD : D ≠ [])
    (hσ : p.isCapturing = true → ∀ x, p.pattern = some x → (σ x).IsSilent)
    (h : p.Holds ⟨D, false⟩ ic σ capture a c)
    (hsingle : ∀ s, p.single? capture = some s → Clear ic D a s.start ∧ Clear ic D s.stop c)
    (hclear : p.single? capture = none → Clear ic D a c) : p.Holds ⟨D, true⟩ ic σ capture a c := by
  cases hc : p.isCapturing with
  | false =>
    simp only [Holds, hc, Bool.false_eq_true, if_false, sense, innerSense_of_text hc] at h ⊢
    have hclear := hclear (by simp [single?, hc])
    have htexts := (Literal.alsoBetween_sense hD hclear p.before).seq
      (Literal.alsoBetween_sense hD hclear p.after)
    exact (htexts.modified p.occurrence).also _ _ _ rfl (Nat.le_refl _) (Nat.le_refl _) h
  | true =>
    simp only [Holds, hc, if_true] at h ⊢
    cases capture with
    | none => exact h
    | some s =>
      obtain ⟨hbefore, hvalue, hafter⟩ := h
      cases hrep : p.isRepeating with
      | false =>
        obtain ⟨h₁, h₂⟩ := hsingle s (by simp [single?, hc, hrep])
        rw [valuesSense, hrep] at hvalue ⊢
        exact ⟨Literal.sense_of_clear hD h₁ hbefore, hvalue, Literal.sense_of_clear hD h₂ hafter⟩
      | true =>
        -- the separators of the values are in the span
        have hclear := hclear (by simp [single?, hrep])
        obtain ⟨-, x, hx⟩ := Literal.isSilent_sense _ ic p.before _ _ _ hbefore
        obtain ⟨-, y, hy⟩ := isSilent_valuesSense (hσ hc) _ _ _ hvalue
        obtain ⟨-, z, hz⟩ := Literal.isSilent_sense _ ic p.after _ _ _ hafter
        have hxl := hx.left
        have hyl := hy.left
        have hzl := hz.left
        have hwithin : Clear ic D s.start s.stop := hclear.mono hx.subject (by omega) (by omega)
        have hone : (p.valueSense ⟨D, false⟩ ic σ).IsSilent := isSilent_valueSense (hσ hc)
        have hvalues := (hone.alsoBetween s.start s.stop).seq (((Literal.alsoBetween_sense hD
            hwithin p.between).seq (hone.alsoBetween _ _)).rounds 0 none)
        rw [valuesSense, hrep] at hvalue ⊢
        exact ⟨Literal.sense_of_clear hD (hclear.mono rfl (Nat.le_refl _) (by omega)) hbefore,
          hvalues.also _ _ _ rfl (Nat.le_refl _) (Nat.le_refl _) hvalue, Literal.sense_of_clear hD
            (hclear.mono (hy.subject.trans hx.subject) (by omega) (Nat.le_refl _)) hafter⟩

/-- So it is if runs of delimiters are in its single value, or in spans before and after it. -/
theorem Param.Holds.loose_of_runsWithin {capture : Option Span} (hD : D ≠ [])
    (hσ : p.isCapturing = true → ∀ x, p.pattern = some x → (σ x).IsSilent)
    (h : p.Holds ⟨D, false⟩ ic σ capture a b) (ha : a.subject = u) {before after : List Span}
    (hbefore : ∀ s ∈ before, a.left ≤ s.stop.left) (hafter : ∀ s ∈ after, s.start.left ≤ b.left)
    (hu : RunsWithin ic D u (before ++ (p.single? capture).toList ++ after)) :
    p.Holds ⟨D, true⟩ ic σ capture a b := by
  obtain ⟨⟨x, hx⟩, hspan⟩ := h.takes hσ
  have hxl := hx.left
  refine h.loose hD hσ (fun s hs => ?_) fun hnone => hu.clear hD ha fun s hs => ?_
  · obtain ⟨x, y, z, hx, hy, hz⟩ := hspan s hs
    have hxl := hx.left
    have hyl := hy.left
    have hzl := hz.left
    simp only [hs, Option.toList_some] at hu
    refine ⟨hu.clear hD ha fun s' hs' => ?_,
      hu.clear hD ((hx.trans hy).subject.trans ha) fun s' hs' => ?_⟩
    all_goals
      simp only [List.mem_append, List.mem_singleton] at hs'
      rcases hs' with (hs' | rfl) | hs'
    · exact .inl (hbefore s' hs')
    · exact .inr (Nat.le_refl _)
    · exact .inr (Nat.le_trans (hafter s' hs') (by omega))
    · exact .inl (Nat.le_trans (by omega) (hbefore s' hs'))
    · exact .inl (Nat.le_refl _)
    · exact .inr (hafter s' hs')
  · simp only [hnone, Option.toList_none, List.append_nil, List.mem_append] at hs
    exact hs.imp (hbefore s) (hafter s)

namespace Template

/-- Parts that are laid out lead on over a text, and the spans of single values are on the way. -/
theorem Lays.takes {l : Literal}
    (hσ : ∀ p, .param p ∈ parts → p.isCapturing = true → ∀ x, p.pattern = some x → (σ x).IsSilent)
    (h : Lays l ic σ get g parts a b) :
    (∃ v, a.Takes v b) ∧
    ∀ s ∈ singles get g parts, s.start.left ≤ a.left ∧ b.left ≤ s.stop.left := by
  induction parts generalizing g a with
  | nil =>
    obtain rfl : b = a := h
    exact ⟨⟨[], .refl b⟩, by simp [singles]⟩
  | cons part parts ih =>
    have hσ' :
        ∀ p, .param p ∈ parts → p.isCapturing = true → ∀ x, p.pattern = some x → (σ x).IsSilent :=
      fun p hp => hσ p (List.mem_cons_of_mem _ hp)
    cases part with
    | text t =>
      obtain ⟨c, ht, h⟩ := h
      obtain ⟨-, x, hx⟩ := l.isSilent_sense ic t _ _ _ ht
      obtain ⟨⟨y, hy⟩, hspans⟩ := ih hσ' h
      have hxl := hx.left
      refine ⟨⟨x ++ y, hx.trans hy⟩, fun s hs => ?_⟩
      have := hspans s hs
      omega
    | param p =>
      obtain ⟨c, hp, h⟩ := h
      obtain ⟨⟨x, hx⟩, hspan⟩ := hp.takes (hσ p (List.mem_cons_self ..))
      obtain ⟨⟨y, hy⟩, hspans⟩ := ih hσ' h
      have hxl := hx.left
      have hyl := hy.left
      refine ⟨⟨x ++ y, hx.trans hy⟩, fun s hs => ?_⟩
      rcases List.mem_append.1 hs with hs | hs
      · obtain ⟨x', y', z', hx', hy', hz'⟩ := hspan s (Option.mem_toList.1 hs)
        have := hx'.left
        have := hz'.left
        omega
      · have := hspans s hs
        omega

/-- Parts that are laid out are so with loose delimiters, too, if there are runs of delimiters in
single values only; the spans `before` are on the way to them. -/
theorem Lays.loose (hD : D ≠ [])
    (hσ : ∀ p, .param p ∈ parts → p.isCapturing = true → ∀ x, p.pattern = some x → (σ x).IsSilent)
    (h : Lays ⟨D, false⟩ ic σ get g parts a c) (ha : a.subject = u) {before : List Span}
    (hbefore : ∀ s ∈ before, a.left ≤ s.stop.left)
    (hu : RunsWithin ic D u (before ++ singles get g parts)) :
    Lays ⟨D, true⟩ ic σ get g parts a c := by
  induction parts generalizing g a before with
  | nil => exact h
  | cons part parts ih =>
    have hσ' :
        ∀ p, .param p ∈ parts → p.isCapturing = true → ∀ x, p.pattern = some x → (σ x).IsSilent :=
      fun p hp => hσ p (List.mem_cons_of_mem _ hp)
    cases part with
    | text t =>
      obtain ⟨b, ht, h⟩ := h
      obtain ⟨-, x, hx⟩ := Literal.isSilent_sense _ ic t _ _ _ ht
      have hxl := hx.left
      obtain ⟨-, hspans⟩ := h.takes hσ'
      have hclear : Clear ic D a b := hu.clear hD ha fun s hs => by
        rcases List.mem_append.1 hs with hs | hs
        · exact .inl (hbefore s hs)
        · exact .inr (hspans s hs).1
      refine ⟨b, Literal.sense_of_clear hD hclear ht,
        ih hσ' h (hx.subject.trans ha) (fun s hs => ?_) hu⟩
      have := hbefore s hs
      omega
    | param p =>
      obtain ⟨b, hp, h⟩ := h
      obtain ⟨⟨x, hx⟩, hspan⟩ := hp.takes (hσ p (List.mem_cons_self ..))
      have hxl := hx.left
      obtain ⟨-, hspans⟩ := h.takes hσ'
      rw [singles, ← List.append_assoc] at hu
      have hheld := hp.loose_of_runsWithin hD (hσ p (List.mem_cons_self ..)) ha hbefore
        (fun s hs => (hspans s hs).1) hu
      refine ⟨b, hheld, ih hσ' h (hx.subject.trans ha) (fun s hs => ?_) hu⟩
      rcases List.mem_append.1 hs with hs | hs
      · have := hbefore s hs
        omega
      · obtain ⟨x', y', z', -, -, hz'⟩ := hspan s (Option.mem_toList.1 hs)
        have := hz'.left
        omega

theorem alsoBetween_tailSense (hD : D ≠ []) (hclear : Clear ic D a c) (trailing : Bool) :
    (tailSense ⟨D, false⟩ ic trailing).AlsoBetween a c (tailSense ⟨D, true⟩ ic trailing) := by
  unfold tailSense
  cases trailing with
  | true => exact (Literal.alsoBetween_sense hD hclear D).rounds 0 (some 1)
  | false => exact Sense.isSilent_nothing.alsoBetween a c

variable {t : Template} {o : ExpressionOptions} {d : Cursor}

/-- What splits a text splits it with loose delimiters, too, if there are runs of delimiters in
single values only. -/
theorem Splits.loose (hD : t.delimiter ≠ [])
    (hpattern : ∀ p ∈ t.params, p.HasPattern (!o.sensitive) t.delimiter)
    (h : t.Splits { o with loose := false } get a d)
    (hu : RunsWithin (!o.sensitive) t.delimiter a.subject (singles get 0 t.parts)) :
    t.Splits { o with loose := true } get a d := by
  obtain ⟨hstart, b, c, hlays, htail, hend⟩ := h
  have hσ : ∀ p, .param p ∈ t.parts → p.isCapturing = true → ∀ x, p.pattern = some x →
      (Expression.patternSense (!o.sensitive) x).IsSilent := fun p hp hc x hx =>
    (hpattern p (mem_paramsOf.2 ⟨hp, hc⟩)).isSilent hD hx
  obtain ⟨⟨x, hx⟩, hspans⟩ := hlays.takes hσ
  have hbefore : ∀ s ∈ ([] : List Span), a.left ≤ s.stop.left := by simp
  -- what follows the parts is after all values
  have hclear : Clear (!o.sensitive) t.delimiter b c :=
    hu.clear hD hx.subject fun s hs => .inl (hspans s hs).2
  exact ⟨hstart, b, c, hlays.loose hD hσ rfl hbefore hu, (alsoBetween_tailSense hD hclear
      o.trailing).also _ _ _ rfl (Nat.le_refl _) (Nat.le_refl _) htail, hend⟩

/-- Whether parts have expressions does not depend on whether delimiters are loose. -/
theorem exists_fragmentsFrom_loose (o : ExpressionOptions) (D : Text) {guard : Guard}
    {fs : List Text}
    (h : fragmentsFrom { o with loose := false }.flags ⟨D, false⟩ guard parts = .ok fs) :
    ∃ fs', fragmentsFrom { o with loose := true }.flags ⟨D, true⟩ guard parts = .ok fs' := by
  induction parts generalizing guard fs with
  | nil => exact ⟨[], rfl⟩
  | cons part parts ih =>
    have hcons : ∀ {guard : Guard} {x x' : Text}, (fragmentsFrom { o with loose := false }.flags
            ⟨D, false⟩ guard parts).map (x :: ·) = .ok fs →
        ∃ fs', (fragmentsFrom { o with loose := true }.flags ⟨D, true⟩ guard parts).map (x' :: ·) =
          .ok fs' := by
      intro guard x x' h
      obtain ⟨fs₀, h₀, -⟩ := exists_of_map_eq_ok h
      obtain ⟨fs', h'⟩ := ih h₀
      exact ⟨x' :: fs', by rw [h']; rfl⟩
    cases part with
    | text t => exact hcons h
    | param p =>
      have hpass : guard.pass { o with loose := true }.flags ⟨D, true⟩ p =
        guard.pass { o with loose := false }.flags ⟨D, false⟩ p := rfl
      unfold fragmentsFrom at h ⊢
      split at h
      · rename_i hc
        split at h
        · cases h
        · rename_i guard' hguard
          simp only [if_pos hc, hpass, hguard]
          exact hcons h
      · rename_i hc
        simp only [if_neg hc]
        exact hcons h

/-- A template with an expression has a loose one, which matches what the former finds, if there are
runs of delimiters in single values only. -/
theorem exists_looseExpression {e : PathExpression} (hD : t.delimiter ≠ [])
    (hpattern : ∀ p ∈ t.params, p.HasPattern (!o.sensitive) t.delimiter)
    (he : t.toExpression { o with loose := false } = .ok e) :
    ∃ e', t.toExpression { o with loose := true } = .ok e' ∧ e'.expression.root.isRegular = true ∧
      ∀ u m, e.expression.find u = .found m →
        RunsWithin (!o.sensitive) t.delimiter u (singles m.finish.capture? 0 t.parts) →
        (∃ v, (Cursor.start u).Takes v m.start) ∧
          e'.expression.root.Reaches m.start m.finish.pos := by
  obtain ⟨-, -, -, hregular, hlinear, hmatches⟩ := toExpression_spec
    (o := { o with loose := false }) hD hpattern he
  obtain ⟨fs, hfs, hreadable⟩ := readable_of_toExpression (o := { o with loose := false }) true hD
    hpattern he
  obtain ⟨fs', hfs'⟩ := exists_fragmentsFrom_loose o t.delimiter hfs
  have hreadable' : ∀ p, .param p ∈ t.parts →
      Readable true (!o.sensitive) 58 ⟨t.delimiter, true⟩
        (Expression.patternSense (!o.sensitive)) p := by
    refine fun p hp => ⟨(hreadable p hp).pattern, (hreadable p hp).between,
      fun hc hmodifier hnil => ?_⟩
    refine (hreadable p hp).text hc hmodifier ?_
    have hempty : ∀ {x : Text}, Literal.source ⟨t.delimiter, true⟩ x = [] → x = [] := fun h => by
      by_contra hne
      exact Literal.source_ne_nil _ hne h
    obtain ⟨hbefore, hafter⟩ := List.append_eq_nil_iff.1 hnil
    rw [hempty hbefore, hempty hafter]
    rfl
  obtain ⟨e', he', hregular', -, -, hmatches'⟩ :=
    exists_pathExpression (o := { o with loose := true }) true _ hD hfs' hreadable'
  refine ⟨_, he', hregular', fun u m hfind hu => ?_⟩
  have hleft := (Expression.search_spec hregular _).1 m hfind
  obtain ⟨v, hv⟩ := hleft.takes
  obtain ⟨w, hw, hc⟩ := hleft.captures hlinear
  rw [hmatches] at hw
  obtain ⟨hsplits, -⟩ := splits_of_pathSense (o := { o with loose := false }) hD hpattern hw
  rw [← show m.finish.capture? = Captures.get? w from funext hc] at hsplits
  have hsplits' := hsplits.loose hD hpattern (hv.subject.symm ▸ hu)
  obtain ⟨w', hw'⟩ := hsplits'.exists_pathSense
  exact ⟨⟨v, hv⟩, w', by rw [hmatches']; exact hw'⟩

end Template

end

/-! ### paths -/

namespace Path

/-- What a matcher finds in a text, the loose matcher finds something in, too, unless its budget is
spent, if delimiters are next to each other in captures of single values only. -/
theorem run_loose {o : MatchOptions} {path : Path} {t : Template} {m : Matcher} {u : Text}
    {f : Found} (hpath : path.resolve o.expression.parse = .ok (.inl t))
    (hpattern : ∀ p ∈ t.params, p.HasPattern (!o.expression.sensitive) t.delimiter)
    (hm : path.matcher { o with expression := { o.expression with loose := false } } = .ok m)
    (h : m.run u = .ok (some f))
    (hu : ∀ n, m.expression.expression.find u = .found n →
      RunsWithin (!o.expression.sensitive) t.delimiter u
        (Template.singles n.finish.capture? 0 t.parts)) :
    ∃ m', path.matcher { o with expression := { o.expression with loose := true } } = .ok m' ∧
      (m'.run u = .error .gaveUp ∨ ∃ f', m'.run u = .ok (some f')) := by
  have hpath' : ∀ b, path.resolve { o.expression with loose := b }.parse = .ok (.inl t) :=
    fun _ => hpath
  simp only [matcher, hpath'] at hm ⊢
  split at hm
  · cases hm
  rename_i e he
  obtain ⟨separators, rfl, -⟩ := Matcher.exists_separators (lift_eq_ok_iff.1 hm)
  obtain ⟨e', he', hregular, hfinds⟩ := Template.exists_looseExpression (delimiter_ne_nil hpath)
    hpattern he
  obtain ⟨separators', hm'⟩ := Matcher.exists_ofExpression e' t.delimiter
    { o with expression := { o.expression with loose := true } }
  refine ⟨_, by simp only [he', hm']; rfl, ?_⟩
  -- the match is one of the loose expression as well
  obtain ⟨n, hfind⟩ := Matcher.exists_find_of_run h
  obtain ⟨⟨v, hv⟩, hreaches⟩ := hfinds u n hfind (hu n hfind)
  cases hfind' : e'.expression.find u with
  | gaveUp => exact .inl (Matcher.run_gaveUp hfind')
  | none => exact absurd hreaches ((Expression.search_spec hregular _).2 hfind' v _ hv _)
  | found n' =>
    have hfound : (Matcher.mk e' o.decode separators').expression.expression.find u = .found n' :=
      hfind'
    rcases Matcher.run_of_find hfound with hgave | ⟨f', hf', -⟩
    · exact .inl hgave
    · exact .inr ⟨f', hf'⟩

theorem run_loose_url :
    ∃ m m' f, (pattern "/open/:url(.+)".toList).matcher { expression := { loose := false } } =
        .ok m ∧ m.run "/open/http://x".toList = .ok (some f) ∧
      (pattern "/open/:url(.+)".toList).matcher {} = .ok m' ∧
      ∃ f', m'.run "/open/http://x".toList = .ok (some f') := by
  let t : Template :=
    ⟨[.text "/open/".toList, .param { name := "url".toList, pattern := some ".+".toList }], ['/']⟩
  have hparse : Path.parse {} "/open/:url(.+)".toList = .ok t := by cbv
  have hpath : (pattern "/open/:url(.+)".toList).resolve {} = .ok (.inl t) := resolve_pattern hparse
  obtain ⟨m, hm⟩ := exists_ok_of_isSome
    (x := (pattern "/open/:url(.+)".toList).matcher { expression := { loose := false } })
    (by decide +kernel)
  -- the value starts with the sixth character and goes on to the end
  obtain ⟨n', hn', hcapture⟩ : ∃ n, m.expression.find "/open/http://x".toList = .ok (some n) ∧
      ((n.finish.capture? 1).map fun s => (s.start.left, s.stop.left)) = some (8, 0) :=
    exists_ok_some_of_bind_eq (fun m => m.expression.find "/open/http://x".toList) hm
      (by decide +kernel)
  obtain ⟨f, hf⟩ : ∃ f, m.run "/open/http://x".toList = .ok (some f) :=
    exists_ok_some_of_bind (Matcher.run · "/open/http://x".toList) hm (by decide +kernel)
  have hpattern : Expression.isPattern true ".+".toList = true := by decide +kernel
  obtain ⟨m', hm', hrun⟩ := run_loose (o := {}) hpath (fun p hp x hx => by
    obtain rfl := List.mem_singleton.1 hp
    cases hx
    exact .inr hpattern) hm hf fun n hn => by
    have hfind : m.expression.find "/open/http://x".toList = .ok (some n) :=
      PathExpression.find_eq_ok_some_iff.2 hn
    obtain rfl : n = n' := Option.some.inj (Except.ok.inj (hfind.symm.trans hn'))
    obtain ⟨s, hs, hlefts⟩ := Option.map_eq_some_iff.1 hcapture
    have hsingles : Template.singles n.finish.capture? 0 t.parts = [s] := by
      show ((n.finish.capture? 1).toList ++ [] : List Span) = [s]
      rw [hs]
      rfl
    obtain ⟨hstart, hstop⟩ := Prod.mk.inj hlefts
    rw [hsingles]
    refine runsWithin_of_isAlone (isAlone_of_isCaseless rfl) fun i hi h h' => ⟨s,
      List.mem_singleton_self s, ?_⟩
    have hat : ∀ i < "/open/http://x".toList.length, "/open/http://x".toList[i]? = some '/' →
        "/open/http://x".toList[i + 1]? = some '/' → i = 11 := by decide
    rw [hat i hi h h', hstart, hstop]
    decide
  exact ⟨m, m', f, hm, hf, hm',
    hrun.resolve_left
      (ne_error_of_bind (Matcher.run · "/open/http://x".toList) hm' (by decide +kernel))⟩

/-- The run of a loose delimiter leaves none for the text that follows it. -/
theorem run_loose_ne_of_braces :
    ∃ m m' f, (pattern "/\x7b/b\x7d".toList).matcher { expression := { loose := false } } = .ok m ∧
      m.run "//b".toList = .ok (some f) ∧ (pattern "/\x7b/b\x7d".toList).matcher {} = .ok m' ∧
      m'.run "//b".toList = .ok none := by
  obtain ⟨m, hm⟩ := exists_ok_of_isSome
    (x := (pattern "/\x7b/b\x7d".toList).matcher { expression := { loose := false } })
    (by decide +kernel)
  obtain ⟨m', hm'⟩ := exists_ok_of_isSome (x := (pattern "/\x7b/b\x7d".toList).matcher {})
    (by decide +kernel)
  obtain ⟨f, hf⟩ : ∃ f, m.run "//b".toList = .ok (some f) :=
    exists_ok_some_of_bind (Matcher.run · "//b".toList) hm (by decide +kernel)
  exact ⟨m, m', f, hm, hf, hm',
    eq_ok_none_of_bind (Matcher.run · "//b".toList) hm' (by decide +kernel)⟩

end Path

end PathTemplate
