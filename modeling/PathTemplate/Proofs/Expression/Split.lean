import PathTemplate.Matcher
import PathTemplate.Proofs.Expression.Move
import PathTemplate.Proofs.Expression.Search

/-!
# Splitting at marks

Texts that have been put together with separators are split into these texts again, if a mark shows
where a separator is and no such mark is in a text. Whether a place is marked, the text after it
decides.

* `Unmarked` — no place in a text is marked; `exists_first_mark` — a text is without marks up to
  the first one;
* `Sense.Marks` — every match comes to its first mark after as many characters, and from a place
  there is one at most;
* `Literal.marks_begins` — literal text is marked by the delimiters in it, or else by any other
  text in it;
* `Spaced`, `Spaced.move` — texts with matches of a separator between them, also where nothing
  follows any more;
* `Expression.splitFrom_spaced`, `Matcher.value_spaced` — such texts are split, and nothing else.
-/

namespace PathTemplate

open Expression (Literal)

/-- No place in `v` is marked, where `rest` follows. -/
def Unmarked (M : Text → Prop) (v rest : Text) : Prop := ∀ x s, v = x ++ s → s ≠ [] → ¬M (s ++ rest)

/-- From every place there is one match at most. -/
def Sense.IsFunctional (S : Sense) : Prop := ∀ p q q' w w', S p q w → S p q' w' → q' = q

/-- Every match comes to its first mark after `k` characters, and from a place there is one match at
most. -/
structure Sense.Marks (M : Text → Prop) (k : Nat) (S : Sense) : Prop where
  takes :
    ∀ {p q : Cursor} {w : Captures}, S p q w →
      ∃ y z, p.Takes (y ++ z) q ∧ y.length = k ∧ z ≠ [] ∧ Unmarked M y (z ++ q.after) ∧
        M (z ++ q.after)
  functional : S.IsFunctional

/-- The text `v` and the texts `vs`, none of them empty or with a mark, with a match of `S` between
two of them. -/
def Spaced (M : Text → Prop) (S : Sense) : (v : Text) → (vs : List Text) → Cursor → Cursor → Prop
  | v, [], a, b => v ≠ [] ∧ Unmarked M v b.after ∧ a.Takes v b
  | v, v' :: vs, a, b =>
    ∃ c c', v ≠ [] ∧ Unmarked M v c.after ∧ a.Takes v c ∧ S c c' [] ∧ Spaced M S v' vs c' b

/-- The text `D` occurs in a text, up to case if case does not count. -/
def Occurs (ic : Bool) (D t : Text) : Prop := ∃ x s, t = x ++ s ∧ Begins ic D s

section

variable {M : Text → Prop} {ic : Bool} {k n : Nat} {D t u v x rest : Text} {vs : List Text}
  {a b c a' b' : Cursor} {w : Captures} {l : Literal} {R S : Sense} {e : Expression} {m : Match}

/-! ### marks -/

theorem unmarked_nil : Unmarked M [] rest := by
  intro x s h hs
  exact absurd (List.append_eq_nil_iff.1 h.symm).2 hs

theorem Unmarked.append (hu : Unmarked M u (v ++ rest)) (hv : Unmarked M v rest) :
    Unmarked M (u ++ v) rest := by
  intro x s h hs hM
  rcases List.append_eq_append_iff.1 h with ⟨y, rfl, rfl⟩ | ⟨y, rfl, rfl⟩
  · exact hv y s rfl hs hM
  · rcases y with _ | ⟨c, y⟩
    · exact hv [] v rfl (by simpa using hs) (by simpa using hM)
    · exact hu x (c :: y) rfl (by simp) (by simpa using hM)

/-- A mark is not within a text without marks. -/
theorem Unmarked.length_le (h : Unmarked M v rest) (heq : v ++ rest = x ++ u) (hu : M u) :
    v.length ≤ x.length := by
  by_contra hlt
  rcases List.append_eq_append_iff.1 heq with ⟨y, rfl, -⟩ | ⟨y, rfl, rfl⟩
  · simp at hlt
  · refine h x y rfl ?_ hu
    rintro rfl
    simp at hlt

/-- A text with a mark is without marks up to the first one. -/
theorem exists_first_mark (h : ∃ x s, t = x ++ s ∧ M s) :
    ∃ x s, t = x ++ s ∧ M s ∧ Unmarked M x s := by
  induction t with
  | nil =>
    obtain ⟨x, s, ht, hs⟩ := h
    obtain ⟨rfl, rfl⟩ := List.append_eq_nil_iff.1 ht.symm
    exact ⟨[], [], rfl, hs, unmarked_nil⟩
  | cons c t ih =>
    by_cases hc : M (c :: t)
    · exact ⟨[], c :: t, rfl, hc, unmarked_nil⟩
    · obtain ⟨x, s, ht, hs⟩ := h
      rcases List.cons_eq_append_iff.1 ht with ⟨rfl, rfl⟩ | ⟨x, rfl, rfl⟩
      · exact absurd hs hc
      · obtain ⟨y, s', ht', hs', hy⟩ := ih ⟨x, s, rfl, hs⟩
        refine ⟨c :: y, s', by rw [ht', List.cons_append], hs', ?_⟩
        have hone : Unmarked M [c] (y ++ s') := by
          intro x' s'' h' hs'' hM
          rcases List.singleton_eq_append_iff.1 h' with ⟨rfl, rfl⟩ | ⟨rfl, rfl⟩
          · exact hc (by rwa [ht'])
          · exact hs'' rfl
        exact hone.append hy

/-! ### one match at most -/

namespace Sense

theorem isFunctional_nothing : nothing.IsFunctional := by
  rintro p q q' w w' ⟨rfl, -⟩ ⟨rfl, -⟩
  rfl

/-- Matches that take as many characters end at the same place. -/
theorem isFunctional_of_length (n : Nat)
    (h : ∀ {p q : Cursor} {w : Captures}, S p q w → ∃ v, v.length = n ∧ p.Takes v q) :
    S.IsFunctional := by
  intro p q q' w w' hw hw'
  obtain ⟨v, hv, hq⟩ := h hw
  obtain ⟨v', hv', hq'⟩ := h hw'
  have hl := hq.left
  have hl' := hq'.left
  exact Cursor.eq_of_left (hq'.subject.trans hq.subject.symm) (by omega)

theorem IsFunctional.seq (hR : R.IsFunctional) (hS : S.IsFunctional) : (R.seq S).IsFunctional := by
  rintro p q q' _ _ ⟨r, u, v, hu, hv, -⟩ ⟨r', u', v', hu', hv', -⟩
  obtain rfl := hR _ _ _ _ _ hu hu'
  exact hS _ _ _ _ _ hv hv'

theorem IsFunctional.iterates (hR : R.IsFunctional) (n : Nat) : IsFunctional (Iterates R n) := by
  induction n with
  | zero => exact isFunctional_nothing
  | succ n ih => exact hR.seq ih

theorem isFunctional_one (test : Char → Bool) : (one test).IsFunctional :=
  isFunctional_of_length 1 fun ⟨d, _, h, _⟩ => ⟨[d], rfl, h⟩

theorem isFunctional_text (ic : Bool) (t : Text) : (text ic t).IsFunctional :=
  isFunctional_of_length t.length fun h => by
    obtain ⟨-, v, hv, h⟩ := text_iff.1 h
    exact ⟨v, hv.length_eq.symm, h⟩

theorem isFunctional_run (ic : Bool) (D : Text) : (run ic D).IsFunctional := by
  -- a run that is shorter than another one would be followed by a delimiter
  have hle : ∀ {p q q' : Cursor} {w w' : Captures} {n n' : Nat}, Iterates (text ic D) (1 + n) p q
        w → Iterates (text ic D) (1 + n') p q' w' → ¬Begins ic D q.after → n' ≤ n := by
    intro p q q' w w' n n' h h' hb
    by_contra hlt
    obtain ⟨j, rfl⟩ := Nat.exists_eq_add_of_lt (Nat.lt_of_not_le hlt)
    rw [show 1 + (n + j + 1) = (1 + n) + (j + 1) by omega] at h'
    obtain ⟨r, u, u', hr, ⟨r', v, v', hnext, -, -⟩, -⟩ := iterates_add_iff.1 h'
    obtain rfl := (isFunctional_text ic D).iterates (1 + n) _ _ _ _ _ h hr
    obtain ⟨-, d, hd, htakes⟩ := text_iff.1 hnext
    exact hb ⟨d, r'.after, hd, htakes.after⟩
  rintro p q q' _ _ ⟨r, u, v, ⟨n, -, h⟩, habsent, -⟩ ⟨r', u', v', ⟨n', -, h'⟩, habsent', -⟩
  obtain ⟨rfl, -, hb⟩ := absent_text_iff.1 habsent
  obtain ⟨rfl, -, hb'⟩ := absent_text_iff.1 habsent'
  obtain rfl := Nat.le_antisymm (hle h h' hb) (hle h' h hb')
  exact (isFunctional_text ic D).iterates _ _ _ _ _ _ h h'

theorem isFunctional_loose (ic : Bool) (D : Text) (skip : Nat) (inRun : Bool) (t : Text) :
    (loose ic D skip inRun t).IsFunctional := by
  fun_induction Sense.loose ic D skip inRun t with
  | case1 => exact isFunctional_nothing
  | case2 skip inRun c rest ih => exact ih
  | case3 inRun c rest _ ih =>
    refine .seq ?_ ih
    cases inRun with
    | true => exact isFunctional_nothing
    | false => exact isFunctional_run ic D
  | case4 inRun c rest _ ih => exact (isFunctional_one _).seq ih

end Sense

theorem Expression.Literal.isFunctional_sense (l : Literal) (ic : Bool) (t : Text) :
    (l.sense ic t).IsFunctional := by
  unfold Literal.sense
  split
  · exact Sense.isFunctional_loose ic l.delimiter 0 false t
  · exact Sense.isFunctional_text ic t

/-! ### marks in literal text -/

/-- Up to the end of its first delimiter, if it has one, literal text takes a text that is alike. -/
theorem Expression.Literal.exists_takes_alike (h : l.sense ic t a b w) :
    ∃ y z u r, t = y ++ z ∧ Alike ic y u ∧ a.Takes (u ++ r) b ∧
      (l.delimiter <:+ y ∨ z = [] ∧ r = []) := by
  have htext : ∀ {t a w}, Sense.text ic t a b w →
      ∃ y z u r, t = y ++ z ∧ Alike ic y u ∧ a.Takes (u ++ r) b ∧
        (l.delimiter <:+ y ∨ z = [] ∧ r = []) := by
    intro t a w h
    obtain ⟨-, v, hv, h⟩ := Sense.text_iff.1 h
    exact ⟨t, [], v, [], by simp, hv, by simpa using h, .inr ⟨rfl, rfl⟩⟩
  unfold Literal.sense at h
  split at h
  · clear htext
    induction t generalizing a w with
    | nil =>
      obtain ⟨rfl, -⟩ := h
      exact ⟨[], [], [], [], rfl, .nil, .refl b, .inr ⟨rfl, rfl⟩⟩
    | cons c t ih =>
      unfold Sense.loose at h
      split at h
      · -- the first delimiter of the run
        rename_i hpre
        obtain ⟨z, hz⟩ := List.isPrefixOf_iff_prefix.1 hpre
        obtain ⟨r, _, _, ⟨q, _, _, ⟨n, -, hrun⟩, habsent, -⟩, hrest, -⟩ := h
        obtain ⟨rfl, -⟩ := habsent
        rw [Nat.add_comm] at hrun
        obtain ⟨p, _, _, hfirst, hothers, -⟩ := hrun
        obtain ⟨-, u, hu, hp⟩ := Sense.text_iff.1 hfirst
        obtain ⟨x, hx⟩ := hothers.takes fun p q w h => (Sense.isSilent_text ic _ p q w h).2
        obtain ⟨-, s, hs⟩ := Sense.isSilent_loose _ _ _ _ _ _ _ _ hrest
        exact ⟨l.delimiter, z, u, x ++ s, hz.symm, hu, hp.trans (hx.trans hs),
          .inl (List.suffix_refl _)⟩
      · obtain ⟨r, _, _, ⟨d, hd, hr, -⟩, h, -⟩ := h
        obtain ⟨y, z, u, s, rfl, hu, htakes, hend⟩ := ih h
        exact ⟨c :: y, z, d :: u, s, rfl, .cons hd hu, hr.trans htakes,
          hend.imp_left fun h => h.trans (List.suffix_cons ..)⟩
  · exact htext h

/-- Literal text is marked by a text that occurs in it, if that is the delimiter or if there are no
delimiters. -/
theorem Expression.Literal.marks_begins (hD : D ≠ []) (ht : Occurs ic D t)
    (hl : l.delimiter = D ∨ ¬Occurs ic l.delimiter t) :
    ∃ k, (l.sense ic t).Marks (Begins ic D) k := by
  obtain ⟨x, s, rfl, hs, hx⟩ := exists_first_mark ht
  refine ⟨x.length, fun {p q w} h => ?_, l.isFunctional_sense ic _⟩
  obtain ⟨v, s', hv, rfl⟩ := hs
  obtain ⟨y, z, u, r, heq, hu, htakes, hend⟩ := l.exists_takes_alike h
  -- the first mark is within what is taken alike
  obtain ⟨y', rfl⟩ : x ++ v <+: y := by
    have hlen : (x ++ v).length ≤ y.length := by
      have hvlen := hv.length_eq
      rcases hend with ⟨y₀, rfl⟩ | ⟨rfl, -⟩
      · have hbegins : Begins ic l.delimiter (l.delimiter ++ z) := ⟨l.delimiter, z, .refl ic _, rfl⟩
        rw [List.append_assoc] at heq
        obtain rfl := hl.resolve_right fun hno => hno ⟨y₀, l.delimiter ++ z, heq, hbegins⟩
        have hle := hx.length_le heq hbegins
        simp only [List.length_append]
        omega
      · rw [List.append_nil] at heq
        rw [← heq]
        simp
    have hxv : x ++ v <+: x ++ (v ++ s') := by
      rw [← List.append_assoc]
      exact List.prefix_append ..
    have hy : y <+: x ++ (v ++ s') := by
      rw [heq]
      exact List.prefix_append ..
    exact List.prefix_of_prefix_length_le hxv hy hlen
  obtain ⟨u', u₃, hu', -, rfl⟩ := forall₂_append_left_iff.1 hu
  obtain ⟨u₁, u₂, hu₁, hu₂, rfl⟩ := forall₂_append_left_iff.1 hu'
  have hlen := (hv.trans hu₂).length_eq
  have hpos := List.length_pos_iff.2 hD
  refine ⟨u₁, u₂ ++ u₃ ++ r, by simpa using htakes, hu₁.length_eq.symm, ?_, ?_, u₂,
    u₃ ++ r ++ q.after, hv.trans hu₂, by simp⟩
  · intro hnil
    obtain rfl : u₂ = [] := (List.append_eq_nil_iff.1 (List.append_eq_nil_iff.1 hnil).1).1
    exact hD (List.length_eq_zero_iff.1 hlen)
  · -- a mark before it would be one in the literal text, too
    intro x₁ x₂ hx₂ hne hb
    have hback : Alike ic (x₁ ++ x₂) x := Alike.symm (hx₂ ▸ hu₁)
    obtain ⟨w₁, w₂, -, hw₂, rfl⟩ := forall₂_append_left_iff.1 hback
    have hb' : Begins ic D (x₂ ++ u₂) := by
      refine Begins.of_append (r := u₃ ++ r ++ q.after) (by simpa using hb) ?_
      simp only [List.length_append]
      omega
    refine hx w₁ w₂ rfl ?_ ?_
    · rintro rfl
      cases hw₂
      exact hne rfl
    · rw [← List.append_assoc]
      exact (hb'.alike (List.rel_append hw₂ (Alike.symm hu₂))).append s'

/-! ### texts between separators -/

theorem Spaced.ne_nil (h : Spaced M S v vs a b) : ∀ x ∈ v :: vs, x ≠ [] := by
  induction vs generalizing v a with
  | nil => simpa using h.1
  | cons v' vs ih =>
    obtain ⟨c, c', hv, -, -, -, h⟩ := h
    intro x hx
    rcases List.mem_cons.1 hx with rfl | hx
    · exact hv
    · exact ih h x hx

theorem Spaced.exists_takes (hS : S.IsSilent) (h : Spaced M S v vs a b) : ∃ r, a.Takes r b := by
  induction vs generalizing v a with
  | nil => exact ⟨v, h.2.2⟩
  | cons v' vs ih =>
    obtain ⟨c, c', -, -, hc, hs, h⟩ := h
    obtain ⟨-, s, hs⟩ := hS _ _ _ hs
    obtain ⟨r, hr⟩ := ih h
    exact ⟨_, hc.trans (hs.trans hr)⟩

/-- All of it is a text that is longer than there are separators. -/
theorem Spaced.takes (hS : S.Marks M k) (h : Spaced M S v vs a b) :
    ∃ r, a.Takes (v ++ r) b ∧ vs.length ≤ r.length := by
  induction vs generalizing v a with
  | nil => exact ⟨[], by simpa using h.2.2, Nat.le_refl _⟩
  | cons v' vs ih =>
    obtain ⟨c, c', -, -, hc, hs, h⟩ := h
    obtain ⟨y, z, hyz, -, hz, -⟩ := hS.takes hs
    obtain ⟨r, hr, hlen⟩ := ih h
    refine ⟨y ++ z ++ (v' ++ r), hc.trans (hyz.trans hr), ?_⟩
    have := List.length_pos_iff.2 hz
    simp only [List.length_cons, List.length_append]
    omega

/-- Texts with literal text between them are that also where nothing follows any more, if what is no
mark there is none where something follows. -/
theorem Spaced.move (hM : ∀ s r, M s → M (s ++ r)) (h : Spaced M (l.sense ic t) v vs a b)
    (hx : a.Takes x b) (hx' : a'.Takes x b') (hb' : b'.after = []) :
    Spaced M (l.sense ic t) v vs a' b' := by
  have hunmarked : ∀ {v y y' : Text}, y' <+: y → Unmarked M v y → Unmarked M v y' := by
    rintro v y y' ⟨r, rfl⟩ h z s hz hs hmark
    exact h z s hz hs (by simpa using hM _ r hmark)
  induction vs generalizing v a a' x with
  | nil =>
    obtain ⟨hne, hv, htakes⟩ := h
    obtain rfl : x = v := List.append_cancel_right (hx.after.symm.trans htakes.after)
    exact ⟨hne, hunmarked (hb' ▸ List.nil_prefix) hv, hx'⟩
  | cons v' vs ih =>
    obtain ⟨c, c', hne, hv, hc, hs, h⟩ := h
    obtain ⟨s, hsep, hmove⟩ := l.movesTo_sense t _ _ _ hs
    obtain ⟨r, hr⟩ := h.exists_takes (l.isSilent_sense ic t)
    obtain rfl : x = v ++ (s ++ r) :=
      List.append_cancel_right (hx.after.symm.trans (hc.trans (hsep.trans hr)).after)
    obtain ⟨d, hd, hx'⟩ := Cursor.takes_append_iff.1 hx'
    obtain ⟨d', hd', hx'⟩ := Cursor.takes_append_iff.1 hx'
    have hprefix : d'.after <+: c'.after := by
      rw [hx'.after, hr.after, hb', List.append_nil]
      exact List.prefix_append ..
    have hundisturbed : Undisturbed ic l.loose l.delimiter s c'.after d'.after :=
      undisturbed_of_prefix hprefix
    obtain ⟨w, hw⟩ := hmove d d' hd' hundisturbed
    obtain ⟨rfl, -⟩ := l.isSilent_sense ic t _ _ _ hw
    refine ⟨d, d', hne, hunmarked ?_ hv, hd, hw, ih h hr hx'⟩
    rw [hd'.after, hsep.after, List.prefix_append_right_inj]
    exact hprefix

/-! ### splitting -/

/-- A search stops at the first separator, if there is no mark before. -/
theorem Leftmost.eq_of_marks (hS : S.Marks M k) (hm : e.root.Matches = S) (h : Leftmost e.root a m)
    (hv : Unmarked M v c.after) (hc : a.Takes v c) (hs : S c b []) :
    m.start = c ∧ m.finish.pos = b := by
  obtain ⟨x, hx⟩ := h.takes
  obtain ⟨w, hw⟩ := h.reaches
  rw [hm] at hw
  obtain ⟨y, z, hyz, hylen, -, hy, -⟩ := hS.takes hs
  obtain ⟨y', z', hyz', hylen', -, -, hmark⟩ := hS.takes hw
  have hxl := hx.left
  have hcl := hc.left
  -- the match does not start later
  have hle : x.length ≤ v.length := by
    by_contra hlt
    exact h.first v c hc (by omega) b ⟨[], hm ▸ hs⟩
  -- nor earlier, as it comes to a mark
  have hge : (v ++ y).length ≤ (x ++ y').length := by
    rw [hyz.after, List.append_assoc] at hv
    refine (hv.append hy).length_le ?_ hmark
    have htext := (hc.trans hyz).after.symm.trans (hx.trans hyz').after
    simpa using htext
  simp only [List.length_append] at hge
  have hstart : m.start = c := Cursor.eq_of_left (hx.subject.trans hc.subject.symm) (by omega)
  rw [hstart] at hw
  exact ⟨hstart, hS.functional _ _ _ _ _ hs hw⟩

/-- The expression of a separator splits texts where they have been put together. -/
theorem Expression.splitFrom_spaced (hr : e.root.isRegular = true) (hm : e.root.Matches = S)
    (hS : S.Marks M k) (h : Spaced M S v vs a b) (hb : b.after = []) (hn : vs.length ≤ n) :
    e.splitFrom n a = .gaveUp ∨ e.splitFrom n a = .found (v :: vs) := by
  induction vs generalizing v a n with
  | nil =>
    obtain ⟨hne, hv, hv'⟩ := h
    have hafter : a.after = v := by rw [hv'.after, hb, List.append_nil]
    cases n with
    | zero => exact .inr (by rw [splitFrom, hafter])
    | succ n =>
      unfold splitFrom
      cases hs : e.search a with
      | gaveUp => exact .inl rfl
      | none => exact .inr (by simp [hafter])
      | found m =>
        -- there would be a mark in the last text
        have hleft := (search_spec hr a).1 m hs
        obtain ⟨x, hx⟩ := hleft.takes
        obtain ⟨w, hw⟩ := hleft.reaches
        obtain ⟨y, z, hyz, -, hz, -, hmark⟩ := hS.takes (hm ▸ hw)
        have htext := (hx.trans hyz).after
        rw [hafter] at htext
        rw [hb] at hv
        refine absurd hmark (by
            simpa using hv (x ++ y) (z ++ m.finish.pos.after) (by simpa using htext) (by simp [hz]))
  | cons v' vs ih =>
    obtain ⟨c, c', -, hv, hc, hs', h⟩ := h
    obtain ⟨n, rfl⟩ : ∃ n', n = n' + 1 := Nat.exists_eq_add_of_le' (Nat.le_trans (by simp) hn)
    unfold splitFrom
    obtain ⟨hfound, hnone⟩ := search_spec hr a
    cases hs : e.search a with
    | gaveUp => exact .inl rfl
    | none => exact absurd ⟨[], hm ▸ hs'⟩ (hnone hs v c hc c')
    | found m =>
      obtain ⟨rfl, rfl⟩ := (hfound m hs).eq_of_marks hS hm hv hc hs'
      rcases ih h (n := n) (by simpa using hn) with hrest | hrest <;> simp [hrest, Span.text_eq hc]

theorem Matcher.value_spaced (hr : e.root.isRegular = true) (hm : e.root.Matches = S)
    (hS : S.Marks M k) (h : Spaced M S v vs (.start x) (.finish x)) (decode : Option Codec) :
    value decode (some e) x = .error .gaveUp ∨
    value decode (some e) x = .ok (.multiple ((v :: vs).map (recode decode))) := by
  have hlen : vs.length ≤ x.length := by
    obtain ⟨r, hr, hlen⟩ := h.takes hS
    have hx := hr.after
    simp only [Cursor.start, Cursor.finish, List.append_nil] at hx
    rw [hx, List.length_append]
    omega
  rcases Expression.splitFrom_spaced hr hm hS h rfl hlen with hsplit | hsplit
  · exact .inl (by simp [value, Expression.split, hsplit])
  · exact .inr (by simp [value, Expression.split, hsplit])

end

end PathTemplate
