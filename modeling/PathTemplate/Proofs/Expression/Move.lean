import PathTemplate.Proofs.Expression.Literal

/-!
# Matches at other places

What is matched in one text is matched in another one, too, as long as nothing around it is looked
at but delimiters, and what follows there makes no difference for those.

* `Undisturbed` — delimiters in a text, and after a delimiter at its end, are the same whichever
  of two texts follows;
* `Sense.MovesTo` — the matches of one sense are matches of another one at all places where they
  are undisturbed;
* `Node.isBlind` — the expression looks at nothing but the characters that it takes;
* `Literal.movesTo_sense`, `Sense.movesTo_stretch`, `Node.movesTo_of_isBlind` — what can be moved;
* `Literal.sense_self` — literal text matches itself where nothing disturbs it.
-/

namespace PathTemplate

open Expression (Literal)

/-- In front of `y'`, no delimiter begins in `v` but those that begin there in front of `y`; and,
where runs of delimiters count, none begins after a delimiter at the end of `v`. -/
structure Undisturbed (ic loose : Bool) (D v y y' : Text) : Prop where
  inside : ∀ x s, v = x ++ s → s ≠ [] → Begins ic D (s ++ y') → Begins ic D (s ++ y)
  behind : loose = true → (∃ x d, v = x ++ d ∧ Alike ic D d) → Begins ic D y' → Begins ic D y

section

variable {ic loose : Bool} {D u v y y' : Text}

/-- What is undisturbed stays so where less follows. -/
theorem undisturbed_of_prefix (h : y' <+: y) : Undisturbed ic loose D v y y' := by
  obtain ⟨r, rfl⟩ := h
  have hbegins : ∀ s, Begins ic D (s ++ y') → Begins ic D (s ++ (y' ++ r)) :=
    fun s hb => List.append_assoc s y' r ▸ hb.append r
  exact ⟨fun x s _ _ hb => hbegins s hb, fun _ _ hb => hbegins [] hb⟩

theorem Undisturbed.left (h : Undisturbed ic loose D (u ++ v) y y') :
    Undisturbed ic loose D u (v ++ y) (v ++ y') := by
  refine ⟨fun x s hx hs hb => ?_, fun hl ⟨x, d, hx, hd⟩ hb => ?_⟩
  · rw [← List.append_assoc] at hb ⊢
    exact h.inside x (s ++ v) (by rw [hx, List.append_assoc]) (by simp [hs]) hb
  · rcases v with _ | ⟨c, v⟩
    · exact h.behind hl ⟨x, d, by simpa using hx, hd⟩ hb
    · exact h.inside u (c :: v) rfl (by simp) hb

theorem Undisturbed.right (h : Undisturbed ic loose D (u ++ v) y y') :
    Undisturbed ic loose D v y y' := by
  refine ⟨fun x s hx hs hb => h.inside (u ++ x) s (by rw [hx, List.append_assoc]) hs hb,
    fun hl hend hb => ?_⟩
  obtain ⟨x, d, rfl, hd⟩ := hend
  exact h.behind hl ⟨u ++ x, d, by rw [List.append_assoc], hd⟩ hb

theorem Undisturbed.avoids (h : Undisturbed ic loose D v y y') (ha : Avoids ic D v y) :
    Avoids ic D v y' :=
  fun x s hx hs hb => ha x s hx hs (h.inside x s hx hs hb)

end

namespace Sense

/-- A match of `R` is one of `R'` wherever the text it takes is undisturbed. -/
def MovesTo (ic loose : Bool) (D : Text) (R R' : Sense) : Prop :=
  ∀ a b w, R a b w → ∃ v, a.Takes v b ∧ ∀ a' b' : Cursor, a'.Takes v b' →
  Undisturbed ic loose D v b.after b'.after →
    ∃ w', R' a' b' w'

variable {ic loose : Bool} {D t : Text} {R R' S S' : Sense}

theorem movesTo_nothing : MovesTo ic loose D nothing nothing := by
  rintro a b w ⟨rfl, -⟩
  exact ⟨[], .refl b, fun a' b' h _ => ⟨[], Cursor.takes_nil_iff.1 h, rfl⟩⟩

theorem movesTo_one (test : Char → Bool) : MovesTo ic loose D (one test) (one test) := by
  rintro a b w ⟨d, hd, h, -⟩
  exact ⟨[d], h, fun a' b' h' _ => ⟨[], d, hd, h', rfl⟩⟩

theorem movesTo_text (t : Text) : MovesTo ic loose D (text ic t) (text ic t) := by
  intro a b w h
  obtain ⟨-, v, hv, htakes⟩ := text_iff.1 h
  exact ⟨v, htakes, fun a' b' h' _ => ⟨[], text_iff.2 ⟨rfl, v, hv, h'⟩⟩⟩

theorem MovesTo.seq (hR : MovesTo ic loose D R R') (hS : MovesTo ic loose D S S') :
    MovesTo ic loose D (R.seq S) (R'.seq S') := by
  rintro a b w ⟨r, _, _, ha, hb, -⟩
  obtain ⟨v₁, h₁, hR⟩ := hR _ _ _ ha
  obtain ⟨v₂, h₂, hS⟩ := hS _ _ _ hb
  refine ⟨v₁ ++ v₂, h₁.trans h₂, fun a' b' h hu => ?_⟩
  obtain ⟨r', h₁', h₂'⟩ := Cursor.takes_append_iff.1 h
  have hleft := hu.left
  rw [← h₂.after, ← h₂'.after] at hleft
  obtain ⟨w₁, hw₁⟩ := hR a' r' h₁' hleft
  obtain ⟨w₂, hw₂⟩ := hS r' b' h₂' hu.right
  exact ⟨w₂ ++ w₁, r', w₁, w₂, hw₁, hw₂, rfl⟩

theorem MovesTo.either (hR : MovesTo ic loose D R R') (hS : MovesTo ic loose D S S') :
    MovesTo ic loose D (R.either S) (R'.either S') := by
  rintro a b w (h | h)
  · obtain ⟨v, hv, hR⟩ := hR _ _ _ h
    refine ⟨v, hv, fun a' b' h' hu => ?_⟩
    obtain ⟨w', hw'⟩ := hR a' b' h' hu
    exact ⟨w', .inl hw'⟩
  · obtain ⟨v, hv, hS⟩ := hS _ _ _ h
    refine ⟨v, hv, fun a' b' h' hu => ?_⟩
    obtain ⟨w', hw'⟩ := hS a' b' h' hu
    exact ⟨w', .inr hw'⟩

theorem MovesTo.captured (hR : MovesTo ic loose D R R') (i j : Nat) :
    MovesTo ic loose D (captured i R) (captured j R') := by
  rintro a b w ⟨u, h, -⟩
  obtain ⟨v, hv, hR⟩ := hR _ _ _ h
  refine ⟨v, hv, fun a' b' h' hu => ?_⟩
  obtain ⟨w', hw'⟩ := hR a' b' h' hu
  exact ⟨_, w', hw', rfl⟩

theorem MovesTo.iterates (hR : MovesTo ic loose D R R') (n : Nat) :
    MovesTo ic loose D (Iterates R n) (Iterates R' n) := by
  induction n with
  | zero => exact movesTo_nothing
  | succ n ih => exact hR.seq ih

theorem MovesTo.rounds (hR : MovesTo ic loose D R R') (lo : Nat) (hi : Option Nat) :
    MovesTo ic loose D (R.rounds lo hi) (R'.rounds lo hi) := by
  rintro a b w ⟨n, hn, h⟩
  obtain ⟨v, hv, hiterates⟩ := hR.iterates (lo + n) a b w h
  refine ⟨v, hv, fun a' b' h' hu => ?_⟩
  obtain ⟨w', hw'⟩ := hiterates a' b' h' hu
  exact ⟨w', n, hn, hw'⟩

theorem movesTo_stretch : MovesTo ic loose D (stretch ic D) (stretch ic D) := by
  intro a b w h
  obtain ⟨-, v, hv, htakes, hline, ha⟩ := stretch_iff.1 h
  exact ⟨v, htakes, fun a' b' h' hu => ⟨[], stretch_iff.2 ⟨rfl, v, hv, h', hline, hu.avoids ha⟩⟩⟩

/-- A run of delimiters is one as long as no delimiter begins after it. -/
theorem movesTo_run : MovesTo ic true D (run ic D) (run ic D) := by
  rintro a b w ⟨r, _, _, ⟨n, hn, hrounds⟩, habsent, -⟩
  obtain ⟨rfl, -, hb⟩ := absent_text_iff.1 habsent
  obtain ⟨v, hv, hmove⟩ := ((movesTo_text D).iterates (1 + n)) _ _ _ hrounds
  refine ⟨v, hv, fun a' b' h' hu => ?_⟩
  obtain ⟨w', hw'⟩ := hmove a' b' h' hu
  -- the last of the delimiters is at the end
  have hend : ∃ x d, v = x ++ d ∧ Alike ic D d := by
    rw [Nat.add_comm] at hrounds
    obtain ⟨c, _, _, hinit, hlast, -⟩ := iterates_add_iff.1 hrounds
    obtain ⟨q, _, _, hd, ⟨rfl, -⟩, -⟩ := hlast
    obtain ⟨x, hx⟩ := hinit.takes (fun p q w h => (isSilent_text ic D p q w h).2)
    obtain ⟨-, d, hd, htakes⟩ := text_iff.1 hd
    exact ⟨x, d, List.append_cancel_right (hv.after.symm.trans (hx.trans htakes).after), hd⟩
  exact ⟨_, b', w', [], ⟨n, hn, hw'⟩,
    absent_text_iff.2 ⟨rfl, rfl, fun h => hb (hu.behind rfl hend h)⟩, rfl⟩

theorem movesTo_loose (skip : Nat) (inRun : Bool) (t : Text) :
    MovesTo ic true D (Sense.loose ic D skip inRun t) (Sense.loose ic D skip inRun t) := by
  fun_induction Sense.loose ic D skip inRun t with
  | case1 => exact movesTo_nothing
  | case2 skip inRun c rest ih => exact ih
  | case3 inRun c rest hD ih =>
    refine .seq ?_ ih
    cases inRun with
    | true => exact movesTo_nothing
    | false => exact movesTo_run
  | case4 inRun c rest hD ih => exact (movesTo_one _).seq ih

end Sense

/-! ### literal text -/

section

variable {ic : Bool} {l : Literal} {t : Text}

theorem Expression.Literal.movesTo_sense (l : Literal) (t : Text) :
    Sense.MovesTo ic l.loose l.delimiter (l.sense ic t) (l.sense ic t) := by
  unfold Literal.sense
  split
  · rename_i h
    rw [h.1]
    exact Sense.movesTo_loose 0 false t
  · exact Sense.movesTo_text t

/-- Any text is delimiters first, as many as there are, and then a text that does not start with
one. -/
theorem exists_eq_delimiters_append {D : Text} (hD : D ≠ []) (t : Text) :
    ∃ k s, t = (List.replicate k D).flatten ++ s ∧ ¬D <+: s := by
  induction hlen : t.length using Nat.strong_induction_on generalizing t with
  | _ n ih =>
    by_cases hpre : D <+: t
    · obtain ⟨t', rfl⟩ := hpre
      have hpos := List.length_pos_iff.2 hD
      obtain ⟨k, s, rfl, hs⟩ := ih t'.length (by simp only [List.length_append] at hlen; omega) t'
        rfl
      exact ⟨k + 1, s, by simp [List.replicate_succ], hs⟩
    · exact ⟨0, t, rfl, hpre⟩

theorem iterates_delimiters {D : Text} {n : Nat} {a b : Cursor}
    (h : a.Takes (List.replicate n D).flatten b) : Iterates (Sense.text ic D) n a b [] := by
  induction n generalizing a with
  | zero => exact ⟨Cursor.takes_nil_iff.1 h, rfl⟩
  | succ n ih =>
    rw [List.replicate_succ, List.flatten_cons] at h
    obtain ⟨r, hr, hb⟩ := Cursor.takes_append_iff.1 h
    exact ⟨r, [], [], Sense.text_iff.2 ⟨rfl, D, .refl ic D, hr⟩, ih hb, rfl⟩

/-- Literal text with runs of delimiters matches itself: after `a`, its first delimiters are left
out if they are a run that has been matched before. -/
theorem Sense.loose_self {D : Text} (hD : D ≠ []) (hcase : ∀ v, Alike ic D v → v = D) (skip : Nat)
    (inRun : Bool) (t : Text) {k : Nat} {s : Text} {a b : Cursor}
    (ht : t.drop skip = (List.replicate k D).flatten ++ s) (hs : ¬D <+: s)
    (hu : Undisturbed ic true D (t.drop skip) [] b.after)
    (h : a.Takes (if inRun then s else t.drop skip) b) : Sense.loose ic D skip inRun t a b [] := by
  have hbegins : ∀ {t}, Begins ic D t → D <+: t := by
    rintro t ⟨v, rest, hv, rfl⟩
    exact ⟨rest, by rw [hcase v hv]⟩
  fun_induction Sense.loose ic D skip inRun t generalizing k s a with
  | case1 skip inRun =>
    rw [List.drop_nil] at ht h
    obtain ⟨-, rfl⟩ := List.append_eq_nil_iff.1 ht.symm
    exact ⟨Cursor.takes_nil_iff.1 (by simpa using h), rfl⟩
  | case2 skip inRun c rest ih => exact ih ht hs hu h
  | case3 inRun c rest hpre ih =>
    rw [List.drop_zero] at ht hu h
    obtain ⟨k, rfl⟩ : ∃ k', k = k' + 1 := by
      refine Nat.exists_eq_succ_of_ne_zero ?_
      rintro rfl
      obtain rfl : c :: rest = s := by simpa using ht
      exact hs (List.isPrefixOf_iff_prefix.1 hpre)
    rw [List.replicate_succ, List.flatten_cons, List.append_assoc] at ht
    have hrest : rest.drop (D.length - 1) = (List.replicate k D).flatten ++ s := by
      obtain ⟨d, D, rfl⟩ := List.exists_cons_of_ne_nil hD
      simp only [List.cons_append, List.cons.injEq] at ht
      simp [ht.2]
    have hu' : Undisturbed ic true D (rest.drop (D.length - 1)) [] b.after := by
      rw [ht, ← hrest] at hu
      exact hu.right
    cases inRun with
    | true => exact ⟨a, [], [], ⟨rfl, rfl⟩, ih hrest hs hu' h, rfl⟩
    | false =>
      rw [if_neg (by simp), ht, ← List.append_assoc, ← List.flatten_cons,
        ← List.replicate_succ] at h
      obtain ⟨r, hr, hb⟩ := Cursor.takes_append_iff.1 h
      -- after the last delimiter of the run there is none
      have habsent : ¬Begins ic D r.after := by
        rw [hb.after]
        intro hbegin
        rcases s with _ | ⟨d, s⟩
        · rw [ht, List.append_nil, ← List.flatten_cons, ← List.replicate_succ] at hu
          have hend : ∃ x d, (List.replicate (k + 1) D).flatten = x ++ d ∧ Alike ic D d :=
            ⟨(List.replicate k D).flatten, D, by simp [List.replicate_succ'], .refl ic D⟩
          exact hD (List.prefix_nil.1 (hbegins (hu.behind rfl hend hbegin)))
        · refine hs (hbegins ?_)
          rw [← List.append_nil (d :: s)]
          exact hu.inside (D ++ (List.replicate k D).flatten) (d :: s)
            (by rw [ht, List.append_assoc]) (by simp) hbegin
      have hrun : Sense.run ic D a r [] :=
        ⟨r, [], [], ⟨k, by simp, by rw [Nat.add_comm]; exact iterates_delimiters hr⟩,
        absent_text_iff.2 ⟨rfl, rfl, habsent⟩, rfl⟩
      exact ⟨r, [], [], hrun, ih hrest hs hu' hb, rfl⟩
  | case4 inRun c rest hpre ih =>
    rw [List.drop_zero] at ht hu h
    -- the first character is no delimiter, so none is left out
    obtain rfl : k = 0 := by
      by_contra hk
      obtain ⟨k, rfl⟩ := Nat.exists_eq_succ_of_ne_zero hk
      refine hpre (List.isPrefixOf_iff_prefix.2 ⟨(List.replicate k D).flatten ++ s, ?_⟩)
      rw [ht, List.replicate_succ, List.flatten_cons, List.append_assoc]
    obtain rfl : c :: rest = s := by simpa using ht
    rw [ite_self] at h
    obtain ⟨r, hr, hb⟩ := Cursor.takes_append_iff.1 (show a.Takes ([c] ++ rest) b from h)
    obtain ⟨k, s, hrest, hs'⟩ := exists_eq_delimiters_append hD rest
    exact ⟨r, [], [], ⟨c, matchesChar_refl c ic, hr, rfl⟩, ih hrest hs' (hu.right (u := [c])) hb,
      rfl⟩

/-- Literal text matches itself where nothing disturbs it, if its delimiter has no other case. -/
theorem Expression.Literal.sense_self
    (hcase : l.loose = true → ∀ v, Alike ic l.delimiter v → v = l.delimiter) {a b : Cursor}
    (hu : Undisturbed ic l.loose l.delimiter t [] b.after) (h : a.Takes t b) :
    l.sense ic t a b [] := by
  unfold Literal.sense
  split
  · rename_i hl
    rw [hl.1] at hu
    obtain ⟨k, s, ht, hs⟩ := exists_eq_delimiters_append hl.2 t
    exact Sense.loose_self hl.2 (hcase hl.1) 0 false t ht hs hu h
  · exact Sense.text_iff.2 ⟨rfl, t, .refl ic t, h⟩

end

/-! ### patterns -/

namespace Node

/-- The expression looks at nothing but the characters that it takes. -/
def isBlind : Node → Bool
  | empty | char _ _ | oneOf _ => true
  | seq a b | alt a b => a.isBlind && b.isBlind
  | group _ a | loop a _ _ _ => a.isBlind
  | assertion _ | look _ _ _ | atomic _ | backref _ _ | present _ _ | choice _ _ _ | keep |
      unit _ => false

/-- What looks at nothing around it matches everywhere. -/
theorem movesTo_of_isBlind {n : Node} (h : n.isBlind = true) (ic loose : Bool) (D : Text) :
    Sense.MovesTo ic loose D n.Matches n.Matches := by
  induction n with
  | empty => exact Sense.movesTo_nothing
  | char c i => exact Sense.movesTo_one (matchesChar c i)
  | oneOf s => exact Sense.movesTo_one s.has
  | seq a b iha ihb =>
    simp only [isBlind, Bool.and_eq_true] at h
    exact (iha h.1).seq (ihb h.2)
  | alt a b iha ihb =>
    simp only [isBlind, Bool.and_eq_true] at h
    exact (iha h.1).either (ihb h.2)
  | group i a ih => exact (ih h).captured i i
  | loop a lo hi greedy ih => exact (ih h).rounds lo hi
  | _ => cases h

end Node

end PathTemplate
