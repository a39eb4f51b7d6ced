import PathTemplate.Proofs.Expression.Split
import PathTemplate.Proofs.Segment.Sense

/-!
# Splitting at a separator

A separator with a delimiter in it splits values without one exactly where they have been put
together. `D` is the delimiter, one character with no other form.

* `Sense.Separates` — every match takes a delimiter after as many other characters, and from a
  place there is one at most;
* `Literal.separates` — literal text with a delimiter in it is a separator;
* `Strung`, `Strung.move` — values with matches of a separator between them, wherever their text
  stands;
* `Strung.spaced`, `Matcher.value_strung` — the delimiters mark where such values are split, and
  nothing else.
-/

namespace PathTemplate

open Expression (Literal)

/-- A value is in one line, without delimiters, and not empty. -/
def IsOpenValue (D : Char) (v : Text) : Prop := v ≠ [] ∧ D ∉ v ∧ '\n' ∉ v

/-- The matches are those of a separator: there is one from a place at most, and it takes a
delimiter after `k` other characters. -/
structure Sense.Separates (D : Char) (k : Nat) (S : Sense) : Prop where
  takes :
    ∀ {p q : Cursor} {w : Captures}, S p q w → ∃ y z, p.Takes (y ++ D :: z) q ∧ D ∉ y ∧ y.length = k
  functional : S.IsFunctional

/-- The value `v` and the values `vs`, with a match of `S` between two of them. -/
def Strung (S : Sense) (D : Char) : (v : Text) → (vs : List Text) → Cursor → Cursor → Prop
  | v, [], a, b => IsOpenValue D v ∧ a.Takes v b
  | v, v' :: vs, a, b => IsOpenValue D v ∧ ∃ c c', a.Takes v c ∧ S c c' [] ∧ Strung S D v' vs c' b

section

variable {ic loose : Bool} {D : Char} {k : Nat} {a b c : Cursor} {w : Captures} {t v x y y' : Text}
  {vs : List Text} {l : Literal} {R S : Sense} {e : Expression}

/-! ### separators -/

/-- A separator is marked by the delimiter in it. -/
theorem Sense.Separates.marks (hD : IsAlone D) (hS : S.Separates D k) :
    S.Marks (Begins ic [D]) k where
  takes h := by
    obtain ⟨y, z, hyz, hy, hlen⟩ := hS.takes h
    exact ⟨y, D :: z, hyz, hlen, by simp, (avoids_delimiter_iff hD).2 hy,
      (begins_delimiter_iff hD).2 ⟨_, rfl⟩⟩
  functional := hS.functional

theorem Expression.Literal.separates (hl : l.delimiter = [D]) (hD : IsAlone D) (ht : D ∈ t) :
    ∃ k, Sense.Separates D k (l.sense ic t) := by
  obtain ⟨x, s, rfl⟩ := List.append_of_mem ht
  have hoccurs : Occurs ic [D] (x ++ D :: s) :=
    ⟨x, D :: s, rfl, (begins_delimiter_iff hD).2 ⟨s, rfl⟩⟩
  obtain ⟨k, hmarks⟩ := l.marks_begins (by simp) hoccurs (.inl hl)
  refine ⟨k, fun h => ?_, hmarks.functional⟩
  obtain ⟨y, z, hyz, hlen, hz, hy, hmark⟩ := hmarks.takes h
  obtain ⟨c, z, rfl⟩ := List.exists_cons_of_ne_nil hz
  obtain ⟨r, hr⟩ := (begins_delimiter_iff hD).1 hmark
  obtain ⟨rfl, -⟩ := List.cons.inj hr
  exact ⟨y, z, hyz, (avoids_delimiter_iff hD).1 hy, hlen⟩

/-! ### values between separators -/

theorem stretch_delimiter_iff (hD : IsAlone D) :
    Sense.stretch ic [D] a b w ↔ w = [] ∧ ∃ v, IsOpenValue D v ∧ a.Takes v b := by
  rw [Sense.stretch_iff]
  refine and_congr_right fun _ => exists_congr fun v => ?_
  rw [avoids_delimiter_iff hD, IsOpenValue]
  tauto

theorem Strung.isOpen (h : Strung S D v vs a b) : ∀ x ∈ v :: vs, IsOpenValue D x := by
  induction vs generalizing v a with
  | nil => simpa using h.1
  | cons v' vs ih =>
    obtain ⟨hv, c, c', -, -, h⟩ := h
    intro x hx
    rcases List.mem_cons.1 hx with rfl | hx
    · exact hv
    · exact ih h x hx

theorem IsOpenValue.head?_ne (h : IsOpenValue D v) (r : Text) : (v ++ r).head? ≠ some D := by
  obtain ⟨c, v, rfl⟩ := List.exists_cons_of_ne_nil h.1
  rintro hc
  exact h.2.1 (by simp_all)

/-- Values with separators between them have no marks. -/
theorem Strung.spaced (hD : IsAlone D) (h : Strung S D v vs a b) :
    Spaced (Begins ic [D]) S v vs a b := by
  induction vs generalizing v a with
  | nil => exact ⟨h.1.1, (avoids_delimiter_iff hD).2 h.1.2.1, h.2⟩
  | cons v' vs ih =>
    obtain ⟨hv, c, c', hc, hs, h⟩ := h
    exact ⟨c, c', hv.1, (avoids_delimiter_iff hD).2 hv.2.1, hc, hs, ih h⟩

/-- Values take a text that is longer than there are separators. -/
theorem Strung.takes (hD : IsAlone D) (hS : S.Separates D k) (h : Strung S D v vs a b) :
    ∃ r, a.Takes (v ++ r) b ∧ vs.length ≤ r.length := by
  have hmarks : S.Marks (Begins false [D]) k := hS.marks hD
  exact (h.spaced hD).takes hmarks

/-- A delimiter of one character does not go beyond its text; as a run, it must not go on after
it. -/
theorem undisturbed_of_isAlone (hD : IsAlone D)
    (h : loose = true → x.getLast? = some D → y'.head? ≠ some D) :
    Undisturbed ic loose [D] x y y' := by
  refine ⟨fun v s hv hs hb => ?_, fun hl hend hb => ?_⟩
  · obtain ⟨c, s, rfl⟩ := List.exists_cons_of_ne_nil hs
    rw [begins_delimiter_iff hD] at hb ⊢
    obtain ⟨r, hr⟩ := hb
    obtain ⟨rfl, -⟩ := List.cons.inj hr
    exact ⟨s ++ y, rfl⟩
  · obtain ⟨v, e, rfl, he⟩ := hend
    obtain ⟨r, rfl⟩ := (begins_delimiter_iff hD).1 hb
    rw [(alike_delimiter_iff hD).1 he] at h
    exact absurd rfl (h hl (by simp))

/-- Values with separators between them are that wherever their text stands. -/
theorem Strung.move (hl : l.delimiter = [D]) (hD : IsAlone D) (ht : D ∈ t) {a' b' : Cursor}
    (h : Strung (l.sense ic t) D v vs a b) (hx : a.Takes x b) (hx' : a'.Takes x b') :
    Strung (l.sense ic t) D v vs a' b' := by
  obtain ⟨k, hS⟩ : ∃ k, (l.sense ic t).Separates D k := Literal.separates hl hD ht
  induction vs generalizing v a a' x with
  | nil =>
    obtain rfl : x = v := List.append_cancel_right (hx.after.symm.trans h.2.after)
    exact ⟨h.1, hx'⟩
  | cons v' vs ih =>
    obtain ⟨hv, c, c', hc, hs, h⟩ := h
    obtain ⟨s, hsep, hmove⟩ := l.movesTo_sense t _ _ _ hs
    obtain ⟨r, hr, -⟩ := h.takes hD hS
    obtain rfl : x = v ++ (s ++ (v' ++ r)) :=
      List.append_cancel_right (hx.after.symm.trans (hc.trans (hsep.trans hr)).after)
    obtain ⟨d, hd, hx'⟩ := Cursor.takes_append_iff.1 hx'
    obtain ⟨d', hd', hx'⟩ := Cursor.takes_append_iff.1 hx'
    -- a value follows the separator here, too, so that a run of delimiters ends where it did
    have hnext : d'.after.head? ≠ some D := by
      rw [hx'.after, List.append_assoc]
      exact (h.isOpen v' (List.mem_cons_self ..)).head?_ne _
    obtain ⟨w, hw⟩ := hmove d d' hd' (by rw [hl]; exact undisturbed_of_isAlone hD fun _ _ => hnext)
    obtain ⟨rfl, -⟩ := l.isSilent_sense ic t _ _ _ hw
    exact ⟨hv, d, d', hd, hw, ih h hr hx'⟩

/-! ### splitting -/

theorem Matcher.value_strung (hD : IsAlone D) (hr : e.root.isRegular = true)
    (hm : e.root.Matches = S) (hS : S.Separates D k) (h : Strung S D v vs (.start x) (.finish x))
    (decode : Option Codec) :
    value decode (some e) x = .error .gaveUp ∨
    value decode (some e) x = .ok (.multiple ((v :: vs).map (recode decode))) := by
  have hmarks : S.Marks (Begins false [D]) k := hS.marks hD
  exact value_spaced hr hm hmarks (h.spaced hD) decode

end

end PathTemplate
