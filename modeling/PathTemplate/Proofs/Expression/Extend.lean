import PathTemplate.Proofs.Expression.Trail

/-!
# Reading does not depend on what follows

What is read at the start of a text stays the same where the text goes on with a closing
parenthesis, unless a comment goes on beyond the text.

* `Settles` — what a reader makes of a text, whatever closed text follows;
* `count?_append`, `quantified_append` — repetitions;
* `Escape.settles_read`, `Bracket.settles_read`, `settles_switchesFrom` — escapes, classes and
  inline switches.
-/

namespace PathTemplate.Expression

/-- A reader makes `a` of the text `t`, and leaves `r` of it, whatever closed text follows. -/
def Settles {α : Type} (f : Text → Except Fault (α × Text)) (t : Text) (a : α) (r : Text) : Prop :=
  r <:+ t ∧ ∀ u, Closed u → f (t ++ u) = .ok (a, r ++ u)

variable {t u r : Text} {sw : Switches}

/-- A reader that goes on with another one, and changes what that makes of the text. -/
theorem settles_of_map {α β : Type} (g : α → β) {f : Text → Except Fault (α × Text)}
    {f' : Text → Except Fault (β × Text)} {b : β} {t' : Text}
    (h : (f t').map (fun x => (g x.1, x.2)) = .ok (b, r))
    (hf : ∀ {a}, f t' = .ok (a, r) → Settles f t' a r) (hsuffix : t' <:+ t)
    (hall : ∀ u, Closed u → f' (t ++ u) = (f (t' ++ u)).map fun x => (g x.1, x.2)) :
    Settles f' t b r := by
  obtain ⟨x, hx, heq⟩ := exists_of_map_eq_ok h
  obtain ⟨rfl, rfl⟩ := Prod.mk.inj heq
  obtain ⟨hr, hf⟩ := hf hx
  refine ⟨hr.trans hsuffix, fun u hu => ?_⟩
  rw [hall u hu, hf u hu]
  rfl

theorem not_mem_of_suffix {c : Char} (hr : r <:+ t) (ht : c ∉ t) : c ∉ r :=
  fun h => ht (hr.subset h)

/-! ### stretches of characters -/

theorem takeWhile_append_closed {p : Char → Bool} (hp : p ')' = false) (hu : Closed u) :
    (t ++ u).takeWhile p = t.takeWhile p := by
  induction t with
  | nil =>
    cases u with
    | nil => rfl
    | cons c u =>
      obtain rfl := hu c rfl
      simp [hp]
  | cons c t ih => simp [List.takeWhile_cons, ih]

theorem dropWhile_append_closed {p : Char → Bool} (hp : p ')' = false) (hu : Closed u) :
    (t ++ u).dropWhile p = t.dropWhile p ++ u := by
  induction t with
  | nil =>
    cases u with
    | nil => rfl
    | cons c u =>
      obtain rfl := hu c rfl
      simp [hp]
  | cons c t ih =>
    rw [List.cons_append, List.dropWhile_cons, List.dropWhile_cons, ih]
    split <;> rfl

/-- A stretch that ends inside of a text ends there whatever follows. -/
theorem stretch_append {p : Char → Bool} {c : Char} (h : t.dropWhile p = c :: r) (u : Text) :
    (t ++ u).takeWhile p = t.takeWhile p ∧ (t ++ u).dropWhile p = c :: (r ++ u) := by
  induction t with
  | nil => simp at h
  | cons d t ih =>
    rw [List.dropWhile_cons] at h
    rw [List.cons_append, List.takeWhile_cons, List.takeWhile_cons, List.dropWhile_cons]
    split at h
    · rename_i hd
      simp [hd, ih h]
    · rename_i hd
      simpa [hd] using h

theorem decimal?_append (hu : Closed u) :
    decimal? (t ++ u) = (decimal? t).map fun x => (x.1, x.2 ++ u) := by
  unfold decimal?
  rw [takeWhile_append_closed (by decide) hu, dropWhile_append_closed (by decide) hu]
  simp only
  split <;> rfl

theorem suffix_of_decimal? {n : Nat} (h : decimal? t = some (n, r)) : r <:+ t := by
  unfold decimal? at h
  simp only at h
  split at h
  · cases h
    exact List.dropWhile_suffix _
  · cases h

theorem groupName?_eq_some_iff {close : Char} {name : Text} : groupName? close t = some (name, r) ↔
    name ≠ [] ∧ t.takeWhile isNameChar = name ∧ t.dropWhile isNameChar = close :: r := by
  unfold groupName?
  split
  · rename_i hnil
    rw [hnil]
    simp only [reduceCtorEq, false_iff]
    rintro ⟨hne, rfl, -⟩
    exact hne rfl
  · rename_i c rest hd hne
    rw [hd]
    split
    · simp_all
      rintro rfl
      rintro rfl
      simp_all
    · simp_all
  · rename_i hd _
    rw [hd]
    simp

theorem settles_groupName? {close : Char} {name : Text} (h : groupName? close t = some (name, r)) :
    r <:+ t ∧ ∀ u, Closed u → groupName? close (t ++ u) = some (name, r ++ u) := by
  obtain ⟨hne, ht, hd⟩ := groupName?_eq_some_iff.1 h
  refine ⟨(List.suffix_cons close r).trans (hd ▸ List.dropWhile_suffix isNameChar), fun u _ => ?_⟩
  obtain ⟨ht', hd'⟩ := stretch_append hd u
  exact groupName?_eq_some_iff.2 ⟨hne, ht'.trans ht, hd'⟩

theorem suffix_of_skipFrom {free : Bool} {k : Skipping} (h : skipFrom free k t = .ok r) :
    r <:+ t := by
  fun_induction skipFrom free k t with
  | case1 | case5 | case6 =>
    cases h
    simp
  | case2 _ ih => exact (ih h).trans (by simp [List.suffix_cons_iff])
  | case3 _ _ _ _ ih | case4 _ _ _ _ _ ih | case7 _ _ ih | case11 _ _ _ _ ih =>
    exact (ih h).trans (List.suffix_cons _ _)
  | case8 | case9 => cases h
  | case10 _ _ ih => exact (ih h).trans (by simp [List.suffix_cons_iff])

theorem suffix_of_skipBlank (h : skipBlank sw t = .ok r) : r <:+ t := suffix_of_skipFrom h

theorem Skips.suffix (h : Skips sw t r) : r <:+ t := by
  induction h with
  | refl t => exact List.suffix_refl t
  | inert _ _ ih => exact ih.trans (List.suffix_cons _ _)
  | blank hblank _ ih => exact ih.trans (suffix_of_skipBlank hblank)

/-! ### repetitions -/

theorem lower?_append (hu : Closed u) :
    lower? (t ++ u) = (lower? t).map fun x => (x.1, x.2 ++ u) := by
  by_cases h : ∃ t', t = ',' :: t'
  · obtain ⟨t', rfl⟩ := h
    rfl
  · have hplain : ∀ t : Text, (¬∃ t', t = ',' :: t') → lower? t = decimal? t := by
      intro t h
      unfold lower?
      split
      · exact absurd ⟨_, rfl⟩ h
      · rfl
    rw [hplain t h, hplain, decimal?_append hu]
    rintro ⟨t', h'⟩
    cases t with
    | nil =>
      have := hu ',' (by simp_all)
      cases this
    | cons c t =>
      simp only [List.cons_append, List.cons.injEq] at h'
      exact h ⟨t, by rw [h'.1]⟩

theorem upper?_append {lo : Nat} (ht : Sealed sw t) (hu : Closed u) :
    upper? sw lo (t ++ u) = (upper? sw lo t).map fun x => (x.1, x.2 ++ u) := by
  rcases t with _ | ⟨c, t⟩
  · have hnone : upper? sw lo u = none := by
      unfold upper?
      split
      · have := hu '}' rfl
        cases this
      · have := hu ',' rfl
        cases this
      · rfl
    simpa [upper?] using hnone
  · rw [List.cons_append]
    unfold upper?
    split
    · simp_all
    · rename_i hcons
      obtain ⟨rfl, rfl⟩ := List.cons.inj hcons
      obtain ⟨r, hskip, hskips⟩ := (ht.skips (.inert (by decide) (.refl t))).exists_skipBlank
      simp only [hskip, hskips u hu, decimal?_append hu]
      cases decimal? r <;> simp
    · split
      · simp_all
      · simp_all
      · rfl

theorem bounds?_append (ht : Sealed sw t) (hu : Closed u) :
    bounds? sw (t ++ u) = (bounds? sw t).map fun x => (x.1, x.2.1, x.2.2 ++ u) := by
  obtain ⟨r₁, hskip₁, hskips₁⟩ := ht.exists_skipBlank
  have ht₁ := ht.skips (.blank hskip₁ (.refl r₁))
  simp only [bounds?, hskip₁, hskips₁ u hu, lower?_append hu]
  cases hlo : lower? r₁ with
  | none => rfl
  | some x =>
    have ht₂ := ht₁.skips (passes_of_lower? hlo).skips
    obtain ⟨r₂, hskip₂, hskips₂⟩ := ht₂.exists_skipBlank
    have ht₃ := ht₂.skips (.blank hskip₂ (.refl r₂))
    simp only [Option.map_some, hskip₂, hskips₂ u hu, upper?_append ht₃ hu]
    cases hup : upper? sw x.1 r₂ with
    | none => rfl
    | some y =>
      obtain ⟨r₃, hskip₃, hskips₃⟩ := (ht₃.skips (skips_of_upper? hup)).exists_skipBlank
      simp only [Option.map_some, hskip₃, hskips₃ u hu]
      cases r₃ with
      | nil =>
        cases u with
        | nil => rfl
        | cons c u =>
          obtain rfl := hu c rfl
          rfl
      | cons c r₃ =>
        by_cases hc : c = '}'
        · subst hc
          rfl
        · simp [hc]

theorem count?_append (ht : Sealed sw t) (hu : Closed u) :
    count? sw (t ++ u) = (count? sw t).map fun x => (x.1, x.2.1, x.2.2 ++ u) := by
  rcases t with _ | ⟨c, t⟩
  · rw [List.nil_append]
    unfold count?
    split
    all_goals first
      | rfl
      | (have hc := hu _ rfl; simp at hc)
  · rw [List.cons_append]
    unfold count?
    split
    case h_4 =>
      rename_i hcons
      obtain ⟨rfl, rfl⟩ := List.cons.inj hcons
      exact bounds?_append (ht.skips (.inert (by decide) (.refl t))) hu
    case h_5 => split <;> simp_all
    all_goals
      rename_i hcons
      obtain ⟨rfl, rfl⟩ := List.cons.inj hcons
      rfl

theorem takeChar_append {c : Char} (hc : c ≠ ')') (hu : Closed u) :
    takeChar c (t ++ u) = ((takeChar c t).1, (takeChar c t).2 ++ u) := by
  rcases t with _ | ⟨d, t⟩
  · rcases u with _ | ⟨d, u⟩
    · rfl
    · obtain rfl := hu d rfl
      simp [takeChar, Ne.symm hc]
  · simp only [List.cons_append, takeChar]
    split <;> rfl

theorem quantified_append {p : Piece} (ht : Sealed sw t) (hu : Closed u) :
    quantified sw p (t ++ u) = (quantified sw p t).map fun x => (x.1, x.2 ++ u) := by
  obtain ⟨r₁, hskip₁, hskips₁⟩ := ht.exists_skipBlank
  have ht₁ := ht.skips (.blank hskip₁ (.refl r₁))
  simp only [quantified, hskip₁, hskips₁ u hu, count?_append ht₁ hu]
  cases hc : count? sw r₁ with
  | none => rfl
  | some x =>
    obtain ⟨r₂, hskip₂, hskips₂⟩ := (ht₁.skips (skips_of_count? hc)).exists_skipBlank
    simp only [Option.map_some, hskip₂, hskips₂ u hu, takeChar_append (c := '?') (by decide) hu,
      takeChar_append (c := '+') (by decide) hu]
    split
    · rfl
    · split <;> rfl

/-- What is left does not depend on the piece. -/
theorem quantified_rest {p p' q q' : Piece} {r' : Text} (h : quantified sw p t = .ok (q, r))
    (h' : quantified sw p' t = .ok (q', r')) : r' = r := by
  unfold quantified at h h'
  split at h
  · cases h
  · rename_i t₁ hskip
    simp only [hskip] at h'
    split at h
    · rename_i hc
      simp only [hc] at h'
      cases h
      cases h'
      rfl
    · rename_i lo hi t₂ hc
      simp only [hc] at h'
      split at h
      · cases h
      split at h'
      · cases h'
      split at h
      · cases h
      rename_i hrange
      rw [if_neg hrange] at h'
      split at h
      · cases h
      · rename_i hskip'
        simp only [hskip'] at h'
        cases h
        cases h'
        rfl

/-! ### references -/

namespace Reference

variable {x : Reference}

theorem settles_named {close : Char} (h : named close t = .ok (x, r)) :
    Settles (named close) t x r := by
  unfold named at h
  split at h
  · rename_i t
    split at h
    · rename_i hd
      split at h
      · rename_i hsign
        cases h
        refine ⟨(List.suffix_cons _ _).trans ((suffix_of_decimal? hd).trans (List.suffix_cons _ _)),
          fun u hu => ?_⟩
        simp only [named, List.cons_append, decimal?_append hu, hd, Option.map_some, if_pos hsign]
      · cases h
    · cases h
  · rename_i hminus
    split at h
    · rename_i hname
      cases h
      obtain ⟨hr, hall⟩ := settles_groupName? hname
      refine ⟨hr, fun u hu => ?_⟩
      unfold named
      split
      · rename_i t' hcons
        cases t with
        | nil => cases hname
        | cons c t =>
          cases hcons
          exact absurd rfl (hminus t)
      · rw [hall u hu]
    · cases h

theorem settles_asked? (h : asked? t = .ok (some (x, r))) :
    r <:+ t ∧ ∀ u, Closed u → asked? (t ++ u) = .ok (some (x, r ++ u)) := by
  unfold asked? at h
  split at h
  · cases h
  · obtain ⟨y, hn, heq⟩ := exists_of_map_eq_ok h
    cases heq
    obtain ⟨hr, hall⟩ := settles_named hn
    exact ⟨hr.trans (List.suffix_cons _ _), fun u hu => by
      simp only [asked?, List.cons_append, hall u hu]
      rfl⟩
  · obtain ⟨y, hn, heq⟩ := exists_of_map_eq_ok h
    cases heq
    obtain ⟨hr, hall⟩ := settles_named hn
    exact ⟨hr.trans (List.suffix_cons _ _), fun u hu => by
      simp only [asked?, List.cons_append, hall u hu]
      rfl⟩
  · rename_i c t hangle hquote
    split at h
    · rename_i hdigit
      split at h
      · rename_i hd
        cases h
        refine ⟨suffix_of_decimal? hd, fun u hu => ?_⟩
        rw [List.cons_append]
        unfold asked?
        split
        · simp_all
        · simp_all
        · simp_all
        · rename_i hcons
          cases hcons
          rw [if_pos hdigit, ← List.cons_append, decimal?_append hu, hd]
          rfl
      · cases h
    · cases h

/-- Where a condition is no reference, it is none whatever follows. -/
theorem asked?_append (h : asked? t = .ok none) (u : Text) : asked? (t ++ u) = .ok none := by
  unfold asked? at h
  split at h
  · cases h
  · obtain ⟨_, -, heq⟩ := exists_of_map_eq_ok h
    cases heq
  · obtain ⟨_, -, heq⟩ := exists_of_map_eq_ok h
    cases heq
  · rename_i c t hangle hquote
    split at h
    · split at h <;> cases h
    · rename_i hdigit
      rw [List.cons_append]
      unfold asked?
      split <;> simp_all

end Reference

/-! ### escapes -/

namespace Escape

variable {e : Escape} {c : Char}

theorem settles_hex {count : Nat} (hcount : 0 < count) (h : hex sw count t = .ok (e, r)) :
    Settles (hex sw count) t e r := by
  have hbrace : ∀ x : Text, (if (('{' :: x).take count).length = count then Hex.number?
        (('{' :: x).take count) else none) = none := by
    intro x
    obtain ⟨n, rfl⟩ := Nat.exists_eq_add_of_le' hcount
    simp [Hex.number?, show Hex.value? '{' = none by decide]
  unfold hex at h
  split at h
  · rename_i n hn
    obtain ⟨e', he', heq⟩ := exists_of_map_eq_ok h
    cases heq
    have hlen : count ≤ t.length := by
      by_contra hlt
      rw [if_neg (by simp; omega)] at hn
      cases hn
    refine ⟨List.drop_suffix _ _, fun u _ => ?_⟩
    simp only [hex, List.take_append_of_le_length hlen, List.drop_append_of_le_length hlen, hn, he']
    rfl
  · split at h
    · rename_i rest hnone
      simp only at h
      split at h
      · rename_i after hd
        split at h
        · cases h
        rename_i hdigits
        obtain ⟨e', he', heq⟩ := exists_of_map_eq_ok h
        cases heq
        have hsuffix := hd ▸ List.dropWhile_suffix (l := rest) fun c => (Hex.value? c).isSome
        refine ⟨((List.suffix_cons _ _).trans hsuffix).trans (List.suffix_cons _ _), fun u _ => ?_⟩
        obtain ⟨htake, hdrop⟩ := stretch_append hd u
        simp only [hex, List.cons_append, hbrace, htake, hdrop, if_neg hdigits, he']
        rfl
      · cases h
    · cases h

theorem settles_property {negated : Bool} (h : property sw negated t = .ok (e, r)) :
    Settles (property sw negated) t e r := by
  unfold property at h
  simp only at h
  split at h
  · cases h
  · rename_i rest
    split at h
    · rename_i d after hd
      have hsuffix := hd ▸ List.dropWhile_suffix (l := rest) (· ≠ '}')
      cases hs : CharSet.named? (rest.takeWhile (· ≠ '}')) with
      | none =>
        rw [hs] at h
        cases h
      | some s =>
        rw [hs] at h
        simp only [Except.ok.injEq, Prod.mk.injEq] at h
        obtain ⟨rfl, rfl⟩ := h
        refine ⟨((List.suffix_cons _ _).trans hsuffix).trans (List.suffix_cons _ _), fun u _ => ?_⟩
        obtain ⟨htake, hdrop⟩ := stretch_append hd u
        rw [List.cons_append, property, hdrop]
        simp only [htake, hs]
    · cases h
  · rename_i d after hne
    cases hs : CharSet.named? [d] with
    | none =>
      rw [hs] at h
      cases h
    | some s =>
      rw [hs] at h
      simp only [Except.ok.injEq, Prod.mk.injEq] at h
      obtain ⟨rfl, rfl⟩ := h
      refine ⟨List.suffix_cons _ _, fun u hu => ?_⟩
      unfold property
      simp only [List.cons_append]
      rw [hs]

theorem settles_outside {found : Option (Escape × Text)} (h : outside c t = .ok found) :
    (∀ u, Closed u → outside c (t ++ u) = .ok (found.map fun x => (x.1, x.2 ++ u))) ∧
    ∀ x ∈ found, x.2 <:+ t := by
  have hhead : ∀ {d : Char} {u x : Text}, d ≠ ')' → Closed u → u ≠ d :: x := by
    rintro d u x hd hu rfl
    exact hd (hu d rfl)
  unfold outside at h
  split at h
  case h_1 | h_2 =>
    obtain ⟨y, hn, heq⟩ := exists_of_map_eq_ok h
    cases heq
    obtain ⟨hr, hall⟩ := Reference.settles_named hn
    refine ⟨fun u hu => ?_, ?_⟩
    · simp only [List.cons_append, outside, hall u hu]
      rfl
    · rintro x ⟨⟩
      exact hr.trans (List.suffix_cons _ _)
  case h_3 | h_6 | h_8 => cases h
  case h_4 | h_5 | h_10 | h_11 | h_12 | h_13 =>
    cases h
    exact ⟨fun u _ => rfl, by rintro x ⟨⟩; exact List.suffix_refl _⟩
  case h_7 | h_9 =>
    rename_i hne
    cases h
    refine ⟨fun u hu => ?_, by rintro x ⟨⟩; exact List.suffix_refl _⟩
    have hbrace : ∀ x, t ++ u ≠ '{' :: x := by
      intro x hx
      cases t with
      | nil => exact hhead (by decide) hu hx
      | cons d t =>
        simp only [List.cons_append, List.cons.injEq] at hx
        exact hne t (by rw [hx.1])
    unfold outside
    split <;> simp_all
  case h_14 =>
    cases h
    refine ⟨fun u _ => ?_, by simp⟩
    unfold outside
    split <;> simp_all

/-- An escape stands for the same whatever follows. -/
theorem settles_read {inClass : Bool} (h : read sw inClass c t = .ok (e, r)) :
    Settles (read sw inClass c) t e r := by
  unfold read at h
  split at h
  · rename_i hdigit
    split at h
    · rename_i n after hn
      cases h
      have hlen := length_of_decimal? hn
      have hsuffix : r <:+ t :=
        (List.suffix_cons_iff.1 (suffix_of_decimal? hn)).resolve_left fun h => by simp [h] at hlen
      refine ⟨hsuffix, fun u hu => ?_⟩
      unfold read
      rw [if_pos hdigit, ← List.cons_append, decimal?_append hu, hn]
      rfl
    · cases h
  · rename_i hdigit
    have houtside : ∀ {found}, (if inClass then .ok none else outside c t) = .ok found →
        (∀ u, Closed u → (if inClass then .ok none else outside c (t ++ u)) =
          (.ok (found.map fun x => (x.1, x.2 ++ u)) : Except Fault (Option (Escape × Text)))) ∧
          ∀ x ∈ found, x.2 <:+ t := by
      intro found hfound
      cases inClass with
      | true =>
        cases hfound
        exact ⟨fun u _ => rfl, by simp⟩
      | false => exact settles_outside hfound
    split at h
    · cases h
    · rename_i found hfound
      cases h
      obtain ⟨hread, hsuffix⟩ := houtside hfound
      refine ⟨hsuffix _ rfl, fun u hu => ?_⟩
      unfold read
      rw [if_neg hdigit, hread u hu]
      rfl
    · rename_i hfound
      obtain ⟨hread, -⟩ := houtside hfound
      unfold Settles read
      split at h
      case h_9 | h_10 | h_11 =>
        obtain ⟨hr, hhex⟩ := settles_hex (by decide) h
        refine ⟨hr, fun u hu => ?_⟩
        rw [if_neg hdigit, hread u hu]
        exact hhex u hu
      case h_12 | h_13 =>
        obtain ⟨hr, hproperty⟩ := settles_property h
        refine ⟨hr, fun u hu => ?_⟩
        rw [if_neg hdigit, hread u hu]
        exact hproperty u hu
      case h_22 =>
        split at h
        · cases h
        · rename_i hplain
          cases h
          refine ⟨List.suffix_refl _, fun u hu => ?_⟩
          rw [if_neg hdigit, hread u hu]
          simp_all
      all_goals
        cases h
        refine ⟨List.suffix_refl _, fun u hu => ?_⟩
        rw [if_neg hdigit, hread u hu]
        rfl

end Escape

/-! ### classes -/

namespace Bracket

variable {ts : List Token} {s : CharSet}

theorem settles_scanFrom {depth : Nat} (h : scanFrom sw depth t = .ok (ts, r)) :
    Settles (scanFrom sw depth) t ts r := by
  fun_induction scanFrom sw depth t generalizing ts r with
  | case1 => cases h
  | case2 => cases h
  | case3 => cases h
  | case4 depth c rest d i after hread _ ih =>
    obtain ⟨hr, hread⟩ := Escape.settles_read hread
    refine settles_of_map (.quoted d :: ·) h ih
      (hr.trans ((List.suffix_cons _ _).trans (List.suffix_cons _ _))) fun u hu => ?_
    replace hread := hread u hu
    rw [List.cons_append, List.cons_append, scanFrom]
    split <;> simp_all
  | case5 depth c rest s after hread _ ih =>
    obtain ⟨hr, hread⟩ := Escape.settles_read hread
    refine settles_of_map (.set s :: ·) h ih
      (hr.trans ((List.suffix_cons _ _).trans (List.suffix_cons _ _))) fun u hu => ?_
    replace hread := hread u hu
    rw [List.cons_append, List.cons_append, scanFrom]
    split <;> simp_all
  | case6 => cases h
  | case7 depth rest ih =>
    refine settles_of_map (.raw '[' :: ·) h ih (List.suffix_cons _ _) fun u _ => ?_
    rw [List.cons_append, scanFrom]
  | case8 rest =>
    cases h
    refine ⟨List.suffix_cons _ _, fun u hu => ?_⟩
    rw [List.cons_append, scanFrom]
  | case9 rest depth ih =>
    refine settles_of_map (.raw ']' :: ·) h ih (List.suffix_cons _ _) fun u _ => ?_
    rw [List.cons_append, scanFrom]
  | case10 depth c rest h₁ h₂ h₃ h₄ ih =>
    have hc : c ≠ '\\' := by
      intro hc
      cases rest with
      | nil => exact h₁ hc rfl
      | cons d rest => exact h₂ d rest hc rfl
    refine settles_of_map (.raw c :: ·) h ih (List.suffix_cons _ _) fun u _ => ?_
    rw [List.cons_append, scanFrom]
    · exact fun h => absurd h hc
    · exact fun _ _ h => absurd h hc
    · exact h₃
    · exact h₄

theorem takeRaw_append {c : Char} (hc : c ≠ ')') (hu : Closed u) :
    takeRaw c (t ++ u) = ((takeRaw c t).1, (takeRaw c t).2 ++ u) := by
  rcases t with _ | ⟨d, t⟩
  · rcases u with _ | ⟨d, u⟩
    · rfl
    · obtain rfl := hu d rfl
      simp [takeRaw, Ne.symm hc]
  · simp only [List.cons_append, takeRaw]
    split <;> rfl

theorem takeRaw_suffix (c : Char) (t : Text) : (takeRaw c t).2 <:+ t := by
  unfold takeRaw
  split
  · exact List.suffix_refl _
  · split
    · exact List.suffix_cons _ _
    · exact List.suffix_refl _

theorem scan_eq (sw : Switches) (t : Text) :
    scan sw t =
      (scanFrom sw 0 (takeRaw ']' (takeRaw '^' t).2).2).map fun x => ((takeRaw '^' t).1 ++
          (takeRaw ']' (takeRaw '^' t).2).1 ++ x.1, x.2) :=
  rfl

theorem settles_scan (h : scan sw t = .ok (ts, r)) : Settles (scan sw) t ts r := by
  rw [scan_eq] at h
  refine settles_of_map ((takeRaw '^' t).1 ++ (takeRaw ']' (takeRaw '^' t).2).1 ++ ·) h
    settles_scanFrom ((takeRaw_suffix _ _).trans (takeRaw_suffix _ _)) fun u hu => ?_
  rw [scan_eq]
  simp only [takeRaw_append (c := '^') (by decide) hu, takeRaw_append (c := ']') (by decide) hu]

theorem settles_read (h : read sw t = .ok (s, r)) : Settles (read sw) t s r := by
  unfold read at h
  split at h
  · cases h
  · rename_i ts after hscan
    obtain ⟨s', hs, heq⟩ := exists_of_map_eq_ok h
    cases heq
    obtain ⟨hr, hscan⟩ := settles_scan hscan
    refine ⟨hr, fun u hu => ?_⟩
    simp only [read, hscan u hu, hs]
    rfl

end Bracket

/-! ### switches -/

theorem settles_switchesFrom {sw' : Switches} {off opens : Bool} {c : Char}
    (h : Draft.switchesFrom sw off c t = .ok (sw', opens, r)) :
    r <:+ t ∧ ∀ u, Draft.switchesFrom sw off c (t ++ u) = .ok (sw', opens, r ++ u) := by
  induction t generalizing sw off c with
  | nil => cases h
  | cons d t ih =>
    have hlater : ∀ {sw off c}, Draft.switchesFrom sw off c t = .ok (sw', opens, r) →
        r <:+ d :: t ∧ ∀ u, Draft.switchesFrom sw off c (t ++ u) = .ok (sw', opens, r ++ u) :=
      fun h => ⟨(ih h).1.trans (List.suffix_cons _ _), (ih h).2⟩
    simp only [List.cons_append]
    unfold Draft.switchesFrom at h ⊢
    split at h
    · rename_i hblank
      simp only [if_pos hblank]
      exact hlater h
    · rename_i hblank
      simp only [if_neg hblank]
      split at h
      all_goals first
        | exact hlater h
        | (split at h
           all_goals first
             | (cases h; done)
             | (rename_i hoff; simp only [if_neg hoff]; first | exact hlater h |
                 (cases h; exact ⟨List.suffix_cons _ _, fun _ => rfl⟩)))
        | cases h

end PathTemplate.Expression
