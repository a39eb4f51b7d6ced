import PathTemplate.Proofs.Expression.Cut
import PathTemplate.Proofs.Expression.Split
import PathTemplate.Proofs.Matcher

/-!
# Splitting at a separator

A text is split where its separators are found from the left.  What is split is joined again with
the separator; what has been joined is split again if the separator is one character, which cannot
overlap anything.

* `IsSplit` — pieces in which no separator begins; `IsSplit.unique` — a text has them in one way
  at most;
* `Expression.joins_of_splitFrom`, `Expression.isSplit_of_splitFrom` — what is split has such
  pieces, and is joined from them;
* `Expression.exists_splitFrom` — a text is always split, unless the expression is hard;
* `Matcher.split_separator` — what the separator of a parameter splits, for all texts and all
  pieces.
-/

namespace PathTemplate

/-- Pieces between the separators that are found from the left: no separator begins in a piece, not
even one that ends after it. -/
def IsSplit (s : Text) : List Text → Prop
  | [] => False
  | [t] => Avoids false s t []
  | t :: t' :: ts => Avoids false s t (s ++ List.intercalate s (t' :: ts)) ∧ IsSplit s (t' :: ts)

instance IsSplit.decidable (s : Text) : (ts : List Text) → Decidable (IsSplit s ts)
  | [] => inferInstanceAs (Decidable False)
  | [t] => inferInstanceAs (Decidable (Avoids false s t []))
  | t :: t' :: ts =>
    have := IsSplit.decidable s (t' :: ts)
    inferInstanceAs (Decidable (Avoids false s t (s ++ List.intercalate s (t' :: ts)) ∧
      IsSplit s (t' :: ts)))

section

variable {s t rest : Text} {ts ts' : List Text}

/-! ### pieces -/

theorem IsSplit.ne_nil (h : IsSplit s ts) : ts ≠ [] := by
  rintro rfl
  exact h

theorem Avoids.not_within (hs : s ≠ []) (h : Avoids false s t rest) : ¬s <:+: t := by
  rintro ⟨a, b, rfl⟩
  exact h a (s ++ b) (List.append_assoc ..) (by simp [hs]) (begins_false_iff.2 ⟨b ++ rest, by simp⟩)

theorem IsSplit.not_within (hs : s ≠ []) (h : IsSplit s ts) : ∀ t ∈ ts, ¬s <:+: t := by
  induction ts with
  | nil => exact h.elim
  | cons t ts ih =>
    cases ts with
    | nil => exact List.forall_mem_singleton.2 (Avoids.not_within hs h)
    | cons t' ts => exact List.forall_mem_cons.2 ⟨h.1.not_within hs, ih h.2⟩

theorem IsSplit.unique (hs : s ≠ []) (h : IsSplit s ts) (h' : IsSplit s ts')
    (heq : List.intercalate s ts = List.intercalate s ts') : ts = ts' := by
  induction ts generalizing ts' with
  | nil => exact h.elim
  | cons t ts ih =>
    obtain ⟨t', ts', rfl⟩ := List.exists_cons_of_ne_nil h'.ne_nil
    match ts, ts' with
    | [], [] => simpa using heq
    | [], u' :: ts' =>
      -- there is a separator in the other text, and none in this one
      simp only [List.intercalate_singleton, List.intercalate_cons_cons] at heq
      exact absurd ⟨t', _, heq.symm⟩ (Avoids.not_within hs h)
    | u :: ts, [] =>
      simp only [List.intercalate_singleton, List.intercalate_cons_cons] at heq
      exact absurd ⟨t, _, heq⟩ (Avoids.not_within hs h')
    | u :: ts, u' :: ts' =>
      simp only [List.intercalate_cons_cons, List.append_assoc] at heq
      have hbegins : ∀ x, Begins false s (s ++ x) :=
        fun x => begins_false_iff.2 (List.prefix_append s x)
      have hle : t.length ≤ t'.length := Unmarked.length_le h.1 heq (hbegins _)
      have hge : t'.length ≤ t.length := Unmarked.length_le h'.1 heq.symm (hbegins _)
      obtain ⟨rfl, hrest⟩ := List.append_inj heq (Nat.le_antisymm hle hge)
      rw [ih h.2 h'.2 (List.append_cancel_left hrest)]

/-- Pieces without a separator of one character are split, whatever they are joined to. -/
theorem isSplit_of_length_eq_one (hs : s.length = 1) (hne : ts ≠ []) (h : ∀ t ∈ ts, ¬s <:+: t) :
    IsSplit s ts := by
  have havoids : ∀ {t rest : Text}, ¬s <:+: t → Avoids false s t rest := by
    rintro t rest ht a b rfl hb hbegins
    have hpos := List.length_pos_iff.2 hb
    exact ht ((begins_false_iff.1 (hbegins.of_append (by omega))).isInfix.trans
        (List.suffix_append a b).isInfix)
  induction ts with
  | nil => exact hne rfl
  | cons t ts ih =>
    obtain ⟨ht, hts⟩ := List.forall_mem_cons.1 h
    cases ts with
    | nil => exact havoids ht
    | cons t' ts => exact ⟨havoids ht, ih (by simp) hts⟩

end

/-! ### splitting -/

section

variable {e : Expression} {c : Cursor} {m : Match} {n : Nat} {s : Text} {ts : List Text}

theorem Leftmost.text (hm : e.root.Matches = Sense.text false s) (h : Leftmost e.root c m) :
    ∃ v, c.Takes v m.start ∧ m.start.Takes s m.finish.pos ∧
      Avoids false s v (s ++ m.finish.pos.after) := by
  obtain ⟨v, hv⟩ := h.takes
  obtain ⟨w, hw⟩ := h.reaches
  rw [hm, Sense.text_iff] at hw
  obtain ⟨-, x, hx, htakes⟩ := hw
  obtain rfl := alike_false_iff.1 hx
  refine ⟨v, hv, htakes, ?_⟩
  rintro a b rfl hb hbegins
  rw [← htakes.after] at hbegins
  obtain ⟨p, hp, hpm⟩ := Cursor.takes_append_iff.1 hv
  obtain ⟨y, hy⟩ := begins_false_iff.1 hbegins
  obtain ⟨q, hq, -⟩ := Cursor.exists_takes (hpm.after.trans hy.symm)
  have hpos := List.length_pos_iff.2 hb
  have hleft := hpm.left
  exact h.first a p hp (by omega) q
    ⟨[], by rw [hm]; exact Sense.text_iff.2 ⟨rfl, x, .refl false x, hq⟩⟩

theorem NoMatch.avoids (hm : e.root.Matches = Sense.text false s) (h : NoMatch e.root c) :
    Avoids false s c.after [] := by
  intro a b hab _ hbegins
  rw [List.append_nil] at hbegins
  obtain ⟨p, hp, hb⟩ := Cursor.exists_takes hab
  obtain ⟨y, rfl⟩ := begins_false_iff.1 hbegins
  obtain ⟨q, hq, -⟩ := Cursor.exists_takes hb
  exact h a p hp q ⟨[], by rw [hm]; exact Sense.text_iff.2 ⟨rfl, s, .refl false s, hq⟩⟩

namespace Expression

theorem joins_of_splitFrom (hr : e.root.isRegular = true) (hm : e.root.Matches = Sense.text false s)
    (h : e.splitFrom n c = .found ts) : ts ≠ [] ∧ List.intercalate s ts = c.after := by
  induction n generalizing c ts with
  | zero =>
    cases h
    simp
  | succ n ih =>
    unfold splitFrom at h
    cases hsearch : e.search c with
    | gaveUp => simp [hsearch] at h
    | none =>
      simp only [hsearch, Verdict.found.injEq] at h
      subst h
      simp
    | found m =>
      obtain ⟨v, hv, hsep, -⟩ := ((search_spec hr c).1 m hsearch).text hm
      simp only [hsearch] at h
      split at h
      · rename_i ts' hts'
        simp only [Verdict.found.injEq] at h
        subst h
        obtain ⟨hne, hjoin⟩ := ih hts'
        obtain ⟨t', ts', rfl⟩ := List.exists_cons_of_ne_nil hne
        refine ⟨by simp, ?_⟩
        rw [List.intercalate_cons_cons, hjoin, Span.text_eq hv, hv.after, hsep.after,
          List.append_assoc]
      · rename_i hne
        exact absurd h (hne ts)

/-- The pieces are those that are found from the left, if as many matches are looked for as there
are characters. -/
theorem isSplit_of_splitFrom (hr : e.root.isRegular = true)
    (hm : e.root.Matches = Sense.text false s) (hs : s ≠ []) (hn : c.after.length ≤ n)
    (h : e.splitFrom n c = .found ts) : IsSplit s ts := by
  induction n generalizing c ts with
  | zero =>
    cases h
    rw [List.length_eq_zero_iff.1 (Nat.le_zero.1 hn)]
    exact avoids_nil
  | succ n ih =>
    unfold splitFrom at h
    cases hsearch : e.search c with
    | gaveUp => simp [hsearch] at h
    | none =>
      simp only [hsearch, Verdict.found.injEq] at h
      subst h
      exact ((search_spec hr c).2 hsearch).avoids hm
    | found m =>
      obtain ⟨v, hv, hsep, havoids⟩ := ((search_spec hr c).1 m hsearch).text hm
      simp only [hsearch] at h
      split at h
      · rename_i ts' hts'
        simp only [Verdict.found.injEq] at h
        subst h
        obtain ⟨hne, hjoin⟩ := joins_of_splitFrom hr hm hts'
        have hrest : m.finish.pos.after.length ≤ n := by
          have hlen := congrArg List.length (hv.after.trans (congrArg _ hsep.after))
          have hpos := List.length_pos_iff.2 hs
          simp only [List.length_append] at hlen
          omega
        obtain ⟨t', ts', rfl⟩ := List.exists_cons_of_ne_nil hne
        rw [Span.text_eq hv]
        exact ⟨by rwa [hjoin], ih hrest hts'⟩
      · rename_i hne
        exact absurd h (hne ts)

/-- A text is always split, unless the expression is hard. -/
theorem exists_splitFrom (h : e.isHard = false) (n : Nat) (c : Cursor) :
    ∃ ts, e.splitFrom n c = .found ts := by
  induction n generalizing c with
  | zero => exact ⟨_, rfl⟩
  | succ n ih =>
    unfold splitFrom
    cases hsearch : e.search c with
    | gaveUp => exact absurd hsearch (search_ne_gaveUp_of_isHard_eq_false h c)
    | none => exact ⟨_, rfl⟩
    | found m =>
      obtain ⟨ts, hts⟩ := ih m.finish.pos
      exact ⟨Span.text ⟨c, m.start⟩ :: ts, by simp only [hts]⟩

/-- What is split has its pieces in the one way that there is. -/
theorem split_eq_found_iff (hr : e.root.isRegular = true) (hm : e.root.Matches = Sense.text false s)
    (hsoft : e.isHard = false) (hs : s ≠ []) {t : Text} :
    e.split t = .found ts ↔ IsSplit s ts ∧ List.intercalate s ts = t := by
  have hfound : ∀ {ts}, e.split t = .found ts → IsSplit s ts ∧ List.intercalate s ts = t := fun h =>
    ⟨isSplit_of_splitFrom (c := .start t) hr hm hs (Nat.le_refl _) h,
    (joins_of_splitFrom hr hm h).2⟩
  refine ⟨hfound, fun ⟨hsplit, hjoin⟩ => ?_⟩
  obtain ⟨ts', hts'⟩ := exists_splitFrom hsoft t.length (.start t)
  obtain ⟨hsplit', hjoin'⟩ := hfound hts'
  rw [hsplit.unique hs hsplit' (hjoin.trans hjoin'.symm)]
  exact hts'

end Expression

end

/-! ### separators -/

namespace Matcher

variable {flags : Flags} {l : Expression.Literal} {p : Param}

/-- Where delimiters are not loose, the expression of a separator is that of its characters, so it
is not hard. -/
theorem isHard_separator (hflags : flags.sensitive = true) (hloose : l.loose = false)
    {e : Expression} (he : separator flags l p = .ok (some e)) : e.isHard = false := by
  obtain ⟨ps, hps, hchars, -⟩ := Expression.exists_reads_quote false p.between
  have hquiet : Expression.isQuiet (Expression.quote p.between) = true := by
    simpa using @Expression.isQuiet_quote p.between [] rfl
  have hread := (hps Expression.maxDepth 0).read hquiet
  have hsource : l.source p.between = Expression.quote p.between := by
    simp [Expression.Literal.source, hloose]
  simp only [separator, hsource, @Expression.inlineSwitch_eq false flags hflags, hread] at he
  split at he
  · cases he
  · cases he
    exact Expression.isHard_branchOf_of_chars [] hchars

/-- Where case counts and delimiters are not loose, a text is split into the pieces between the
separators that are found from the left: the separator is in none of them, and joins them again. If
it is one character, then pieces without it are split where they have been joined. -/
theorem split_separator (hflags : flags.sensitive = true) (hloose : l.loose = false)
    (hr : p.isRepeating = true) (hs : p.between ≠ []) :
    ∃ e, separator flags l p = .ok (some e) ∧
      (∀ t, ∃ ts, e.split t = .found ts ∧ List.intercalate p.between ts = t ∧
        ∀ x ∈ ts, ¬p.between <:+: x) ∧
      (∀ t ts, e.split t = .found ts ↔ IsSplit p.between ts ∧ List.intercalate p.between ts = t) ∧
      (p.between.length = 1 →
        ∀ ts, ts ≠ [] → (∀ x ∈ ts, ¬p.between <:+: x) →
          e.split (List.intercalate p.between ts) = .found ts) := by
  obtain ⟨e, he, hregular, hm⟩ := @separator_eq flags false hflags l p hr
  rw [Expression.Literal.sense, hloose] at hm
  have hsplit : ∀ t ts, e.split t = .found ts ↔ IsSplit p.between ts ∧
      List.intercalate p.between ts = t := fun t ts =>
    Expression.split_eq_found_iff hregular hm (isHard_separator hflags hloose he) hs
  refine ⟨e, he, fun t => ?_, hsplit,
    fun hone ts hne hts => (hsplit _ _).2 ⟨isSplit_of_length_eq_one hone hne hts, rfl⟩⟩
  obtain ⟨ts, hts⟩ := Expression.exists_splitFrom (isHard_separator hflags hloose he) t.length
    (.start t)
  obtain ⟨hpieces, hjoin⟩ := (hsplit t ts).1 hts
  exact ⟨ts, hts, hjoin, hpieces.not_within hs⟩

/-- Pieces joined with `aa` are split elsewhere if they overlap it, unlike pieces joined with
`-`. -/
theorem split_separator_overlap : ∃ e e',
    separator { sensitive := true } ⟨['/'], false⟩
      { name := ['x'], modifier := some .oneOrMore, separator := some ['a', 'a'] } = .ok (some e) ∧
    e.split (List.intercalate ['a', 'a'] [['a'], []]) = .found [[], ['a']] ∧
    separator { sensitive := true } ⟨['/'], false⟩
      { name := ['x'], modifier := some .zeroOrMore, separator := some ['-'] } = .ok (some e') ∧
    e'.split (List.intercalate ['-'] [['a'], [], ['b']]) = .found [['a'], [], ['b']] := by
  obtain ⟨e, he, -, hsplit, -⟩ := @split_separator { sensitive := true } ⟨['/'], false⟩
    { name := ['x'], modifier := some .oneOrMore, separator := some ['a', 'a'] } rfl rfl rfl
    (by decide)
  obtain ⟨e', he', -, -, hpieces⟩ := @split_separator { sensitive := true } ⟨['/'], false⟩
    { name := ['x'], modifier := some .zeroOrMore, separator := some ['-'] } rfl rfl rfl (by decide)
  exact ⟨e, e', he, (hsplit _ _).2 ⟨by decide, rfl⟩, he', hpieces rfl _ (by simp) (by decide)⟩

end Matcher

end PathTemplate
