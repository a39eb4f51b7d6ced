import PathTemplate.Proofs.Expression.Attempt

/-!
# Arranging an expression keeps its matches

* `Node.Arranges` — what arranging may do: mark plain pieces, of fixed width where every match may
  be needed;
* `Node.arrange_arranges` — that is what it does to a regular expression;
* `Node.Arranges.reaches_iff` — the places of matches stay the same;
* `Node.isLinear`, `Node.Arranges.captures` — where no group can capture twice, the captures stay
  the same, too.
-/

namespace PathTemplate

namespace Node

/-- `n'` is `n` with some plain pieces marked.  In front of something that may need every match, as
`exact` says, a marked piece is of fixed width. -/
inductive Arranges : (exact : Bool) → Node → Node → Prop where
  | empty {e} : Arranges e empty empty
  | char {e} (c : Char) (i : Bool) : Arranges e (char c i) (char c i)
  | oneOf {e} (s : CharSet) : Arranges e (oneOf s) (oneOf s)
  | assertion {e} (a : Assertion) : Arranges e (assertion a) (assertion a)
  | mark {e n} (hp : n.isPlain = true) (hw : e = true → n.width?.isSome = true) :
      Arranges e n (unit n)
  | seq {e a a' b b'} (ha : Arranges true a a') (hb : Arranges e b b') :
      Arranges e (seq a b) (seq a' b')
  | alt {e a a' b b'} (ha : Arranges e a a') (hb : Arranges e b b') : Arranges e (alt a b)
      (alt a' b')
  | group {e a a'} (i : Nat) (ha : Arranges e a a') : Arranges e (group i a) (group i a')
  | loop {e a a'} (lo : Nat) (hi : Option Nat) (greedy : Bool)
      (ha : Arranges (e || !(decide (lo = 0) && decide (hi = some 1))) a a') :
      Arranges e (loop a lo hi greedy) (loop a' lo hi greedy)
  | look {e a a'} (d : Direction) (positive : Bool) (ha : Arranges false a a') :
      Arranges e (look d positive a) (look d positive a')

variable {refs : List Nat} {n n' : Node} {e : Bool} {p q : Cursor} {w : Captures}

/-! ### what arranging does -/

/-- Where every match may be needed, less is marked. -/
theorem Arranges.weaken (h : Arranges e n n') {e' : Bool} (he : e' = true → e = true) :
    Arranges e' n n' := by
  induction h generalizing e' with
  | empty => exact .empty
  | char c i => exact .char c i
  | oneOf s => exact .oneOf s
  | assertion a => exact .assertion a
  | mark hp hw => exact .mark hp fun h => hw (he h)
  | seq ha hb iha ihb => exact .seq ha (ihb he)
  | alt ha hb iha ihb => exact .alt (iha he) (ihb he)
  | group i ha ih => exact .group i (ih he)
  | loop lo hi greedy ha ih =>
    refine .loop lo hi greedy (ih fun h => ?_)
    simp only [Bool.or_eq_true] at h ⊢
    exact h.imp_left he
  | look d positive ha ih => exact .look d positive ha

theorem arranges_asUnit (hp : n.isPlain = true) (hw : e = true → n.width?.isSome = true) :
    Arranges e n n.asUnit := by
  cases n with
  | empty => exact .empty
  | char c i => exact .char c i
  | oneOf s => exact .oneOf s
  | assertion a => exact .assertion a
  | _ => exact .mark hp hw

theorem arranges_asUnit_of_isSettled (hr : n.isRegular = true) (h : n.isSettled refs = true) :
    Arranges e n n.asUnit := by
  simp only [isSettled, Bool.and_eq_true, Bool.not_eq_true'] at h
  exact arranges_asUnit (isPlain_of_isHard_eq_false hr h.1) fun _ => h.2

theorem isSettled_left {a b : Node} (h : (seq a b).isSettled refs = true) :
    a.isSettled refs = true := by
  simp only [isSettled, isHard, width?, Bool.and_eq_true, Bool.not_eq_true', Bool.or_eq_false_iff,
    Option.bind_eq_bind] at h ⊢
  refine ⟨h.1.1, ?_⟩
  cases ha : a.width? with
  | none => simp [ha] at h
  | some k => rfl

/-- A piece that is no sequence is marked, or arranged within. -/
theorem arranges_of_ite (hr : n.isRegular = true) (all : Bool) (spot : Spot)
    (h : Arranges all n n') :
    Arranges all n (if (decide (spot ≠ .whole) && n.isSettled refs) || (!all && !n.isHard refs)
        then n.asUnit else n') := by
  split
  · rename_i hc
    simp only [Bool.or_eq_true, Bool.and_eq_true, Bool.not_eq_true'] at hc
    rcases hc with ⟨-, hs⟩ | ⟨ha, hh⟩
    · exact arranges_asUnit_of_isSettled hr hs
    · exact arranges_asUnit (isPlain_of_isHard_eq_false hr hh) fun h => by simp [h] at ha
  · exact h

/-- A regular expression is arranged by marking plain pieces. -/
theorem arrange_arranges (hr : n.isRegular = true) (all : Bool) (spot : Spot) :
    Arranges all n (n.arrange refs all spot) := by
  have hor : ∀ {x c : Bool}, x = true → (x || c) = true := fun h => by rw [h, Bool.true_or]
  induction n generalizing all spot with
  | seq a b iha ihb =>
    have hr' := hr
    simp only [isRegular, Bool.and_eq_true] at hr'
    have hmark : (!(seq a b).isHard refs) = true → (!all) = true →
        Arranges all (seq a b) (unit (seq a b)) := by
      intro hh ha
      have hh' : (seq a b).isHard refs = false := by simpa using hh
      refine .mark (isPlain_of_isHard_eq_false hr hh') fun h => ?_
      simp [h] at ha
    unfold arrange
    split
    · rename_i h
      simp only [Bool.and_eq_true] at h
      exact hmark h.2 h.1.2
    split
    · rename_i h
      simp only [Bool.and_eq_true] at h
      exact .seq (arranges_asUnit_of_isSettled hr'.1 h.2) (ihb hr'.2 _ _)
    split
    · rename_i h
      simp only [Bool.and_eq_true] at h
      exact hmark h.2 h.1
    split
    · rename_i h
      simp only [Bool.and_eq_true] at h
      exact .seq (arranges_asUnit_of_isSettled hr'.1 (isSettled_left h.2)) (ihb hr'.2 _ _)
    · exact .seq (iha hr'.1 _ _) (ihb hr'.2 _ _)
  | empty => exact arranges_of_ite hr all spot .empty
  | char c i => exact arranges_of_ite hr all spot (.char c i)
  | oneOf s => exact arranges_of_ite hr all spot (.oneOf s)
  | assertion a => exact arranges_of_ite hr all spot (.assertion a)
  | alt a b iha ihb =>
    refine arranges_of_ite hr all spot ?_
    simp only [isRegular, Bool.and_eq_true] at hr
    exact .weaken (.alt (iha hr.1 _ _) (ihb hr.2 _ _)) hor
  | group i a ih =>
    refine arranges_of_ite hr all spot ?_
    simp only [isRegular, Bool.and_eq_true] at hr
    exact .weaken (.group i (ih hr.2 _ _)) hor
  | loop a lo hi greedy ih =>
    refine arranges_of_ite hr all spot (.loop lo hi greedy (.weaken (ih hr _ _) fun h => ?_))
    simp only [Bool.or_eq_true, Bool.not_eq_true', Bool.and_eq_false_iff, decide_eq_false_iff_not,
      decide_eq_true_eq, not_and_or] at h ⊢
    tauto
  | look d positive a ih => exact arranges_of_ite hr all spot (.look d positive (ih hr _ _))
  | _ => cases hr

theorem Arranges.isArranged (h : Arranges e n n') : n'.isArranged e = true := by
  induction h with
  | mark hp hw =>
    rename_i e n
    cases e <;> simp_all [Node.isArranged]
  | seq ha hb iha ihb | alt ha hb iha ihb => simp [Node.isArranged, iha, ihb]
  | group i ha ih | loop lo hi greedy ha ih | look d positive ha ih => exact ih
  | _ => rfl

/-! ### the places of matches -/

/-- The expression matches between two places. -/
def Reaches (n : Node) (p q : Cursor) : Prop := ∃ w, n.Matches p q w

theorem iterates_congr {R S : Cursor → Cursor → Captures → Prop}
    (h : ∀ p q, (∃ w, R p q w) ↔ ∃ w, S p q w) (k : Nat) :
    (∃ w, Iterates R k p q w) ↔ ∃ w, Iterates S k p q w := by
  have mono : ∀ {R S : Cursor → Cursor → Captures → Prop}, (∀ p q w, R p q w → ∃ w', S p q w') →
      ∀ {k p q w}, Iterates R k p q w → ∃ w', Iterates S k p q w' := by
    intro R S hRS k p q w h
    induction k generalizing p w with
    | zero => exact ⟨w, h⟩
    | succ k ih =>
      obtain ⟨r, u, v, hu, hv, -⟩ := h
      obtain ⟨u', hu'⟩ := hRS _ _ _ hu
      obtain ⟨v', hv'⟩ := ih hv
      exact ⟨v' ++ u', r, u', v', hu', hv', rfl⟩
  exact ⟨fun ⟨w, hw⟩ => mono (fun p q w hw => (h p q).1 ⟨w, hw⟩) hw,
    fun ⟨w, hw⟩ => mono (fun p q w hw => (h p q).2 ⟨w, hw⟩) hw⟩

theorem reaches_seq {a b : Node} : (seq a b).Reaches p q ↔ ∃ r, a.Reaches p r ∧ b.Reaches r q :=
  ⟨fun ⟨_, r, u, v, hu, hv, _⟩ => ⟨r, ⟨u, hu⟩, v, hv⟩, fun ⟨r, ⟨u, hu⟩, v, hv⟩ =>
  ⟨v ++ u, r, u, v, hu, hv, rfl⟩⟩

theorem reaches_alt {a b : Node} : (alt a b).Reaches p q ↔ a.Reaches p q ∨ b.Reaches p q :=
  exists_or

theorem reaches_group {i : Nat} {a : Node} : (group i a).Reaches p q ↔ a.Reaches p q :=
  ⟨fun ⟨_, u, hu, _⟩ => ⟨u, hu⟩, fun ⟨u, hu⟩ => ⟨_, u, hu, rfl⟩⟩

theorem reaches_unit {a : Node} : (unit a).Reaches p q ↔ a.Reaches p q :=
  ⟨fun ⟨_, u, hu, _⟩ => ⟨u, hu⟩, fun ⟨u, hu⟩ => ⟨_, u, hu, rfl⟩⟩

theorem reaches_loop {a : Node} {lo : Nat} {hi : Option Nat} {greedy : Bool} :
    (loop a lo hi greedy).Reaches p q ↔
    ∃ n, (∀ h ∈ hi, n ≤ h - lo) ∧ ∃ w, Iterates a.Matches (lo + n) p q w :=
  ⟨fun ⟨w, n, hn, h⟩ => ⟨n, hn, w, h⟩, fun ⟨n, hn, w, h⟩ => ⟨w, n, hn, h⟩⟩

theorem reaches_look {d : Direction} {positive : Bool} {a : Node} :
    (look d positive a).Reaches p q ↔
      q = p ∧ if positive then ∃ o, d.start? p = some o ∧ ∃ r, a.Reaches o r
        else ∀ o, d.start? p = some o → ∀ r, ¬a.Reaches o r := by
  cases positive with
  | true =>
    constructor
    · rintro ⟨w, rfl, o, ho, r, hr⟩
      exact ⟨rfl, o, ho, r, w, hr⟩
    · rintro ⟨rfl, o, ho, r, w, hr⟩
      exact ⟨w, rfl, o, ho, r, hr⟩
  | false =>
    constructor
    · rintro ⟨w, rfl, -, h⟩
      exact ⟨rfl, fun o ho r ⟨u, hu⟩ => h o ho r u hu⟩
    · rintro ⟨rfl, h⟩
      exact ⟨[], rfl, rfl, fun o ho r u hu => h o ho r ⟨u, hu⟩⟩

theorem Arranges.reaches_iff (h : Arranges e n n') (p q : Cursor) :
    n'.Reaches p q ↔ n.Reaches p q := by
  induction h generalizing p q with
  | mark hp hw => exact reaches_unit
  | seq ha hb iha ihb => simp only [reaches_seq, iha, ihb]
  | alt ha hb iha ihb => simp only [reaches_alt, iha, ihb]
  | group i ha ih => simp only [reaches_group, ih]
  | loop lo hi greedy ha ih =>
    simp only [reaches_loop]
    exact exists_congr fun k => and_congr_right fun _ => iterates_congr ih _
  | look d positive ha ih => simp only [reaches_look, ih]
  | _ => rfl

/-! ### the captures of matches -/

/-- No group of the expression can capture twice. -/
def isLinear : Node → Bool
  | empty | char _ _ | oneOf _ | assertion _ => true
  | seq a b => a.isLinear && b.isLinear && a.groups.all fun i => !b.groups.contains i
  | alt a b => a.isLinear && b.isLinear
  | group _ a | look _ _ a => a.isLinear
  | loop a lo hi _ => a.isLinear && (a.groups.isEmpty || decide (lo ≤ 1) && decide (hi = some 1))
  | atomic _ | backref _ _ | present _ _ | choice _ _ _ | keep | unit _ => false

theorem Arranges.groups_eq (h : Arranges e n n') : n'.groups = n.groups := by
  induction h with
  | seq ha hb iha ihb | alt ha hb iha ihb => simp only [groups, iha, ihb]
  | group i ha ih | loop lo hi greedy ha ih | look d positive ha ih => simp only [groups, ih]
  | _ => rfl

theorem lookup_iterates {R : Cursor → Cursor → Captures → Prop} {i k : Nat}
    (hR : ∀ p q w, R p q w → w.lookup i = none) (h : Iterates R k p q w) : w.lookup i = none := by
  induction k generalizing p w with
  | zero => rw [h.2]; rfl
  | succ k ih =>
    obtain ⟨r, u, v, hu, hv, rfl⟩ := h
    rw [List.lookup_append, ih hv, hR _ _ _ hu]
    rfl

theorem lookup_map_some (gs : List Nat) (f : Nat → Option Span) (i : Nat) :
    (gs.map fun j => (j, f j)).lookup i = if i ∈ gs then some (f i) else none := by
  induction gs with
  | nil => rfl
  | cons j gs ih =>
    by_cases h : i = j
    · subst h
      simp
    · have hb : (i == j) = false := by simpa using h
      simp [List.lookup_cons, hb, ih, h]

/-- Only the groups of an expression capture in it. -/
theorem Matches.lookup_eq_none (h : n.Matches p q w) {i : Nat} (hi : i ∉ n.groups) :
    w.lookup i = none := by
  induction n generalizing p q w with
  | empty => rw [h.2]; rfl
  | char c b | oneOf s =>
    obtain ⟨-, -, -, rfl⟩ := h
    rfl
  | assertion a => rw [h.2.2]; rfl
  | seq a b iha ihb =>
    simp only [groups, List.mem_append, not_or] at hi
    obtain ⟨r, u, v, hu, hv, rfl⟩ := h
    rw [List.lookup_append, ihb hv hi.2, iha hu hi.1]
    rfl
  | alt a b iha ihb =>
    simp only [groups, List.mem_append, not_or] at hi
    exact h.elim (iha · hi.1) (ihb · hi.2)
  | group j a ih =>
    simp only [groups, List.mem_cons, not_or] at hi
    obtain ⟨u, hu, rfl⟩ := h
    have hb : (i == j) = false := by simpa using hi.1
    rw [List.lookup_cons, hb]
    exact ih hu hi.2
  | loop a lo hi' greedy ih =>
    obtain ⟨k, -, h⟩ := h
    exact lookup_iterates (fun p q w h => ih h hi) h
  | look d positive a ih =>
    cases positive with
    | true =>
      obtain ⟨-, o, -, r, h⟩ := h
      exact ih h hi
    | false => rw [h.2.1]; rfl
  | unit a ih =>
    obtain ⟨u, -, rfl⟩ := h
    rw [lookup_map_some]
    exact if_neg hi
  | _ => exact h.elim

theorem get?_append_left {u v : Captures} {i : Nat} (h : u.lookup i = none) :
    Captures.get? (v ++ u) i = v.get? i := by
  unfold Captures.get?
  rw [List.lookup_append, h, Option.or_none]

theorem get?_append_right {u v : Captures} {i : Nat} (h : v.lookup i = none) :
    Captures.get? (v ++ u) i = u.get? i := by
  unfold Captures.get?
  rw [List.lookup_append, h, Option.none_or]

/-- A loop keeps its captures if its rounds do, as no group captures in them or there is one of them
at most. -/
theorem Arranges.captures_loop {a a' : Node} {lo : Nat} {hi : Option Nat} {greedy : Bool}
    (ha : Arranges e a a') (hl : (Node.loop a lo hi greedy).isLinear = true)
    (hround : ∀ {p q w}, a'.Matches p q w →
      ∃ w', a.Matches p q w' ∧ ∀ i, Captures.get? w i = Captures.get? w' i)
    (hm : (Node.loop a' lo hi greedy).Matches p q w) :
    ∃ w', (Node.loop a lo hi greedy).Matches p q w' ∧ ∀ i, w.get? i = Captures.get? w' i := by
  simp only [isLinear, Bool.and_eq_true, Bool.or_eq_true, List.isEmpty_iff,
    decide_eq_true_eq] at hl
  obtain ⟨k, hk, hm⟩ := hm
  rcases hl.2 with hnil | ⟨hlo, rfl⟩
  · obtain ⟨u, hu⟩ := (iterates_congr (fun p q => ha.reaches_iff p q) (lo + k)).1 ⟨w, hm⟩
    refine ⟨u, ⟨k, hk, hu⟩, fun i => ?_⟩
    unfold Captures.get?
    rw [lookup_iterates (fun p q w h => h.lookup_eq_none (by simp [ha.groups_eq, hnil])) hm,
      lookup_iterates (fun p q w h => h.lookup_eq_none (by simp [hnil])) hu]
  · have hone : lo + k = 0 ∨ lo + k = 1 := by
      have := hk 1 rfl
      omega
    rcases hone with h | h
    · rw [h] at hm
      exact ⟨w, ⟨k, hk, h ▸ hm⟩, fun _ => rfl⟩
    · rw [h] at hm
      obtain ⟨r, u', v', hu', ⟨rfl, rfl⟩, rfl⟩ := hm
      obtain ⟨u, hu, hc⟩ := hround hu'
      exact ⟨u, ⟨k, hk, h ▸ .one hu⟩, fun i => by simpa using hc i⟩

/-- Arranging keeps the captures of matches where no group can capture twice. -/
theorem Arranges.captures (h : Arranges e n n') (hl : n.isLinear = true) (hm : n'.Matches p q w) :
    ∃ w', n.Matches p q w' ∧ ∀ i, w.get? i = Captures.get? w' i := by
  induction h generalizing p q w with
  | empty | char c i | oneOf s | assertion a => exact ⟨w, hm, fun _ => rfl⟩
  | mark hp hw =>
    rename_i e n
    obtain ⟨u, hu, rfl⟩ := hm
    refine ⟨u, hu, fun i => ?_⟩
    unfold Captures.get?
    rw [lookup_map_some]
    split
    · rfl
    · rename_i hi
      rw [hu.lookup_eq_none hi]
  | seq ha hb iha ihb =>
    simp only [isLinear, Bool.and_eq_true, List.all_eq_true, Bool.not_eq_true',
      List.contains_eq_mem, decide_eq_false_iff_not] at hl
    obtain ⟨⟨hla, hlb⟩, hdisjoint⟩ := hl
    obtain ⟨r, u', v', hu', hv', rfl⟩ := hm
    obtain ⟨u, hu, hcu⟩ := iha hla hu'
    obtain ⟨v, hv, hcv⟩ := ihb hlb hv'
    refine ⟨v ++ u, ⟨r, u, v, hu, hv, rfl⟩, fun i => ?_⟩
    rename_i e a a' b b'
    by_cases hi : i ∈ a.groups
    · have hib := hdisjoint i hi
      rw [get?_append_right (hv'.lookup_eq_none (by rwa [hb.groups_eq])),
        get?_append_right (hv.lookup_eq_none hib), hcu]
    · rw [get?_append_left (hu'.lookup_eq_none (by rwa [ha.groups_eq])),
        get?_append_left (hu.lookup_eq_none hi), hcv]
  | alt ha hb iha ihb =>
    simp only [isLinear, Bool.and_eq_true] at hl
    rcases hm with hm | hm
    · obtain ⟨u, hu, hc⟩ := iha hl.1 hm
      exact ⟨u, .inl hu, hc⟩
    · obtain ⟨u, hu, hc⟩ := ihb hl.2 hm
      exact ⟨u, .inr hu, hc⟩
  | group i ha ih =>
    obtain ⟨u', hu', rfl⟩ := hm
    obtain ⟨u, hu, hc⟩ := ih hl hu'
    refine ⟨_, ⟨u, hu, rfl⟩, fun j => ?_⟩
    unfold Captures.get? at hc ⊢
    rw [List.lookup_cons, List.lookup_cons]
    split
    · rfl
    · exact hc j
  | loop lo hi greedy ha ih =>
    have hla := hl
    simp only [isLinear, Bool.and_eq_true] at hla
    exact captures_loop ha hl (fun hm => ih hla.1 hm) hm
  | look d positive ha ih =>
    cases positive with
    | true =>
      obtain ⟨rfl, o, ho, r, hm⟩ := hm
      obtain ⟨u, hu, hc⟩ := ih hl hm
      exact ⟨u, ⟨rfl, o, ho, r, hu⟩, hc⟩
    | false =>
      obtain ⟨rfl, rfl, h⟩ := hm
      exact ⟨[], ⟨rfl, rfl, fun o ho r u hu => ((ha.reaches_iff o r).2 ⟨u, hu⟩).elim (h o ho r)⟩,
        fun _ => rfl⟩

end Node

end PathTemplate
