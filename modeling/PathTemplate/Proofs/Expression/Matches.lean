import PathTemplate.Expression.Ways
import Mathlib

/-!
# What an expression matches

The meaning of expressions without any order of search.

* `Cursor.Takes` — a place is reached from another one over a text;
* `Iterates` — a number of rounds of a relation between places, with the captures made on the way;
* `Node.Matches` — an expression matches between two places with some captures, latest first;
  atomic groups and references back have no meaning of this kind, and `isRegular` is true of
  expressions without them;
* `Node.Matches.takes`, `Node.Matches.width` — a match leads on over a text, of fixed length if
  the width is fixed;
* `Node.MatchesAll`, `Node.seqAll_matches` — sequences of many pieces.
-/

namespace PathTemplate

/-! ### places -/

/-- The place `q` is reached from `p` over the text `v`. -/
structure Cursor.Takes (p : Cursor) (v : Text) (q : Cursor) : Prop where
  after : p.after = v ++ q.after
  before : q.before = v.reverse ++ p.before

namespace Cursor

variable {p q r : Cursor} {u v : Text}

theorem Takes.refl (p : Cursor) : p.Takes [] p := ⟨rfl, rfl⟩

theorem Takes.trans (h₁ : p.Takes u q) (h₂ : q.Takes v r) : p.Takes (u ++ v) r :=
  ⟨by rw [h₁.after, h₂.after, List.append_assoc], by
    rw [h₂.before, h₁.before, List.reverse_append, List.append_assoc]⟩

theorem Takes.left (h : p.Takes v q) : p.left = v.length + q.left := by
  simp [Cursor.left, h.after]

theorem Takes.subject (h : p.Takes v q) : q.subject = p.subject := by
  simp [Cursor.subject, h.after, h.before]

theorem takes_nil_iff : p.Takes [] q ↔ q = p := by
  constructor
  · intro h
    obtain ⟨b, a⟩ := q
    obtain ⟨b', a'⟩ := p
    have h₁ := h.after
    have h₂ := h.before
    simp_all
  · rintro rfl
    exact .refl q

theorem eq_of_left (hs : p.subject = q.subject) (hl : p.left = q.left) : p = q := by
  obtain ⟨b, a⟩ := p
  obtain ⟨b', a'⟩ := q
  simp only [subject, left] at hs hl
  obtain ⟨h₁, h₂⟩ := List.append_inj' hs hl
  simp_all

theorem Takes.eq_of_left (h : p.Takes v q) (hl : q.left = p.left) : q = p :=
  Cursor.eq_of_left h.subject hl

theorem Takes.unique (h : p.Takes v q) (h' : p.Takes v r) : q = r :=
  Cursor.eq_of_left (h.subject.trans h'.subject.symm) (by have := h.left; have := h'.left; omega)

theorem takes_cons_iff {c : Char} :
    p.Takes (c :: v) q ↔ ∃ a, p.after = c :: a ∧ (Cursor.mk (c :: p.before) a).Takes v q := by
  constructor
  · intro h
    exact ⟨_, h.after, rfl, by simpa using h.before⟩
  · rintro ⟨a, ha, h⟩
    exact ⟨by simpa [ha] using h.after, by simpa using h.before⟩

theorem takes_append_iff : p.Takes (u ++ v) r ↔ ∃ q, p.Takes u q ∧ q.Takes v r := by
  constructor
  · intro h
    refine ⟨⟨u.reverse ++ p.before, v ++ r.after⟩, ⟨by rw [h.after]; simp, rfl⟩, ⟨rfl, ?_⟩⟩
    rw [h.before]
    simp
  · rintro ⟨q, h₁, h₂⟩
    exact h₁.trans h₂

theorem exists_takes (h : p.after = u ++ v) : ∃ q, p.Takes u q ∧ q.after = v :=
  ⟨⟨u.reverse ++ p.before, v⟩, ⟨h, rfl⟩, rfl⟩

end Cursor

theorem Span.text_eq {p q : Cursor} {v : Text} (h : p.Takes v q) : Span.text ⟨p, q⟩ = v := by
  have hlen : q.offset - p.offset = v.length := by simp [Cursor.offset, h.before]
  simp [Span.text, hlen, h.after]

/-- Captures, the latest one first; a group without one can be noted as well. -/
abbrev Captures := List (Nat × Option Span)

/-- The capture of a group. -/
def Captures.get? (w : Captures) (i : Nat) : Option Span := (w.lookup i).join

/-! ### rounds -/

/-- `n` rounds of `R` lead from `p` to `q`. -/
def Iterates (R : Cursor → Cursor → Captures → Prop) : Nat → Cursor → Cursor → Captures → Prop
  | 0, p, q, w => q = p ∧ w = []
  | n + 1, p, q, w => ∃ r u v, R p r u ∧ Iterates R n r q v ∧ w = v ++ u

section

variable {R : Cursor → Cursor → Captures → Prop} {m n : Nat} {p q r : Cursor} {u v w : Captures}

theorem Iterates.zero (p : Cursor) : Iterates R 0 p p [] := ⟨rfl, rfl⟩

theorem Iterates.one (h : R p q w) : Iterates R 1 p q w := ⟨q, w, [], h, .zero q, by simp⟩

theorem Iterates.add (h₁ : Iterates R m p q u) (h₂ : Iterates R n q r v) :
    Iterates R (m + n) p r (v ++ u) := by
  induction m generalizing p u with
  | zero =>
    obtain ⟨rfl, rfl⟩ := h₁
    simpa using h₂
  | succ m ih =>
    obtain ⟨q', u', u'', h, h₁, rfl⟩ := h₁
    rw [Nat.succ_add]
    exact ⟨q', u', v ++ u'', h, ih h₁, by simp⟩

theorem iterates_add_iff :
    Iterates R (m + n) p r w ↔ ∃ q u v, Iterates R m p q u ∧ Iterates R n q r v ∧ w = v ++ u := by
  constructor
  · induction m generalizing p w with
    | zero =>
      intro h
      exact ⟨p, [], w, .zero p, by simpa using h, by simp⟩
    | succ m ih =>
      intro h
      rw [Nat.succ_add] at h
      obtain ⟨q', u', v', h, h', rfl⟩ := h
      obtain ⟨q, u, v, h₁, h₂, rfl⟩ := ih h'
      exact ⟨q, u ++ u', v, ⟨q', u', u, h, h₁, rfl⟩, h₂, by simp⟩
  · rintro ⟨q, u, v, h₁, h₂, rfl⟩
    exact h₁.add h₂

/-- Each round leads on over a text. -/
def Advances (R : Cursor → Cursor → Captures → Prop) : Prop := ∀ p q w, R p q w → ∃ v, p.Takes v q

theorem Iterates.takes (hR : Advances R) (h : Iterates R n p q w) : ∃ v, p.Takes v q := by
  induction n generalizing p w with
  | zero =>
    obtain ⟨rfl, -⟩ := h
    exact ⟨[], .refl q⟩
  | succ n ih =>
    obtain ⟨r, u, v, h, h', -⟩ := h
    obtain ⟨x, hx⟩ := hR _ _ _ h
    obtain ⟨y, hy⟩ := ih h'
    exact ⟨x ++ y, hx.trans hy⟩

/-- A round that takes a character. -/
def Progress (R : Cursor → Cursor → Captures → Prop) : Cursor → Cursor → Captures → Prop :=
  fun p q w => R p q w ∧ q.left < p.left

/-- Rounds that take nothing can be left out. -/
theorem Iterates.progress (hR : Advances R) (h : Iterates R n p q w) :
    ∃ m ≤ n, ∃ u, Iterates (Progress R) m p q u := by
  induction n generalizing p w with
  | zero => exact ⟨0, Nat.le_refl 0, w, h⟩
  | succ n ih =>
    obtain ⟨r, u, v, h, h', rfl⟩ := h
    obtain ⟨m, hm, v', hv⟩ := ih h'
    obtain ⟨x, hx⟩ := hR _ _ _ h
    by_cases hl : r.left < p.left
    · exact ⟨m + 1, by omega, v' ++ u, r, u, v', ⟨h, hl⟩, hv, rfl⟩
    · obtain rfl := hx.eq_of_left (by have := hx.left; omega)
      exact ⟨m, by omega, v', hv⟩

end

/-! ### matching -/

/-- Where a lookaround starts. -/
def Direction.start? (d : Direction) (p : Cursor) : Option Cursor :=
  match d with
  | .ahead => some p
  | .behind k => p.back? k

namespace Node

/-- The expression matches between two places, with these captures. -/
def Matches : Node → Cursor → Cursor → Captures → Prop
  | empty, p, q, w => q = p ∧ w = []
  | char c ignoreCase, p, q, w => ∃ d, matchesChar c ignoreCase d = true ∧ p.Takes [d] q ∧ w = []
  | oneOf s, p, q, w => ∃ d, s.has d = true ∧ p.Takes [d] q ∧ w = []
  | assertion a, p, q, w => a.holds p = true ∧ q = p ∧ w = []
  | seq a b, p, q, w => ∃ r u v, a.Matches p r u ∧ b.Matches r q v ∧ w = v ++ u
  | alt a b, p, q, w => a.Matches p q w ∨ b.Matches p q w
  | group i a, p, q, w => ∃ u, a.Matches p q u ∧ w = (i, some ⟨p, q⟩) :: u
  | loop a lo hi _, p, q, w => ∃ n, (∀ h ∈ hi, n ≤ h - lo) ∧ Iterates a.Matches (lo + n) p q w
  | look d true a, p, q, w => q = p ∧ ∃ o, d.start? p = some o ∧ ∃ r, a.Matches o r w
  | look d false a, p, q, w => q = p ∧ w = [] ∧ ∀ o, d.start? p = some o → ∀ r u, ¬a.Matches o r u
  | unit a, p, q, w => ∃ u : Captures, a.Matches p q u ∧ w = a.groups.map fun i => (i, u.get? i)
  | atomic _, _, _, _ | backref _ _, _, _, _ | present _ _, _, _, _ | choice _ _ _, _, _, _
  | keep, _, _, _ => False

/-- The expression has no atomic group, no reference back and no conditional, it says nowhere where
it starts, and no piece is marked. No group has the number of the whole match. -/
def isRegular : Node → Bool
  | empty | char _ _ | oneOf _ | assertion _ => true
  | seq a b | alt a b => a.isRegular && b.isRegular
  | group i a => i ≠ 0 && a.isRegular
  | loop a _ _ _ | look _ _ a => a.isRegular
  | atomic _ | backref _ _ | present _ _ | choice _ _ _ | keep | unit _ => false

/-- The expression is regular and has no lookaround. -/
def isPlain : Node → Bool
  | empty | char _ _ | oneOf _ | assertion _ => true
  | seq a b | alt a b => a.isPlain && b.isPlain
  | group _ a | loop a _ _ _ => a.isPlain
  | look _ _ _ | atomic _ | backref _ _ | present _ _ | choice _ _ _ | keep | unit _ => false

theorem isPlain_of_isHard_eq_false {refs : List Nat} {n : Node} (hr : n.isRegular = true)
    (hh : n.isHard refs = false) : n.isPlain = true := by
  induction n with
  | seq a b iha ihb | alt a b iha ihb =>
    simp only [isRegular, isHard, isPlain, Bool.and_eq_true, Bool.or_eq_false_iff] at *
    exact ⟨iha hr.1 hh.1, ihb hr.2 hh.2⟩
  | group i a ih =>
    simp only [isRegular, isHard, isPlain, Bool.or_eq_false_iff, Bool.and_eq_true] at *
    exact ih hr.2 hh.2
  | loop a lo hi greedy ih => exact ih hr hh
  | look d positive a ih => cases hh
  | empty | char c i | oneOf s | assertion a => rfl
  | _ => cases hr

theorem zero_notMem_groups {n : Node} (hr : n.isRegular = true) : 0 ∉ n.groups := by
  induction n with
  | seq a b iha ihb | alt a b iha ihb =>
    simp only [isRegular, Bool.and_eq_true] at hr
    simp [groups, iha hr.1, ihb hr.2]
  | group i a ih =>
    simp only [isRegular, Bool.and_eq_true, decide_eq_true_eq] at hr
    simp [groups, hr.1.symm, ih hr.2]
  | loop a lo hi greedy ih | look d positive a ih => exact ih hr
  | empty | char c i | oneOf s | assertion a => simp [groups]
  | _ => cases hr

variable {n : Node} {p q : Cursor} {w : Captures}

theorem Matches.takes (h : n.Matches p q w) : ∃ v, p.Takes v q := by
  induction n generalizing p q w with
  | empty =>
    obtain ⟨rfl, -⟩ := h
    exact ⟨[], .refl q⟩
  | char c i =>
    obtain ⟨d, -, h, -⟩ := h
    exact ⟨[d], h⟩
  | oneOf s =>
    obtain ⟨d, -, h, -⟩ := h
    exact ⟨[d], h⟩
  | assertion a =>
    obtain ⟨-, rfl, -⟩ := h
    exact ⟨[], .refl q⟩
  | seq a b iha ihb =>
    obtain ⟨r, u, v, h₁, h₂, -⟩ := h
    obtain ⟨x, hx⟩ := iha h₁
    obtain ⟨y, hy⟩ := ihb h₂
    exact ⟨x ++ y, hx.trans hy⟩
  | alt a b iha ihb => exact h.elim iha ihb
  | group i a ih =>
    obtain ⟨u, h, -⟩ := h
    exact ih h
  | loop a lo hi greedy ih =>
    obtain ⟨n, -, h⟩ := h
    exact h.takes fun p q w => ih
  | look d positive a ih =>
    have hq : q = p := by cases positive <;> exact h.1
    exact ⟨[], hq ▸ .refl q⟩
  | unit a ih =>
    obtain ⟨u, h, -⟩ := h
    exact ih h
  | _ => exact h.elim

theorem advances_matches (n : Node) : Advances n.Matches := fun _ _ _ => Matches.takes

theorem left_of_iterates {R : Cursor → Cursor → Captures → Prop} {k m : Nat}
    (hR : ∀ p q w, R p q w → p.left = k + q.left) (h : Iterates R m p q w) :
    p.left = m * k + q.left := by
  induction m generalizing p w with
  | zero =>
    obtain ⟨rfl, -⟩ := h
    omega
  | succ m ih =>
    obtain ⟨r, u, v, h, h', -⟩ := h
    rw [hR _ _ _ h, ih h', Nat.succ_mul]
    omega

theorem Matches.width {k : Nat} (h : n.Matches p q w) (hk : n.width? = some k) :
    p.left = k + q.left := by
  induction n generalizing p q w k with
  | empty | assertion a =>
    cases hk
    first
      | obtain ⟨rfl, -⟩ := h
      | obtain ⟨-, rfl, -⟩ := h
    omega
  | char c i | oneOf s =>
    cases hk
    obtain ⟨d, -, h, -⟩ := h
    exact h.left
  | seq a b iha ihb =>
    simp only [width?, Option.bind_eq_bind, Option.bind_eq_some_iff, Option.some.injEq] at hk
    obtain ⟨i, hi, j, hj, rfl⟩ := hk
    obtain ⟨r, u, v, h₁, h₂, -⟩ := h
    have := iha h₁ hi
    have := ihb h₂ hj
    omega
  | alt a b iha ihb =>
    simp only [width?, Option.bind_eq_bind, Option.bind_eq_some_iff] at hk
    obtain ⟨i, hi, j, hj, hk⟩ := hk
    split at hk
    · rename_i hij
      cases hk
      exact h.elim (iha · hi) (ihb · (hij ▸ hj))
    · cases hk
  | group i a ih | unit a ih =>
    obtain ⟨u, h, -⟩ := h
    exact ih h hk
  | loop a lo hi greedy ih =>
    obtain ⟨m, hm, h⟩ := h
    unfold width? at hk
    split at hk
    · rename_i hhi
      obtain ⟨i, hi, rfl⟩ := Option.map_eq_some_iff.1 hk
      have : m = 0 := by
        have := hm lo (by rw [hhi]; rfl)
        omega
      subst this
      exact left_of_iterates (fun p q w h => ih h hi) h
    · cases hk
  | look d positive a ih =>
    cases hk
    have hq : q = p := by cases positive <;> exact h.1
    rw [hq]
    omega
  | _ => exact h.elim

/-! ### many pieces -/

/-- The pieces match one after the other. -/
def MatchesAll : List Node → Cursor → Cursor → Captures → Prop
  | [], p, q, w => q = p ∧ w = []
  | n :: ns, p, q, w => ∃ r u v, n.Matches p r u ∧ MatchesAll ns r q v ∧ w = v ++ u

theorem seqAll_matches (ns : List Node) : (seqAll ns).Matches p q w ↔ MatchesAll ns p q w := by
  have hone : ∀ {n : Node} {p q : Cursor} {w : Captures}, (seq n empty).Matches p q w ↔
      n.Matches p q w := by
    intro n p q w
    constructor
    · rintro ⟨r, u, v, h, ⟨rfl, rfl⟩, rfl⟩
      exact h
    · intro h
      exact ⟨q, w, [], h, ⟨rfl, rfl⟩, rfl⟩
  have hall : ∀ {n : Node} {p q : Cursor} {w : Captures}, MatchesAll [n] p q w ↔ n.Matches p q w :=
    hone
  fun_induction seqAll ns generalizing p q w with
  | case1 => rfl
  | case2 a b => exact hone.trans hall.symm
  | case3 a _ => exact hall.symm
  | case4 a rest _ _ ih =>
    constructor
    · rintro ⟨r, u, v, h, h', rfl⟩
      exact ⟨r, u, v, h, ih.1 h', rfl⟩
    · rintro ⟨r, u, v, h, h', rfl⟩
      exact ⟨r, u, v, h, ih.2 h', rfl⟩

theorem matchesAll_append_iff {ms ns : List Node} :
    MatchesAll (ms ++ ns) p q w ↔
    ∃ r u v, MatchesAll ms p r u ∧ MatchesAll ns r q v ∧ w = v ++ u := by
  induction ms generalizing p w with
  | nil =>
    constructor
    · intro h
      exact ⟨p, [], w, ⟨rfl, rfl⟩, h, by simp⟩
    · rintro ⟨r, u, v, ⟨rfl, rfl⟩, h, rfl⟩
      simpa using h
  | cons n ms ih =>
    constructor
    · rintro ⟨r, u, v, h, h', rfl⟩
      obtain ⟨r', u', v', h₁, h₂, rfl⟩ := ih.1 h'
      exact ⟨r', u' ++ u, v', ⟨r, u, u', h, h₁, rfl⟩, h₂, by simp⟩
    · rintro ⟨r', u', v', ⟨r, u, u'', h, h₁, rfl⟩, h₂, rfl⟩
      exact ⟨r, u, v' ++ u'', h, ih.2 ⟨r', u'', v', h₁, h₂, rfl⟩, by simp⟩

theorem matchesAll_singleton_iff {n : Node} : MatchesAll [n] p q w ↔ n.Matches p q w :=
  ⟨fun ⟨_, _, _, h, ⟨h₁, h₂⟩, h₃⟩ => by subst h₁ h₂ h₃; exact h, fun h =>
  ⟨q, w, [], h, ⟨rfl, rfl⟩, rfl⟩⟩

end Node

end PathTemplate
