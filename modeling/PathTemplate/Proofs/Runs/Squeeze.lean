import PathTemplate.Proofs.Expression.Matches
import Mathlib

/-!
# Runs of delimiters

Two texts that differ only in how long runs of delimiters are, and places in them that are beside
each other.

* `squeeze` — a text with one delimiter for every run of them;
* `Cursor.IsApart` — a place that is not within a run;
* `Level` — two places that are beside each other, with the same before them and after them but
  for runs;
* `Level.left_lt_iff`, `Level.eq_of_level` — places beside each other come in the same order, and
  each has one at most;
* `Level.step`, `Level.pastRun` — so it goes on over a character, and over a run.
-/

namespace PathTemplate

/-- The text with one delimiter for every run of them. -/
def squeeze (D : Char) : Text → Text
  | [] => []
  | c :: t => if c = D ∧ t.head? = some D then squeeze D t else c :: squeeze D t

section

variable {D c : Char} {s t : Text}

@[simp] theorem squeeze_nil (D : Char) : squeeze D [] = [] := rfl

theorem squeeze_cons_ne (hc : c ≠ D) (t : Text) : squeeze D (c :: t) = c :: squeeze D t := by
  rw [squeeze, if_neg fun h => hc h.1]

@[simp] theorem head?_squeeze (D : Char) (t : Text) : (squeeze D t).head? = t.head? := by
  induction t with
  | nil => rfl
  | cons c t ih =>
    rw [squeeze]
    split
    · rename_i h
      rw [ih, h.2, h.1]
      rfl
    · rfl

@[simp] theorem squeeze_eq_nil_iff : squeeze D t = [] ↔ t = [] := by
  rw [← List.head?_eq_none_iff, head?_squeeze, List.head?_eq_none_iff]

theorem mem_squeeze_iff {a : Char} : a ∈ squeeze D t ↔ a ∈ t := by
  induction t with
  | nil => rfl
  | cons c t ih =>
    rw [squeeze]
    split
    · rename_i h
      rw [ih]
      refine ⟨List.mem_cons_of_mem c, fun ha => (List.mem_cons.1 ha).elim (fun heq => ?_) id⟩
      rw [heq, h.1]
      exact List.mem_of_mem_head? h.2
    · simp [ih]

theorem squeeze_of_notMem (ht : D ∉ t) : squeeze D t = t := by
  induction t with
  | nil => rfl
  | cons c t ih =>
    simp only [List.mem_cons, not_or] at ht
    rw [squeeze_cons_ne (Ne.symm ht.1), ih ht.2]

/-- Texts are squeezed one by one if no run goes from one to the other. -/
theorem squeeze_append (h : s.getLast? = some D → t.head? ≠ some D) :
    squeeze D (s ++ t) = squeeze D s ++ squeeze D t := by
  induction s with
  | nil => rfl
  | cons c s ih =>
    have htail : s.getLast? = some D → t.head? ≠ some D := by
      cases s with
      | nil => simp
      | cons d s => simpa using h
    rw [List.cons_append, squeeze, squeeze, ih htail]
    cases s with
    | nil =>
      rw [List.nil_append, if_neg (fun hc => h (by simp [hc.1]) hc.2), if_neg (by simp)]
      rfl
    | cons d s =>
      rw [show ((d :: s) ++ t).head? = (d :: s).head? from rfl]
      by_cases hc : c = D ∧ (d :: s).head? = some D
      · rw [if_pos hc, if_pos hc]
      · rw [if_neg hc, if_neg hc]
        rfl

/-- What is squeezed to the same and has no delimiters is the same. -/
theorem eq_of_squeeze_eq (hs : D ∉ s) (h : squeeze D s = squeeze D t) : s = t := by
  have ht : D ∉ t := fun hmem => hs (mem_squeeze_iff.1 (h ▸ mem_squeeze_iff.2 hmem))
  rwa [squeeze_of_notMem hs, squeeze_of_notMem ht] at h

/-- A run is squeezed to one delimiter. -/
theorem squeeze_dropWhile (ht : t.head? = some D) :
    squeeze D t = D :: squeeze D (t.dropWhile (· = D)) := by
  induction t with
  | nil => cases ht
  | cons c t ih =>
    obtain rfl : c = D := by simpa using ht
    rw [squeeze, List.dropWhile_cons_of_pos (by simp)]
    split
    · rename_i h
      exact ih h.2
    · rename_i h
      have hnext : t.head? ≠ some c := fun hc => h ⟨rfl, hc⟩
      rw [List.dropWhile_eq_self_iff.2]
      intro hpos
      cases t with
      | nil => simp at hpos
      | cons d t => simpa using hnext

end

/-! ### places -/

/-- The place is not within a run of delimiters. -/
def Cursor.IsApart (D : Char) (p : Cursor) : Prop :=
  p.before.head? = some D → p.after.head? ≠ some D

/-- The place after all delimiters that follow. -/
def Cursor.pastRun (D : Char) (p : Cursor) : Cursor :=
  ⟨(p.after.takeWhile (· = D)).reverse ++ p.before, p.after.dropWhile (· = D)⟩

/-- The places `p` in `u` and `p'` in `u'` are beside each other. -/
structure Level (D : Char) (u u' : Text) (p p' : Cursor) : Prop where
  subject : p.subject = u
  subject' : p'.subject = u'
  apart : p.IsApart D
  apart' : p'.IsApart D
  after : squeeze D p.after = squeeze D p'.after
  atStart : p.before = [] ↔ p'.before = []

variable {D c : Char} {u u' v v' : Text} {p p' q q' : Cursor}

theorem Cursor.takes_pastRun (D : Char) (p : Cursor) :
    p.Takes (p.after.takeWhile (· = D)) (p.pastRun D) :=
  ⟨List.takeWhile_append_dropWhile.symm, rfl⟩

/-- A place is reached from an earlier one in the same text. -/
theorem Cursor.exists_takes_of_left (hs : q.subject = p.subject) (hl : q.left ≤ p.left) :
    ∃ v, p.Takes v q := by
  obtain ⟨x, y⟩ := p
  obtain ⟨x', y'⟩ := q
  simp only [Cursor.subject, Cursor.left] at hs hl
  obtain ⟨v, hv⟩ : ∃ v, y = v ++ y' := by
    have hsuffix : y' <:+ y :=
      List.suffix_of_suffix_length_le (⟨_, hs⟩ : y' <:+ x.reverse ++ y) ⟨_, rfl⟩ hl
    obtain ⟨v, hv⟩ := hsuffix
    exact ⟨v, hv.symm⟩
  subst hv
  refine ⟨v, rfl, ?_⟩
  have hbefore : x'.reverse = x.reverse ++ v := by
    rw [← List.append_assoc] at hs
    exact List.append_cancel_right hs
  have := congrArg List.reverse hbefore
  simpa using this

/-- What leads to a place that is not within a run, and what follows it, are squeezed one by one. -/
theorem squeeze_after (h : p.Takes v q) (hq : q.IsApart D) :
    squeeze D p.after = squeeze D v ++ squeeze D q.after := by
  rw [h.after]
  refine squeeze_append fun hv => hq ?_
  rw [h.before]
  cases v using List.reverseRecOn with
  | nil => simp at hv
  | append_singleton v c => simpa using hv

namespace Level

theorem symm (h : Level D u u' p p') : Level D u' u p' p :=
  ⟨h.subject', h.subject, h.apart', h.apart, h.after.symm, h.atStart.symm⟩

theorem start (h : squeeze D u = squeeze D u') : Level D u u' (.start u) (.start u') :=
  ⟨rfl, rfl, fun h => by simp [Cursor.start] at h, fun h => by simp [Cursor.start] at h, h, Iff.rfl⟩

theorem head?_eq (h : Level D u u' p p') : p.after.head? = p'.after.head? := by
  rw [← head?_squeeze D p.after, h.after, head?_squeeze]

/-- Less is left after a place than after another one if less is left once runs are squeezed. -/
theorem left_lt_iff_length (h : Level D u u' p p') (h' : Level D u u' q q') :
    q.left < p.left ↔ (squeeze D q.after).length < (squeeze D p.after).length := by
  have hlt : ∀ {p q : Cursor}, p.subject = u → q.subject = u → q.IsApart D → q.left ≤ p.left →
      (squeeze D q.after).length ≤ (squeeze D p.after).length ∧
        (q.left < p.left → (squeeze D q.after).length < (squeeze D p.after).length) := by
    intro p q hp hq hapart hl
    obtain ⟨v, hv⟩ := Cursor.exists_takes_of_left (hq.trans hp.symm) hl
    rw [squeeze_after hv hapart, List.length_append]
    refine ⟨by omega, fun hl => ?_⟩
    have hne : squeeze D v ≠ [] := by
      rw [Ne, squeeze_eq_nil_iff]
      rintro rfl
      have := hv.left
      simp at this
      omega
    have := List.length_pos_iff.2 hne
    omega
  constructor
  · intro hl
    exact (hlt h.subject h'.subject h'.apart (Nat.le_of_lt hl)).2 hl
  · intro hl
    by_contra hge
    have := (hlt h'.subject h.subject h.apart (Nat.le_of_not_lt hge)).1
    omega

/-- Places come in the same order as those beside them. -/
theorem left_lt_iff (h : Level D u u' p p') (h' : Level D u u' q q') :
    q.left < p.left ↔ q'.left < p'.left := by
  rw [h.left_lt_iff_length h', h.after, h'.after, h.symm.left_lt_iff_length h'.symm]

/-- There is one place at most beside another one. -/
theorem eq_of_level (h : Level D u u' p p') (h' : Level D u u' p q') : p' = q' := by
  have h₁ := h.left_lt_iff h'
  have h₂ := h'.left_lt_iff h
  refine Cursor.eq_of_left (h.subject'.trans h'.subject'.symm) ?_
  omega

/-- Between places beside each other there are texts that are the same but for runs. -/
theorem squeeze_eq (h : Level D u u' p p') (h' : Level D u u' q q') (hv : p.Takes v q)
    (hv' : p'.Takes v' q') : squeeze D v = squeeze D v' := by
  have heq := h.after
  rw [squeeze_after hv h'.apart, squeeze_after hv' h'.apart', h'.after] at heq
  exact List.append_cancel_right heq

theorem step (h : Level D u u' p p') (hc : c ≠ D) (hq : p.Takes [c] q) :
    ∃ q', p'.Takes [c] q' ∧ Level D u u' q q' := by
  have hafter := h.after
  rw [hq.after, List.singleton_append, squeeze_cons_ne hc] at hafter
  obtain ⟨t, ht⟩ : ∃ t, p'.after = c :: t := by
    have hhead := h.head?_eq
    rw [hq.after] at hhead
    exact List.head?_eq_some_iff.1 hhead.symm
  obtain ⟨q', hq', hafter'⟩ := Cursor.exists_takes (u := [c]) ht
  rw [ht, squeeze_cons_ne hc] at hafter
  refine ⟨q', hq', hq.subject.trans h.subject, hq'.subject.trans h.subject', ?_, ?_, ?_, ?_⟩
  · intro hb
    rw [hq.before] at hb
    exact absurd (by simpa using hb) hc
  · intro hb
    rw [hq'.before] at hb
    exact absurd (by simpa using hb) hc
  · rw [hafter']
    exact (List.cons.inj hafter).2
  · simp [hq.before, hq'.before]

theorem head?_pastRun (D : Char) (p : Cursor) : (p.pastRun D).after.head? ≠ some D := by
  intro h
  have := List.head?_dropWhile_not (fun c => decide (c = D)) p.after
  simp only [Cursor.pastRun] at h
  rw [h] at this
  simp at this

theorem pastRun (h : Level D u u' p p') (hD : p.after.head? = some D) :
    Level D u u' (p.pastRun D) (p'.pastRun D) := by
  have hD' : p'.after.head? = some D := h.head?_eq ▸ hD
  refine ⟨(p.takes_pastRun D).subject.trans h.subject,
    (p'.takes_pastRun D).subject.trans h.subject', fun _ => head?_pastRun D p,
    fun _ => head?_pastRun D p', ?_, ?_⟩
  · have hafter := h.after
    rw [squeeze_dropWhile hD, squeeze_dropWhile hD'] at hafter
    exact (List.cons.inj hafter).2
  · have hne : ∀ {p : Cursor}, p.after.head? = some D → (p.pastRun D).before ≠ [] := by
      intro p hp
      obtain ⟨t, ht⟩ := List.head?_eq_some_iff.1 hp
      simp [Cursor.pastRun, ht]
    simp [hne hD, hne hD']

end Level

end PathTemplate
