import PathTemplate.Expression.Attempt
import PathTemplate.Proofs.Expression.Ways

/-!
# Attempts follow matches

* `Follows` — what an attempt finds is found after a match, and an attempt fails only if what
  follows fails after every match; if the attempt is not `exact`, only after some match;
* `Node.isArranged` — marked pieces are plain, and of fixed width where what follows may need
  every match;
* `Node.attempt_follows` — the attempts of an arranged expression follow its matches.
-/

namespace PathTemplate

/-- The attempt `f` follows the relation `R`.  If it is exact, what follows fails at the end of
every match. -/
structure Follows (R : Cursor → Cursor → Captures → Prop) (exact : Bool)
    (f : Onward → Onward) : Prop where
  found :
    ∀ k s b t b', f k s b = .found t b' →
      ∃ q w b₁, R s.pos q w ∧ k ⟨q, w ++ s.captures⟩ b₁ = .found t b'
  failed : ∀ k s b b', f k s b = .failed b' → ∀ q w, R s.pos q w →
    ∃ m b₁ b₂, (exact = true → m.pos = q) ∧ k m b₁ = .failed b₂

/-! ### outcomes -/

namespace Outcome

theorem fail_ne_found {b b' : Nat} {t : State} : fail b ≠ found t b' := by
  cases b <;> simp [fail]

theorem orElse_eq_found {o : Outcome} {other : Nat → Outcome} {t : State} {b : Nat}
    (h : o.orElse other = found t b) :
    o = found t b ∨ ∃ b₁, o = failed b₁ ∧ other b₁ = found t b := by
  cases o with
  | found s b' => exact .inl h
  | failed b' => exact .inr ⟨b', rfl, h⟩
  | exhausted => cases h

theorem orElse_eq_failed {o : Outcome} {other : Nat → Outcome} {b : Nat}
    (h : o.orElse other = failed b) : ∃ b₁, o = failed b₁ ∧ other b₁ = failed b := by
  cases o with
  | failed b' => exact ⟨b', rfl, h⟩
  | found s b' => cases h
  | exhausted => cases h

end Outcome

theorem Onward.orFail_eq_found {k : Onward} {s : Option State} {b b' : Nat} {t : State}
    (h : k.orFail s b = .found t b') : ∃ r, s = some r ∧ k r b = .found t b' := by
  cases s with
  | none => exact absurd h Outcome.fail_ne_found
  | some r => exact ⟨r, rfl, h⟩

namespace Attempt

variable {greedy : Bool} {further stop : Onward} {s t : State} {b b' : Nat}

theorem prefer_eq_found (h : prefer greedy further stop s b = .found t b') :
    ∃ b₁, further s b₁ = .found t b' ∨ stop s b₁ = .found t b' := by
  unfold prefer at h
  split at h
  · rcases Outcome.orElse_eq_found h with h | ⟨b₁, -, h⟩
    · exact ⟨b, .inl h⟩
    · exact ⟨b₁, .inr h⟩
  · rcases Outcome.orElse_eq_found h with h | ⟨b₁, -, h⟩
    · exact ⟨b, .inr h⟩
    · exact ⟨b₁, .inl h⟩

theorem prefer_eq_failed (h : prefer greedy further stop s b = .failed b') :
    (∃ b₁ b₂, further s b₁ = .failed b₂) ∧ ∃ b₁ b₂, stop s b₁ = .failed b₂ := by
  unfold prefer at h
  split at h
  · obtain ⟨b₁, h₁, h₂⟩ := Outcome.orElse_eq_failed h
    exact ⟨⟨b, b₁, h₁⟩, b₁, b', h₂⟩
  · obtain ⟨b₁, h₁, h₂⟩ := Outcome.orElse_eq_failed h
    exact ⟨⟨b₁, b', h₂⟩, b, b₁, h₁⟩

/-! ### repetition -/

variable {round : Onward → Onward} {R : Cursor → Cursor → Captures → Prop} {k : Onward} {n : Nat}
  {exact : Bool}

theorem exactly_found (hr : Follows R exact round) (h : exactly round k n s b = .found t b') :
    ∃ q w b₁, Iterates R n s.pos q w ∧ k ⟨q, w ++ s.captures⟩ b₁ = .found t b' := by
  induction n generalizing s b with
  | zero => exact ⟨s.pos, [], b, .zero _, h⟩
  | succ n ih =>
    obtain ⟨q, u, b₁, hu, h⟩ := hr.found _ _ _ _ _ h
    obtain ⟨r, v, b₂, hv, h⟩ := ih h
    exact ⟨r, v ++ u, b₂, ⟨q, u, v, hu, hv, rfl⟩, by simpa using h⟩

theorem exactly_failed (hr : Follows R true round) (h : exactly round k n s b = .failed b')
    {q : Cursor} {w : Captures} (hw : Iterates R n s.pos q w) :
    ∃ m b₁ b₂, m.pos = q ∧ k m b₁ = .failed b₂ := by
  induction n generalizing s b b' w with
  | zero => exact ⟨s, b, b', hw.1.symm, h⟩
  | succ n ih =>
    obtain ⟨r, u, v, hu, hv, -⟩ := hw
    obtain ⟨m, b₁, b₂, hm, h⟩ := hr.failed _ _ _ _ h r u hu
    obtain rfl := hm rfl
    exact ih h hv

theorem upTo_found (hr : Follows R exact round) (h : upTo round greedy k n s b = .found t b') :
    ∃ m ≤ n, ∃ q w b₁, Iterates R m s.pos q w ∧ k ⟨q, w ++ s.captures⟩ b₁ = .found t b' := by
  induction n generalizing s b with
  | zero => exact ⟨0, Nat.le_refl 0, s.pos, [], b, .zero _, h⟩
  | succ n ih =>
    obtain ⟨b₁, h | h⟩ := prefer_eq_found h
    · obtain ⟨q, u, b₂, hu, h⟩ := hr.found _ _ _ _ _ h
      obtain ⟨m, hm, r, v, b₃, hv, h⟩ := ih h
      exact ⟨m + 1, by omega, r, v ++ u, b₃, ⟨q, u, v, hu, hv, rfl⟩, by simpa using h⟩
    · exact ⟨0, Nat.zero_le _, s.pos, [], b₁, .zero _, h⟩

theorem upTo_failed (hr : Follows R true round) (h : upTo round greedy k n s b = .failed b')
    {m : Nat} (hm : m ≤ n) {q : Cursor} {w : Captures} (hw : Iterates R m s.pos q w) :
    ∃ t b₁ b₂, t.pos = q ∧ k t b₁ = .failed b₂ := by
  induction n generalizing s b b' m w with
  | zero =>
    obtain rfl : m = 0 := by omega
    exact ⟨s, b, b', hw.1.symm, h⟩
  | succ n ih =>
    obtain ⟨⟨b₁, b₂, hfurther⟩, b₃, b₄, hstop⟩ := prefer_eq_failed h
    cases m with
    | zero => exact ⟨s, b₃, b₄, hw.1.symm, hstop⟩
    | succ m =>
      obtain ⟨r, u, v, hu, hv, -⟩ := hw
      obtain ⟨t, b₅, b₆, ht, h⟩ := hr.failed _ _ _ _ hfurther r u hu
      obtain rfl := ht rfl
      exact ih h (by omega) hv

/-- One round at most may end anywhere if what follows does not need its place. -/
theorem upTo_one_failed (hr : Follows R exact round) (h : upTo round greedy k 1 s b = .failed b')
    {m : Nat} (hm : m ≤ 1) {q : Cursor} {w : Captures} (hw : Iterates R m s.pos q w) :
    ∃ t b₁ b₂, (exact = true → t.pos = q) ∧ k t b₁ = .failed b₂ := by
  obtain ⟨⟨b₁, b₂, hfurther⟩, b₃, b₄, hstop⟩ := prefer_eq_failed h
  obtain rfl | rfl : m = 0 ∨ m = 1 := by omega
  · exact ⟨s, b₃, b₄, fun _ => hw.1.symm, hstop⟩
  · obtain ⟨r, u, v, hu, ⟨rfl, -⟩, -⟩ := hw
    exact hr.failed _ _ _ _ hfurther q u hu

theorem many_found (hr : Follows R exact round) (h : many round greedy k n s b = .found t b') :
    ∃ m q w b₁, Iterates R m s.pos q w ∧ k ⟨q, w ++ s.captures⟩ b₁ = .found t b' := by
  induction n generalizing s b with
  | zero => exact ⟨0, s.pos, [], b, .zero _, h⟩
  | succ n ih =>
    obtain ⟨b₁, h | h⟩ := prefer_eq_found h
    · obtain ⟨q, u, b₂, hu, h⟩ := hr.found _ _ _ _ _ h
      split at h
      · obtain ⟨m, r, v, b₃, hv, h⟩ := ih h
        exact ⟨m + 1, r, v ++ u, b₃, ⟨q, u, v, hu, hv, rfl⟩, by simpa using h⟩
      · exact absurd h Outcome.fail_ne_found
    · exact ⟨0, s.pos, [], b₁, .zero _, h⟩

/-- Rounds that take characters are all tried: no more of them are possible than there are
characters. -/
theorem many_failed (hr : Follows R true round) (hn : s.left ≤ n)
    (h : many round greedy k n s b = .failed b') {m : Nat} {q : Cursor} {w : Captures}
    (hw : Iterates (Progress R) m s.pos q w) : ∃ t b₁ b₂, t.pos = q ∧ k t b₁ = .failed b₂ := by
  induction n generalizing s b b' m w with
  | zero =>
    cases m with
    | zero => exact ⟨s, b, b', hw.1.symm, h⟩
    | succ m =>
      obtain ⟨r, u, v, ⟨-, hl⟩, -, -⟩ := hw
      exact absurd (Nat.lt_of_lt_of_le hl hn) (Nat.not_lt_zero _)
  | succ n ih =>
    obtain ⟨⟨b₁, b₂, hfurther⟩, b₃, b₄, hstop⟩ := prefer_eq_failed h
    cases m with
    | zero => exact ⟨s, b₃, b₄, hw.1.symm, hstop⟩
    | succ m =>
      obtain ⟨r, u, v, ⟨hu, hl⟩, hv, -⟩ := hw
      obtain ⟨t, b₅, b₆, ht, h⟩ := hr.failed _ _ _ _ hfurther r u hu
      obtain rfl := ht rfl
      have hlt : t.left < s.left := hl
      rw [if_pos hlt] at h
      exact ih (by omega) h hv

/-- Repetition follows rounds.  The rounds must be exact, unless there is one of them at most. -/
theorem between_follows (lo : Nat) (hi : Option Nat) (hR : Advances R)
    (hr : Follows R (exact || !(decide (lo = 0) && decide (hi = some 1))) round) :
    Follows (fun p q w => ∃ n, (∀ h ∈ hi, n ≤ h - lo) ∧ Iterates R (lo + n) p q w) exact
      (fun k => between round greedy k lo hi) where
  found k s b t b' h := by
    obtain ⟨p, u, b₁, hu, h⟩ := exactly_found hr h
    cases hi with
    | some hi =>
      obtain ⟨m, hm, q, v, b₂, hv, h⟩ := upTo_found hr h
      exact ⟨q, v ++ u, b₂, ⟨m, by rintro h ⟨⟩; exact hm, hu.add hv⟩, by simpa using h⟩
    | none =>
      obtain ⟨m, q, v, b₂, hv, h⟩ := many_found hr h
      exact ⟨q, v ++ u, b₂, ⟨m, by rintro h ⟨⟩, hu.add hv⟩, by simpa using h⟩
  failed k s b b' h q w hw := by
    obtain ⟨n, hn, hw⟩ := hw
    by_cases he : (exact || !(decide (lo = 0) && decide (hi = some 1))) = true
    · rw [he] at hr
      obtain ⟨p, u, v, hu, hv, -⟩ := iterates_add_iff.1 hw
      obtain ⟨m, b₁, b₂, rfl, h⟩ := exactly_failed hr h hu
      have : ∃ t b₁ b₂, t.pos = q ∧ k t b₁ = .failed b₂ := by
        cases hi with
        | some hi => exact upTo_failed hr h (hn hi rfl) hv
        | none =>
          obtain ⟨i, -, v', hv'⟩ := hv.progress hR
          exact many_failed hr (Nat.le_refl _) h hv'
      obtain ⟨t, b₃, b₄, ht, h⟩ := this
      exact ⟨t, b₃, b₄, fun _ => ht, h⟩
    · simp only [Bool.or_eq_true, Bool.not_eq_true', not_or, Bool.not_eq_true, Bool.not_eq_false,
        Bool.and_eq_true, decide_eq_true_eq] at he
      obtain ⟨rfl, rfl, rfl⟩ := he
      rw [Nat.zero_add] at hw
      exact upTo_one_failed hr h (hn 1 rfl) hw

end Attempt

namespace Node

/-- Marked pieces are plain and, if what follows may need every match, of fixed width. -/
def isArranged : (exact : Bool) → Node → Bool
  | _, empty | _, char _ _ | _, oneOf _ | _, assertion _ => true
  | exact, seq a b => a.isArranged true && b.isArranged exact
  | exact, alt a b => a.isArranged exact && b.isArranged exact
  | exact, group _ a => a.isArranged exact
  | exact, loop a lo hi _ => a.isArranged (exact || !(decide (lo = 0) && decide (hi = some 1)))
  | _, look _ _ a => a.isArranged false
  | exact, unit a => a.isPlain && (!exact || a.width?.isSome)
  | _, atomic _ | _, backref _ _ | _, present _ _ | _, choice _ _ _ | _, keep => false

theorem advance_follows (exact : Bool) (p : Char → Bool) :
    Follows (fun r q w => ∃ d, p d = true ∧ r.Takes [d] q ∧ w = []) exact
      fun k s b => k.orFail (s.advance? p) b where
  found k s b t b' h := by
    obtain ⟨r, hr, h⟩ := Onward.orFail_eq_found h
    obtain ⟨w, hw, hc⟩ := (gives_advance p).sound s r (by simp [hr])
    exact ⟨r.pos, w, b, hw, hc ▸ h⟩
  failed k s b b' h q w hw := by
    obtain ⟨r, hr, rfl⟩ := (gives_advance p).complete s q w hw
    rw [Option.mem_toList.1 hr] at h
    exact ⟨r, b, b', fun _ => rfl, h⟩

/-- A marked piece is matched in the first way there is. -/
theorem unit_follows {a : Node} {exact : Bool} (ha : a.isPlain = true)
    (hw : exact = true → a.width?.isSome = true) :
    Follows (unit a).Matches exact (unit a).attempt where
  found k s b t b' h := by
    obtain ⟨r, hr, h⟩ := Onward.orFail_eq_found h
    obtain ⟨o, ho, rfl⟩ := Option.map_eq_some_iff.1 hr
    obtain ⟨w, hw, hc⟩ := (ways_gives ha).sound _ o (List.mem_of_head? ho)
    refine ⟨o.pos, _, b, ⟨w, hw, rfl⟩, ?_⟩
    have hadopt :
        s.adopt a.groups o = ⟨o.pos, (a.groups.map fun i => (i, w.get? i)) ++ s.captures⟩ := by
      simp [State.adopt, State.capture?, Captures.get?, hc]
    rw [← hadopt]
    exact h
  failed k s b b' h q w hm := by
    obtain ⟨u, hu, -⟩ := hm
    obtain ⟨o, ho, hpos⟩ := (ways_gives ha).complete { s with captures := [] } q u hu
    obtain ⟨o', os, hos⟩ := List.exists_cons_of_ne_nil (List.ne_nil_of_mem ho)
    have ho' : o' ∈ a.ways { s with captures := [] } := by simp [hos]
    refine ⟨s.adopt a.groups o', b, b', fun he => ?_, ?_⟩
    · obtain ⟨v, hv, -⟩ := (ways_gives ha).sound _ o' ho'
      obtain ⟨i, hi⟩ := Option.isSome_iff_exists.1 (hw he)
      have h₁ := hv.width hi
      have h₂ := hu.width hi
      obtain ⟨x, hx⟩ := hv.takes
      obtain ⟨y, hy⟩ := hu.takes
      have hleft : o'.pos.left = q.left := by
        simp only at h₁ h₂
        omega
      exact Cursor.eq_of_left (hx.subject.trans hy.subject.symm) hleft
    · simp only [attempt, hos, List.head?_cons, Option.map_some] at h
      exact h

theorem condition_follows {exact : Bool} {P : Cursor → Prop} {f : Onward → Onward}
    (hf : ∀ k s b t b', f k s b = .found t b' → P s.pos ∧ ∃ b₁, k s b₁ = .found t b')
    (hf' : ∀ k s b b', f k s b = .failed b' → P s.pos → ∃ b₁ b₂, k s b₁ = .failed b₂) :
    Follows (fun p q w => P p ∧ q = p ∧ w = []) exact f where
  found k s b t b' h := by
    obtain ⟨hp, b₁, h⟩ := hf k s b t b' h
    exact ⟨s.pos, [], b₁, ⟨hp, rfl, rfl⟩, h⟩
  failed k s b b' h q w hw := by
    obtain ⟨b₁, b₂, h⟩ := hf' k s b b' h hw.1
    exact ⟨s, b₁, b₂, fun _ => hw.2.1.symm, h⟩

/-- Looking for what must be there: what it captures is kept. -/
theorem look_follows {a : Node} {exact : Bool} (d : Direction)
    (ha : Follows a.Matches false a.attempt) :
    Follows (look d true a).Matches exact (look d true a).attempt := by
  have hsome : ∀ {k s p} b, d.start? s.pos = some p →
      (look d true a).attempt k s b =
        a.attempt (fun t => k { t with pos := s.pos }) { s with pos := p } b := by
    intro k s p b h
    cases d <;> simp only [Direction.start?, Option.some.injEq] at h <;> simp only [attempt, h]
  have hnone : ∀ {k s} b, d.start? s.pos = none → (look d true a).attempt k s b = .fail b := by
    intro k s b h
    cases d <;> simp only [Direction.start?, reduceCtorEq] at h
    simp only [attempt, h]
  refine ⟨fun k s b t b' h => ?_, fun k s b b' h q w hw => ?_⟩
  · cases hp : d.start? s.pos with
    | some p =>
      rw [hsome b hp] at h
      obtain ⟨r, w, b₁, hw, h⟩ := ha.found _ _ _ _ _ h
      exact ⟨s.pos, w, b₁, ⟨rfl, p, hp, r, hw⟩, h⟩
    | none =>
      rw [hnone b hp] at h
      exact absurd h Outcome.fail_ne_found
  · obtain ⟨rfl, p, hp, r, hw⟩ := hw
    rw [hsome b hp] at h
    obtain ⟨m, b₁, b₂, -, h⟩ := ha.failed _ _ _ _ h r w hw
    exact ⟨{ m with pos := s.pos }, b₁, b₂, fun _ => rfl, h⟩

theorem lookNot_follows {a : Node} {exact : Bool} (d : Direction)
    (ha : Follows a.Matches false a.attempt) :
    Follows (look d false a).Matches exact (look d false a).attempt := by
  have hfound : ∀ {k s p t b b'}, d.start? s.pos = some p →
      a.attempt .found { s with pos := p } b = .found t b' →
      (look d false a).attempt k s b = .fail b' := by
    intro k s p t b b' h h'
    cases d <;> simp only [Direction.start?, Option.some.injEq] at h <;> simp only [attempt, h, h']
  have hfailed : ∀ {k s p b b'}, d.start? s.pos = some p →
      a.attempt .found { s with pos := p } b = .failed b' →
      (look d false a).attempt k s b = k s b' := by
    intro k s p b b' h h'
    cases d <;> simp only [Direction.start?, Option.some.injEq] at h <;> simp only [attempt, h, h']
  have hexhausted :
      ∀ {k s p b}, d.start? s.pos = some p → a.attempt .found { s with pos := p } b = .exhausted →
        (look d false a).attempt k s b = .exhausted := by
    intro k s p b h h'
    cases d <;> simp only [Direction.start?, Option.some.injEq] at h <;> simp only [attempt, h, h']
  have hnone : ∀ {k s} b, d.start? s.pos = none → (look d false a).attempt k s b = k s b := by
    intro k s b h
    cases d <;> simp only [Direction.start?, reduceCtorEq] at h
    simp only [attempt, h]
  refine ⟨fun k s b t b' h => ?_, fun k s b b' h q w hw => ?_⟩
  · cases hp : d.start? s.pos with
    | none =>
      rw [hnone b hp] at h
      exact ⟨s.pos, [], b, ⟨rfl, rfl, fun o ho => by simp [hp] at ho⟩, h⟩
    | some p =>
      cases hout : a.attempt .found { s with pos := p } b with
      | found t b₁ =>
        rw [hfound hp hout] at h
        exact absurd h Outcome.fail_ne_found
      | failed b₁ =>
        rw [hfailed hp hout] at h
        refine ⟨s.pos, [], b₁, ⟨rfl, rfl, fun o ho r u hu => ?_⟩, h⟩
        obtain rfl : o = p := Option.some.inj (ho.symm.trans hp)
        obtain ⟨m, b₂, b₃, -, h⟩ := ha.failed _ _ _ _ hout r u hu
        cases h
      | exhausted =>
        rw [hexhausted hp hout] at h
        cases h
  · obtain ⟨rfl, -, hno⟩ := hw
    cases hp : d.start? s.pos with
    | none =>
      rw [hnone b hp] at h
      exact ⟨s, b, b', fun _ => rfl, h⟩
    | some p =>
      cases hout : a.attempt .found { s with pos := p } b with
      | found t b₁ =>
        obtain ⟨r, u, b₂, hu, -⟩ := ha.found _ _ _ _ _ hout
        exact absurd hu (hno p hp r u)
      | failed b₁ =>
        rw [hfailed hp hout] at h
        exact ⟨s, b₁, b', fun _ => rfl, h⟩
      | exhausted =>
        rw [hexhausted hp hout] at h
        cases h

theorem attempt_follows {n : Node} {exact : Bool} (hn : n.isArranged exact = true) :
    Follows n.Matches exact n.attempt := by
  induction n generalizing exact with
  | empty =>
    exact ⟨fun k s b t b' h => ⟨s.pos, [], b, ⟨rfl, rfl⟩, h⟩,
      fun k s b b' h q w hw => ⟨s, b, b', fun _ => hw.1.symm, h⟩⟩
  | char c i => exact advance_follows exact _
  | oneOf s => exact advance_follows exact _
  | assertion a =>
    refine condition_follows (fun k s b t b' h => ?_) (fun k s b b' h ha => ?_)
    · unfold attempt at h
      split at h
      · rename_i ha
        exact ⟨ha, b, h⟩
      · exact absurd h Outcome.fail_ne_found
    · exact ⟨b, b', by simpa [attempt, ha] using h⟩
  | seq a b iha ihb =>
    simp only [isArranged, Bool.and_eq_true] at hn
    refine ⟨fun k s b₀ t b' h => ?_, fun k s b₀ b' h q w hw => ?_⟩
    · obtain ⟨r, u, b₁, hu, h⟩ := (iha hn.1).found _ _ _ _ _ h
      obtain ⟨q, v, b₂, hv, h⟩ := (ihb hn.2).found _ _ _ _ _ h
      exact ⟨q, v ++ u, b₂, ⟨r, u, v, hu, hv, rfl⟩, by simpa using h⟩
    · obtain ⟨r, u, v, hu, hv, -⟩ := hw
      obtain ⟨m, b₁, b₂, hm, h⟩ := (iha hn.1).failed _ _ _ _ h r u hu
      obtain rfl := hm rfl
      exact (ihb hn.2).failed _ _ _ _ h q v hv
  | alt a b iha ihb =>
    simp only [isArranged, Bool.and_eq_true] at hn
    refine ⟨fun k s b₀ t b' h => ?_, fun k s b₀ b' h q w hw => ?_⟩
    · rcases Outcome.orElse_eq_found h with h | ⟨b₁, -, h⟩
      · obtain ⟨q, w, b₁, hw, h⟩ := (iha hn.1).found _ _ _ _ _ h
        exact ⟨q, w, b₁, .inl hw, h⟩
      · obtain ⟨q, w, b₂, hw, h⟩ := (ihb hn.2).found _ _ _ _ _ h
        exact ⟨q, w, b₂, .inr hw, h⟩
    · obtain ⟨b₁, h₁, h₂⟩ := Outcome.orElse_eq_failed h
      rcases hw with hw | hw
      · exact (iha hn.1).failed _ _ _ _ h₁ q w hw
      · exact (ihb hn.2).failed _ _ _ _ h₂ q w hw
  | group i a ih =>
    refine ⟨fun k s b t b' h => ?_, fun k s b b' h q w hw => ?_⟩
    · obtain ⟨q, u, b₁, hu, h⟩ := (ih hn).found _ _ _ _ _ h
      exact ⟨q, (i, some ⟨s.pos, q⟩) :: u, b₁, ⟨u, hu, rfl⟩, h⟩
    · obtain ⟨u, hu, -⟩ := hw
      obtain ⟨m, b₁, b₂, hm, h⟩ := (ih hn).failed _ _ _ _ h q u hu
      exact ⟨m.capture i s.pos, b₁, b₂, hm, h⟩
  | loop a lo hi greedy ih => exact Attempt.between_follows lo hi (advances_matches a) (ih hn)
  | look d positive a ih =>
    cases positive with
    | true => exact look_follows d (ih hn)
    | false => exact lookNot_follows d (ih hn)
  | unit a ih =>
    simp only [isArranged, Bool.and_eq_true, Bool.or_eq_true, Bool.not_eq_true'] at hn
    exact unit_follows hn.1 fun he => hn.2.resolve_left (by simp [he])
  | _ => cases hn

end Node

end PathTemplate
