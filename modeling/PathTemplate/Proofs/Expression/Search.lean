import PathTemplate.Fragment
import PathTemplate.Proofs.Expression.Arrange

/-!
# A search finds the leftmost match

* `Leftmost`, `NoMatch` — a match with no match before it; no match at all;
* `search_spec` — a search gives the first, or certainty of the second, unless its budget is spent;
* `Node.IsAnchored`, `Expression.find_found`, `Expression.find_none` — expressions that match
  whole texts only.
-/

namespace PathTemplate

/-- The end of a text. -/
def Cursor.finish (t : Text) : Cursor := ⟨t.reverse, []⟩

theorem Cursor.takes_finish {t : Text} {q : Cursor} (h : (Cursor.start t).Takes t q)
    (hq : q.after = []) : q = .finish t := by
  obtain ⟨b, a⟩ := q
  have := h.before
  simp_all [Cursor.start, Cursor.finish]

theorem Cursor.start_takes_finish (t : Text) : (Cursor.start t).Takes t (.finish t) :=
  ⟨by simp [Cursor.start, Cursor.finish], by simp [Cursor.start, Cursor.finish]⟩

/-- The expression matches from the start of a text to its end only. -/
def Node.IsAnchored (n : Node) : Prop := ∀ p q, n.Reaches p q → p.before = [] ∧ q.after = []

/-- The match of `n` is the first one from `c` on; its captures are those of a match if no group
captures twice. -/
structure Leftmost (n : Node) (c : Cursor) (m : Match) : Prop where
  takes : ∃ v, c.Takes v m.start
  reaches : n.Reaches m.start m.finish.pos
  captures :
    n.isLinear = true →
    ∃ w, n.Matches m.start m.finish.pos w ∧ ∀ i, m.finish.capture? i = Captures.get? w i
  first : ∀ v p, c.Takes v p → m.start.left < p.left → ∀ q, ¬n.Reaches p q

/-- There is no match from `c` on. -/
def NoMatch (n : Node) (c : Cursor) : Prop := ∀ v p, c.Takes v p → ∀ q, ¬n.Reaches p q

section

variable {n : Node} {before after : Text} {c : Char} {m : Match}

theorem takes_mk_cons {v : Text} {p : Cursor} (h : (Cursor.mk before (c :: after)).Takes v p) :
    p = ⟨before, c :: after⟩ ∨ ∃ v, (Cursor.mk (c :: before) after).Takes v p := by
  cases v with
  | nil => exact .inl (Cursor.takes_nil_iff.1 h)
  | cons d v =>
    obtain ⟨a, ha, h⟩ := Cursor.takes_cons_iff.1 h
    cases ha
    exact .inr ⟨v, h⟩

theorem Leftmost.later (hn : ∀ q, ¬n.Reaches ⟨before, c :: after⟩ q)
    (h : Leftmost n ⟨c :: before, after⟩ m) : Leftmost n ⟨before, c :: after⟩ m := by
  obtain ⟨v, hv⟩ := h.takes
  refine ⟨⟨c :: v, Cursor.takes_cons_iff.2 ⟨after, rfl, hv⟩⟩, h.reaches, h.captures,
    fun v p hp hl q => ?_⟩
  rcases takes_mk_cons hp with rfl | ⟨v, hp⟩
  · exact hn q
  · exact h.first v p hp hl q

theorem NoMatch.later (hn : ∀ q, ¬n.Reaches ⟨before, c :: after⟩ q)
    (h : NoMatch n ⟨c :: before, after⟩) : NoMatch n ⟨before, c :: after⟩ := by
  intro v p hp q
  rcases takes_mk_cons hp with rfl | ⟨v, hp⟩
  · exact hn q
  · exact h v p hp q

theorem noMatch_nil (hn : ∀ q, ¬n.Reaches ⟨before, []⟩ q) : NoMatch n ⟨before, []⟩ := by
  intro v p hp q
  obtain rfl : v = [] := (List.append_eq_nil_iff.1 hp.after.symm).1
  obtain rfl := Cursor.takes_nil_iff.1 hp
  exact hn q

/-- A match at the place where the search starts is the first one. -/
theorem leftmost_here {s : State} {p : Cursor} (hr : n.Reaches p s.pos)
    (hc : n.isLinear = true → ∃ w, n.Matches p s.pos w ∧ ∀ i, s.capture? i = Captures.get? w i) :
    Leftmost n p ⟨p, s⟩ := by
  refine ⟨⟨[], .refl p⟩, hr, hc, fun v q hq hl => ?_⟩
  have hle : q.left ≤ p.left := by
    have := hq.left
    omega
  exact absurd hl (Nat.not_lt_of_le hle)

end

namespace Expression

variable {n : Node} {t : Text} {m : Match}

/-! ### following all ways -/

theorem firstWay_spec (hn : n.isPlain = true) (before after : Text) :
    (∀ m, firstWay n before after = some m → Leftmost n ⟨before, after⟩ m) ∧
      (firstWay n before after = none → NoMatch n ⟨before, after⟩) := by
  have hways := Node.ways_gives hn
  have hhead :
      ∀ {p : Cursor} {s : State}, (n.ways ⟨p, []⟩).head? = some s → Leftmost n p ⟨p, s⟩ := by
    intro p s h
    obtain ⟨w, hw, hc⟩ := hways.sound ⟨p, []⟩ s (List.mem_of_head? h)
    exact leftmost_here ⟨w, hw⟩ fun _ => ⟨w, hw,
      fun i => by simp [State.capture?, Captures.get?, hc]⟩
  have hnone : ∀ {p : Cursor}, (n.ways ⟨p, []⟩).head? = none → ∀ q, ¬n.Reaches p q := by
    rintro p h q ⟨w, hw⟩
    obtain ⟨t, ht, -⟩ := hways.complete ⟨p, []⟩ q w hw
    rw [List.head?_eq_none_iff.1 h] at ht
    cases ht
  induction after generalizing before with
  | nil =>
    unfold firstWay
    split
    · rename_i s hs
      exact ⟨by rintro m ⟨⟩; exact hhead hs, by rintro ⟨⟩⟩
    · rename_i hs
      exact ⟨by rintro m ⟨⟩, fun _ => noMatch_nil (hnone hs)⟩
  | cons c after ih =>
    unfold firstWay
    split
    · rename_i s hs
      exact ⟨by rintro m ⟨⟩; exact hhead hs, by rintro ⟨⟩⟩
    · rename_i hs
      obtain ⟨h₁, h₂⟩ := ih (c :: before)
      exact ⟨fun m hm => (h₁ m hm).later (hnone hs), fun h => (h₂ h).later (hnone hs)⟩

/-! ### attempts -/

theorem origin_eq_of_capture?_eq_none {s : State} (h : s.capture? 0 = none) (c : Cursor) :
    s.origin c = c := by
  simp [State.origin, h]

theorem firstAttempt_spec {n' : Node} (hr : n.isRegular = true) (ha : Node.Arranges true n n')
    (before after : Text) (budget : Nat) :
    (∀ m, firstAttempt n' before after budget = .found m → Leftmost n ⟨before, after⟩ m) ∧
      (firstAttempt n' before after budget = .none → NoMatch n ⟨before, after⟩) := by
  have hfollows := Node.attempt_follows ha.isArranged
  have hfound : ∀ {p : Cursor} {s : State} {b b' : Nat}, n'.attempt .found ⟨p, []⟩ b = .found s b' →
      Leftmost n p ⟨s.origin p, s⟩ := by
    intro p s b b' h
    obtain ⟨q, w, b₁, hw, h⟩ := hfollows.found _ _ _ _ _ h
    cases h
    have h0 : w.lookup 0 = none :=
      hw.lookup_eq_none (ha.groups_eq ▸ Node.zero_notMem_groups hr)
    rw [origin_eq_of_capture?_eq_none (by simp [State.capture?, h0])]
    refine leftmost_here ((ha.reaches_iff p q).1 ⟨w, hw⟩) fun hl => ?_
    obtain ⟨w', hw', hc⟩ := ha.captures hl hw
    exact ⟨w', hw', fun i => by simpa [State.capture?, Captures.get?] using hc i⟩
  have hfailed : ∀ {p : Cursor} {b b' : Nat}, n'.attempt .found ⟨p, []⟩ b = .failed b' →
      ∀ q, ¬n.Reaches p q := by
    intro p b b' h q hq
    obtain ⟨w, hw⟩ := (ha.reaches_iff p q).2 hq
    obtain ⟨m, b₁, b₂, -, h⟩ := hfollows.failed _ _ _ _ h q w hw
    cases h
  induction after generalizing before budget with
  | nil =>
    unfold firstAttempt
    split
    · rename_i s b hs
      exact ⟨by rintro m ⟨⟩; exact hfound hs, by rintro ⟨⟩⟩
    · exact ⟨by rintro m ⟨⟩, by rintro ⟨⟩⟩
    · rename_i b hs
      exact ⟨by rintro m ⟨⟩, fun _ => noMatch_nil (hfailed hs)⟩
  | cons c after ih =>
    unfold firstAttempt
    split
    · rename_i s b hs
      exact ⟨by rintro m ⟨⟩; exact hfound hs, by rintro ⟨⟩⟩
    · exact ⟨by rintro m ⟨⟩, by rintro ⟨⟩⟩
    · rename_i b hs
      obtain ⟨h₁, h₂⟩ := ih (c :: before) b
      exact ⟨fun m hm => (h₁ m hm).later (hfailed hs), fun h => (h₂ h).later (hfailed hs)⟩

/-- A search gives the leftmost match, or certainty that there is none, unless its budget is
spent. -/
theorem search_spec {e : Expression} (hr : e.root.isRegular = true) (c : Cursor) :
    (∀ m, e.search c = .found m → Leftmost e.root c m) ∧
    (e.search c = .none → NoMatch e.root c) := by
  unfold search
  split
  · exact firstAttempt_spec hr (Node.arrange_arranges hr true .whole) c.before c.after budget
  · rename_i hh
    have hp := Node.isPlain_of_isHard_eq_false hr (by simpa [isHard] using hh)
    obtain ⟨h₁, h₂⟩ := firstWay_spec hp c.before c.after
    cases hw : firstWay e.root c.before c.after with
    | some m => exact ⟨by rintro m ⟨⟩; exact h₁ m hw, by rintro ⟨⟩⟩
    | none => exact ⟨by rintro m ⟨⟩, fun _ => h₂ hw⟩

/-! ### whole texts -/

theorem find_found {e : Expression} (hr : e.root.isRegular = true) (ha : e.root.IsAnchored)
    (h : e.find t = .found m) :
    m.start = .start t ∧ m.finish.pos = .finish t ∧ Leftmost e.root (.start t) m := by
  have hl := (search_spec hr _).1 m h
  obtain ⟨v, hv⟩ := hl.takes
  obtain ⟨w, hw⟩ := hl.reaches
  obtain ⟨x, hx⟩ := hw.takes
  obtain ⟨h₁, h₂⟩ := ha _ _ hl.reaches
  have hstart : m.start = .start t := by
    have := hv.before
    rw [h₁] at this
    obtain rfl : v = [] := by simpa using (List.append_eq_nil_iff.1 this.symm).1
    exact Cursor.takes_nil_iff.1 hv
  refine ⟨hstart, ?_, hl⟩
  rw [hstart] at hx
  have hx' : x = t := by simpa [Cursor.start, h₂] using hx.after.symm
  subst hx'
  exact Cursor.takes_finish hx h₂

theorem find_none {e : Expression} (hr : e.root.isRegular = true) (h : e.find t = .none) :
    ¬e.root.Reaches (.start t) (.finish t) :=
  (search_spec hr _).2 h [] _ (.refl _) _

end Expression

end PathTemplate
