import PathTemplate.Proofs.Expression.Matches

/-!
# All ways to match are matches

* `Gives` — the states that a function gives from a state are the ends of a relation, one at every
  place;
* `Rounds.exactly_gives`, `Rounds.upTo_gives`, `Rounds.repeated_gives` — repetition.  Places are
  passed over where an earlier arrival was dealt with: `upTo` remembers them with the number of
  rounds that were left, `more` alone;
* `Node.ways_gives` — the ways of a plain expression are its matches.
-/

namespace PathTemplate

/-- A function from states to states gives the ends of `R`: nothing else, and every place. -/
structure Gives (f : State → List State) (R : Cursor → Cursor → Captures → Prop) : Prop where
  sound : ∀ s t, t ∈ f s → ∃ w, R s.pos t.pos w ∧ t.captures = w ++ s.captures
  complete : ∀ s q w, R s.pos q w → ∃ t ∈ f s, t.pos = q

/-- One of the states is at this place. -/
def Emits (ss : List State) (q : Cursor) : Prop := ∃ t ∈ ss, t.pos = q

/-- All states stand in the text `x`. -/
def StandIn (x : Text) (ss : List State) : Prop := ∀ s ∈ ss, s.pos.subject = x

section

variable {ss ts : List State} {s : State} {q : Cursor} {x : Text}

@[simp] theorem emits_append_iff : Emits (ss ++ ts) q ↔ Emits ss q ∨ Emits ts q := by
  simp only [Emits, List.mem_append, or_and_right, exists_or]

@[simp] theorem emits_singleton_iff : Emits [s] q ↔ s.pos = q := by simp [Emits]

@[simp] theorem emits_prefer_iff {greedy : Bool} :
    Emits (Rounds.prefer greedy ss s) q ↔ Emits ss q ∨ s.pos = q := by
  unfold Rounds.prefer
  cases greedy <;> simp [or_comm, Emits]

theorem mem_prefer_iff {greedy : Bool} {t : State} :
    t ∈ Rounds.prefer greedy ss s ↔ t ∈ ss ∨ t = s := by
  unfold Rounds.prefer
  cases greedy <;> simp [or_comm]

/-! ### the first state at each place -/

theorem distinctFrom_subset (seen : List Nat) (ss : List State) : distinctFrom seen ss ⊆ ss := by
  fun_induction distinctFrom seen ss with
  | case1 => simp
  | case2 seen s rest _ ih => exact List.Subset.trans ih (List.subset_cons_self s rest)
  | case3 seen s rest _ ih => exact List.cons_subset_cons s ih

theorem exists_mem_distinctFrom (seen : List Nat) (hs : s ∈ ss) (hseen : s.left ∉ seen) :
    ∃ t ∈ distinctFrom seen ss, t.left = s.left := by
  fun_induction distinctFrom seen ss with
  | case1 => cases hs
  | case2 seen a rest h ih =>
    rcases List.mem_cons.1 hs with rfl | hs
    · exact absurd (by simpa using h) hseen
    · exact ih hs hseen
  | case3 seen a rest h ih =>
    by_cases ha : s.left = a.left
    · exact ⟨a, by simp, ha.symm⟩
    · rcases List.mem_cons.1 hs with rfl | hs
      · exact absurd rfl ha
      · obtain ⟨t, ht, hl⟩ := ih hs (by simp [ha, hseen])
        exact ⟨t, List.mem_cons_of_mem a ht, hl⟩

theorem mem_of_mem_distinct (h : s ∈ distinct ss) : s ∈ ss := distinctFrom_subset [] ss h

theorem emits_distinct_iff (hx : StandIn x ss) : Emits (distinct ss) q ↔ Emits ss q := by
  constructor
  · rintro ⟨t, ht, rfl⟩
    exact ⟨t, mem_of_mem_distinct ht, rfl⟩
  · rintro ⟨s, hs, rfl⟩
    obtain ⟨t, ht, hl⟩ := exists_mem_distinctFrom [] hs (by simp)
    exact ⟨t, ht, Cursor.eq_of_left ((hx t (mem_of_mem_distinct ht)).trans (hx s hs).symm) hl⟩

end

theorem Gives.standIn {f : State → List State} {R : Cursor → Cursor → Captures → Prop} {s : State}
    {x : Text} (hf : Gives f R) (hR : Advances R) (hs : s.pos.subject = x) : StandIn x (f s) := by
  intro t ht
  obtain ⟨w, hw, -⟩ := hf.sound s t ht
  obtain ⟨v, hv⟩ := hR _ _ _ hw
  exact hv.subject.trans hs

theorem Gives.left_le {f : State → List State} {R : Cursor → Cursor → Captures → Prop} {s t : State}
    (hf : Gives f R) (hR : Advances R) (ht : t ∈ f s) : t.left ≤ s.left := by
  obtain ⟨w, hw, -⟩ := hf.sound s t ht
  obtain ⟨v, hv⟩ := hR _ _ _ hw
  have := hv.left
  simp only [State.left]
  omega

theorem Gives.andThen {f g : State → List State} {R S : Cursor → Cursor → Captures → Prop}
    (hf : Gives f R) (hg : Gives g S) (hR : Advances R) (hS : Advances S) :
    Gives (fun s => distinct ((f s).flatMap g)) fun p q w => ∃ r u v, R p r u ∧ S r q v ∧
      w = v ++ u where
  sound s t ht := by
    obtain ⟨r, hr, ht⟩ := List.mem_flatMap.1 (mem_of_mem_distinct ht)
    obtain ⟨u, hu, hc⟩ := hf.sound s r hr
    obtain ⟨v, hv, hc'⟩ := hg.sound r t ht
    exact ⟨v ++ u, ⟨r.pos, u, v, hu, hv, rfl⟩, by rw [hc', hc, List.append_assoc]⟩
  complete := by
    rintro s q w ⟨p, u, v, hu, hv, -⟩
    have hx : StandIn s.pos.subject ((f s).flatMap g) := by
      intro t ht
      obtain ⟨r, hr, ht⟩ := List.mem_flatMap.1 ht
      exact hg.standIn hS (hf.standIn hR rfl r hr) t ht
    obtain ⟨r, hr, rfl⟩ := hf.complete s p u hu
    obtain ⟨t, ht, rfl⟩ := hg.complete r q v hv
    exact (emits_distinct_iff hx).2 ⟨t, List.mem_flatMap.2 ⟨r, hr, ht⟩, rfl⟩

/-- What one step of a fold brings about and later steps keep holds at the end. -/
theorem foldl_forall {α β : Type} {motive : β → Prop} {G : α → β → Prop} (op : β → α → β) {b : β}
    (l : List α) (hb : motive b)
    (step :
      ∀ b, ∀ a ∈ l, motive b → motive (op b a) ∧ G a (op b a) ∧ ∀ a', G a' b → G a' (op b a)) :
    motive (l.foldl op b) ∧ ∀ a ∈ l, G a (l.foldl op b) := by
  have keep : ∀ (l' : List α) (b : β), l' ⊆ l → motive b →
      motive (l'.foldl op b) ∧ (∀ a, G a b → G a (l'.foldl op b)) ∧
        ∀ a ∈ l', G a (l'.foldl op b) := by
    intro l'
    induction l' with
    | nil => exact fun b _ hb => ⟨hb, fun _ h => h, by simp⟩
    | cons a l' ih =>
      intro b hl hb
      obtain ⟨h₁, h₂, h₃⟩ := step b a (hl (by simp)) hb
      obtain ⟨k₁, k₂, k₃⟩ := ih (op b a) (fun c hc => hl (List.mem_cons_of_mem a hc)) h₁
      refine ⟨k₁, fun a' h => k₂ a' (h₃ a' h), fun a' ha' => ?_⟩
      rcases List.mem_cons.1 ha' with rfl | ha'
      · exact k₂ _ h₂
      · exact k₃ a' ha'
  obtain ⟨h₁, -, h₂⟩ := keep l b (List.Subset.refl l) hb
  exact ⟨h₁, h₂⟩

namespace Rounds

variable {body : State → List State} {R : Cursor → Cursor → Captures → Prop} {greedy : Bool}
  {x : Text} {ss : List State} {s t : State} {q : Cursor} {w : Captures} {n : Nat}

/-! ### a fixed number of rounds -/

theorem exactly_sound (hb : Gives body R) (ht : t ∈ exactly body n ss) :
    ∃ s ∈ ss, ∃ w, Iterates R n s.pos t.pos w ∧ t.captures = w ++ s.captures := by
  induction n generalizing ss with
  | zero => exact ⟨t, ht, [], .zero _, by simp⟩
  | succ n ih =>
    obtain ⟨r, hr, w, hw, hc⟩ := ih ht
    obtain ⟨s, hs, hr⟩ := List.mem_flatMap.1 (mem_of_mem_distinct hr)
    obtain ⟨u, hu, hc'⟩ := hb.sound s r hr
    exact ⟨s, hs, w ++ u, ⟨r.pos, u, w, hu, hw, rfl⟩, by rw [hc, hc', List.append_assoc]⟩

theorem exactly_complete (hR : Advances R) (hb : Gives body R) (hx : StandIn x ss) (hs : s ∈ ss)
    (h : Iterates R n s.pos q w) : Emits (exactly body n ss) q := by
  induction n generalizing ss s w with
  | zero =>
    obtain ⟨rfl, -⟩ := h
    exact ⟨s, hs, rfl⟩
  | succ n ih =>
    obtain ⟨r, u, v, h, h', -⟩ := h
    have hx' : StandIn x (ss.flatMap body) := by
      intro t ht
      obtain ⟨s, hs, ht⟩ := List.mem_flatMap.1 ht
      exact hb.standIn hR (hx s hs) t ht
    obtain ⟨t, ht, rfl⟩ := hb.complete s r u h
    obtain ⟨t', ht', hpos⟩ := (emits_distinct_iff hx').2 ⟨t, List.mem_flatMap.2 ⟨s, hs, ht⟩, rfl⟩
    exact ih (fun t ht => hx' t (mem_of_mem_distinct ht)) ht' (hpos ▸ h')

/-! ### a bounded number of rounds -/

/-- At most `n` rounds. -/
def Within (R : Cursor → Cursor → Captures → Prop) (n : Nat) (p q : Cursor) : Prop :=
  ∃ m ≤ n, ∃ w, Iterates R m p q w

/-- One state on the way of `upTo`: what is seen and given before it, and after it. -/
def visit (body : State → List State) (greedy : Bool) (n : Nat)
    (acc : List (Nat × Nat) × List State) (s : State) : List (Nat × Nat) × List State :=
  if acc.1.contains (n, s.left) then acc
  else
    ((upTo body greedy n ((n, s.left) :: acc.1) (body s)).1,
      acc.2 ++ prefer greedy (upTo body greedy n ((n, s.left) :: acc.1) (body s)).2 s)

theorem upTo_succ (seen : List (Nat × Nat)) (ss : List State) :
    upTo body greedy (n + 1) seen ss = ss.foldl (visit body greedy n) (seen, []) := rfl

theorem upTo_sound (hb : Gives body R) {seen : List (Nat × Nat)}
    (ht : t ∈ (upTo body greedy n seen ss).2) :
    ∃ s ∈ ss, ∃ m ≤ n, ∃ w, Iterates R m s.pos t.pos w ∧ t.captures = w ++ s.captures := by
  induction n generalizing seen ss t with
  | zero => exact ⟨t, ht, 0, Nat.le_refl 0, [], .zero _, by simp⟩
  | succ n ih =>
    rw [upTo_succ] at ht
    refine (foldl_forall (visit body greedy n) ss (b := (seen, []))
      (motive := fun acc => ∀ t ∈ acc.2, ∃ s ∈ ss, ∃ m ≤ n + 1, ∃ w,
        Iterates R m s.pos t.pos w ∧ t.captures = w ++ s.captures)
      (G := fun _ _ => True) (by simp) ?_).1 t ht
    intro acc s hs hacc
    refine ⟨?_, trivial, fun _ _ => trivial⟩
    intro t ht
    unfold visit at ht
    split at ht
    · exact hacc t ht
    · rcases List.mem_append.1 ht with ht | ht
      · exact hacc t ht
      · rcases mem_prefer_iff.1 ht with ht | rfl
        · obtain ⟨r, hr, m, hm, w, hw, hc⟩ := ih ht
          obtain ⟨u, hu, hc'⟩ := hb.sound s r hr
          exact ⟨s, hs, m + 1, by omega, w ++ u, ⟨r.pos, u, w, hu, hw, rfl⟩,
            by rw [hc, hc', List.append_assoc]⟩
        · exact ⟨t, hs, 0, Nat.zero_le _, [], .zero _, by simp⟩

/-- What the places in `seen` promise, as far as they are done with (those with fewer than `n`
rounds left). -/
def Visited (R : Cursor → Cursor → Captures → Prop) (x : Text) (n : Nat) (seen : List (Nat × Nat))
    (given : Cursor → Prop) : Prop :=
  ∀ k l, (k, l) ∈ seen → k < n → ∀ p : Cursor, p.subject = x → p.left = l → ∀ q,
    Within R (k + 1) p q → given q

theorem Visited.imp {seen : List (Nat × Nat)} {given given' : Cursor → Prop}
    (h : Visited R x n seen given) (hg : ∀ q, given q → given' q) : Visited R x n seen given' :=
  fun k l hk hn p hp hl q hq => hg q (h k l hk hn p hp hl q hq)

variable (greedy) in
theorem upTo_complete (hR : Advances R) (hb : Gives body R) (hx : StandIn x ss)
    {seen : List (Nat × Nat)} {given : Cursor → Prop} (hseen : Visited R x n seen given) :
    (∀ k l, (k, l) ∈ (upTo body greedy n seen ss).1 → n ≤ k → (k, l) ∈ seen) ∧
    Visited R x n (upTo body greedy n seen ss).1
      (fun q => given q ∨ Emits (upTo body greedy n seen ss).2 q) ∧
    ∀ s ∈ ss, ∀ q, Within R n s.pos q → given q ∨ Emits (upTo body greedy n seen ss).2 q := by
  induction n generalizing seen ss given with
  | zero =>
    refine ⟨fun k l h _ => h, fun k l _ hk => absurd hk (Nat.not_lt_zero k), ?_⟩
    rintro s hs q ⟨m, hm, w, hw⟩
    obtain rfl : m = 0 := by omega
    obtain ⟨rfl, -⟩ := hw
    exact .inr ⟨s, hs, rfl⟩
  | succ n ih =>
    rw [upTo_succ]
    rw [← and_assoc]
    refine foldl_forall (visit body greedy n) ss (b := (seen, []))
      (motive := fun acc => (∀ k l, (k, l) ∈ acc.1 → n + 1 ≤ k → (k, l) ∈ seen) ∧
        Visited R x (n + 1) acc.1 (fun q => given q ∨ Emits acc.2 q))
      (G := fun s acc => ∀ q, Within R (n + 1) s.pos q → given q ∨ Emits acc.2 q)
      ⟨fun k l h _ => h, hseen.imp fun q => .inl⟩ ?_
    intro acc s hs ⟨hkeys, hvisited⟩
    unfold visit
    split
    · rename_i hin
      exact ⟨⟨hkeys, hvisited⟩,
        hvisited n s.left (by simpa using hin) (Nat.lt_succ_self n) s.pos (hx s hs) rfl,
        fun _ h => h⟩
    · have hrest : Visited R x n ((n, s.left) :: acc.1) (fun q => given q ∨ Emits acc.2 q) := by
        intro k l hk hn
        rcases List.mem_cons.1 hk with h | hk
        · cases h
          exact absurd hn (Nat.lt_irrefl n)
        · exact hvisited k l hk (by omega)
      obtain ⟨h₁, h₂, h₃⟩ := ih (hb.standIn hR (hx s hs)) hrest
      generalize upTo body greedy n ((n, s.left) :: acc.1) (body s) = r at *
      have hreach :
          ∀ q, Within R (n + 1) s.pos q → given q ∨ Emits (acc.2 ++ prefer greedy r.2 s) q := by
        rintro q ⟨m, hm, w, hw⟩
        rw [emits_append_iff, emits_prefer_iff]
        cases m with
        | zero => exact .inr (.inr (.inr hw.1.symm))
        | succ m =>
          obtain ⟨p, u, v, hu, hv, -⟩ := hw
          obtain ⟨t, ht, rfl⟩ := hb.complete s p u hu
          rcases h₃ t ht q ⟨m, by omega, v, hv⟩ with (h | h) | h
          · exact .inl h
          · exact .inr (.inl h)
          · exact .inr (.inr (.inl h))
      refine ⟨⟨fun k l hk hn => ?_, fun k l hk hn p hp hl q hq => ?_⟩, hreach, fun s' h q hq => ?_⟩
      · rcases List.mem_cons.1 (h₁ k l hk (by omega)) with h | h
        · cases h
          omega
        · exact hkeys k l h hn
      · by_cases hkn : k < n
        · rcases h₂ k l hk hkn p hp hl q hq with (h | h) | h
          · exact .inl h
          · exact .inr (emits_append_iff.2 (.inl h))
          · exact .inr (emits_append_iff.2 (.inr (emits_prefer_iff.2 (.inl h))))
        · obtain rfl : k = n := by omega
          rcases List.mem_cons.1 (h₁ k l hk (Nat.le_refl k)) with h | h
          · cases h
            obtain rfl : p = s.pos := Cursor.eq_of_left (hp.trans (hx s hs).symm) hl
            exact hreach q hq
          · exact (hvisited k l h hn p hp hl q hq).imp id fun h => emits_append_iff.2 (.inl h)
      · exact (h q hq).imp id fun h => emits_append_iff.2 (.inl h)

/-! ### any number of rounds -/

/-- One arrival on the way of `more`, when there is fuel: what is seen and given before it, and
after it. -/
def arrive (body : State → List State) (greedy : Bool) (origin fuel : Nat)
    (acc : List Nat × List State) (s : State) : List Nat × List State :=
  if acc.1.contains s.left then acc
  else if s.left = origin then (s.left :: acc.1, acc.2 ++ [s])
  else
    ((more body greedy origin fuel (s.left :: acc.1) (body s)).1,
      acc.2 ++ prefer greedy (more body greedy origin fuel (s.left :: acc.1) (body s)).2 s)

/-- An arrival without fuel. -/
def arriveLast (acc : List Nat × List State) (s : State) : List Nat × List State :=
  if acc.1.contains s.left then acc else (s.left :: acc.1, acc.2 ++ [s])

theorem more_zero (origin : Nat) (seen : List Nat) (ss : List State) :
    more body greedy origin 0 seen ss = ss.foldl arriveLast (seen, []) := rfl

theorem more_succ (origin fuel : Nat) (seen : List Nat) (ss : List State) :
    more body greedy origin (fuel + 1) seen ss =
      ss.foldl (arrive body greedy origin fuel) (seen, []) :=
  rfl

theorem more_sound (hb : Gives body R) {origin fuel : Nat} {seen : List Nat}
    (ht : t ∈ (more body greedy origin fuel seen ss).2) :
    ∃ s ∈ ss, ∃ m w, Iterates R m s.pos t.pos w ∧ t.captures = w ++ s.captures := by
  induction fuel generalizing seen ss t with
  | zero =>
    rw [more_zero] at ht
    refine (foldl_forall arriveLast ss (b := (seen, [])) (motive :=
        fun acc => ∀ t ∈ acc.2, ∃ s ∈ ss, ∃ m w, Iterates R m s.pos t.pos w ∧
          t.captures = w ++ s.captures) (G := fun _ _ => True) (by simp) ?_).1 t ht
    intro acc s hs hacc
    refine ⟨?_, trivial, fun _ _ => trivial⟩
    intro t ht
    unfold arriveLast at ht
    split at ht
    · exact hacc t ht
    · rcases List.mem_append.1 ht with ht | ht
      · exact hacc t ht
      · obtain rfl := List.mem_singleton.1 ht
        exact ⟨t, hs, 0, [], .zero _, by simp⟩
  | succ fuel ih =>
    rw [more_succ] at ht
    refine (foldl_forall (arrive body greedy origin fuel) ss (b := (seen, [])) (motive :=
        fun acc => ∀ t ∈ acc.2, ∃ s ∈ ss, ∃ m w, Iterates R m s.pos t.pos w ∧
          t.captures = w ++ s.captures) (G := fun _ _ => True) (by simp) ?_).1 t ht
    intro acc s hs hacc
    refine ⟨?_, trivial, fun _ _ => trivial⟩
    have hstop : ∃ s' ∈ ss, ∃ m w, Iterates R m s'.pos s.pos w ∧ s.captures = w ++ s'.captures :=
      ⟨s, hs, 0, [], .zero _, by simp⟩
    intro t ht
    unfold arrive at ht
    split at ht
    · exact hacc t ht
    · split at ht
      · rcases List.mem_append.1 ht with ht | ht
        · exact hacc t ht
        · obtain rfl := List.mem_singleton.1 ht
          exact hstop
      · rcases List.mem_append.1 ht with ht | ht
        · exact hacc t ht
        · rcases mem_prefer_iff.1 ht with ht | rfl
          · obtain ⟨r, hr, m, w, hw, hc⟩ := ih ht
            obtain ⟨u, hu, hc'⟩ := hb.sound s r hr
            exact ⟨s, hs, m + 1, w ++ u, ⟨r.pos, u, w, hu, hw, rfl⟩,
              by rw [hc, hc', List.append_assoc]⟩
          · exact hstop

/-- Any number of rounds, each of which takes a character. -/
def Onwards (R : Cursor → Cursor → Captures → Prop) (p q : Cursor) : Prop :=
  ∃ m w, Iterates (Progress R) m p q w

/-- The place with `l` characters left is given, and with it, unless it is the origin, all places
after it. -/
def Closed (R : Cursor → Cursor → Captures → Prop) (x : Text) (origin l : Nat)
    (given : Cursor → Prop) : Prop :=
  ∀ p : Cursor, p.subject = x → p.left = l → given p ∧ (l ≠ origin → ∀ q, Onwards R p q → given q)

theorem Closed.imp {origin l : Nat} {given given' : Cursor → Prop} (h : Closed R x origin l given)
    (hg : ∀ q, given q → given' q) : Closed R x origin l given' :=
  fun p hp hl => ⟨hg p (h p hp hl).1, fun hne q hq => hg q ((h p hp hl).2 hne q hq)⟩

/-- Arrivals at places with at most `bound` characters left.  The places with fewer of them that
were seen before are closed; the one with `bound` characters left is the origin, or was seen and is
being dealt with. -/
structure Arrivals (R : Cursor → Cursor → Captures → Prop) (x : Text) (origin bound : Nat)
    (seen : List Nat) (given : Cursor → Prop) : Prop where
  bound_le : bound ≤ origin
  bound_seen : bound = origin ∨ bound ∈ seen
  closed : ∀ l ∈ seen, l < bound ∨ l = origin → Closed R x origin l given

/-- What arrivals lead to: places that are seen are closed in the end. -/
structure Arrived (R : Cursor → Cursor → Captures → Prop) (x : Text) (origin bound : Nat)
    (seen : List Nat) (given : Cursor → Prop) (acc : List Nat × List State) : Prop where
  seen_subset : seen ⊆ acc.1
  seen_or : ∀ l ∈ acc.1, l ∈ seen ∨ l ≤ bound
  closed :
    ∀ l ∈ acc.1, l < bound ∨ l = origin → Closed R x origin l fun q => given q ∨ Emits acc.2 q

section

variable {origin bound : Nat} {seen : List Nat} {given : Cursor → Prop}
  {acc : List Nat × List State}

theorem Closed.append {l : Nat} {out : List State}
    (h : Closed R x origin l fun q => given q ∨ Emits out q) (out' : List State) :
    Closed R x origin l fun q => given q ∨ Emits (out ++ out') q :=
  h.imp fun _ => Or.imp id fun h => emits_append_iff.2 (.inl h)

theorem Arrivals.arrived (ha : Arrivals R x origin bound seen given) :
    Arrived R x origin bound seen given (seen, []) :=
  ⟨List.Subset.refl seen, fun _ h => .inl h, fun l hl hb => (ha.closed l hl hb).imp fun _ => .inl⟩

/-- A place that was not seen and is not the origin has fewer characters left than the bound. -/
theorem Arrivals.left_lt (ha : Arrivals R x origin bound seen given)
    (h : Arrived R x origin bound seen given acc) (hle : s.left ≤ bound) (hin : s.left ∉ acc.1)
    (ho : s.left ≠ origin) : s.left < bound := by
  refine Nat.lt_of_le_of_ne hle fun heq => ?_
  rcases ha.bound_seen with hb | hb
  · exact ho (heq.trans hb)
  · exact hin (h.seen_subset (heq ▸ hb))

/-- The arrivals after such a place, which is being dealt with. -/
theorem Arrived.arrivals (h : Arrived R x origin bound seen given acc) (hlt : s.left < bound)
    (hle : bound ≤ origin) :
    Arrivals R x origin s.left (s.left :: acc.1) fun q => given q ∨ Emits acc.2 q := by
  refine ⟨Nat.le_of_lt (Nat.lt_of_lt_of_le hlt hle), .inr (by simp), fun l hl hlb => ?_⟩
  rcases List.mem_cons.1 hl with rfl | hl
  · exact absurd hlb (by omega)
  · exact h.closed l hl (by omega)

/-- An arrival at the origin is given and not followed further. -/
theorem Arrived.stop (h : Arrived R x origin bound seen given acc) (hs : s.pos.subject = x)
    (hb : s.left ≤ bound) (ho : s.left = origin) :
    (Closed R x origin s.left fun q => given q ∨ Emits (acc.2 ++ [s]) q) ∧
    Arrived R x origin bound seen given (s.left :: acc.1, acc.2 ++ [s]) := by
  have hclosed : Closed R x origin s.left fun q => given q ∨ Emits (acc.2 ++ [s]) q := by
    intro p hp hl
    obtain rfl : p = s.pos := Cursor.eq_of_left (hp.trans hs.symm) hl
    exact ⟨.inr (by simp), fun hne => absurd ho hne⟩
  refine ⟨hclosed, List.Subset.trans h.seen_subset (List.subset_cons_self _ _), fun l hl => ?_,
    fun l hl hlb => ?_⟩
  · rcases List.mem_cons.1 hl with rfl | hl
    · exact .inr hb
    · exact h.seen_or l hl
  · rcases List.mem_cons.1 hl with rfl | hl
    · exact hclosed
    · exact (h.closed l hl hlb).append [s]

variable (greedy) in
/-- Any other arrival is followed by one more round, with the arrivals after that. -/
theorem Arrived.further (hR : Advances R) (hb : Gives body R)
    (h : Arrived R x origin bound seen given acc) (hs : s.pos.subject = x) (hlt : s.left < bound)
    (ho : s.left < origin) {r : List Nat × List State}
    (hr : Arrived R x origin s.left (s.left :: acc.1) (fun q => given q ∨ Emits acc.2 q) r)
    (hnext : ∀ t ∈ body s, t.left < s.left ∨ t.left = origin →
      Closed R x origin t.left fun q => (given q ∨ Emits acc.2 q) ∨ Emits r.2 q) :
    (Closed R x origin s.left fun q => given q ∨ Emits (acc.2 ++ prefer greedy r.2 s) q) ∧
    Arrived R x origin bound seen given (r.1, acc.2 ++ prefer greedy r.2 s) := by
  have hweak : ∀ q, (given q ∨ Emits acc.2 q) ∨ Emits r.2 q →
      given q ∨ Emits (acc.2 ++ prefer greedy r.2 s) q := by
    intro q hq
    rw [emits_append_iff, emits_prefer_iff]
    tauto
  have hstop : Emits (acc.2 ++ prefer greedy r.2 s) s.pos := by
    rw [emits_append_iff, emits_prefer_iff]
    exact .inr (.inr rfl)
  have hclosed :
      Closed R x origin s.left fun q => given q ∨ Emits (acc.2 ++ prefer greedy r.2 s) q := by
    intro p hp hl
    obtain rfl : p = s.pos := Cursor.eq_of_left (hp.trans hs.symm) hl
    refine ⟨.inr hstop, fun _ q ⟨m, w, hw⟩ => ?_⟩
    cases m with
    | zero => exact .inr (hw.1 ▸ hstop)
    | succ m =>
      obtain ⟨p, u, v, ⟨hu, hlu⟩, hv, -⟩ := hw
      obtain ⟨t, ht, rfl⟩ := hb.complete s p u hu
      have hlt' : t.left < s.left := hlu
      have htx : t.pos.subject = x := hb.standIn hR hs t ht
      exact hweak q ((hnext t ht (.inl hlt') t.pos htx rfl).2 (by omega) q ⟨m, v, hv⟩)
  refine ⟨hclosed,
    List.Subset.trans h.seen_subset (List.Subset.trans (List.subset_cons_self _ _) hr.seen_subset),
    fun l hl => ?_, fun l hl hlb => ?_⟩
  · rcases hr.seen_or l hl with hl | hl
    · rcases List.mem_cons.1 hl with rfl | hl
      · exact .inr (Nat.le_of_lt hlt)
      · exact h.seen_or l hl
    · exact .inr (by omega)
  · by_cases hl' : l < s.left ∨ l = origin
    · exact (hr.closed l hl hl').imp hweak
    · rcases hr.seen_or l hl with hl | hl
      · rcases List.mem_cons.1 hl with rfl | hl
        · exact hclosed
        · exact (h.closed l hl hlb).append _
      · obtain rfl : l = s.left := by omega
        exact hclosed

end

variable (greedy) in
theorem more_complete (hR : Advances R) (hb : Gives body R) {origin bound fuel : Nat}
    {seen : List Nat} {given : Cursor → Prop} (hx : StandIn x ss) (hss : ∀ s ∈ ss, s.left ≤ bound)
    (hfuel : ∀ s ∈ ss, s.left < bound → s.left < fuel) (ha : Arrivals R x origin bound seen given) :
    Arrived R x origin bound seen given (more body greedy origin fuel seen ss) ∧
    ∀ s ∈ ss, s.left < bound ∨ s.left = origin →
      Closed R x origin s.left fun q => given q ∨
        Emits (more body greedy origin fuel seen ss).2 q := by
  induction fuel generalizing seen ss given bound with
  | zero =>
    rw [more_zero]
    refine foldl_forall arriveLast ss (b := (seen, []))
      (motive := Arrived R x origin bound seen given) (G :=
        fun s acc => s.left < bound ∨ s.left = origin →
          Closed R x origin s.left fun q => given q ∨ Emits acc.2 q) ha.arrived ?_
    intro acc s hs hacc
    unfold arriveLast
    split
    · rename_i hin
      exact ⟨hacc, hacc.closed s.left (by simpa using hin), fun _ h => h⟩
    · rename_i hin
      have ho : s.left = origin := by
        by_contra ho
        exact absurd (hfuel s hs (ha.left_lt hacc (hss s hs) (by simpa using hin) ho))
          (Nat.not_lt_zero _)
      obtain ⟨h₁, h₂⟩ := hacc.stop (hx s hs) (hss s hs) ho
      exact ⟨h₂, fun _ => h₁, fun _ h hl => (h hl).append _⟩
  | succ fuel ih =>
    rw [more_succ]
    refine foldl_forall (arrive body greedy origin fuel) ss (b := (seen, []))
      (motive := Arrived R x origin bound seen given)
      (G := fun s acc => s.left < bound ∨ s.left = origin →
        Closed R x origin s.left fun q => given q ∨ Emits acc.2 q) ha.arrived ?_
    intro acc s hs hacc
    unfold arrive
    split
    · rename_i hin
      exact ⟨hacc, hacc.closed s.left (by simpa using hin), fun _ h => h⟩
    · rename_i hin
      split
      · rename_i ho
        obtain ⟨h₁, h₂⟩ := hacc.stop (hx s hs) (hss s hs) ho
        exact ⟨h₂, fun _ => h₁, fun _ h hl => (h hl).append _⟩
      · rename_i ho
        have hl := ha.left_lt hacc (hss s hs) (by simpa using hin) ho
        have hfew : s.left < origin := Nat.lt_of_lt_of_le hl ha.bound_le
        have hfuel' := hfuel s hs hl
        obtain ⟨h₁, h₂⟩ := ih (hb.standIn hR (hx s hs)) (fun t ht => hb.left_le hR ht)
          (fun t _ ht => by omega) (hacc.arrivals hl ha.bound_le)
        obtain ⟨h₁, h₂⟩ := hacc.further greedy hR hb (hx s hs) hl hfew h₁ h₂
        exact ⟨h₂, fun _ => h₁, fun _ h hl => (h hl).append _⟩

variable (greedy) in
theorem repeated_gives (hR : Advances R) (hb : Gives body R) :
    Gives (repeated body greedy) fun p q w => ∃ n, Iterates R (n + 1) p q w where
  sound s t ht := by
    obtain ⟨r, hr, m, w, hw, hc⟩ := more_sound hb ht
    obtain ⟨u, hu, hc'⟩ := hb.sound s r hr
    exact ⟨w ++ u, ⟨m, r.pos, u, w, hu, hw, rfl⟩, by rw [hc, hc', List.append_assoc]⟩
  complete := by
    rintro s q w ⟨n, p, u, v, hu, hv, -⟩
    obtain ⟨x, hx⟩ := hR _ _ _ hu
    obtain ⟨y, hy⟩ := hv.takes hR
    obtain ⟨t, ht, rfl⟩ := hb.complete s p u hu
    have hstand : StandIn s.pos.subject (body s) := hb.standIn hR rfl
    have hle : ∀ t ∈ body s, t.left ≤ s.left := fun t ht => hb.left_le hR ht
    have ha : Arrivals R s.pos.subject s.left s.left [] fun _ => False :=
      ⟨Nat.le_refl _, .inl rfl, by simp⟩
    obtain ⟨-, hclosed⟩ := more_complete greedy hR hb hstand hle (fun t _ h => h) ha
    have hgiven : ∀ t ∈ body s, Emits (repeated body greedy s) t.pos ∧
        (t.left ≠ s.left → ∀ q, Onwards R t.pos q → Emits (repeated body greedy s) q) := by
      intro t ht
      obtain ⟨h₁, h₂⟩ := hclosed t ht (Nat.lt_or_eq_of_le (hle t ht)) t.pos (hstand t ht) rfl
      exact ⟨h₁.resolve_left id, fun hne q hq => (h₂ hne q hq).resolve_left id⟩
    obtain ⟨m, -, w', hw'⟩ := hv.progress hR
    by_cases ho : t.left = s.left
    · -- the first round took nothing: the next one that takes something starts where it did
      have hpos : t.pos = s.pos := hx.eq_of_left ho
      cases m with
      | zero => exact hw'.1 ▸ (hgiven t ht).1
      | succ m =>
        obtain ⟨r, u', v', ⟨hr, hl⟩, hrest, -⟩ := hw'
        obtain ⟨t', ht', rfl⟩ := hb.complete s r u' (hpos ▸ hr)
        refine (hgiven t' ht').2 ?_ q ⟨m, v', hrest⟩
        rw [hpos] at hl
        exact Nat.ne_of_lt hl
    · exact (hgiven t ht).2 ho q ⟨m, w', hw'⟩

/-! ### between two numbers of rounds -/

theorem exactly_gives (hR : Advances R) (hb : Gives body R) (n : Nat) :
    Gives (fun s => exactly body n [s]) (Iterates R n) where
  sound s t ht := by
    obtain ⟨s', hs', w, hw, hc⟩ := exactly_sound hb ht
    obtain rfl := List.mem_singleton.1 hs'
    exact ⟨w, hw, hc⟩
  complete s q w h :=
    exactly_complete (x := s.pos.subject) hR hb (by simp [StandIn]) (List.mem_singleton_self s) h

variable (greedy) in
theorem upTo_gives (hR : Advances R) (hb : Gives body R) (n : Nat) :
    Gives (fun s => (upTo body greedy n [] [s]).2) fun p q w => ∃ m ≤ n, Iterates R m p q w where
  sound s t ht := by
    obtain ⟨s', hs', m, hm, w, hw, hc⟩ := upTo_sound hb ht
    obtain rfl := List.mem_singleton.1 hs'
    exact ⟨w, ⟨m, hm, hw⟩, hc⟩
  complete := by
    rintro s q w ⟨m, hm, hw⟩
    have hseen : Visited R s.pos.subject n [] fun _ => False := fun k l h => absurd h (by simp)
    have hx : StandIn s.pos.subject [s] := by simp [StandIn]
    obtain ⟨-, -, h⟩ := upTo_complete greedy hR hb hx hseen
    exact (h s (List.mem_singleton_self s) q ⟨m, hm, w, hw⟩).resolve_left id

variable (greedy) in
theorem between_gives (hR : Advances R) (hb : Gives body R) (lo : Nat) (hi : Option Nat) :
    Gives (between body greedy lo hi) fun p q w => ∃ n, (∀ h ∈ hi, n ≤ h - lo) ∧
      Iterates R (lo + n) p q w := by
  have hexactly : ∀ m, Advances (Iterates R m) := fun m p q w h => h.takes hR
  have hupTo : ∀ m, Advances fun p q w => ∃ k ≤ m, Iterates R k p q w :=
    fun m p q w ⟨k, _, h⟩ => h.takes hR
  have hrepeated : Advances fun p q w => ∃ m, Iterates R (m + 1) p q w :=
    fun p q w ⟨m, h⟩ => h.takes hR
  match hi, lo with
  | some hi, lo =>
    obtain ⟨hs, hc⟩ := (exactly_gives hR hb lo).andThen (upTo_gives greedy hR hb (hi - lo))
      (hexactly lo) (hupTo (hi - lo))
    refine ⟨fun s t ht => ?_, fun s q w h => ?_⟩
    · obtain ⟨w, ⟨r, u, v, hu, ⟨m, hm, hv⟩, rfl⟩, hcap⟩ := hs s t ht
      exact ⟨v ++ u, ⟨m, by rintro h ⟨⟩; exact hm, hu.add hv⟩, hcap⟩
    · obtain ⟨m, hm, h⟩ := h
      obtain ⟨r, u, v, hu, hv, rfl⟩ := iterates_add_iff.1 h
      exact hc s q (v ++ u) ⟨r, u, v, hu, ⟨m, hm hi rfl, hv⟩, rfl⟩
  | none, lo + 1 =>
    obtain ⟨hs, hc⟩ := (exactly_gives hR hb lo).andThen (repeated_gives greedy hR hb) (hexactly lo)
      hrepeated
    have hadd : ∀ m, lo + 1 + m = lo + (m + 1) := fun m => by omega
    refine ⟨fun s t ht => ?_, fun s q w h => ?_⟩
    · obtain ⟨w, ⟨r, u, v, hu, ⟨m, hv⟩, rfl⟩, hcap⟩ := hs s t ht
      exact ⟨v ++ u, ⟨m, by rintro h ⟨⟩, hadd m ▸ hu.add hv⟩, hcap⟩
    · obtain ⟨m, -, h⟩ := h
      obtain ⟨r, u, v, hu, hv, rfl⟩ := iterates_add_iff.1 (hadd m ▸ h)
      exact hc s q (v ++ u) ⟨r, u, v, hu, ⟨m, hv⟩, rfl⟩
  | none, 0 =>
    obtain ⟨hs, hc⟩ := repeated_gives greedy hR hb
    refine ⟨fun s t ht => ?_, fun s q w h => ?_⟩
    · rcases mem_prefer_iff.1 (mem_of_mem_distinct ht) with ht | rfl
      · obtain ⟨w, ⟨m, hw⟩, hcap⟩ := hs s t ht
        exact ⟨w, ⟨m + 1, by rintro h ⟨⟩, by rwa [Nat.zero_add]⟩, hcap⟩
      · exact ⟨[], ⟨0, by rintro h ⟨⟩, .zero _⟩, by simp⟩
    · obtain ⟨m, -, h⟩ := h
      have hx : StandIn s.pos.subject (prefer greedy (repeated body greedy s) s) := by
        intro t ht
        rcases mem_prefer_iff.1 ht with ht | rfl
        · exact Gives.standIn ⟨hs, hc⟩ hrepeated rfl t ht
        · rfl
      refine (emits_distinct_iff hx).2 (emits_prefer_iff.2 ?_)
      rw [Nat.zero_add] at h
      cases m with
      | zero => exact .inr h.1.symm
      | succ m => exact .inl (hc s q w ⟨m, h⟩)

end Rounds

namespace Node

theorem gives_advance (p : Char → Bool) :
    Gives (fun s => (s.advance? p).toList) fun r q w => ∃ d, p d = true ∧ r.Takes [d] q ∧
      w = [] where
  sound s t ht := by
    unfold State.advance? at ht
    split at ht
    · simp at ht
    · rename_i c after hc
      split at ht
      · rename_i hp
        simp only [Option.toList_some, List.mem_singleton] at ht
        subst ht
        exact ⟨[], ⟨c, hp, ⟨hc, rfl⟩, rfl⟩, rfl⟩
      · simp at ht
  complete := by
    rintro s q w ⟨d, hp, h, -⟩
    obtain ⟨a, ha, h⟩ := Cursor.takes_cons_iff.1 h
    obtain rfl := Cursor.takes_nil_iff.1 h
    exact ⟨{ s with pos := ⟨d :: s.pos.before, a⟩ }, by simp [State.advance?, ha, hp], rfl⟩

theorem ways_gives {n : Node} (hn : n.isPlain = true) : Gives n.ways n.Matches := by
  induction n with
  | empty =>
    refine ⟨fun s t ht => ?_, fun s q w h => ⟨s, List.mem_singleton_self s, h.1.symm⟩⟩
    obtain rfl := List.mem_singleton.1 ht
    exact ⟨[], ⟨rfl, rfl⟩, rfl⟩
  | char c i => exact gives_advance _
  | oneOf s => exact gives_advance _
  | assertion a =>
    refine ⟨fun s t ht => ?_, fun s q w h => ?_⟩
    · unfold ways at ht
      split at ht
      · rename_i ha
        obtain rfl := List.mem_singleton.1 ht
        exact ⟨[], ⟨ha, rfl, rfl⟩, rfl⟩
      · simp at ht
    · obtain ⟨ha, rfl, -⟩ := h
      exact ⟨s, by simp [ways, ha], rfl⟩
  | seq a b iha ihb =>
    simp only [isPlain, Bool.and_eq_true] at hn
    exact (iha hn.1).andThen (ihb hn.2) (advances_matches a) (advances_matches b)
  | alt a b iha ihb =>
    simp only [isPlain, Bool.and_eq_true] at hn
    obtain ⟨hsa, hca⟩ := iha hn.1
    obtain ⟨hsb, hcb⟩ := ihb hn.2
    refine ⟨fun s t ht => ?_, fun s q w h => ?_⟩
    · rcases List.mem_append.1 (mem_of_mem_distinct ht) with ht | ht
      · obtain ⟨w, hw, hc⟩ := hsa s t ht
        exact ⟨w, .inl hw, hc⟩
      · obtain ⟨w, hw, hc⟩ := hsb s t ht
        exact ⟨w, .inr hw, hc⟩
    · have hx : StandIn s.pos.subject (a.ways s ++ b.ways s) := by
        intro t ht
        rcases List.mem_append.1 ht with ht | ht
        · exact (iha hn.1).standIn (advances_matches a) rfl t ht
        · exact (ihb hn.2).standIn (advances_matches b) rfl t ht
      exact (emits_distinct_iff hx).2 (emits_append_iff.2 (h.imp (hca s q w) (hcb s q w)))
  | group i a ih =>
    obtain ⟨hs, hc⟩ := ih hn
    refine ⟨fun s t ht => ?_, fun s q w h => ?_⟩
    · obtain ⟨r, hr, rfl⟩ := List.mem_map.1 ht
      obtain ⟨w, hw, hcap⟩ := hs s r hr
      exact ⟨(i, some ⟨s.pos, r.pos⟩) :: w, ⟨w, hw, rfl⟩, by simp [State.capture, hcap]⟩
    · obtain ⟨u, h, -⟩ := h
      obtain ⟨t, ht, rfl⟩ := hc s q u h
      exact ⟨t.capture i s.pos, List.mem_map.2 ⟨t, ht, rfl⟩, rfl⟩
  | loop a lo hi greedy ih => exact Rounds.between_gives greedy (advances_matches a) (ih hn) lo hi
  | _ => cases hn

end Node

end PathTemplate
