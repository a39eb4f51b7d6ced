import PathTemplate.Proofs.Expression.Budget
import PathTemplate.Proofs.Expression.Move

/-!
# The language of literal text

A text is cut where its delimiters are found from the left, and delimiters that follow each other
are one run. A quoted text matches itself alone; with loose delimiters it matches the texts that
differ from it in the number of delimiters of each run.

* `uncut` — a text, given what is before its first run, and for each run how long it is and what
  follows it;
* `IsCut` — the runs are those that are found from the left;
* `Recounts` — the same runs with other lengths;
* `exists_isCut`, `IsCut.recounts` — every text can be cut, and a text with other lengths is cut
  at the same places;
* `Expression.source_uncut`, `IsCut.sense_iff` — the expression of such a text, and what it matches;
* `Expression.Literal.language` — the language of literal text.
-/

namespace PathTemplate

/-- The text with `head` before its first run of delimiters; each run is given by its length and by
what follows it. -/
def uncut (D : Text) : Text → List (Nat × Text) → Text
  | head, [] => head
  | head, (n, next) :: runs => head ++ ((List.replicate n D).flatten ++ uncut D next runs)

/-- The runs are those that are found from the left: no delimiter begins before a run or after the
last one, and there is something between two runs. -/
def IsCut (D : Text) : Text → List (Nat × Text) → Prop
  | head, [] => Avoids false D head []
  | head, (n, next) :: runs =>
    1 ≤ n ∧ Avoids false D head ((List.replicate n D).flatten ++ uncut D next runs) ∧
    (runs ≠ [] → next ≠ []) ∧ IsCut D next runs

/-- The same runs with other lengths, one delimiter at least. -/
def Recounts : List (Nat × Text) → List (Nat × Text) → Prop :=
  List.Forall₂ fun r r' => 1 ≤ r'.1 ∧ r'.2 = r.2

section

variable {D head t u v x y : Text} {n : Nat} {runs runs' : List (Nat × Text)}

/-! ### delimiters -/

theorem begins_false_iff : Begins false D t ↔ D <+: t := by
  constructor
  · rintro ⟨v, rest, hv, rfl⟩
    rw [alike_false_iff.1 hv]
    exact List.prefix_append D rest
  · rintro ⟨rest, rfl⟩
    exact ⟨D, rest, .refl false D, rfl⟩

instance (D t : Text) : Decidable (Begins false D t) := decidable_of_iff _ begins_false_iff.symm

instance Avoids.decidable (D : Text) : (v rest : Text) → Decidable (Avoids false D v rest)
  | [], _ => .isTrue avoids_nil
  | _ :: v, rest =>
    have := Avoids.decidable D v rest
    decidable_of_iff _ avoids_cons_iff.symm

instance IsCut.decidable (D : Text) : (head : Text) → (runs : List (Nat × Text)) →
  Decidable (IsCut D head runs)
  | head, [] => inferInstanceAs (Decidable (Avoids false D head []))
  | head, (n, next) :: runs =>
    have := IsCut.decidable D next runs
    inferInstanceAs (Decidable (1 ≤ n ∧
      Avoids false D head ((List.replicate n D).flatten ++ uncut D next runs) ∧
      (runs ≠ [] → next ≠ []) ∧ IsCut D next runs))

/-- What begins before a delimiter does not depend on what is after it. -/
theorem Avoids.of_delimiter (h : Avoids false D v (D ++ x)) : Avoids false D v (D ++ y) := by
  intro a b hab hb hbegins
  rw [← List.append_assoc] at hbegins
  have hbegins' : Begins false D (b ++ D) := hbegins.of_append (by simp)
  refine h a b hab hb ?_
  rw [← List.append_assoc]
  exact hbegins'.append x

theorem exists_flatten_replicate (hn : 1 ≤ n) (x : Text) :
    ∃ y, (List.replicate n D).flatten ++ x = D ++ y := by
  obtain ⟨n, rfl⟩ := Nat.exists_eq_add_of_le' hn
  exact ⟨(List.replicate n D).flatten ++ x,
    by rw [List.replicate_succ, List.flatten_cons, List.append_assoc]⟩

/-! ### cuts -/

theorem uncut_cons (c : Char) (head : Text) (runs : List (Nat × Text)) :
    uncut D (c :: head) runs = c :: uncut D head runs := by
  cases runs <;> rfl

theorem IsCut.avoids (h : IsCut D head runs) :
    ∃ rest, uncut D head runs = head ++ rest ∧ Avoids false D head rest := by
  cases runs with
  | nil => exact ⟨[], (List.append_nil head).symm, h⟩
  | cons r runs => exact ⟨_, rfl, h.2.1⟩

theorem IsCut.cons {c : Char} (h : IsCut D head runs) (hc : ¬D <+: c :: uncut D head runs) :
    IsCut D (c :: head) runs := by
  have hbegins : ¬Begins false D (c :: uncut D head runs) := fun hb => hc (begins_false_iff.1 hb)
  cases runs with
  | nil => exact avoids_cons_iff.2 ⟨by rw [List.append_nil]; exact hbegins, h⟩
  | cons r runs => exact ⟨h.1, avoids_cons_iff.2 ⟨hbegins, h.2.1⟩, h.2.2⟩

/-- Where something follows a run, or the text ends, no delimiter begins. -/
theorem IsCut.no_delimiter (hD : D ≠ []) (h : IsCut D head runs) (hhead : runs ≠ [] → head ≠ []) :
    ¬D <+: uncut D head runs := by
  obtain ⟨rest, hrest, havoids⟩ := h.avoids
  cases head with
  | nil =>
    have hruns : runs = [] := by
      by_contra hruns
      exact hhead hruns rfl
    subst hruns
    exact fun hpre => hD (List.prefix_nil.1 hpre)
  | cons c head =>
    rw [hrest]
    exact fun hpre => havoids [] (c :: head) rfl (by simp) (begins_false_iff.2 hpre)

theorem exists_isCut (hD : D ≠ []) (t : Text) :
    ∃ head runs, IsCut D head runs ∧ uncut D head runs = t := by
  induction hlen : t.length using Nat.strong_induction_on generalizing t with
  | _ m ih =>
    by_cases hpre : D <+: t
    · -- all delimiters at the start are one run
      obtain ⟨n, s, rfl, hs⟩ := exists_eq_delimiters_append hD t
      have hn : 1 ≤ n := by
        by_contra hn
        obtain rfl : n = 0 := by omega
        exact hs hpre
      have hpos := List.length_pos_iff.2 hD
      obtain ⟨y, hy⟩ := exists_flatten_replicate (D := D) hn []
      have hlt : s.length < m := by
        have hy' := congrArg List.length hy
        simp only [List.length_append, List.length_nil] at hlen hy'
        omega
      obtain ⟨head, runs, hcut, rfl⟩ := ih _ hlt s rfl
      refine ⟨[], (n, head) :: runs, ⟨hn, avoids_nil, fun hruns => ?_, hcut⟩, rfl⟩
      rintro rfl
      obtain ⟨⟨k, next⟩, runs, rfl⟩ := List.exists_cons_of_ne_nil hruns
      obtain ⟨z, hz⟩ := exists_flatten_replicate (D := D) hcut.1 (uncut D next runs)
      exact hs ⟨z, hz.symm⟩
    · cases t with
      | nil => exact ⟨[], [], avoids_nil, rfl⟩
      | cons c t =>
        obtain ⟨head, runs, hcut, rfl⟩ := ih t.length (by rw [← hlen]; exact Nat.lt_succ_self _) t
          rfl
        exact ⟨c :: head, runs, hcut.cons hpre, uncut_cons c head runs⟩

theorem Recounts.refl (h : IsCut D head runs) : Recounts runs runs := by
  induction runs generalizing head with
  | nil => exact .nil
  | cons r runs ih => exact .cons ⟨h.1, rfl⟩ (ih h.2.2.2)

/-- With other lengths, the runs are still those that are found from the left. -/
theorem IsCut.recounts (h : IsCut D head runs) (hruns : Recounts runs runs') :
    IsCut D head runs' := by
  induction hruns generalizing head with
  | nil => exact h
  | @cons r r' runs runs' hr hruns ih =>
    obtain ⟨n, next⟩ := r
    obtain ⟨n', next'⟩ := r'
    obtain ⟨hn', rfl⟩ := hr
    obtain ⟨hn, havoids, hnext, hcut⟩ := h
    refine ⟨hn', ?_, fun hne => hnext ?_, ih hcut⟩
    · obtain ⟨y, hy⟩ := exists_flatten_replicate (D := D) hn (uncut D next' runs)
      obtain ⟨y', hy'⟩ := exists_flatten_replicate (D := D) hn' (uncut D next' runs')
      rw [hy] at havoids
      rw [hy']
      exact havoids.of_delimiter
    · rintro rfl
      cases hruns
      exact hne rfl

end

/-! ### their expressions -/

namespace Expression

variable {D head t x : Text} {n : Nat} {inRun : Bool} {runs runs' : List (Nat × Text)}

/-- The expression of a text that is cut, with its delimiters loose. -/
def cutSource (D head : Text) (runs : List (Nat × Text)) : Text :=
  quote head ++ runs.flatMap fun r => delimiterRun D ++ quote r.2

theorem cutSource_cons (D head : Text) (r : Nat × Text) (runs : List (Nat × Text)) :
    cutSource D head (r :: runs) = quote head ++ (delimiterRun D ++ cutSource D r.2 runs) := by
  simp [cutSource]

theorem loosenFrom_skip (D s x : Text) (inRun : Bool) :
    loosenFrom D s.length inRun (s ++ x) = loosenFrom D 0 inRun x := by
  induction s with
  | nil => rfl
  | cons c s ih =>
    rw [List.length_cons, List.cons_append, loosenFrom]
    exact ih

theorem loosenFrom_delimiter (hD : D ≠ []) (x : Text) (inRun : Bool) :
    loosenFrom D 0 inRun (D ++ x) =
      (if inRun then [] else delimiterRun D) ++ loosenFrom D 0 true x := by
  obtain ⟨d, D, rfl⟩ := List.exists_cons_of_ne_nil hD
  have hpre : (d :: D).isPrefixOf (d :: (D ++ x)) = true := List.isPrefixOf_iff_prefix.2 ⟨x, rfl⟩
  rw [List.cons_append, loosenFrom, if_pos hpre, List.length_cons, Nat.add_sub_cancel,
    loosenFrom_skip]

/-- The delimiters of a run are one. -/
theorem loosenFrom_run (hD : D ≠ []) (hn : 1 ≤ n) (x : Text) (inRun : Bool) :
    loosenFrom D 0 inRun ((List.replicate n D).flatten ++ x) =
      (if inRun then [] else delimiterRun D) ++ loosenFrom D 0 true x := by
  induction n, hn using Nat.le_induction generalizing inRun with
  | base => simpa using loosenFrom_delimiter hD x inRun
  | succ n hn ih =>
    rw [List.replicate_succ, List.flatten_cons, List.append_assoc, loosenFrom_delimiter hD, ih]
    simp

theorem loosenFrom_avoids (h : Avoids false D t x) (inRun : Bool) :
    loosenFrom D 0 inRun (t ++ x) = quote t ++ loosenFrom D 0 (inRun && t.isEmpty) x := by
  induction t generalizing inRun with
  | nil => simp
  | cons c t ih =>
    obtain ⟨hbegins, havoids⟩ := avoids_cons_iff.1 h
    have hpre : ¬D.isPrefixOf (c :: (t ++ x)) = true := fun hpre =>
      hbegins (begins_false_iff.2 (List.isPrefixOf_iff_prefix.1 hpre))
    rw [List.cons_append, loosenFrom, if_neg hpre, ih havoids, quote_cons]
    simp

/-- The expression of a text has one piece for each run, and what is between runs is quoted. -/
theorem loosenFrom_uncut (hD : D ≠ []) (h : IsCut D head runs)
    (hstart : inRun = true → runs ≠ [] → head ≠ []) :
    loosenFrom D 0 inRun (uncut D head runs) = cutSource D head runs := by
  induction runs generalizing head inRun with
  | nil =>
    have havoids := loosenFrom_avoids h inRun
    simpa [uncut, cutSource, loosenFrom] using havoids
  | cons r runs ih =>
    obtain ⟨hn, havoids, hnext, hcut⟩ := h
    have hfirst : (inRun && head.isEmpty) = false := by
      cases inRun with
      | false => rfl
      | true => simpa using hstart rfl (by simp)
    rw [cutSource_cons, uncut, loosenFrom_avoids havoids, hfirst, loosenFrom_run hD hn,
      ih hcut fun _ => hnext]
    simp

theorem source_uncut (hD : D ≠ []) (h : IsCut D head runs) :
    (Literal.mk D true).source (uncut D head runs) = cutSource D head runs := by
  have hsource := @loosenFrom_uncut D head false runs hD h (by simp)
  simpa [Literal.source, loosen, hD] using hsource

/-- The length of runs does not matter. -/
theorem source_recounts (hD : D ≠ []) (h : IsCut D head runs) (hruns : Recounts runs runs') :
    (Literal.mk D true).source (uncut D head runs') =
      (Literal.mk D true).source (uncut D head runs) := by
  have hsame : ∀ {runs runs' : List (Nat × Text)}, Recounts runs runs' →
      ∀ head, cutSource D head runs' = cutSource D head runs := by
    intro runs runs' hruns
    induction hruns with
    | nil => exact fun _ => rfl
    | cons hr _ ih => exact fun head => by rw [cutSource_cons, cutSource_cons, hr.2, ih]
  rw [source_uncut hD h, source_uncut hD (h.recounts hruns), hsame hruns]

end Expression

/-! ### what they match -/

namespace Sense

variable {D head : Text} {n : Nat} {runs runs' : List (Nat × Text)} {p q : Cursor} {w : Captures}

/-- The sense of a text that is cut. -/
def cut (ic : Bool) (D : Text) : Text → List (Nat × Text) → Sense
  | head, [] => text ic head
  | head, (_, next) :: runs => (text ic head).seq ((run ic D).seq (cut ic D next runs))

theorem iterates_text_iff :
    Iterates (text false D) n p q w ↔ w = [] ∧ p.Takes (List.replicate n D).flatten q := by
  constructor
  · intro h
    induction n generalizing p w with
    | zero =>
      obtain ⟨rfl, rfl⟩ := h
      exact ⟨rfl, .refl q⟩
    | succ n ih =>
      obtain ⟨r, u, u', hu, hu', rfl⟩ := h
      obtain ⟨rfl, v, hv, hr⟩ := text_iff.1 hu
      obtain ⟨rfl, hq⟩ := ih hu'
      rw [alike_false_iff.1 hv] at hr
      exact ⟨rfl, hr.trans hq⟩
  · rintro ⟨rfl, h⟩
    exact iterates_delimiters h

theorem run_false_iff :
    run false D p q w ↔
    w = [] ∧ ∃ n, 1 ≤ n ∧ p.Takes (List.replicate n D).flatten q ∧ ¬D <+: q.after := by
  constructor
  · rintro ⟨r, u, u', ⟨n, -, hn⟩, habsent, rfl⟩
    obtain ⟨rfl, rfl, hbegins⟩ := absent_text_iff.1 habsent
    obtain ⟨rfl, hr⟩ := iterates_text_iff.1 hn
    exact ⟨rfl, 1 + n, by omega, hr, fun hpre => hbegins (begins_false_iff.2 hpre)⟩
  · rintro ⟨rfl, n, hn, h, hpre⟩
    obtain ⟨n, rfl⟩ := Nat.exists_eq_add_of_le hn
    exact ⟨q, [], [], ⟨n, by simp, iterates_text_iff.2 ⟨rfl, h⟩⟩,
      absent_text_iff.2 ⟨rfl, rfl, fun hb => hpre (begins_false_iff.1 hb)⟩, rfl⟩

end Sense

section

variable {D head : Text} {runs : List (Nat × Text)} {p q : Cursor} {w : Captures}

/-- Up to the end of a text, the same runs are matched with any lengths. -/
theorem IsCut.sense_iff (hD : D ≠ []) (h : IsCut D head runs) (hq : q.after = []) :
    Sense.cut false D head runs p q w ↔
    w = [] ∧ ∃ runs', Recounts runs runs' ∧ p.Takes (uncut D head runs') q := by
  induction runs generalizing head p w with
  | nil =>
    constructor
    · intro hp
      obtain ⟨rfl, v, hv, hpq⟩ := Sense.text_iff.1 hp
      rw [alike_false_iff.1 hv] at hpq
      exact ⟨rfl, [], .nil, hpq⟩
    · rintro ⟨rfl, runs', hruns, hpq⟩
      cases hruns
      exact Sense.text_iff.2 ⟨rfl, head, .refl false head, hpq⟩
  | cons r runs ih =>
    obtain ⟨k, next⟩ := r
    obtain ⟨-, -, hnext, hcut⟩ := h
    constructor
    · rintro ⟨a, u, u', hhead, ⟨b, x, x', hrun, hrest, rfl⟩, rfl⟩
      obtain ⟨rfl, v, hv, ha⟩ := Sense.text_iff.1 hhead
      obtain ⟨rfl, n, hn, hb, -⟩ := Sense.run_false_iff.1 hrun
      obtain ⟨rfl, runs', hruns, hpq⟩ := (ih hcut).1 hrest
      rw [alike_false_iff.1 hv] at ha
      exact ⟨rfl, (n, next) :: runs', .cons ⟨hn, rfl⟩ hruns, ha.trans (hb.trans hpq)⟩
    · rintro ⟨rfl, allRuns, hall, hpq⟩
      obtain ⟨⟨n, next'⟩, runs', ⟨hn, rfl⟩, hruns, rfl⟩ := List.forall₂_cons_left_iff.1 hall
      obtain ⟨a, ha, hpq⟩ := Cursor.takes_append_iff.1 (show p.Takes (head ++ _) q from hpq)
      obtain ⟨b, hb, hpq⟩ := Cursor.takes_append_iff.1 hpq
      -- a run ends where it has to: what follows it is cut, too
      have hafter : b.after = uncut D next' runs' := by rw [hpq.after, hq, List.append_nil]
      have hpre : ¬D <+: b.after := by
        rw [hafter]
        refine (hcut.recounts hruns).no_delimiter hD fun hne => hnext ?_
        rintro rfl
        cases hruns
        exact hne rfl
      exact ⟨a, [], [], Sense.text_iff.2 ⟨rfl, head, .refl false head, ha⟩,
        ⟨b, [], [], Sense.run_false_iff.2 ⟨rfl, n, hn, hb, hpre⟩,
          (ih hcut).2 ⟨rfl, runs', hruns, hpq⟩, rfl⟩, rfl⟩

theorem IsCut.whole_sense_iff (hD : D ≠ []) (h : IsCut D head runs) (u : Text) :
    (∃ w, Sense.cut false D head runs (.start u) (.finish u) w) ↔
    ∃ runs', Recounts runs runs' ∧ uncut D head runs' = u := by
  constructor
  · rintro ⟨w, hw⟩
    obtain ⟨-, runs', hruns, htakes⟩ := (h.sense_iff hD rfl).1 hw
    have hafter := htakes.after
    exact ⟨runs', hruns, by simpa [Cursor.start, Cursor.finish] using hafter.symm⟩
  · rintro ⟨runs', hruns, rfl⟩
    exact ⟨[], (h.sense_iff hD rfl).2 ⟨rfl, runs', hruns, Cursor.start_takes_finish _⟩⟩

end

namespace Expression

variable {D head t u : Text} {runs : List (Nat × Text)} {flags : Flags}

theorem denotes_cutSource (hD : D ≠ []) (ic : Bool) (k g : Nat) (head : Text)
    (runs : List (Nat × Text)) :
    Denotes false false ic (k + 1) g g (cutSource D head runs) (.cut ic D head runs) := by
  induction runs generalizing head with
  | nil =>
    have hhead : Denotes false (!head.isEmpty) ic (k + 1) g g (quote head) (.text ic head) :=
      denotes_quote head
    simpa [cutSource, Sense.cut] using hhead.unsolid
  | cons r runs ih =>
    rw [cutSource_cons]
    exact ((denotes_quote head).append ((denotes_delimiterRun hD).append (ih r.2))).unsolid

/-! ### the language of literal text -/

/-- A search that comes to an end tells whether the text has the sense of an expression of whole
texts. -/
theorem matchesIn_iff {e : Expression} {S : Sense} (hr : e.root.isRegular = true)
    (hm : e.root.Matches = wholly S) {b : Bool} (h : e.matchesIn u = .ok b) :
    b = true ↔ ∃ w, S (.start u) (.finish u) w := by
  unfold matchesIn at h
  cases hfind : e.find u with
  | found m =>
    rw [hfind] at h
    cases h
    exact iff_of_true rfl (sense_of_found hr hm hfind)
  | none =>
    rw [hfind] at h
    cases h
    exact iff_of_false Bool.false_ne_true (not_exists.2 (not_sense_of_none hr hm hfind))
  | gaveUp =>
    rw [hfind] at h
    cases h

theorem exists_matchesIn {e : Expression} (h : e.find u ≠ .gaveUp) :
    ∃ b, e.matchesIn u = .ok b := by
  unfold matchesIn
  cases hfind : e.find u with
  | found m => exact ⟨true, rfl⟩
  | none => exact ⟨false, rfl⟩
  | gaveUp => exact absurd hfind h

/-- Quoted text matches itself alone, and a search for it never gives up. -/
theorem exists_anchored_quote (hflags : flags.sensitive = true) (t : Text) :
    ∃ e, anchored flags (quote t) = .ok e ∧ ∀ u, e.matchesIn u = .ok (decide (u = t)) := by
  have hdenotes : Denotes false (!t.isEmpty) false 63 0 0 (quote t) (.text false t) :=
    denotes_quote t
  obtain ⟨e, he, hr, -, hm⟩ := exists_anchored flags hdenotes hflags
  refine ⟨e, he, fun u => ?_⟩
  have hsoft : e.isHard = false := by
    obtain ⟨ps, hps, hchars, -⟩ := exists_reads_quote false t
    obtain ⟨hrefs, hroot⟩ := root_of_anchored (hps 63 0) (fun rest => isQuiet_quote t) hflags he
    rw [isHard, hrefs, hroot, isHard_branchOf, List.any_eq_false]
    refine forall_framed (fun a ha => ?_) fun n hn => ?_
    · simpa [Node.isHard] using ha
    · obtain ⟨c, i, rfl⟩ := hchars n hn
      exact Bool.false_ne_true
  obtain ⟨b, hb⟩ := exists_matchesIn (find_ne_gaveUp_of_isHard_eq_false hsoft u)
  have hiff : b = true ↔ u = t := by
    rw [matchesIn_iff hr hm hb]
    constructor
    · rintro ⟨w, hw⟩
      obtain ⟨-, v, hv, htakes⟩ := Sense.text_iff.1 hw
      rw [alike_false_iff.1 hv] at htakes
      have hafter := htakes.after
      simpa [Cursor.start, Cursor.finish] using hafter
    · rintro rfl
      exact ⟨[], Sense.text_iff.2 ⟨rfl, u, .refl false u, Cursor.start_takes_finish u⟩⟩
  rw [hb, Bool.eq_iff_iff.2 (hiff.trans decide_eq_true_iff.symm)]

/-- The expression of literal text with loose delimiters has the sense of the text as it is cut. -/
theorem exists_anchored_uncut (hflags : flags.sensitive = true) (hD : D ≠ [])
    (h : IsCut D head runs) :
    ∃ e, anchored flags ((Literal.mk D true).source (uncut D head runs)) = .ok e ∧
      e.root.isRegular = true ∧ e.root.Matches = wholly (.cut false D head runs) := by
  obtain ⟨e, he, hr, -, hm⟩ := exists_anchored flags (denotes_cutSource hD false 62 0 head runs)
    hflags
  rw [source_uncut hD h]
  exact ⟨e, he, hr, hm⟩

/-- The language of literal text, where case counts.  As it stands, it matches itself alone.  With
loose delimiters, it matches the texts that differ from it in the lengths of the runs that are found
from the left; the expression is the same for all of them, and a search for it gives up only on
texts that are long. -/
theorem Literal.language (hflags : flags.sensitive = true) (hD : D ≠ []) (t : Text) :
    (∃ e, anchored flags ((Literal.mk D false).source t) = .ok e ∧
      ∀ u, e.matchesIn u = .ok (decide (u = t))) ∧
    (∃ head runs, IsCut D head runs ∧ uncut D head runs = t) ∧
    ∃ e, anchored flags ((Literal.mk D true).source t) = .ok e ∧
      e.root.Reaches (.start t) (.finish t) ∧
      (∀ u, 3 * u.length < budget → ∃ b, e.matchesIn u = .ok b) ∧
      ∀ head runs, IsCut D head runs → uncut D head runs = t →
        ∀ u, (e.root.Reaches (.start u) (.finish u) ↔
            ∃ runs', Recounts runs runs' ∧ uncut D head runs' = u) ∧
          (∀ b, e.matchesIn u = .ok b →
            (b = true ↔ ∃ runs', Recounts runs runs' ∧ uncut D head runs' = u)) ∧
          ((∃ runs', Recounts runs runs' ∧ uncut D head runs' = u) →
            (Literal.mk D true).source u = (Literal.mk D true).source t) := by
  obtain ⟨head, runs, hcut, rfl⟩ := exists_isCut hD t
  obtain ⟨e, he, hr, hm⟩ := exists_anchored_uncut hflags hD hcut
  have hself := (reaches_of_wholly hm _).2 ((hcut.whole_sense_iff hD _).2 ⟨runs, .refl hcut, rfl⟩)
  refine ⟨?_, ⟨head, runs, hcut, rfl⟩, e, he, hself, fun u hu => ?_, ?_⟩
  · have hsource : (Literal.mk D false).source (uncut D head runs) = quote (uncut D head runs) := by
      simp [Literal.source]
    rw [hsource]
    exact exists_anchored_quote hflags _
  · have hsource : (Literal.mk D true).source (uncut D head runs) =
        loosenFrom D 0 false (uncut D head runs) := by
      simp [Literal.source, loosen, hD]
    rw [hsource] at he
    exact exists_matchesIn ((saves_loosenFrom hD false 62 0 0 false _).find_ne_gaveUp hflags he hu)
  · intro head' runs' hcut' heq u
    -- however the text was cut, its expression is the same
    obtain ⟨e', he', -, hm'⟩ := exists_anchored_uncut hflags hD hcut'
    rw [heq, he] at he'
    cases he'
    have hiff := hcut'.whole_sense_iff hD u
    refine ⟨(reaches_of_wholly hm' u).trans hiff, fun b hb => (matchesIn_iff hr hm' hb).trans hiff,
      ?_⟩
    rintro ⟨runs'', hruns, rfl⟩
    rw [← heq]
    exact source_recounts hD hcut' hruns

/-- The delimiters `aa` are found from the left, whatever text they overlap. -/
theorem Literal.language_overlap :
    ({ sensitive := true } : Flags).sensitive = true ∧ "aa".toList ≠ [] ∧
    ∃ e,
      anchored { sensitive := true } ((Literal.mk "aa".toList true).source "aaab".toList) = .ok e ∧
      e.matchesIn "aaaaab".toList = .ok true ∧ e.matchesIn "aaaab".toList = .ok false := by
  have hflags : ({ sensitive := true } : Flags).sensitive = true := rfl
  have hD : "aa".toList ≠ [] := by decide
  obtain ⟨-, -, e, he, -, hends, hcuts⟩ := Literal.language hflags hD "aaab".toList
  have hcut : IsCut "aa".toList [] [(1, "ab".toList)] := by decide
  refine ⟨hflags, hD, e, he, ?_, ?_⟩
  · obtain ⟨b, hb⟩ := hends "aaaaab".toList (by decide)
    have htrue := ((hcuts _ _ hcut rfl _).2.1 b hb).2 ⟨[(2, "ab".toList)],
        .cons ⟨by decide, rfl⟩ .nil, rfl⟩
    rw [hb, htrue]
  · obtain ⟨b, hb⟩ := hends "aaaab".toList (by decide)
    rw [hb]
    refine congrArg _ (Bool.eq_false_iff.2 fun htrue => ?_)
    obtain ⟨runs', hruns, hu⟩ := ((hcuts _ _ hcut rfl _).2.1 b hb).1 htrue
    -- a text with this run has an even number of characters
    obtain ⟨⟨n, next⟩, _, ⟨-, rfl⟩, hnil, rfl⟩ := List.forall₂_cons_left_iff.1 hruns
    cases hnil
    have hlength := congrArg List.length hu
    simp [uncut] at hlength
    omega

end Expression

end PathTemplate
