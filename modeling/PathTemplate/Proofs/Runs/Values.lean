import PathTemplate.Proofs.Accept
import PathTemplate.Proofs.Runs.Fragment

/-!
# Values beside each other

Captures in two texts that differ only in how long runs of delimiters are have the same values. `D`
is the delimiter, one character with no other form.

* `Sense.run_iff` — a run goes on to the place after all delimiters;
* `Literal.sense_level`, `Strung.level` — what loose literal text matches, and values with such
  text between them, are found beside where they have been found;
* `Param.isDry_valuesSense` — values that are not separated by a delimiter have none in them;
* `Param.value_eq_of_level` — the values of captures beside each other are the same;
* `Matcher.Collects.unique` — and so is all that is collected.
-/

namespace PathTemplate

open Expression (Literal)

section

variable {ic : Bool} {D : Char} {u u' x : Text} {a b a' b' p q p' : Cursor} {w : Captures}
  {l : Literal} {σ : Text → Sense} {t v : Text} {vs : List Text}

/-! ### literal text -/

/-- All delimiters of a run are taken, and there is one at least. -/
theorem Sense.run_iff (hD : IsAlone D) :
    Sense.run ic [D] p q w ↔ w = [] ∧ p.after.head? = some D ∧ q = p.pastRun D := by
  have hrun : Glyph.sense ic true D 0 (.char D) = .run ic [D] := by simp [Glyph.sense]
  have htake : p.after.takeWhile (· = D) = List.replicate (p.after.takeWhile (· = D)).length D :=
    List.eq_replicate_of_mem fun c hc => by simpa using (List.mem_takeWhile_imp hc)
  have hpast : p.after.head? = some D → Sense.run ic [D] p (p.pastRun D) [] := by
    intro h
    rw [← hrun, delimiter_sense_iff hD]
    refine ⟨rfl, (p.after.takeWhile (· = D)).length, ⟨?_, by simp⟩, htake ▸ p.takes_pastRun D,
      fun _ r hr => ?_⟩
    · obtain ⟨r, hr⟩ := List.head?_eq_some_iff.1 h
      simp [hr]
    · exact Level.head?_pastRun D p (by rw [hr]; rfl)
  constructor
  · intro h
    have h' := h
    rw [← hrun, delimiter_sense_iff hD] at h'
    obtain ⟨rfl, k, hk, hq, -⟩ := h'
    have hhead : p.after.head? = some D := by
      obtain ⟨n, rfl⟩ := Nat.exists_eq_add_of_le' hk.1
      rw [hq.after, List.replicate_succ]
      rfl
    exact ⟨rfl, hhead, Sense.isFunctional_run ic [D] _ _ _ _ _ (hpast hhead) h⟩
  · rintro ⟨rfl, h, rfl⟩
    exact hpast h

/-- What loose literal text matches, it matches beside that, too. -/
theorem Sense.loose_level (hD : IsAlone D) {skip : Nat} {inRun : Bool}
    (h : Sense.loose ic [D] skip inRun t p q w) (hp : Level D u u' p p') :
    ∃ q', Sense.loose ic [D] skip inRun t p' q' w ∧ Level D u u' q q' := by
  fun_induction Sense.loose ic [D] skip inRun t generalizing p p' w with
  | case1 =>
    obtain ⟨rfl, rfl⟩ := h
    exact ⟨p', ⟨rfl, rfl⟩, hp⟩
  | case2 skip inRun c rest ih => exact ih h hp
  | case3 inRun c rest _ ih =>
    obtain ⟨r, y, z, hy, hz, rfl⟩ := h
    obtain ⟨r', hr', hlevel⟩ :
        ∃ r', (if inRun then nothing else run ic [D]) p' r' y ∧ Level D u u' r r' := by
      cases inRun with
      | true =>
        obtain ⟨rfl, rfl⟩ := hy
        exact ⟨p', ⟨rfl, rfl⟩, hp⟩
      | false =>
        obtain ⟨rfl, hhead, rfl⟩ := (run_iff hD).1 hy
        exact ⟨_, (run_iff hD).2 ⟨rfl, hp.head?_eq ▸ hhead, rfl⟩, hp.pastRun hhead⟩
    obtain ⟨q', hq', hq⟩ := ih hz hlevel
    exact ⟨q', ⟨r', y, z, hr', hq', rfl⟩, hq⟩
  | case4 inRun c rest hpre ih =>
    obtain ⟨r, y, z, ⟨d, hd, hr, rfl⟩, hz, rfl⟩ := h
    have hne : d ≠ D := by
      rintro rfl
      exact hpre (by simp [(matchesChar_delimiter hD).1 hd])
    obtain ⟨r', hr', hlevel⟩ := hp.step hne hr
    obtain ⟨q', hq', hq⟩ := ih hz hlevel
    exact ⟨q', ⟨r', [], z, ⟨d, hd, hr', rfl⟩, hq', rfl⟩, hq⟩

theorem Expression.Literal.sense_level (hl : l.delimiter = [D]) (hloose : l.loose = true)
    (hD : IsAlone D) (h : l.sense ic t p q w) (hp : PathTemplate.Level D u u' p p') :
    ∃ q', l.sense ic t p' q' w ∧ PathTemplate.Level D u u' q q' := by
  have hsense : l.sense ic t = .loose ic [D] 0 false t := by simp [Literal.sense, hl, hloose]
  rw [hsense] at h ⊢
  exact Sense.loose_level hD h hp

theorem Level.takes (hp : Level D u u' p p') (hv : D ∉ v) (h : p.Takes v q) :
    ∃ q', p'.Takes v q' ∧ Level D u u' q q' := by
  induction v generalizing p p' with
  | nil =>
    obtain rfl := Cursor.takes_nil_iff.1 h
    exact ⟨p', .refl p', hp⟩
  | cons c v ih =>
    simp only [List.mem_cons, not_or] at hv
    obtain ⟨r, hr, hq⟩ := Cursor.takes_append_iff.1 (show p.Takes ([c] ++ v) q from h)
    obtain ⟨r', hr', hlevel⟩ := hp.step (Ne.symm hv.1) hr
    obtain ⟨q', hq', hq⟩ := ih hlevel hv.2 hq
    exact ⟨q', hr'.trans hq', hq⟩

/-- Values between loose separators are found beside where they have been found. -/
theorem Strung.level (hl : l.delimiter = [D]) (hloose : l.loose = true) (hD : IsAlone D)
    (h : Strung (l.sense ic t) D v vs a b) (ha : Level D u u' a a') :
    ∃ b', Strung (l.sense ic t) D v vs a' b' ∧ Level D u u' b b' := by
  induction vs generalizing v a a' with
  | nil =>
    obtain ⟨hv, htakes⟩ := h
    obtain ⟨b', hb', hlevel⟩ := ha.takes hv.2.1 htakes
    exact ⟨b', ⟨hv, hb'⟩, hlevel⟩
  | cons v' vs ih =>
    obtain ⟨hv, c, d, hc, hd, h⟩ := h
    obtain ⟨c', hc', hlevel⟩ := ha.takes hv.2.1 hc
    obtain ⟨d', hd', hlevel⟩ := l.sense_level hl hloose hD hd hlevel
    obtain ⟨b', hb', hlevel⟩ := ih h hlevel
    exact ⟨b', ⟨hv, c', d', hc', hd', hb'⟩, hlevel⟩

/-! ### values -/

theorem Sense.isDry_loose (hD : IsAlone D) {skip : Nat} {inRun : Bool} (ht : D ∉ t) :
    (Sense.loose ic [D] skip inRun t).IsDry D := by
  fun_induction Sense.loose ic [D] skip inRun t with
  | case1 => exact isDry_nothing D
  | case2 skip inRun c rest ih => exact ih fun h => ht (List.mem_cons_of_mem _ h)
  | case3 inRun c rest hpre _ =>
    obtain rfl : D = c := by simpa using hpre
    exact absurd (List.mem_cons_self ..) ht
  | case4 inRun c rest _ ih =>
    simp only [List.mem_cons, not_or] at ht
    refine (isDry_one ?_).seq (ih ht.2)
    rw [Bool.eq_false_iff, Ne, matchesChar_delimiter hD]
    exact Ne.symm ht.1

theorem Sense.isDry_stretch (hD : IsAlone D) : (Sense.stretch ic [D]).IsDry D := by
  intro p q w h
  obtain ⟨-, v, hv, h⟩ := (stretch_delimiter_iff hD).1 h
  exact ⟨v, h, hv.2.1⟩

namespace Param

variable {k : Param}

/-- Values that no delimiter separates have no delimiter in them, all together. -/
theorem isDry_valuesSense (hl : l.delimiter = [D]) (hloose : l.loose = true) (hD : IsAlone D)
    (hvalue : k.valueSense l ic σ = .stretch ic l.delimiter)
    (hk : ¬(k.isRepeating = true ∧ D ∈ k.between)) : (k.valuesSense l ic σ).IsDry D := by
  rw [valuesSense, hvalue, hl]
  split
  · rename_i hr
    have hbetween : l.sense ic k.between = .loose ic [D] 0 false k.between := by
      simp [Literal.sense, hl, hloose]
    rw [hbetween]
    have hdry : (Sense.loose ic [D] 0 false k.between).IsDry D :=
      Sense.isDry_loose hD fun hmem => hk ⟨hr, hmem⟩
    exact (Sense.isDry_stretch hD).seq ((hdry.seq (Sense.isDry_stretch hD)).rounds 0 none)
  · exact Sense.isDry_stretch hD

/-- A capture with separated values is split into them. -/
theorem value_of_strung (hl : l.delimiter = [D]) (hD : IsAlone D) (hr : k.isRepeating = true)
    (hmem : D ∈ k.between) {flags : Flags} (hflags : flags.sensitive = !ic)
    {separator : Option Expression} (hs : Matcher.separator flags l k = .ok separator) {s : Span}
    (h : Strung (l.sense ic k.between) D v vs s.start s.stop) (decode : Option Codec)
    {value : ParamValue} (hv : Matcher.value decode separator s.text = .ok value) :
    value = .multiple ((v :: vs).map (recode decode)) := by
  obtain ⟨n, hS⟩ : ∃ n, (l.sense ic k.between).Separates D n := Literal.separates hl hD hmem
  obtain ⟨e, he, hregular, hm⟩ := Matcher.separator_eq hflags l hr
  rw [he] at hs
  cases hs
  obtain ⟨r, htakes, -⟩ := h.takes hD hS
  rw [show s.text = v ++ r from Span.text_eq htakes] at hv
  have hmoved := h.move hl hD hmem htakes (Cursor.start_takes_finish (v ++ r))
  rcases Matcher.value_strung hD hregular hm hS hmoved decode with hgave | hok
  · rw [hgave] at hv
    cases hv
  · rw [hok] at hv
    cases hv
    rfl

/-- Captures beside each other have the same values. -/
theorem value_eq_of_level (hl : l.delimiter = [D]) (hloose : l.loose = true) (hD : IsAlone D)
    (hvalue : k.valueSense l ic σ = .stretch ic l.delimiter) {flags : Flags}
    (hflags : flags.sensitive = !ic) {separator : Option Expression}
    (hs : Matcher.separator flags l k = .ok separator) {s s' : Span} (hlevel : s.Level D u u' s')
    (h : k.valuesSense l ic σ s.start s.stop []) (h' : k.valuesSense l ic σ s'.start s'.stop [])
    {decode : Option Codec} {value value' : ParamValue}
    (hv : Matcher.value decode separator s.text = .ok value)
    (hv' : Matcher.value decode separator s'.text = .ok value') : value = value' := by
  by_cases hk : k.isRepeating = true ∧ D ∈ k.between
  · -- the values are separated by runs, which do not matter
    obtain ⟨x, xs, hstrung⟩ := strung_of_valuesSense hl hD hvalue hk.1 h
    obtain ⟨b', hstrung', hb'⟩ := hstrung.level hl hloose hD hlevel.start
    rw [hb'.eq_of_level hlevel.stop] at hstrung'
    rw [value_of_strung hl hD hk.1 hk.2 hflags hs hstrung decode hv,
      value_of_strung hl hD hk.1 hk.2 hflags hs hstrung' decode hv']
  · -- there are no delimiters, so the captures have the same text
    obtain ⟨x, hx, hxD⟩ := isDry_valuesSense hl hloose hD hvalue hk _ _ _ h
    obtain ⟨x', hx', -⟩ := isDry_valuesSense hl hloose hD hvalue hk _ _ _ h'
    obtain rfl := eq_of_squeeze_eq hxD (hlevel.start.squeeze_eq hlevel.stop hx hx')
    rw [show s.text = x from Span.text_eq hx] at hv
    rw [show s'.text = x from Span.text_eq hx', hv] at hv'
    cases hv'
    rfl

end Param

/-- Where parts are laid out, each capture is the values of its parameter. -/
theorem Template.Lays.valuesSense {get : Nat → Option Span} {g : Nat} {parts : List Part}
    (h : Lays l ic σ get g parts a b) {i : Nat} {k : Param} (hk : (paramsOf parts)[i]? = some k)
    {s : Span} (hs : get (g + 1 + i) = some s) : k.valuesSense l ic σ s.start s.stop [] := by
  induction parts generalizing g a i with
  | nil => simp [paramsOf] at hk
  | cons part parts ih =>
    cases part with
    | text t =>
      obtain ⟨c, -, h⟩ := h
      exact ih h hk hs
    | param p =>
      obtain ⟨c, hp, h⟩ := h
      rw [paramsOf_param] at hk
      cases hc : p.isCapturing with
      | false =>
        simp only [hc, Bool.false_eq_true, if_false, List.nil_append, Param.groups,
          Nat.add_zero] at hk h
        exact ih h hk hs
      | true =>
        simp only [hc, if_true, List.singleton_append, Param.groups] at hk h
        cases i with
        | zero =>
          obtain rfl : p = k := by simpa using hk
          rw [Nat.add_zero] at hs
          rw [hs] at hp
          simp only [Param.Holds, hc, if_true] at hp
          exact hp.2.1
        | succ i => exact ih h (by simpa using hk) (by rw [← hs]; congr 1; omega)

theorem Matcher.Collects.unique {decode : Option Codec} {get get' : Nat → Option Span} {g : Nat}
    {ps : List (Param × Option Expression)} {es es' : List (Text × ParamValue)}
    (h : Collects decode get g ps es) (h' : Collects decode get' g ps es')
    (hnone : ∀ i, get i = none ↔ get' i = none)
    (hvalue : ∀ i k separator s s' v v', ps[i]? = some (k, separator) → get (g + 1 + i) = some s →
      get' (g + 1 + i) = some s' → value decode separator s.text = .ok v →
      value decode separator s'.text = .ok v' → v = v') : es = es' := by
  induction ps generalizing g es es' with
  | nil => exact Eq.trans h (Eq.symm h')
  | cons p ps ih =>
    obtain ⟨k, separator⟩ := p
    have htail : ∀ {es es'}, Collects decode get (g + 1) ps es →
        Collects decode get' (g + 1) ps es' → es = es' := by
      refine fun h h' => ih h h' fun i => ?_
      rw [show g + 1 + 1 + i = g + 1 + (i + 1) by omega]
      exact hvalue (i + 1)
    rcases h with ⟨hn, h⟩ | ⟨s, v, es, hs, hv, rfl, h⟩ <;> rcases h' with ⟨hn', h'⟩ |
      ⟨s', v', es', hs', hv', rfl, h'⟩
    · exact htail h h'
    · rw [hnone, hs'] at hn
      cases hn
    · rw [← hnone, hs] at hn'
      cases hn'
    · rw [hvalue 0 k separator s s' v v' rfl hs hs' hv hv', htail h h']

end

end PathTemplate
