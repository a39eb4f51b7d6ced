import PathTemplate.Proofs.Matcher
import PathTemplate.Proofs.Segment.Split

/-!
# Repeated segments

* `Param.IsRepeated` — a parameter for several segments, with the delimiter before each;
* `repeated_sound`, `repeated_complete` — its expression matches values after delimiters, and
  captures them together;
* `strung_chain`, `Matcher.value_chain` — the expression of the delimiter splits values between
  single delimiters;
* `Matcher.exists_separator` — a repeated parameter has such a separator.
-/

namespace PathTemplate

open Expression (Literal Denotes)

/-- The parameter stands for one segment or more, or for none if it is optional, each after its
delimiter. -/
structure Param.IsRepeated (D : Char) (p : Param) : Prop where
  name : p.name ≠ []
  before : p.before = [D]
  after : p.after = []
  between : p.between = [D]
  pattern : p.pattern = none
  modifier : p.modifier = some .zeroOrMore ∨ p.modifier = some .oneOrMore

/-- The text of values after delimiters, without the delimiters before the first one. -/
def joined (D : Char) : List (Nat × Text) → Text
  | [] => []
  | kv :: kvs => kv.2 ++ runs D kvs

section

variable {ic loose : Bool} {D : Char} {g : Nat} {a b : Cursor} {w : Captures} {v : Text}
  {vs : List Text} {kvs : List (Nat × Text)} {p : Param} {σ : Text → Sense} {e : Expression}

theorem Param.IsRepeated.isCapturing (h : p.IsRepeated D) : p.isCapturing = true := by
  simpa [Param.isCapturing] using h.name

theorem Param.IsRepeated.isRepeating (h : p.IsRepeated D) : p.isRepeating = true := by
  rcases h.modifier with hm | hm <;> simp [Param.isRepeating, hm, Modifier.isRepeating]

theorem Param.IsRepeated.isDefault (h : p.IsRepeated D) : p.IsDefault :=
  ⟨h.isCapturing, h.pattern, fun _ => by simp [h.between]⟩

/-! ### the sense of a repeated parameter -/

/-- A value after delimiters, in its place. -/
def IsRoundValue (loose : Bool) (D : Char) (kv : Nat × Text) : Prop :=
  IsRun loose kv.1 ∧ kv.2 ≠ [] ∧ D ∉ kv.2 ∧ '\n' ∉ kv.2

/-- One more value after delimiters. -/
def roundSense (ic loose : Bool) (D : Char) : Sense :=
  (Glyph.sense ic loose D 0 (.char D)).seq (.stretch ic [D])

theorem round_sound (hD : IsAlone D) (h : roundSense ic loose D a b w) :
    w = [] ∧ ∃ kv, IsRoundValue loose D kv ∧ a.Takes (List.replicate kv.1 D ++ kv.2) b := by
  obtain ⟨r, u, u', hu, hu', rfl⟩ := h
  obtain ⟨rfl, k, hk, hr, -⟩ := (delimiter_sense_iff hD).1 hu
  obtain ⟨rfl, v, hv, hq⟩ := (stretch_delimiter_iff hD).1 hu'
  exact ⟨rfl, (k, v), ⟨hk, hv⟩, hr.trans hq⟩

theorem round_complete (hD : IsAlone D) {kv : Nat × Text} (hkv : IsRoundValue loose D kv)
    (h : a.Takes (List.replicate kv.1 D ++ kv.2) b) : roundSense ic loose D a b [] := by
  obtain ⟨r, hr, hq⟩ := Cursor.takes_append_iff.1 h
  refine ⟨r, [], [], (delimiter_sense_iff hD).2 ⟨rfl, kv.1, hkv.1, hr, fun _ r' hr' => ?_⟩,
    (stretch_delimiter_iff hD).2 ⟨rfl, kv.2, hkv.2, hq⟩, rfl⟩
  obtain ⟨c, v, hv⟩ := List.exists_cons_of_ne_nil hkv.2.1
  have hafter := hq.after
  rw [hr', hv] at hafter
  simp only [List.cons_append, List.cons.injEq] at hafter
  exact hkv.2.2.1 (by simp [hv, hafter.1])

theorem rounds_sound (hD : IsAlone D) {n : Nat} (h : Iterates (roundSense ic loose D) n a b w) :
    w = [] ∧ ∃ kvs, (∀ kv ∈ kvs, IsRoundValue loose D kv) ∧ a.Takes (runs D kvs) b := by
  induction n generalizing a w with
  | zero =>
    obtain ⟨rfl, rfl⟩ := h
    exact ⟨rfl, [], by simp, .refl b⟩
  | succ n ih =>
    obtain ⟨r, u, u', hu, hu', rfl⟩ := h
    obtain ⟨rfl, kv, hkv, hr⟩ := round_sound hD hu
    obtain ⟨rfl, kvs, hkvs, hq⟩ := ih hu'
    refine ⟨rfl, kv :: kvs, ?_, hr.trans hq⟩
    rintro kv' hkv'
    rcases List.mem_cons.1 hkv' with rfl | hkv'
    · exact hkv
    · exact hkvs kv' hkv'

theorem rounds_complete (hD : IsAlone D) (hkvs : ∀ kv ∈ kvs, IsRoundValue loose D kv)
    (h : a.Takes (runs D kvs) b) : Iterates (roundSense ic loose D) kvs.length a b [] := by
  induction kvs generalizing a with
  | nil => exact ⟨Cursor.takes_nil_iff.1 h, rfl⟩
  | cons kv kvs ih =>
    obtain ⟨r, hr, hq⟩ := Cursor.takes_append_iff.1
      (show a.Takes (List.replicate kv.1 D ++ kv.2 ++ runs D kvs) b from h)
    exact ⟨r, [], [], round_complete hD (hkvs kv (List.mem_cons_self ..)) hr,
      ih (fun kv hkv => hkvs kv (List.mem_cons_of_mem _ hkv)) hq, rfl⟩

theorem delimiter_source_sense_eq :
    Literal.sense ⟨[D], loose⟩ ic [D] = Glyph.sense ic loose D g (.char D) := by
  rw [source_sense_eq (g := g) [D] (by simp)]
  simp [glyphsSense]

theorem Param.IsRepeated.innerSense_eq (h : p.IsRepeated D) : p.innerSense ⟨[D], loose⟩ ic σ g =
    (Glyph.sense ic loose D 0 (.char D)).seq
      (.captured (g + 1) ((Sense.stretch ic [D]).seq ((roundSense ic loose D).rounds 0 none))) := by
  have hnil : Literal.sense ⟨[D], loose⟩ ic [] = Sense.nothing := by
    unfold Literal.sense
    split <;> rfl
  have hvalue : p.valueSense ⟨[D], loose⟩ ic σ = .stretch ic [D] := by
    simp [Param.valueSense, h.pattern]
  simp only [Param.innerSense, h.isCapturing, if_true, h.before, h.after, hnil, Sense.seq_nothing,
    Param.valuesSense, h.isRepeating, h.between, hvalue, delimiter_source_sense_eq (g := 0)]
  rfl

/-- What a repeated parameter matches is made of values after delimiters, and they are captured
together. -/
theorem repeated_sound (hD : IsAlone D) (hp : p.IsRepeated D)
    (h : p.innerSense ⟨[D], loose⟩ ic σ g a b w) :
    ∃ kvs, kvs ≠ [] ∧ (∀ kv ∈ kvs, IsRoundValue loose D kv) ∧ a.Takes (runs D kvs) b ∧
      ∃ s, w = [(g + 1, some s)] ∧ s.text = joined D kvs := by
  rw [hp.innerSense_eq] at h
  obtain ⟨r, u, u', hu, ⟨u'', ⟨r', x, y, hx, ⟨n, -, hy⟩, rfl⟩, rfl⟩, rfl⟩ := h
  obtain ⟨rfl, k, hk, hr, -⟩ := (delimiter_sense_iff hD).1 hu
  obtain ⟨rfl, v, hv, hr'⟩ := (stretch_delimiter_iff hD).1 hx
  obtain ⟨rfl, kvs, hkvs, hq⟩ := rounds_sound hD hy
  refine ⟨(k, v) :: kvs, by simp, ?_, ?_, ⟨r, b⟩, rfl, Span.text_eq (hr'.trans hq)⟩
  · intro kv hkv
    rcases List.mem_cons.1 hkv with rfl | hkv
    · exact ⟨hk, hv⟩
    · exact hkvs kv hkv
  · have hall := hr.trans (hr'.trans hq)
    simpa [runs] using hall

theorem repeated_complete (hD : IsAlone D) (hp : p.IsRepeated D) (hne : kvs ≠ [])
    (hkvs : ∀ kv ∈ kvs, IsRoundValue loose D kv) (h : a.Takes (runs D kvs) b) :
    ∃ w, p.innerSense ⟨[D], loose⟩ ic σ g a b w := by
  obtain ⟨kv, kvs, rfl⟩ := List.exists_cons_of_ne_nil hne
  obtain ⟨r', hr', hq⟩ := Cursor.takes_append_iff.1
    (show a.Takes (List.replicate kv.1 D ++ kv.2 ++ runs D kvs) b from h)
  have hround : roundSense ic loose D a r' [] :=
    round_complete hD (hkvs kv (List.mem_cons_self ..)) hr'
  have hrounds : Iterates (roundSense ic loose D) kvs.length r' b [] :=
    rounds_complete hD (fun kv hkv => hkvs kv (List.mem_cons_of_mem _ hkv)) hq
  obtain ⟨r, u, u', hu, hu', -⟩ := hround
  rw [hp.innerSense_eq]
  exact ⟨_, r, u, _, hu,
    ⟨_, ⟨r', u', [], hu', ⟨kvs.length, by simp, by simpa using hrounds⟩, rfl⟩, rfl⟩, rfl⟩

/-! ### splitting repeated values -/

/-- Values between single delimiters. -/
def chain (D : Char) (v : Text) (vs : List Text) : Text := v ++ vs.flatMap (D :: ·)

theorem joined_map_one (D : Char) (v : Text) (vs : List Text) :
    joined D ((v :: vs).map (1, ·)) = chain D v vs := by
  simp [joined, chain, runs, List.flatMap_map]

theorem intercalate_eq_chain (D : Char) (v : Text) (vs : List Text) :
    List.intercalate [D] (v :: vs) = chain D v vs := by
  induction vs generalizing v with
  | nil => simp [chain]
  | cons v' vs ih =>
    rw [List.intercalate_cons_cons, ih]
    simp [chain]

/-- Values between single delimiters are put together with the separator. -/
theorem strung_chain (hD : IsAlone D) (hvs : ∀ v' ∈ v :: vs, IsOpenValue D v')
    (h : a.Takes (chain D v vs) b) : Strung (Glyph.sense ic loose D 0 (.char D)) D v vs a b := by
  induction vs generalizing v a with
  | nil => exact ⟨hvs v (List.mem_cons_self ..), by simpa [chain] using h⟩
  | cons v' vs ih =>
    have hvs' : ∀ x ∈ v' :: vs, IsOpenValue D x := fun x hx => hvs x (List.mem_cons_of_mem _ hx)
    have hchain : chain D v (v' :: vs) = v ++ ([D] ++ chain D v' vs) := by simp [chain]
    rw [hchain] at h
    obtain ⟨c, hc, h⟩ := Cursor.takes_append_iff.1 h
    obtain ⟨c', hc', h⟩ := Cursor.takes_append_iff.1 h
    refine ⟨hvs v (List.mem_cons_self ..), c, c', hc, ?_, ih hvs' h⟩
    refine (delimiter_sense_iff hD).2 ⟨rfl, 1, ⟨Nat.le_refl 1, fun _ => rfl⟩, hc', fun _ r hr => ?_⟩
    refine (hvs' v' (List.mem_cons_self ..)).head?_ne (vs.flatMap (D :: ·) ++ b.after) ?_
    rw [← List.append_assoc, show v' ++ vs.flatMap (D :: ·) = chain D v' vs from rfl, ← h.after, hr,
      List.head?_cons]

theorem Matcher.exists_separator (loose : Bool) {flags : Flags} (hp : p.IsRepeated D)
    (hflags : flags.sensitive = !ic) :
    ∃ e, Matcher.separator flags ⟨[D], loose⟩ p = .ok (some e) ∧ e.root.isRegular = true ∧
      e.root.Matches = Glyph.sense ic loose D 0 (.char D) := by
  obtain ⟨e, he, hr, hm⟩ := Matcher.separator_eq hflags ⟨[D], loose⟩ hp.isRepeating
  rw [hp.between, delimiter_source_sense_eq (g := 0)] at hm
  exact ⟨e, he, hr, hm⟩

theorem Matcher.value_chain (hD : IsAlone D) (hr : e.root.isRegular = true)
    (hm : e.root.Matches = Glyph.sense ic loose D 0 (.char D))
    (hvs : ∀ v' ∈ v :: vs, IsOpenValue D v') (decode : Option Codec) :
    Matcher.value decode (some e) (chain D v vs) = .error .gaveUp ∨
    Matcher.value decode (some e) (chain D v vs) =
      .ok (.multiple ((v :: vs).map (recode decode))) := by
  obtain ⟨k, hS⟩ : ∃ k, (Literal.sense ⟨[D], loose⟩ ic [D]).Separates D k :=
    Literal.separates rfl hD (by simp)
  rw [delimiter_source_sense_eq (g := 0)] at hS
  exact Matcher.value_strung hD hr hm hS (strung_chain hD hvs (Cursor.start_takes_finish _)) decode

end

end PathTemplate
