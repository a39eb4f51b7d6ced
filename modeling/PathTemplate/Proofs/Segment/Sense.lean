import PathTemplate.Proofs.Fragment
import PathTemplate.Proofs.Segment.Basic

/-!
# Expressions of segments

* `Glyph`, `Part.glyphs`, `Slot.glyphs` — characters and parameters, however literal text is cut
  into parts;
* `Spells` — parts of a template stand for segments;
* `sense_eq_of_spells` — the sense of such parts is that of their glyphs;
* `Records` — captures have these texts;
* `slots_sound`, `slots_complete` — the expression of segments matches what is made of
  values for them.
-/

namespace PathTemplate

open Expression (Literal)

/-- A character of literal text, or a parameter. -/
inductive Glyph where
  | char (c : Char)
  | param (name : Text)
  deriving DecidableEq

/-- The parameter is a name and nothing else. -/
structure Param.IsBare (p : Param) : Prop where
  name : p.name ≠ []
  before : p.before = []
  after : p.after = []
  pattern : p.pattern = none
  modifier : p.modifier = none

/-- The characters of literal text, or the parameter. -/
def Part.glyphs : Part → List Glyph
  | .text t => t.map .char
  | .param p => [.param p.name]

/-- A segment after its delimiter. -/
def Slot.glyphs (D : Char) : Slot → List Glyph
  | literal t => .char D :: t.map .char
  | param name => [.char D, .param name]

/-- The parts stand for these segments, each after its delimiter. -/
structure Spells (D : Char) (parts : List Part) (slots : List Slot) : Prop where
  bare : ∀ p, .param p ∈ parts → p.IsBare
  glyphs : parts.flatMap Part.glyphs = slots.flatMap (Slot.glyphs D)

/-! ### the sense of glyphs -/

/-- The number of groups of a glyph. -/
def Glyph.groups : Glyph → Nat
  | char _ => 0
  | param _ => 1

/-- The sense of a glyph; `g` groups are before it. -/
def Glyph.sense (ic loose : Bool) (D : Char) (g : Nat) : Glyph → Sense
  | char c => if loose = true ∧ c = D then .run ic [D] else .one (matchesChar c ic)
  | param _ => .captured (g + 1) (.stretch ic [D])

/-- The sense of glyphs one after the other; `g` groups are before them. -/
def glyphsSense (ic loose : Bool) (D : Char) : (g : Nat) → List Glyph → Sense
  | _, [] => .nothing
  | g, x :: xs => (x.sense ic loose D g).seq (glyphsSense ic loose D (g + x.groups) xs)

/-- The number of groups of some glyphs. -/
def glyphsGroups (xs : List Glyph) : Nat := (xs.map Glyph.groups).sum

/-- No two delimiters are next to each other. -/
abbrev IsApart (D : Char) (xs : List Glyph) : Prop :=
  xs.IsChain fun x y => ¬(x = .char D ∧ y = .char D)

section

variable {ic loose trailing : Bool} {D : Char} {g : Nat} {p q : Cursor} {w : Captures}
  {v x r : Text} {vs : List Text} {s : Slot} {slots : List Slot} {parts : List Part}

theorem glyphsSense_append (xs ys : List Glyph) : glyphsSense ic loose D g (xs ++ ys) =
    (glyphsSense ic loose D g xs).seq (glyphsSense ic loose D (g + glyphsGroups xs) ys) := by
  induction xs generalizing g with
  | nil => simp [glyphsSense, glyphsGroups]
  | cons x xs ih =>
    have hgroups : g + glyphsGroups (x :: xs) = g + x.groups + glyphsGroups xs := by
      simp [glyphsGroups]
      omega
    rw [List.cons_append, glyphsSense, glyphsSense, ih, hgroups, Sense.seq_assoc]

theorem glyphsGroups_append (xs ys : List Glyph) :
    glyphsGroups (xs ++ ys) = glyphsGroups xs + glyphsGroups ys := by
  simp [glyphsGroups]

theorem glyphsGroups_chars (t : Text) : glyphsGroups (t.map .char) = 0 := by
  induction t with
  | nil => rfl
  | cons c t ih => simpa [glyphsGroups, Glyph.groups] using ih

/-- Literal text without two delimiters next to each other is loosened character by character. -/
theorem loose_eq (t : Text) (inRun : Bool) (ht : IsApart D (t.map .char))
    (hrun : inRun = true → t.head? ≠ some D) :
    Sense.loose ic [D] 0 inRun t = glyphsSense ic true D g (t.map .char) := by
  induction t generalizing inRun with
  | nil => rfl
  | cons c t ih =>
    have htail : IsApart D (t.map .char) := ht.tail
    have hnext : ∀ {b : Bool}, (b = true → t.head? ≠ some D) →
        Sense.loose ic [D] 0 b t = glyphsSense ic true D g (t.map .char) := fun h => ih _ htail h
    simp only [List.map_cons, glyphsSense, Glyph.groups, Nat.add_zero, Glyph.sense, true_and]
    unfold Sense.loose
    by_cases hc : c = D
    · subst hc
      have hin : inRun = false := by
        cases inRun with
        | false => rfl
        | true => exact absurd rfl (hrun rfl)
      have hhead : t.head? ≠ some c := by
        intro h
        obtain ⟨t', rfl⟩ := List.head?_eq_some_iff.1 h
        simp [IsApart] at ht
      simp [hin, hnext fun _ => hhead]
    · have hne : ¬D = c := fun h => hc h.symm
      simp [hc, hne, hnext (b := false) (by simp)]

theorem source_sense_eq (t : Text) (ht : IsApart D (t.map .char)) :
    Literal.sense ⟨[D], loose⟩ ic t = glyphsSense ic loose D g (t.map .char) := by
  unfold Literal.sense
  cases loose with
  | true => simpa using loose_eq t false ht (by simp)
  | false =>
    simp only [Bool.false_eq_true, false_and, if_false]
    clear ht
    induction t with
    | nil => rfl
    | cons c t ih => simp [Sense.text, glyphsSense, Glyph.sense, Glyph.groups, ih]

theorem Param.IsBare.isCapturing {p : Param} (h : p.IsBare) : p.isCapturing = true := by
  simpa [Param.isCapturing] using h.name

theorem Param.IsBare.isDefault {p : Param} (h : p.IsBare) : p.IsDefault :=
  ⟨h.isCapturing, h.pattern, by simp [Param.isRepeating, h.modifier]⟩

theorem Param.IsBare.sense_eq {p : Param} (h : p.IsBare) (σ : Text → Sense) :
    p.sense ⟨[D], loose⟩ ic σ g = Glyph.sense ic loose D g (.param p.name) := by
  have hnil : Literal.sense ⟨[D], loose⟩ ic [] = Sense.nothing := by
    unfold Literal.sense
    split <;> rfl
  simp [Param.sense, Param.occurrence, Param.innerSense, h.isCapturing, Param.isRepeating,
    h.modifier, h.before, h.after, hnil, Param.valuesSense, Param.valueSense, h.pattern,
    Sense.modified, Glyph.sense]

theorem sense_eq_glyphsSense (hbare : ∀ p, .param p ∈ parts → p.IsBare)
    (ha : IsApart D (parts.flatMap Part.glyphs)) (σ : Text → Sense) :
    Template.sense ⟨[D], loose⟩ ic σ g parts =
      glyphsSense ic loose D g (parts.flatMap Part.glyphs) := by
  induction parts generalizing g with
  | nil => rfl
  | cons part parts ih =>
    rw [List.flatMap_cons] at ha
    obtain ⟨hpart, hrest, -⟩ := List.isChain_append.1 ha
    have ih' := fun g => ih (fun p hp => hbare p (List.mem_cons_of_mem _ hp)) hrest (g := g)
    rw [List.flatMap_cons, glyphsSense_append]
    cases part with
    | text t =>
      have hgroups : glyphsGroups (Part.glyphs (.text t)) = 0 := glyphsGroups_chars t
      rw [hgroups, Nat.add_zero, ← ih']
      show (Literal.sense _ ic t).seq _ = _
      rw [source_sense_eq (g := g) t hpart]
      rfl
    | param p =>
      have hp := hbare p (List.mem_cons_self ..)
      have hgroups : p.groups = 1 := by simp [Param.groups, hp.isCapturing]
      show (p.sense _ ic σ g).seq (Template.sense _ ic σ (g + p.groups) parts) = _
      rw [hp.sense_eq, hgroups, ih']
      simp [Part.glyphs, glyphsSense, glyphsGroups, Glyph.groups]

/-- No two delimiters of segments are next to each other. -/
theorem isApart_slots (hs : ∀ s ∈ slots, s.IsProper D) :
    IsApart D (slots.flatMap (Slot.glyphs D)) := by
  induction slots with
  | nil => exact .nil
  | cons s slots ih =>
    have hproper := hs s (List.mem_cons_self ..)
    rw [List.flatMap_cons]
    refine List.isChain_append.2 ⟨?_, ih fun s hs' => hs s (List.mem_cons_of_mem _ hs'), ?_⟩
    · cases s with
      | param name => simp [Slot.glyphs]
      | literal t =>
        have hchars : ∀ (t : Text) (x : Glyph), D ∉ t → IsApart D (x :: t.map .char) := by
          intro t
          induction t with
          | nil => simp
          | cons c t ih =>
            intro x ht
            simp only [List.mem_cons, not_or] at ht
            refine List.isChain_cons_cons.2 ⟨?_, ih _ ht.2⟩
            rintro ⟨-, h⟩
            exact ht.1 (by simpa [eq_comm] using h)
        exact hchars t (.char D) hproper.2
    · rintro x hx y - ⟨rfl, -⟩
      cases s with
      | param name => simp [Slot.glyphs] at hx
      | literal t =>
        obtain ⟨ht, hD⟩ := hproper
        have hlast : (Slot.glyphs D (.literal t)).getLast? = (t.map Glyph.char).getLast? := by
          obtain ⟨c, t, rfl⟩ := List.exists_cons_of_ne_nil ht
          simp [Slot.glyphs, List.getLast?_cons_cons]
        rw [hlast, List.getLast?_map] at hx
        simp only [Option.mem_def, Option.map_eq_some_iff, Glyph.char.injEq, exists_eq_right] at hx
        exact hD (List.mem_of_getLast? hx)

theorem sense_eq_of_spells (hs : ∀ s ∈ slots, s.IsProper D) (h : Spells D parts slots)
    (σ : Text → Sense) :
    Template.sense ⟨[D], loose⟩ ic σ g parts =
      glyphsSense ic loose D g (slots.flatMap (Slot.glyphs D)) := by
  rw [sense_eq_glyphsSense h.bare (h.glyphs ▸ isApart_slots hs) σ, h.glyphs]

/-! ### captures of segments -/

/-- The groups after `g` have captured these texts. -/
def Records (get : Nat → Option Span) : (g : Nat) → List Text → Prop
  | _, [] => True
  | g, v :: vs => (∃ s, get (g + 1) = some s ∧ s.text = v) ∧ Records get (g + 1) vs

theorem Records.congr {get get' : Nat → Option Span} {ts : List Text} (h : Records get g ts)
    (heq : ∀ i, g < i → i ≤ g + ts.length → get' i = get i) : Records get' g ts := by
  induction ts generalizing g with
  | nil => trivial
  | cons v ts ih =>
    obtain ⟨⟨s, hs, hv⟩, h⟩ := h
    refine ⟨⟨s, ?_, hv⟩, ih h fun i h₁ h₂ => heq i (by omega) (by simp; omega)⟩
    rw [heq (g + 1) (by omega) (by simp), hs]

/-- Captures of groups that come later do not change those that were there. -/
theorem Records.append_left {u : Captures} {ts : List Text} {g' : Nat}
    (h : Records (Captures.get? u) g ts) (hw : Captures.Within (g + ts.length) g' w) :
    Records (Captures.get? (w ++ u)) g ts := by
  exact h.congr fun i _ hi => hw.get?_append_right (by omega)

theorem Records.append_right {u : Captures} {ts : List Text} {g₀ : Nat}
    (h : Records (Captures.get? w) g ts) (hu : Captures.Within g₀ g u) :
    Records (Captures.get? (w ++ u)) g ts := by
  exact h.congr fun i hi _ => hu.get?_append_left (by omega)

theorem Records.append {get : Nat → Option Span} {ts ts' : List Text} (h : Records get g ts)
    (h' : Records get (g + ts.length) ts') : Records get g (ts ++ ts') := by
  induction ts generalizing g with
  | nil => exact h'
  | cons v ts ih =>
    refine ⟨h.1, ih h.2 ?_⟩
    have hlen : g + 1 + ts.length = g + (v :: ts).length := by
      simp
      omega
    rwa [hlen]

/-! ### segments and what they match -/

theorem alike_delimiter_iff (hD : IsAlone D) : Alike ic [D] v ↔ v = [D] := by
  rw [alike_cons_iff]
  constructor
  · rintro ⟨d, u, hd, hu, rfl⟩
    cases hu
    rw [(matchesChar_delimiter' hD).1 hd]
  · rintro rfl
    exact ⟨D, [], matchesChar_refl D ic, .nil, rfl⟩

theorem begins_delimiter_iff (hD : IsAlone D) : Begins ic [D] r ↔ ∃ r', r = D :: r' := by
  constructor
  · rintro ⟨v, rest, hv, rfl⟩
    rw [(alike_delimiter_iff hD).1 hv]
    exact ⟨rest, rfl⟩
  · rintro ⟨r', rfl⟩
    exact ⟨[D], r', .refl ic [D], rfl⟩

theorem avoids_delimiter_iff (hD : IsAlone D) : Avoids ic [D] v r ↔ D ∉ v := by
  induction v with
  | nil => simp [avoids_nil]
  | cons c v ih =>
    rw [avoids_cons_iff, ih, begins_delimiter_iff hD]
    simp [eq_comm]

theorem text_delimiter_iff (hD : IsAlone D) : Sense.text ic [D] p q w ↔ w = [] ∧ p.Takes [D] q := by
  rw [Sense.text_iff]
  simp [alike_delimiter_iff hD]

theorem iterates_delimiter_iff (hD : IsAlone D) {n : Nat} :
    Iterates (Sense.text ic [D]) n p q w ↔ w = [] ∧ p.Takes (List.replicate n D) q := by
  induction n generalizing p w with
  | zero =>
    rw [List.replicate_zero, Cursor.takes_nil_iff]
    exact and_comm
  | succ n ih =>
    constructor
    · rintro ⟨r, u, v, hu, hv, rfl⟩
      obtain ⟨rfl, hr⟩ := (text_delimiter_iff hD).1 hu
      obtain ⟨rfl, h⟩ := ih.1 hv
      exact ⟨rfl, hr.trans h⟩
    · rintro ⟨rfl, h⟩
      rw [List.replicate_succ, ← List.singleton_append] at h
      obtain ⟨r, hr, h⟩ := Cursor.takes_append_iff.1 h
      exact ⟨r, [], [], (text_delimiter_iff hD).2 ⟨rfl, hr⟩, ih.2 ⟨rfl, h⟩, rfl⟩

/-- The expression of a delimiter matches a run of delimiters, all of it if there may be several. -/
theorem delimiter_sense_iff (hD : IsAlone D) :
    Glyph.sense ic loose D g (.char D) p q w ↔
    w = [] ∧
      ∃ k, IsRun loose k ∧ p.Takes (List.replicate k D) q ∧
        (loose = true → ∀ r, q.after ≠ D :: r) := by
  cases loose with
  | false =>
    have hone : Glyph.sense ic false D g (.char D) = .one (matchesChar D ic) := by
      simp [Glyph.sense]
    rw [hone, Sense.one_iff]
    constructor
    · rintro ⟨rfl, d, hd, h⟩
      rw [(matchesChar_delimiter' hD).1 hd] at h
      exact ⟨rfl, 1, ⟨Nat.le_refl 1, fun _ => rfl⟩, h, by simp⟩
    · rintro ⟨rfl, k, hk, h, -⟩
      rw [hk.2 rfl] at h
      exact ⟨rfl, D, matchesChar_refl D ic, h⟩
  | true =>
    have hrun : Glyph.sense ic true D g (.char D) = .run ic [D] := by simp [Glyph.sense]
    rw [hrun]
    constructor
    · rintro ⟨r, u, v, ⟨n, -, hu⟩, hv, rfl⟩
      obtain ⟨rfl, h⟩ := (iterates_delimiter_iff hD).1 hu
      obtain ⟨rfl, rfl, hb⟩ := Sense.absent_text_iff.1 hv
      rw [begins_delimiter_iff hD] at hb
      exact ⟨rfl, 1 + n, ⟨Nat.le_add_right 1 n, by simp⟩, h, fun _ r hr => hb ⟨r, hr⟩⟩
    · rintro ⟨rfl, k, hk, h, hb⟩
      refine ⟨q, [], [], ⟨k - 1, by simp, ?_⟩, Sense.absent_text_iff.2 ⟨rfl, rfl, ?_⟩, rfl⟩
      · rw [Nat.add_sub_cancel' hk.1]
        exact (iterates_delimiter_iff hD).2 ⟨rfl, h⟩
      · rw [begins_delimiter_iff hD]
        rintro ⟨r, hr⟩
        exact hb rfl r hr

/-- A parameter matches what may stand in its place. -/
theorem param_sense_iff (hD : IsAlone D) {name : Text} :
    Glyph.sense ic loose D g (.param name) p q w ↔
    w = [(g + 1, some ⟨p, q⟩)] ∧ ∃ v, (Slot.param name).Fits ic D v ∧ p.Takes v q := by
  constructor
  · rintro ⟨u, h, rfl⟩
    obtain ⟨rfl, v, hv, h, hl, ha⟩ := Sense.stretch_iff.1 h
    exact ⟨rfl, v, ⟨hv, (avoids_delimiter_iff hD).1 ha, hl⟩, h⟩
  · rintro ⟨rfl, v, ⟨hv, ha, hl⟩, h⟩
    exact ⟨[], Sense.stretch_iff.2 ⟨rfl, v, hv, h, hl, (avoids_delimiter_iff hD).2 ha⟩, rfl⟩

theorem literal_sense_iff {t : Text} (ht : D ∉ t) :
    glyphsSense ic loose D g (t.map .char) p q w ↔ w = [] ∧ ∃ v, Alike ic t v ∧ p.Takes v q := by
  have heq : glyphsSense ic loose D g (t.map .char) = Sense.text ic t := by
    induction t with
    | nil => rfl
    | cons c t ih =>
      simp only [List.mem_cons, not_or] at ht
      have hc : ¬c = D := fun h => ht.1 h.symm
      simp [glyphsSense, Glyph.sense, Glyph.groups, hc, ih ht.2, Sense.text]
  rw [heq, Sense.text_iff]

/-- The value of a segment, if it is captured. -/
def Slot.captured : Slot → Text → List Text
  | literal _, _ => []
  | param _, v => [v]

theorem bindings_cons (s : Slot) (slots : List Slot) (v : Text) (vs : List Text) :
    (bindings (s :: slots) (v :: vs)).map Prod.snd =
      s.captured v ++ (bindings slots vs).map Prod.snd := by
  cases s <;> rfl

theorem glyphsGroups_slot (s : Slot) (v : Text) :
    glyphsGroups (s.glyphs D) = (s.captured v).length := by
  cases s with
  | literal t => exact glyphsGroups_chars (D :: t)
  | param name => rfl

theorem slot_sound (hD : IsAlone D) (hs : s.IsProper D)
    (h : glyphsSense ic loose D g (s.glyphs D) p q w) :
    ∃ k v, IsRun loose k ∧ s.Fits ic D v ∧ p.Takes (List.replicate k D ++ v) q ∧
      Records (Captures.get? w) g (s.captured v) ∧
      Captures.Within g (g + glyphsGroups (s.glyphs D)) w := by
  cases s with
  | literal t =>
    obtain ⟨r, u, w', hu, hw', rfl⟩ := h
    obtain ⟨rfl, k, hk, hr, -⟩ := (delimiter_sense_iff hD).1 hu
    obtain ⟨rfl, v, hv, hq⟩ := (literal_sense_iff hs.2).1 hw'
    exact ⟨k, v, hk, hv, hr.trans hq, trivial, fun i hi => absurd rfl hi⟩
  | param name =>
    obtain ⟨r, u, w', hu, ⟨r', u', w'', hu', ⟨rfl, rfl⟩, rfl⟩, rfl⟩ := h
    obtain ⟨rfl, k, hk, hr, -⟩ := (delimiter_sense_iff hD).1 hu
    obtain ⟨rfl, v, hv, hq⟩ := (param_sense_iff hD).1 hu'
    refine ⟨k, v, hk, hv, hr.trans hq, ⟨⟨⟨r, q⟩, ?_, Span.text_eq hq⟩, trivial⟩, fun i hi => ?_⟩
    · simp [Captures.get?, Glyph.groups]
    · have hi' : i = g + 1 := by
        by_contra hne
        have hb : (i == g + 1) = false := by simpa using hne
        simp [Glyph.groups, List.lookup_cons, hb] at hi
      simp [hi', glyphsGroups, Slot.glyphs, Glyph.groups]

theorem slot_complete (hD : IsAlone D) (hs : s.IsProper D) {k : Nat} (hk : IsRun loose k)
    (hv : s.Fits ic D v) (h : p.Takes (List.replicate k D ++ v) q) :
    ∃ w, glyphsSense ic loose D g (s.glyphs D) p q w := by
  obtain ⟨r, hr, hq⟩ := Cursor.takes_append_iff.1 h
  have hproper := hv.proper hD hs
  have hdelimiter : Glyph.sense ic loose D g (.char D) p r [] := by
    refine (delimiter_sense_iff hD).2 ⟨rfl, k, hk, hr, fun _ r' hr' => ?_⟩
    obtain ⟨c, v, rfl⟩ := List.exists_cons_of_ne_nil hproper.1
    have hafter := hq.after
    rw [hr'] at hafter
    simp only [List.cons_append, List.cons.injEq] at hafter
    exact hproper.2 (by simp [hafter.1])
  cases s with
  | literal t => exact ⟨[], r, [], [], hdelimiter, (literal_sense_iff hs.2).2 ⟨rfl, v, hv, hq⟩, rfl⟩
  | param name =>
    exact ⟨_, r, [], _, hdelimiter,
      ⟨q, _, [], (param_sense_iff hD).2 ⟨rfl, v, hv, hq⟩, ⟨rfl, rfl⟩, rfl⟩, rfl⟩

/-- What the expression of segments matches is made of values for them, and these are captured. -/
theorem slots_sound (hD : IsAlone D) (hs : ∀ s ∈ slots, s.IsProper D)
    (h : glyphsSense ic loose D g (slots.flatMap (Slot.glyphs D)) p q w) :
    ∃ vs x, Spelled ic loose D slots vs x ∧ p.Takes x q ∧
      Records (Captures.get? w) g ((bindings slots vs).map Prod.snd) ∧
      Captures.Within g (g + ((bindings slots vs).map Prod.snd).length) w := by
  induction slots generalizing g p w with
  | nil =>
    obtain ⟨rfl, rfl⟩ := h
    exact ⟨[], [], rfl, .refl q, trivial, fun i hi => absurd rfl hi⟩
  | cons s slots ih =>
    rw [List.flatMap_cons, glyphsSense_append] at h
    obtain ⟨r, u, w', hu, hw', rfl⟩ := h
    obtain ⟨k, v, hk, hv, hr, hrec, hin⟩ := slot_sound hD (hs s (List.mem_cons_self ..)) hu
    rw [glyphsGroups_slot s v] at hin hw'
    obtain ⟨vs, x, hx, hq, hrec', hin'⟩ := ih (fun s hs' => hs s (List.mem_cons_of_mem _ hs')) hw'
    refine ⟨v :: vs, List.replicate k D ++ (v ++ x), ⟨k, x, hk, hv, rfl, hx⟩, ?_, ?_, ?_⟩
    · simpa using hr.trans hq
    · rw [bindings_cons]
      exact (hrec.append_left hin').append (hrec'.append_right hin)
    · rw [bindings_cons, List.length_append, ← Nat.add_assoc]
      exact hin.append hin' (Nat.le_add_right _ _) (Nat.le_add_right _ _)

theorem slots_complete (hD : IsAlone D) (hs : ∀ s ∈ slots, s.IsProper D)
    (h : Spelled ic loose D slots vs x) (hx : p.Takes x q) :
    ∃ w, glyphsSense ic loose D g (slots.flatMap (Slot.glyphs D)) p q w := by
  induction slots generalizing g p vs x with
  | nil =>
    cases vs with
    | nil =>
      obtain rfl : x = [] := h
      exact ⟨[], Cursor.takes_nil_iff.1 hx, rfl⟩
    | cons v vs => exact h.elim
  | cons s slots ih =>
    cases vs with
    | nil => exact h.elim
    | cons v vs =>
      obtain ⟨k, rest, hk, hv, rfl, h⟩ := h
      rw [← List.append_assoc] at hx
      obtain ⟨r, hr, hq⟩ := Cursor.takes_append_iff.1 hx
      obtain ⟨u, hu⟩ := slot_complete (g := g) hD (hs s (List.mem_cons_self ..)) hk hv hr
      obtain ⟨w, hw⟩ := ih (g := g + glyphsGroups (s.glyphs D))
        (fun s hs' => hs s (List.mem_cons_of_mem _ hs')) h hq
      rw [List.flatMap_cons, glyphsSense_append]
      exact ⟨w ++ u, r, u, w, hu, hw, rfl⟩

/-! ### the end of a path -/

theorem tail_sense_iff (hD : IsAlone D) (hq : q.after = []) :
    Template.tailSense ⟨[D], loose⟩ ic trailing p q w ↔
    w = [] ∧ ∃ k, IsTail loose trailing k ∧ p.Takes (List.replicate k D) q := by
  have hsource : Literal.sense ⟨[D], loose⟩ ic [D] = Glyph.sense ic loose D 0 (.char D) := by
    rw [source_sense_eq (g := 0) [D] (by simp)]
    simp [glyphsSense]
  unfold Template.tailSense
  cases trailing with
  | false =>
    simp only [Bool.false_eq_true, if_false, Sense.nothing, IsTail, false_and, or_false,
      exists_eq_left, List.replicate_zero, Cursor.takes_nil_iff]
    exact and_comm
  | true =>
    simp only [if_true, hsource, Sense.optional_iff]
    constructor
    · rintro (⟨rfl, rfl⟩ | h)
      · exact ⟨rfl, 0, .inl rfl, .refl q⟩
      · obtain ⟨rfl, k, hk, h, -⟩ := (delimiter_sense_iff hD).1 h
        exact ⟨rfl, k, .inr ⟨rfl, hk⟩, h⟩
    · rintro ⟨rfl, k, hk, h⟩
      rcases hk with rfl | ⟨-, hk⟩
      · exact .inl ⟨Cursor.takes_nil_iff.1 h, rfl⟩
      · exact .inr ((delimiter_sense_iff hD).2 ⟨rfl, k, hk, h, fun _ r hr => by simp [hq] at hr⟩)

end

end PathTemplate
