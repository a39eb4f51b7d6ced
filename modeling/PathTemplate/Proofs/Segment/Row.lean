import PathTemplate.Proofs.Segment.Repeat

/-!
# Rows of segments

Segments with one repeated parameter among them, at most.

* `SpellsRow` — parts of a template stand for a row;
* `rowSense`, `sense_eq_rowSense` — the sense of a row is that of the parts;
* `row_sound`, `row_complete` — what the expression of a row matches, and what it captures.
-/

namespace PathTemplate

open Expression (Literal)

/-- The parts stand for segments on the left, at most one repeated parameter, and segments on the
right. -/
structure SpellsRow (D : Char) (parts : List Part) (left : List Slot) (repeated : Option Param)
  (right : List Slot) :
    Prop where
  split :
    ∃ parts₁ parts₂, parts = parts₁ ++ (repeated.toList.map .param ++ parts₂) ∧
      Spells D parts₁ left ∧ Spells D parts₂ right
  isRepeated : ∀ p ∈ repeated, p.IsRepeated D

section

variable {ic loose trailing : Bool} {D : Char} {g : Nat} {a b : Cursor} {w : Captures}
  {left right slots : List Slot} {repeated : Option Param} {p : Param} {σ : Text → Sense}
  {kvs : List (Nat × Text)} {parts : List Part} {vs₁ vs₂ : List Text} {x₁ x₂ : Text}

/-! ### what is matched -/

theorem Param.IsRepeated.sense_eq (h : p.IsRepeated D) :
    p.sense ⟨[D], loose⟩ ic σ g =
      if p.isOptional then (p.innerSense ⟨[D], loose⟩ ic σ g).rounds 0 (some 1) else p.innerSense
        ⟨[D], loose⟩ ic σ g := by
  unfold Param.sense Param.occurrence
  rw [h.isCapturing, h.isRepeating]
  cases p.isOptional <;> rfl

/-- What the captures of a repeated parameter say about its values. -/
def CapturesRow (get : Nat → Option Span) (g : Nat) (D : Char) (kvs : List (Nat × Text)) : Prop :=
  (kvs = [] ∧ get (g + 1) = none) ∨ (kvs ≠ [] ∧ ∃ s, get (g + 1) = some s ∧ s.text = joined D kvs)

theorem repeated_sense_sound (hD : IsAlone D) (hp : p.IsRepeated D)
    (h : p.sense ⟨[D], loose⟩ ic σ g a b w) :
    ∃ kvs, (∀ kv ∈ kvs, IsRoundValue loose D kv) ∧ a.Takes (runs D kvs) b ∧
      Captures.Within g (g + 1) w ∧ CapturesRow (Captures.get? w) g D kvs := by
  have hinner : ∀ {w}, p.innerSense ⟨[D], loose⟩ ic σ g a b w →
      ∃ kvs, (∀ kv ∈ kvs, IsRoundValue loose D kv) ∧ a.Takes (runs D kvs) b ∧
        Captures.Within g (g + 1) w ∧ CapturesRow (Captures.get? w) g D kvs := by
    intro w h
    obtain ⟨kvs, hne, hkvs, hx, s, rfl, hs⟩ := repeated_sound hD hp h
    exact ⟨kvs, hkvs, hx, Captures.within_singleton g _, .inr ⟨hne, s, by simp [Captures.get?], hs⟩⟩
  rw [hp.sense_eq] at h
  split at h
  · rcases Sense.optional_iff.1 h with ⟨rfl, rfl⟩ | h
    · exact ⟨[], by simp, .refl b, Captures.within_nil g _, .inl ⟨rfl, rfl⟩⟩
    · exact hinner h
  · exact hinner h

theorem repeated_sense_complete (hD : IsAlone D) (hp : p.IsRepeated D)
    (hkvs : ∀ kv ∈ kvs, IsRoundValue loose D kv) (hempty : kvs = [] → p.isOptional = true)
    (h : a.Takes (runs D kvs) b) : ∃ w, p.sense ⟨[D], loose⟩ ic σ g a b w := by
  rw [hp.sense_eq]
  by_cases hne : kvs = []
  · subst hne
    rw [hempty rfl]
    exact ⟨[], 0, by simp, Cursor.takes_nil_iff.1 h, rfl⟩
  · obtain ⟨w, hw⟩ : ∃ w, p.innerSense ⟨[D], loose⟩ ic σ g a b w :=
      repeated_complete hD hp hne hkvs h
    split
    · exact ⟨w, 1, by simp, .one hw⟩
    · exact ⟨w, hw⟩

/-- The sense of a repeated parameter, if there is one. -/
def optionSense (l : Literal) (ic : Bool) (σ : Text → Sense) (g : Nat) (repeated : Option Param) :
    Sense :=
  Template.sense l ic σ g (repeated.toList.map .param)

theorem option_sound (hD : IsAlone D) (hp : ∀ p ∈ repeated, p.IsRepeated D)
    (h : optionSense ⟨[D], loose⟩ ic σ g repeated a b w) :
    ∃ kvs, (∀ kv ∈ kvs, IsRoundValue loose D kv) ∧ a.Takes (runs D kvs) b ∧
      Captures.Within g (g + repeated.toList.length) w ∧
      (repeated ≠ none → CapturesRow (Captures.get? w) g D kvs) ∧ (repeated = none → kvs = []) := by
  cases repeated with
  | none =>
    obtain ⟨rfl, rfl⟩ := h
    exact ⟨[], by simp, .refl b, fun i hi => absurd rfl hi, by simp, by simp⟩
  | some p =>
    have h' : (p.sense ⟨[D], loose⟩ ic σ g).seq .nothing a b w := h
    rw [Sense.seq_nothing] at h'
    obtain ⟨kvs, hkvs, hx, hin, hcap⟩ := repeated_sense_sound hD (hp p rfl) h'
    exact ⟨kvs, hkvs, hx, hin, fun _ => hcap, by simp⟩

theorem option_complete (hD : IsAlone D) (hp : ∀ p ∈ repeated, p.IsRepeated D)
    (hkvs : ∀ kv ∈ kvs, IsRoundValue loose D kv)
    (hempty : ∀ p ∈ repeated, kvs = [] → p.isOptional = true) (hnone : repeated = none → kvs = [])
    (h : a.Takes (runs D kvs) b) : ∃ w, optionSense ⟨[D], loose⟩ ic σ g repeated a b w := by
  cases repeated with
  | none =>
    rw [hnone rfl] at h
    exact ⟨[], Cursor.takes_nil_iff.1 h, rfl⟩
  | some p =>
    obtain ⟨w, hw⟩ : ∃ w, p.sense ⟨[D], loose⟩ ic σ g a b w :=
      repeated_sense_complete hD (hp p rfl) hkvs (hempty p rfl) h
    refine ⟨w, ?_⟩
    show (p.sense ⟨[D], loose⟩ ic σ g).seq .nothing a b w
    rwa [Sense.seq_nothing]

theorem groups_eq (h : ∀ p, .param p ∈ parts → p.IsBare) :
    Template.groups parts = glyphsGroups (parts.flatMap Part.glyphs) := by
  induction parts with
  | nil => rfl
  | cons part parts ih =>
    rw [List.flatMap_cons, glyphsGroups_append, ← ih fun p hp => h p (List.mem_cons_of_mem _ hp)]
    cases part with
    | text t =>
      have hchars : glyphsGroups (Part.glyphs (.text t)) = 0 := glyphsGroups_chars t
      rw [hchars, Nat.zero_add]
      rfl
    | param p =>
      have hgroups : p.groups = 1 := by
        simp [Param.groups, (h p (List.mem_cons_self ..)).isCapturing]
      simp [Template.groups, Part.param?, Part.glyphs, glyphsGroups, Glyph.groups, hgroups]

theorem glyphsGroups_slots {vs : List Text} {x : Text} (h : Spelled ic loose D slots vs x) :
    glyphsGroups (slots.flatMap (Slot.glyphs D)) = ((bindings slots vs).map Prod.snd).length := by
  induction slots generalizing vs x with
  | nil => rfl
  | cons s slots ih =>
    cases vs with
    | nil => exact h.elim
    | cons v vs =>
      obtain ⟨k, rest, -, -, -, h⟩ := h
      rw [List.flatMap_cons, glyphsGroups_append, ih h, bindings_cons, List.length_append,
        glyphsGroups_slot s v]

/-- The sense of a row of segments. -/
def rowSense (ic loose : Bool) (D : Char) (left : List Slot) (repeated : Option Param)
    (right : List Slot) : Sense :=
  (glyphsSense ic loose D 0 (left.flatMap (Slot.glyphs D))).seq
    ((optionSense ⟨[D], loose⟩ ic (fun _ => .nothing) (glyphsGroups (left.flatMap (Slot.glyphs D)))
    repeated).seq
      (glyphsSense ic loose D (glyphsGroups (left.flatMap (Slot.glyphs D)) + repeated.toList.length)
        (right.flatMap (Slot.glyphs D))))

theorem sense_eq_rowSense (hleft : ∀ s ∈ left, s.IsProper D) (hright : ∀ s ∈ right, s.IsProper D)
    (h : SpellsRow D parts left repeated right) :
    Template.sense ⟨[D], loose⟩ ic (fun _ => .nothing) 0 parts =
      rowSense ic loose D left repeated right := by
  obtain ⟨parts₁, parts₂, rfl, h₁, h₂⟩ := h.split
  have hgroups : Template.groups (repeated.toList.map .param) = repeated.toList.length := by
    cases hr : repeated with
    | none => rfl
    | some p => simp [Template.groups, Part.param?, Param.groups, (h.isRepeated p hr).isCapturing]
  rw [Template.sense_append, Template.sense_append, sense_eq_of_spells hleft h₁,
    sense_eq_of_spells hright h₂, hgroups, groups_eq h₁.bare, h₁.glyphs, Nat.zero_add]
  rfl

/-- What a row of segments matches is made of values for them, and these are captured. -/
theorem row_sound (hD : IsAlone D) (hleft : ∀ s ∈ left, s.IsProper D)
    (hright : ∀ s ∈ right, s.IsProper D) (hp : ∀ p ∈ repeated, p.IsRepeated D)
    (h : rowSense ic loose D left repeated right a b w) :
    ∃ vs₁ x₁ kvs vs₂ x₂, Spelled ic loose D left vs₁ x₁ ∧ (∀ kv ∈ kvs, IsRoundValue loose D kv) ∧
      Spelled ic loose D right vs₂ x₂ ∧ a.Takes (x₁ ++ (runs D kvs ++ x₂)) b ∧
      (repeated = none → kvs = []) ∧
      Records (Captures.get? w) 0 ((bindings left vs₁).map Prod.snd) ∧
      (repeated ≠ none →
        CapturesRow (Captures.get? w) ((bindings left vs₁).map Prod.snd).length D kvs) ∧
      Records (Captures.get? w) (((bindings left vs₁).map Prod.snd).length + repeated.toList.length)
        ((bindings right vs₂).map Prod.snd) := by
  obtain ⟨r₁, w₁, w', h₁, ⟨r₂, w₂, w₃, h₂, h₃, rfl⟩, rfl⟩ := h
  obtain ⟨vs₁, x₁, hx₁, ht₁, hrec₁, hin₁⟩ := slots_sound hD hleft h₁
  rw [glyphsGroups_slots hx₁] at h₂ h₃
  rw [Nat.zero_add] at hin₁
  obtain ⟨kvs, hkvs, ht₂, hin₂, hcap, hnone⟩ := option_sound hD hp h₂
  obtain ⟨vs₂, x₂, hx₂, ht₃, hrec₃, hin₃⟩ := slots_sound hD hright h₃
  have hin₂₃ := hin₂.append hin₃ (Nat.le_add_right _ _) (Nat.le_add_right _ _)
  have hin₁₂ := hin₁.append hin₂ (Nat.zero_le _) (Nat.le_add_right _ _)
  refine ⟨vs₁, x₁, kvs, vs₂, x₂, hx₁, hkvs, hx₂, ht₁.trans (ht₂.trans ht₃), hnone, ?_,
    fun hne => ?_, ?_⟩
  · exact hrec₁.append_left (by rwa [Nat.zero_add])
  · have hlookup : Captures.get? (w₃ ++ w₂ ++ w₁) (((bindings left vs₁).map Prod.snd).length + 1) =
        Captures.get? w₂ (((bindings left vs₁).map Prod.snd).length + 1) := by
      have hlen : 1 ≤ repeated.toList.length := by
        cases repeated with
        | none => exact absurd rfl hne
        | some p => exact Nat.le_refl 1
      have h₁ : w₁.lookup (((bindings left vs₁).map Prod.snd).length + 1) = none := by
        by_contra hi
        have := hin₁ _ hi
        omega
      have h₃ : w₃.lookup (((bindings left vs₁).map Prod.snd).length + 1) = none := by
        by_contra hi
        have := hin₃ _ hi
        omega
      rw [Node.get?_append_left h₁, Node.get?_append_right h₃]
    unfold CapturesRow
    rw [hlookup]
    exact hcap hne
  · rw [List.append_assoc]
    exact hrec₃.append_right hin₁₂

theorem row_complete (hD : IsAlone D) (hleft : ∀ s ∈ left, s.IsProper D)
    (hright : ∀ s ∈ right, s.IsProper D) (hp : ∀ p ∈ repeated, p.IsRepeated D)
    (h₁ : Spelled ic loose D left vs₁ x₁) (hkvs : ∀ kv ∈ kvs, IsRoundValue loose D kv)
    (hempty : ∀ p ∈ repeated, kvs = [] → p.isOptional = true) (hnone : repeated = none → kvs = [])
    (h₂ : Spelled ic loose D right vs₂ x₂) (h : a.Takes (x₁ ++ (runs D kvs ++ x₂)) b) :
    ∃ w, rowSense ic loose D left repeated right a b w := by
  obtain ⟨r₁, ht₁, h⟩ := Cursor.takes_append_iff.1 h
  obtain ⟨r₂, ht₂, ht₃⟩ := Cursor.takes_append_iff.1 h
  obtain ⟨w₁, hw₁⟩ := slots_complete (g := 0) hD hleft h₁ ht₁
  obtain ⟨w₂, hw₂⟩ := option_complete (g := glyphsGroups (left.flatMap (Slot.glyphs D))) hD hp hkvs
    hempty hnone ht₂
  obtain ⟨w₃, hw₃⟩ := slots_complete
    (g := glyphsGroups (left.flatMap (Slot.glyphs D)) + repeated.toList.length) hD hright h₂ ht₃
  exact ⟨_, r₁, w₁, _, hw₁, ⟨r₂, w₂, w₃, hw₂, hw₃, rfl⟩, rfl⟩

end

end PathTemplate
