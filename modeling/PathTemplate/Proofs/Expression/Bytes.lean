import PathTemplate.Expression.Bytes
import PathTemplate.Proofs.Expression.Cut
import PathTemplate.Proofs.Text.Bytes

/-!
# Delimiters in the bytes of a text

The bytes of a delimiter are found where the delimiter is, between characters, and not where they
are parts of other characters. So it makes no difference whether literal text is written as an
expression by its bytes or by its characters.

* `Delimits` — the places of the delimiters that are found from the left;
* `delimits_of_occurrences` — a search in bytes finds these places;
* `Delimits.exists_of_mem`, `Delimits.pairwise` — they are between characters and do not overlap;
* `Delimits.loosenAt_eq` — what is between them can be cut out;
* `Expression.Literal.delimiters_in_bytes` — so it is for all texts and delimiters.
-/

namespace PathTemplate

open Expression (Literal delimiterRun loosenAt loosenFrom loosenFrom_avoids
  loosenFrom_delimiter quote)
open Utf8 (FindsAll IsBoundary Occurrences encode size)

/-- The places, counted in bytes, of the delimiters that are found from the left in `r`, which
starts at `place`. -/
def Delimits (D : Text) : (place : Nat) → (r : Text) → List Nat → Prop
  | _, r, [] => Avoids false D r []
  | place, r, n :: ns =>
    ∃ v r', r = v ++ (D ++ r') ∧ n = place + size v ∧ Avoids false D v (D ++ r') ∧
      Delimits D (n + size D) r' ns

section

variable {D r s : Text} {place n : Nat} {ns : List Nat} {inRun : Bool}

/-! ### searching -/

/-- Where the bytes of a delimiter do not occur, no delimiter begins. -/
theorem avoids_of_not_prefix {v rest : Text}
    (h : ∀ m < size v, ¬encode D <+: (encode (v ++ rest)).drop m) (hD : D ≠ []) :
    Avoids false D v rest := by
  rintro a b rfl hb hbegins
  obtain ⟨x, hx⟩ := begins_false_iff.1 hbegins
  have hpos := Utf8.size_pos hb
  refine h (size a) (by rw [Utf8.size_append]; omega)
    ((Utf8.encode_prefix_drop_iff hD).2 ⟨a, x, ?_, rfl⟩)
  rw [List.append_assoc, hx]

/-- The places of its bytes are those of the delimiter. -/
theorem delimits_of_occurrences (hD : D ≠ []) (h : Occurrences (encode D) place (encode r) ns) :
    Delimits D place r ns := by
  induction ns generalizing place r with
  | nil => exact avoids_of_not_prefix (fun k _ => by simpa using h k) hD
  | cons n ns ih =>
    obtain ⟨k, rfl, hfound, hfirst, h⟩ := h
    obtain ⟨v, r', rfl, rfl⟩ := (Utf8.encode_prefix_drop_iff hD).1 hfound
    rw [Utf8.length_encode, ← List.drop_drop, Utf8.drop_encode_append, Utf8.drop_encode_append] at h
    exact ⟨v, r', rfl, rfl, avoids_of_not_prefix hfirst hD, ih h⟩

/-! ### the places that are found -/

theorem Delimits.exists_of_mem (h : Delimits D (size s) r ns) (hn : n ∈ ns) :
    ∃ v r', s ++ r = v ++ (D ++ r') ∧ size v = n := by
  induction ns generalizing s r with
  | nil => cases hn
  | cons m ns ih =>
    obtain ⟨v, r', rfl, rfl, -, h⟩ := h
    rcases List.mem_cons.1 hn with rfl | hn
    · exact ⟨s ++ v, r', (List.append_assoc ..).symm, Utf8.size_append s v⟩
    · rw [← Utf8.size_append, ← Utf8.size_append] at h
      simpa using ih h hn

theorem Delimits.pairwise (h : Delimits D place r ns) :
    (∀ n ∈ ns, place ≤ n) ∧ ns.Pairwise fun m n => m + size D ≤ n := by
  induction ns generalizing place r with
  | nil => exact ⟨by simp, .nil⟩
  | cons m ns ih =>
    obtain ⟨v, r', -, rfl, -, h⟩ := h
    obtain ⟨hle, hpairwise⟩ := ih h
    refine ⟨List.forall_mem_cons.2 ⟨by omega, fun n hn => ?_⟩, .cons hle hpairwise⟩
    have := hle n hn
    omega

/-- Between these places a text can be cut, and its delimiters are loosened as they are found from
the left. -/
theorem Delimits.loosenAt_eq (hD : D ≠ []) (h : Delimits D (size s) r ns) :
    loosenAt D (s ++ r) (size s) inRun ns = some (loosenFrom D 0 inRun r) := by
  induction ns generalizing s r inRun with
  | nil =>
    have hslice := Utf8.slice?_append s r []
    have hquote := loosenFrom_avoids h inRun
    simp only [List.append_nil, loosenFrom] at hslice hquote
    rw [loosenAt, Utf8.size_append, hslice, hquote]
    rfl
  | cons m ns ih =>
    obtain ⟨v, r', rfl, rfl, havoids, h⟩ := h
    have hsize : size s + size v + size D = size (s ++ (v ++ D)) := by
      simp only [Utf8.size_append, Nat.add_assoc]
    have hrest := @ih r' (s ++ (v ++ D)) true (hsize ▸ h)
    rw [← hsize] at hrest
    simp only [List.append_assoc] at hrest
    rw [loosenAt, if_neg (by omega), hrest, loosenFrom_avoids havoids, loosenFrom_delimiter hD]
    by_cases hv : v = []
    · subst hv
      simp [size]
    · have hpos := Utf8.size_pos hv
      rw [if_neg (by omega), Utf8.slice?_append]
      simp [hv]

end

namespace Expression

/-- The bytes of a delimiter are only found where the delimiter stands, so both its ends are between
characters, and it ends before the next one. Whatever the text, the pieces between them can be cut
out, and the expression is the one that is written by characters. -/
theorem Literal.delimiters_in_bytes {search : List Nat → List Nat → List Nat}
    (hsearch : FindsAll search) {D : Text} (hD : D ≠ []) (t : Text) :
    (∀ n ∈ search (encode D) (encode t), encode D <+: (encode t).drop n ∧ IsBoundary t n ∧
      IsBoundary t (n + size D)) ∧
    (search (encode D) (encode t)).Pairwise (fun m n => m + size D ≤ n) ∧
    ∀ loose, (Literal.mk D loose).sourceByBytes search t =
      some ((Literal.mk D loose).source t) := by
  have hneedle : encode D ≠ [] := by
    rw [← List.length_pos_iff, Utf8.length_encode]
    exact Utf8.size_pos hD
  have hplaces : Delimits D (size []) t (search (encode D) (encode t)) :=
    delimits_of_occurrences hD (hsearch _ _ hneedle)
  refine ⟨fun n hn => ?_, hplaces.pairwise.2, fun loose => ?_⟩
  · obtain ⟨v, r, heq, rfl⟩ := hplaces.exists_of_mem hn
    obtain rfl : t = v ++ (D ++ r) := heq
    exact ⟨(Utf8.encode_prefix_drop_iff hD).2 ⟨v, r, rfl, rfl⟩, ⟨v, D ++ r, rfl, rfl⟩,
      ⟨v ++ D, r, (List.append_assoc ..).symm, Utf8.size_append v D⟩⟩
  · have hloosen :
        loosenAt D t 0 false (search (encode D) (encode t)) = some (loosenFrom D 0 false t) :=
      hplaces.loosenAt_eq hD
    cases loose with
    | false => simp [sourceByBytes, source]
    | true => simpa [sourceByBytes, source, loosen, hD] using hloosen

/-- The delimiter `é` shares its first byte with `Ã`, and its second one with `©`. -/
theorem Literal.delimiters_in_bytes_accent :
    FindsAll Utf8.occurrences ∧ ['é'] ≠ [] ∧
    Utf8.occurrences (encode ['é']) (encode "Ãé©é".toList) = [2, 6] ∧
    (Literal.mk ['é'] true).sourceByBytes Utf8.occurrences "Ãé©é".toList =
      some "Ã(?:é)+(?!é)©(?:é)+(?!é)".toList := by
  obtain ⟨-, -, hsource⟩ := Literal.delimiters_in_bytes Utf8.findsAll_occurrences (D := ['é'])
    (by decide) "Ãé©é".toList
  refine ⟨Utf8.findsAll_occurrences, by decide, by decide +kernel, ?_⟩
  rw [hsource true]
  decide +kernel

end Expression

end PathTemplate
