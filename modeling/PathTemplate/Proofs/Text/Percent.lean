import PathTemplate.Codec
import PathTemplate.Proofs.Text.Utf8
import Mathlib

/-!
# Percent encoding is read back

* `Utf8.lt_of_mem_bytes` — a byte is below 256;
* `Percent.mem_encode` — what is in an encoded text: characters that stand for themselves, and the
  sign that starts an escape;
* `Percent.encode_eq_nil_iff` — only the empty text is encoded as nothing;
* `Percent.IsComponent` — how URI components are written;
* `Percent.bytes_encode` — the escapes of an encoded text stand for its bytes;
* `Percent.encode_faithful` — encoded texts are URI components, and decoding gives the text back.
-/

namespace PathTemplate

theorem Utf8.lt_of_mem_bytes {c : Char} {b : Nat} (h : b ∈ bytes c) : b < 256 := by
  have hc : c.toNat < 0x110000 := by
    rcases c.valid with hlow | ⟨-, hhigh⟩
    · exact Nat.lt_trans hlow (by decide)
    · exact hhigh
  dsimp only [bytes] at h
  split_ifs at h <;> simp only [List.mem_cons, List.not_mem_nil, or_false] at h <;> omega

namespace Percent

theorem isKept_upper {n : Nat} (h : n < 16) : isKept (Hex.upper n) = true := by
  have hall : ∀ m : Fin 16, isKept (Hex.upper m.val) = true := by decide
  exact hall ⟨n, h⟩

theorem mem_escapeByte {b : Nat} (hb : b < 256) {c : Char} (h : c ∈ escapeByte b) :
    isKept c = true ∨ c = '%' := by
  simp only [escapeByte, List.mem_cons, List.not_mem_nil, or_false] at h
  rcases h with rfl | rfl | rfl
  · exact .inr rfl
  · exact .inl (isKept_upper (by omega))
  · exact .inl (isKept_upper (by omega))

/-- An encoded text is made of characters that stand for themselves and of the sign that starts an
escape. -/
theorem mem_encode {t : Text} {c : Char} (h : c ∈ encode t) : isKept c = true ∨ c = '%' := by
  obtain ⟨d, -, hd⟩ := List.mem_flatMap.1 h
  split at hd
  · rename_i hkept
    rw [List.mem_singleton.1 hd]
    exact .inl hkept
  · obtain ⟨b, hb, hc⟩ := List.mem_flatMap.1 hd
    exact mem_escapeByte (Utf8.lt_of_mem_bytes hb) hc

theorem encode_eq_nil_iff {t : Text} : encode t = [] ↔ t = [] := by
  refine ⟨fun h => ?_, fun h => by rw [h]; rfl⟩
  cases t with
  | nil => rfl
  | cons c t =>
    rw [encode, List.flatMap_cons, List.append_eq_nil_iff] at h
    obtain ⟨b, bs, hb⟩ := List.exists_cons_of_ne_nil (Utf8.bytes_ne_nil c)
    have hhead := h.1
    split at hhead
    · cases hhead
    · rw [hb, List.flatMap_cons] at hhead
      cases hhead

/-! ### how components are written -/

/-- The upper-case hexadecimal digits. -/
def upperDigits : Text :=
  ['0', '1', '2', '3', '4', '5', '6', '7', '8', '9', 'A', 'B', 'C', 'D', 'E', 'F']

/-- The marks that stand for themselves. -/
def marks : Text := ['-', '_', '.', '!', '~', '*', '\'', '(', ')']

/-- A URI component in its written form: ASCII letters and digits, marks, and escapes with two
upper-case digits. -/
inductive IsComponent : Text → Prop where
  | nil : IsComponent []
  | kept {c : Char} {t : Text} (hc : c.isAlphanum = true ∨ c ∈ marks) (ht : IsComponent t) :
      IsComponent (c :: t)
  | escape {a b : Char} {t : Text} (ha : a ∈ upperDigits) (hb : b ∈ upperDigits)
      (ht : IsComponent t) : IsComponent ('%' :: a :: b :: t)

theorem isKept_iff {c : Char} : isKept c = true ↔ c.isAlphanum = true ∨ c ∈ marks := by
  simp only [isKept, marks, Char.isAlphanum, Char.isAlpha, Char.isUpper, Char.isLower, Char.isDigit,
    Bool.or_eq_true, Bool.and_eq_true, decide_eq_true_eq, List.contains_eq_mem, Char.le_def]
  exact or_congr_left (or_congr_left or_comm)

theorem upper_mem_upperDigits {n : Nat} (h : n < 16) : Hex.upper n ∈ upperDigits := by
  have hall : ∀ m : Fin 16, Hex.upper m.val ∈ upperDigits := by decide
  exact hall ⟨n, h⟩

theorem IsComponent.escapeByte {b : Nat} (hb : b < 256) {t : Text} (ht : IsComponent t) :
    IsComponent (escapeByte b ++ t) :=
  .escape (upper_mem_upperDigits (by omega)) (upper_mem_upperDigits (by omega)) ht

theorem isComponent_encode (t : Text) : IsComponent (encode t) := by
  induction t with
  | nil => exact .nil
  | cons c t ih =>
    rw [encode, List.flatMap_cons]
    split
    · rename_i hkept
      exact .kept (isKept_iff.1 hkept) ih
    · -- one escape for each byte of the character
      have hescapes : ∀ bs : List Nat, (∀ b ∈ bs, b < 256) →
          IsComponent (bs.flatMap Percent.escapeByte ++ encode t) := by
        intro bs hbs
        induction bs with
        | nil => exact ih
        | cons b bs ihb =>
          rw [List.flatMap_cons, List.append_assoc]
          exact (ihb fun b' hb' => hbs b' (List.mem_cons_of_mem b hb')).escapeByte
            (hbs b (List.mem_cons_self ..))
      exact hescapes _ fun b => Utf8.lt_of_mem_bytes

theorem toNat_lt_of_isKept {c : Char} (h : isKept c = true) : c.toNat < 128 := by
  rcases isKept_iff.1 h with halnum | hmark
  · simp only [Char.isAlphanum, Char.isAlpha, Char.isUpper, Char.isLower, Char.isDigit,
      Bool.or_eq_true, Bool.and_eq_true, decide_eq_true_eq, ge_iff_le,
      UInt32.le_iff_toNat_le] at halnum
    have hval : c.toNat = c.val.toNat := rfl
    have hbounds : 'z'.val.toNat = 122 ∧ 'Z'.val.toNat = 90 ∧ '9'.val.toNat = 57 := by decide
    omega
  · have hall : marks.all (·.toNat < 128) = true := rfl
    exact of_decide_eq_true (List.all_eq_true.1 hall c hmark)

/-! ### reading components -/

theorem bytes_cons_of_ne {c : Char} (hc : c ≠ '%') (t : Text) :
    bytes (c :: t) = Utf8.bytes c ++ bytes t := by
  rw [bytes]
  rintro a b rest rfl
  exact absurd rfl hc

theorem bytes_escapeByte {b : Nat} (hb : b < 256) (t : Text) :
    bytes (escapeByte b ++ t) = b :: bytes t := by
  have hhigh : Hex.value? (Hex.upper (b / 16)) = some (b / 16) := Hex.value?_upper (by omega)
  have hlow : Hex.value? (Hex.upper (b % 16)) = some (b % 16) := Hex.value?_upper (by omega)
  show bytes ('%' :: Hex.upper (b / 16) :: Hex.upper (b % 16) :: t) = b :: bytes t
  rw [bytes, hhigh, hlow]
  show (16 * (b / 16) + b % 16) :: bytes t = b :: bytes t
  rw [Nat.div_add_mod]

theorem bytes_escapes {bs : List Nat} (hbs : ∀ b ∈ bs, b < 256) (t : Text) :
    bytes (bs.flatMap escapeByte ++ t) = bs ++ bytes t := by
  induction bs with
  | nil => rfl
  | cons b bs ih =>
    rw [List.flatMap_cons, List.append_assoc, bytes_escapeByte (hbs b (List.mem_cons_self ..)),
      ih fun b' hb' => hbs b' (List.mem_cons_of_mem b hb')]
    rfl

theorem bytes_encode (t : Text) : bytes (encode t) = Utf8.encode t := by
  induction t with
  | nil => rfl
  | cons c t ih =>
    rw [encode, Utf8.encode, List.flatMap_cons, List.flatMap_cons]
    split
    · rename_i hkept
      have hc : c ≠ '%' := by
        rintro rfl
        exact absurd hkept (by decide)
      exact (bytes_cons_of_ne hc _).trans (congrArg (Utf8.bytes c ++ ·) ih)
    · exact (bytes_escapes (fun b => Utf8.lt_of_mem_bytes) _).trans
        (congrArg (Utf8.bytes c ++ ·) ih)

theorem decode_encode (t : Text) : decode (encode t) = t := by
  rw [decode, bytes_encode, Utf8.decode_encode]

/-- Decoding undoes encoding, and an encoded text is a URI component: letters, digits, marks and
escapes. So no two texts are encoded alike, and an encoded text is ASCII in one line without
slashes. -/
theorem encode_faithful :
    (∀ t, decode (encode t) = t) ∧ (∀ t, IsComponent (encode t)) ∧
    (∀ s t, encode s = encode t → s = t) ∧
    ∀ t, ∀ c ∈ encode t, c ≠ '/' ∧ c ≠ '\n' ∧ c.toNat < 128 := by
  refine ⟨decode_encode, isComponent_encode, fun s t h => ?_, fun t c hc => ?_⟩
  · calc s = decode (encode s) := (decode_encode s).symm
      _ = decode (encode t) := by rw [h]
      _ = t := decode_encode t
  · rcases mem_encode hc with hkept | rfl
    · refine ⟨?_, ?_, toNat_lt_of_isKept hkept⟩
      · rintro rfl
        exact absurd hkept (by decide)
      · rintro rfl
        exact absurd hkept (by decide)
    · decide

example : encode "a b/é".toList = "a%20b%2F%C3%A9".toList := by decide +kernel

end Percent

end PathTemplate
