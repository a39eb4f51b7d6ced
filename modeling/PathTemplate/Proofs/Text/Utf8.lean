import PathTemplate.Text.Utf8
import Mathlib

/-!
# Reading UTF-8 back

* `Utf8.trail` — the bytes of a character after its first one, six bits each;
* `Utf8.decodeAfter_trail` — they complete a character that was started with the bits before them;
* `Utf8.exists_first` — the first byte of a character that is not ASCII starts it so, and its
  second byte is in bounds;
* `Utf8.decode_encode_append` — the bytes of a text are read as this text, without replacement
  characters.
-/

namespace PathTemplate.Utf8

theorem bytes_ne_nil (c : Char) : bytes c ≠ [] := by
  dsimp only [bytes]
  split_ifs <;> simp

/-- The last `k` groups of six bits of `n`, as bytes that continue a character. -/
def trail : Nat → Nat → List Nat
  | 0, _ => []
  | k + 1, n => (0x80 + n / 64 ^ k % 64) :: trail k n

/-- A started character goes on with a byte within its bounds. -/
theorem decodeAfter_some {s : Started} {b : Nat} (hlo : s.lo ≤ b) (hhi : b ≤ s.hi)
    (rest : List Nat) :
    decodeAfter (some s) (b :: rest) =
      if s.missing = 1 then Char.ofNat (64 * s.bits + b % 64) :: decodeAfter none rest
        else decodeAfter (some ⟨s.missing - 1, 0x80, 0xBF, 64 * s.bits + b % 64⟩) rest := by
  rw [decodeAfter, if_pos ⟨hlo, hhi⟩]

theorem bits_step (n k : Nat) :
    64 * (n / 64 ^ (k + 1)) + (0x80 + n / 64 ^ k % 64) % 64 = n / 64 ^ k := by
  rw [Nat.pow_succ, ← Nat.div_div_eq_div_mul]
  omega

/-- The bytes that are missing complete the number whose first bits were read. Only the next one has
bounds of its own. -/
theorem decodeAfter_trail {n k lo hi : Nat} (hlo : lo ≤ 0x80 + n / 64 ^ k % 64)
    (hhi : 0x80 + n / 64 ^ k % 64 ≤ hi) (rest : List Nat) :
    decodeAfter (some ⟨k + 1, lo, hi, n / 64 ^ (k + 1)⟩) (trail (k + 1) n ++ rest) =
      Char.ofNat n :: decodeAfter none rest := by
  induction k generalizing lo hi with
  | zero =>
    have hbits := bits_step n 0
    rw [Nat.pow_zero, Nat.div_one] at hbits
    rw [trail, List.cons_append, decodeAfter_some hlo hhi, if_pos rfl]
    simp only [Nat.pow_zero, Nat.div_one]
    rw [hbits]
    rfl
  | succ k ih =>
    rw [trail, List.cons_append, decodeAfter_some hlo hhi, if_neg (by simp), bits_step]
    exact ih (by omega) (by omega)

@[simp] theorem trail_one (n : Nat) : trail 1 n = [0x80 + n % 64] := by simp [trail]

@[simp] theorem trail_two (n : Nat) : trail 2 n = [0x80 + n / 64 % 64, 0x80 + n % 64] := by
  simp [trail]

@[simp] theorem trail_three (n : Nat) :
    trail 3 n = [0x80 + n / 4096 % 64, 0x80 + n / 64 % 64, 0x80 + n % 64] := by
  simp [trail]

/-- A character that is not ASCII is started by its first byte, and its second byte is within the
bounds for it: a scalar value has no shorter form, is no surrogate, and is below `0x110000`. -/
theorem exists_first {c : Char} (h : 0x80 ≤ c.toNat) :
    ∃ b k lo hi, bytes c = b :: trail (k + 1) c.toNat ∧
      first b = .inr ⟨k + 1, lo, hi, c.toNat / 64 ^ (k + 1)⟩ ∧ lo ≤ 0x80 + c.toNat / 64 ^ k % 64 ∧
      0x80 + c.toNat / 64 ^ k % 64 ≤ hi := by
  have hvalid : c.toNat < 0xD800 ∨ 0xDFFF < c.toNat ∧ c.toNat < 0x110000 := c.valid
  dsimp only [bytes]
  generalize c.toNat = n at h hvalid
  rw [if_neg (by omega)]
  by_cases htwo : n < 0x800
  · refine ⟨0xC0 + n / 64, 0, 0x80, 0xBF, by simp [htwo], ?_, by omega, by omega⟩
    rw [first, if_neg (by omega), if_pos (by omega)]
    simp
  rw [if_neg htwo]
  by_cases hthree : n < 0x10000
  · rw [if_pos hthree]
    -- the first byte is one of those with bounds of their own, or between them
    by_cases hshort : n / 4096 = 0
    · refine ⟨0xE0, 1, 0xA0, 0xBF, by simp [hshort], ?_, by omega, by omega⟩
      simp [first, hshort]
    by_cases hsurrogate : n / 4096 = 0xD
    · refine ⟨0xED, 1, 0x80, 0x9F, by simp [hsurrogate], ?_, by omega, by omega⟩
      simp [first, hsurrogate]
    refine ⟨0xE0 + n / 4096, 1, 0x80, 0xBF, by simp, ?_, by omega, by omega⟩
    rw [first, if_neg (by omega), if_neg (by omega), if_neg (by omega), if_neg (by omega),
      if_pos (by omega)]
    simp
  · rw [if_neg hthree]
    by_cases hshort : n / 262144 = 0
    · refine ⟨0xF0, 2, 0x90, 0xBF, by simp [hshort], ?_, by omega, by omega⟩
      simp [first, hshort]
    by_cases hlast : n / 262144 = 4
    · refine ⟨0xF4, 2, 0x80, 0x8F, by simp [hlast], ?_, by omega, by omega⟩
      simp [first, hlast]
    refine ⟨0xF0 + n / 262144, 2, 0x80, 0xBF, by simp, ?_, by omega, by omega⟩
    rw [first, if_neg (by omega), if_neg (by omega), if_neg (by omega), if_neg (by omega),
      if_neg (by omega), if_neg (by omega), if_pos (by omega)]
    simp

/-- The bytes of a character are read as this character, whatever follows. -/
theorem decodeAfter_bytes (c : Char) (rest : List Nat) :
    decodeAfter none (bytes c ++ rest) = c :: decodeAfter none rest := by
  by_cases h : c.toNat < 0x80
  · have hbytes : bytes c = [c.toNat] := by simp [bytes, h]
    rw [hbytes, List.singleton_append, decodeAfter, first, if_pos h]
    simp
  · obtain ⟨b, k, lo, hi, hbytes, hfirst, hlo, hhi⟩ := exists_first (Nat.le_of_not_lt h)
    rw [hbytes, List.cons_append, decodeAfter, hfirst]
    show decodeAfter (some _) _ = _
    rw [decodeAfter_trail hlo hhi, Char.ofNat_toNat]

theorem encode_cons (c : Char) (t : Text) : encode (c :: t) = bytes c ++ encode t :=
  List.flatMap_cons

theorem decode_encode_append (t : Text) (bs : List Nat) :
    decode (encode t ++ bs) = t ++ decode bs := by
  induction t with
  | nil => rfl
  | cons c t ih =>
    rw [encode_cons, List.append_assoc, decode, decodeAfter_bytes]
    exact congrArg (c :: ·) ih

theorem decode_encode (t : Text) : decode (encode t) = t := by
  have h := decode_encode_append t []
  rw [List.append_nil] at h
  rw [h]
  exact List.append_nil t

end PathTemplate.Utf8
