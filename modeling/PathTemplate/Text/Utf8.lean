import PathTemplate.Text.Basic

/-!
# UTF-8

* `Utf8.bytes`, `Utf8.encode` — the bytes of a character and of a text; a byte is a number below
  256.
* `Utf8.size` — the number of bytes of a text.
* `Utf8.decode` — reads any bytes: each longest stretch that starts no character, or only starts
  one, becomes a single replacement character.
-/

namespace PathTemplate.Utf8

/-- The bytes of a character, between one and four. -/
def bytes (c : Char) : List Nat :=
  let n := c.toNat
  if n < 0x80 then [n]
  else if n < 0x800 then [0xC0 + n / 64, 0x80 + n % 64]
  else if n < 0x10000 then [0xE0 + n / 4096, 0x80 + n / 64 % 64, 0x80 + n % 64]
  else [0xF0 + n / 262144, 0x80 + n / 4096 % 64, 0x80 + n / 64 % 64, 0x80 + n % 64]

def encode (t : Text) : List Nat := t.flatMap bytes

def size : Text → Nat
  | [] => 0
  | c :: t => (bytes c).length + size t

theorem length_encode (t : Text) : (encode t).length = size t := by
  induction t with
  | nil => rfl
  | cons c t ih =>
    rw [encode, List.flatMap_cons, List.length_append, size, ← ih]
    rfl

theorem encode_append (s t : Text) : encode (s ++ t) = encode s ++ encode t := by
  simp [encode]

theorem size_append (s t : Text) : size (s ++ t) = size s + size t := by
  rw [← length_encode, encode_append, List.length_append, length_encode, length_encode]

/-- What stands for bytes that are no character. -/
def replacement : Char := Char.ofNat 0xFFFD

/-- A character of which some bytes were read: `missing` more are to come, the next one from `lo` to
`hi`, and the bits read so far make `bits`. -/
structure Started where
  missing : Nat
  lo : Nat
  hi : Nat
  bits : Nat

/-- What a byte at the start of a character stands for: a character, or the start of one. The second
byte of a long character is bounded so that no character has two forms and surrogates have none. -/
def first (b : Nat) : Char ⊕ Started :=
  if b < 0x80 then .inl (Char.ofNat b)
  else if 0xC2 ≤ b ∧ b ≤ 0xDF then .inr ⟨1, 0x80, 0xBF, b - 0xC0⟩
  else if b = 0xE0 then .inr ⟨2, 0xA0, 0xBF, 0⟩
  else if b = 0xED then .inr ⟨2, 0x80, 0x9F, 0xD⟩
  else if 0xE1 ≤ b ∧ b ≤ 0xEF then .inr ⟨2, 0x80, 0xBF, b - 0xE0⟩
  else if b = 0xF0 then .inr ⟨3, 0x90, 0xBF, 0⟩
  else if 0xF1 ≤ b ∧ b ≤ 0xF3 then .inr ⟨3, 0x80, 0xBF, b - 0xF0⟩
  else if b = 0xF4 then .inr ⟨3, 0x80, 0x8F, 4⟩
  else .inl replacement

/-- Reads the bytes after a started character, or after a finished one. -/
def decodeAfter : Option Started → List Nat → Text
  | none, [] => []
  | some _, [] => [replacement]
  | none, b :: rest =>
    match first b with
    | .inl c => c :: decodeAfter none rest
    | .inr s => decodeAfter (some s) rest
  | some s, b :: rest =>
    if s.lo ≤ b ∧ b ≤ s.hi then
      if s.missing = 1 then Char.ofNat (64 * s.bits + b % 64) :: decodeAfter none rest
      else decodeAfter (some ⟨s.missing - 1, 0x80, 0xBF, 64 * s.bits + b % 64⟩) rest
    else
      replacement ::
        match first b with
        | .inl c => c :: decodeAfter none rest
        | .inr s => decodeAfter (some s) rest

/-- Reads bytes as a text, with replacement characters for what is no text. -/
def decode (bs : List Nat) : Text := decodeAfter none bs

end PathTemplate.Utf8
