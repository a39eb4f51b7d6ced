import PathTemplate.Proofs.Text.Utf8
import PathTemplate.Text.Bytes

/-!
# Places in the bytes of a text

The first byte of a character continues none, and all its other bytes do. So the bytes of a text
that is not empty are found in those of another text only where this text occurs in it.

* `Utf8.IsBoundary` — a place between characters; `Utf8.cut?_eq_some_iff`, `Utf8.slice?_append` —
  what is cut out between such places;
* `Utf8.IsTrailing` — a byte that continues a character; `Utf8.isBoundary_of_drop` — before any
  other byte is a boundary;
* `Utf8.prefix_of_encode_prefix`, `Utf8.encode_prefix_drop_iff` — where the bytes of a text occur;
* `Utf8.FindsAll` — what a search for bytes gives; `Utf8.findsAll_occurrences` — so does one that
  walks along the bytes.
-/

namespace PathTemplate.Utf8

/-- A place between two characters of a text, or at one of its ends. -/
def IsBoundary (t : Text) (n : Nat) : Prop := ∃ s r, t = s ++ r ∧ size s = n

/-- A byte that continues a character. -/
def IsTrailing (b : Nat) : Prop := 0x80 ≤ b ∧ b < 0xC0

/-- The places where `needle` occurs in bytes that start at `place`, from the left: the next
occurrence is looked for where the last one ends. -/
def Occurrences (needle : List Nat) : (place : Nat) → (bs : List Nat) → List Nat → Prop
  | _, bs, [] => ∀ k, ¬needle <+: bs.drop k
  | place, bs, n :: ns =>
    ∃ k, n = place + k ∧ needle <+: bs.drop k ∧ (∀ j < k, ¬needle <+: bs.drop j) ∧
      Occurrences needle (n + needle.length) (bs.drop (k + needle.length)) ns

/-- The search gives all places of bytes in other bytes, from the left and without overlaps. -/
def FindsAll (search : List Nat → List Nat → List Nat) : Prop :=
  ∀ needle bs, needle ≠ [] → Occurrences needle 0 bs (search needle bs)

section

variable {s t u v r : Text} {n b : Nat} {bs : List Nat}

/-! ### the bytes of a character -/

theorem isTrailing_low (n : Nat) : IsTrailing (0x80 + n % 64) := by
  unfold IsTrailing
  omega

/-- The first byte of a character continues none, and the others do. -/
theorem exists_bytes_eq_cons (c : Char) :
    ∃ b bs, bytes c = b :: bs ∧ ¬IsTrailing b ∧ ∀ b' ∈ bs, IsTrailing b' := by
  dsimp only [bytes]
  generalize c.toNat = n
  split_ifs
  · exact ⟨n, [], rfl, by unfold IsTrailing; omega, by simp⟩
  all_goals exact ⟨_, _, rfl, by unfold IsTrailing; omega, by simp [isTrailing_low]⟩

/-! ### slices -/

theorem size_eq_zero_iff : size t = 0 ↔ t = [] := by
  cases t with
  | nil => exact iff_of_true rfl rfl
  | cons c t =>
    have hpos := List.length_pos_iff.2 (bytes_ne_nil c)
    simp only [size, reduceCtorEq, iff_false]
    omega

theorem size_pos (h : t ≠ []) : 0 < size t :=
  Nat.pos_of_ne_zero fun hsize => h (size_eq_zero_iff.1 hsize)

theorem cut?_zero_eq_some_iff : cut? t 0 = some (s, r) ↔ t = s ++ r ∧ size s = 0 := by
  have hcut : cut? t 0 = some ([], t) := by cases t <;> rfl
  rw [hcut, size_eq_zero_iff, Option.some.injEq, Prod.mk.injEq]
  constructor
  · rintro ⟨rfl, rfl⟩
    exact ⟨rfl, rfl⟩
  · rintro ⟨rfl, rfl⟩
    exact ⟨rfl, rfl⟩

/-- A text is cut where as many bytes are before a boundary. -/
theorem cut?_eq_some_iff : cut? t n = some (s, r) ↔ t = s ++ r ∧ size s = n := by
  induction t generalizing n s with
  | nil =>
    cases n with
    | zero => exact cut?_zero_eq_some_iff
    | succ n =>
      simp only [cut?, reduceCtorEq, false_iff, not_and]
      intro h
      rw [(List.append_eq_nil_iff.1 h.symm).1]
      simp [size]
  | cons c t ih =>
    cases n with
    | zero => exact cut?_zero_eq_some_iff
    | succ n =>
      have hpos := List.length_pos_iff.2 (bytes_ne_nil c)
      rw [cut?]
      constructor
      · intro h
        split at h
        · obtain ⟨⟨s, r⟩, hcut, heq⟩ := Option.map_eq_some_iff.1 h
          cases heq
          obtain ⟨rfl, hsize⟩ := ih.1 hcut
          exact ⟨rfl, by simp only [size]; omega⟩
        · cases h
      · rintro ⟨heq, hsize⟩
        cases s with
        | nil => cases hsize
        | cons d s =>
          obtain ⟨rfl, rfl⟩ := List.cons.inj heq
          simp only [size] at hsize
          rw [if_pos (by omega), ih.2 ⟨rfl, by omega⟩]
          rfl

theorem slice?_append (u v r : Text) :
    slice? (u ++ (v ++ r)) (size u) (size u + size v) = some v := by
  have hstop : cut? (u ++ (v ++ r)) (size u + size v) = some (u ++ v, r) :=
    cut?_eq_some_iff.2 ⟨(List.append_assoc ..).symm, size_append u v⟩
  have hstart : cut? (u ++ v) (size u) = some (u, v) := cut?_eq_some_iff.2 ⟨rfl, rfl⟩
  rw [slice?, hstop]
  simp [hstart]

/-! ### where a text occurs -/

/-- A byte that continues no character has a boundary before it. -/
theorem isBoundary_of_drop (h : (encode t).drop n = b :: bs) (hb : ¬IsTrailing b) :
    IsBoundary t n := by
  induction t generalizing n with
  | nil => cases n <;> cases h
  | cons c t ih =>
    rcases Nat.lt_or_ge n (bytes c).length with hlt | hge
    · cases n with
      | zero => exact ⟨[], c :: t, rfl, rfl⟩
      | succ n =>
        -- the other bytes of a character continue it
        obtain ⟨b', bs', hbytes, -, htrailing⟩ := exists_bytes_eq_cons c
        rw [encode_cons, hbytes, List.cons_append, List.drop_succ_cons] at h
        rw [hbytes, List.length_cons] at hlt
        rw [List.drop_append_of_le_length (by omega), List.drop_eq_getElem_cons (by omega),
          List.cons_append] at h
        obtain ⟨rfl, -⟩ := List.cons.inj h
        exact absurd (htrailing _ (List.getElem_mem _)) hb
    · obtain ⟨n, rfl⟩ := Nat.exists_eq_add_of_le hge
      rw [encode_cons, ← List.drop_drop, List.drop_left] at h
      obtain ⟨s, r, rfl, rfl⟩ := ih h
      exact ⟨c :: s, r, rfl, rfl⟩

theorem prefix_of_encode_prefix (h : encode s <+: encode t) : s <+: t := by
  obtain ⟨bs, hbs⟩ := h
  exact ⟨decode bs, by rw [← decode_encode_append, hbs, decode_encode]⟩

theorem drop_encode_append (u t : Text) : (encode (u ++ t)).drop (size u) = encode t := by
  rw [encode_append, ← length_encode, List.drop_left]

/-- The bytes of a text occur where the text does, and nowhere else. -/
theorem encode_prefix_drop_iff (hs : s ≠ []) :
    encode s <+: (encode t).drop n ↔ ∃ v r, t = v ++ (s ++ r) ∧ size v = n := by
  constructor
  · intro h
    obtain ⟨c, s', rfl⟩ := List.exists_cons_of_ne_nil hs
    obtain ⟨b, bs, hbytes, hb, -⟩ := exists_bytes_eq_cons c
    obtain ⟨rest, hrest⟩ := h
    have hdrop : (encode t).drop n = b :: (bs ++ (encode s' ++ rest)) := by
      simp [← hrest, encode_cons, hbytes]
    obtain ⟨v, r, rfl, rfl⟩ := isBoundary_of_drop hdrop hb
    rw [drop_encode_append] at hrest
    obtain ⟨r, rfl⟩ := prefix_of_encode_prefix ⟨rest, hrest⟩
    exact ⟨v, r, rfl, rfl⟩
  · rintro ⟨v, r, rfl, rfl⟩
    rw [drop_encode_append, encode_append]
    exact List.prefix_append ..

end

/-! ### searching -/

section

variable {needle bs ns : List Nat} {b place : Nat}

/-- Before the first occurrence, more bytes may be passed over. -/
theorem Occurrences.cons (hb : ¬needle <+: b :: bs) (h : Occurrences needle (place + 1) bs ns) :
    Occurrences needle place (b :: bs) ns := by
  cases ns with
  | nil =>
    intro k
    cases k with
    | zero => exact hb
    | succ k => exact h k
  | cons n ns =>
    obtain ⟨k, rfl, hk, hfirst, h⟩ := h
    refine ⟨k + 1, by omega, hk, fun j hj => ?_, ?_⟩
    · cases j with
      | zero => exact hb
      | succ j => exact hfirst j (by omega)
    · rwa [Nat.add_right_comm k 1, List.drop_succ_cons]

theorem occurrencesFrom_skip (needle : List Nat) (place : Nat) (s bs : List Nat) :
    occurrencesFrom needle s.length place (s ++ bs) =
      occurrencesFrom needle 0 (place + s.length) bs := by
  induction s generalizing place with
  | nil => rfl
  | cons b s ih =>
    rw [List.length_cons, List.cons_append, occurrencesFrom, ih]
    congr 1
    omega

theorem occurrencesFrom_occurrences (hneedle : needle ≠ []) (place : Nat) (bs : List Nat) :
    Occurrences needle place bs (occurrencesFrom needle 0 place bs) := by
  induction hlen : bs.length using Nat.strong_induction_on generalizing place bs with
  | _ m ih =>
    cases bs with
    | nil => exact fun k => by simpa using hneedle
    | cons b bs =>
      rw [occurrencesFrom]
      split
      · rename_i hpre
        obtain ⟨rest, hrest⟩ := List.isPrefixOf_iff_prefix.1 hpre
        obtain ⟨d, needle, rfl⟩ := List.exists_cons_of_ne_nil hneedle
        obtain ⟨rfl, rfl⟩ : d = b ∧ needle ++ rest = bs := List.cons.inj hrest
        have hlater :
            occurrencesFrom (d :: needle) ((d :: needle).length - 1) (place + 1) (needle ++ rest) =
            occurrencesFrom (d :: needle) 0 (place + (d :: needle).length) rest := by
          rw [List.length_cons, Nat.add_sub_cancel, occurrencesFrom_skip, Nat.add_assoc,
            Nat.add_comm 1]
        have hdrop : (d :: (needle ++ rest)).drop (0 + (d :: needle).length) = rest := by
          rw [Nat.zero_add, ← List.cons_append, List.drop_left]
        refine ⟨0, rfl, ⟨rest, rfl⟩, fun j hj => absurd hj (Nat.not_lt_zero j), ?_⟩
        rw [hlater, hdrop]
        exact ih rest.length (by simp [← hlen]) _ rest rfl
      · rename_i hpre
        exact .cons (fun h => hpre (List.isPrefixOf_iff_prefix.2 h))
          (ih bs.length (by simp [← hlen]) (place + 1) bs rfl)

theorem findsAll_occurrences : FindsAll occurrences :=
  fun _ bs hneedle => occurrencesFrom_occurrences hneedle 0 bs

end

end PathTemplate.Utf8
