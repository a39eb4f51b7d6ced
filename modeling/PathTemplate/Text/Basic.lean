/-!
# Text

* `Text` — a text is its list of code points; every position in this library counts code points.
* `Text.fields` — the stretches of a text between the occurrences of a separating character.
* `Text.words` — the stretches between blanks and line ends.
* `Text.ofNat` — a number in decimal digits.
* `length_dropWhile_le`, `exists_of_map_eq_ok`, `eq_error_of_map` — what readers that return the
  rest of a text rely on.
* `eq_of_map`, `eq_ok_of_bind`, `ne_error_of_bind`, `exists_ok_some_of_bind` — what a computation
  that is evaluated as a whole says of its steps.
-/

namespace PathTemplate

/-- A text: its code points, in order. -/
abbrev Text := List Char

/-- The stretches between the occurrences of `sep`, one more than there are occurrences. -/
def Text.fields (sep : Char) : Text → List Text
  | [] => [[]]
  | c :: rest =>
    match Text.fields sep rest with
    | [] => [[c]]
    | w :: ws => if c = sep then [] :: w :: ws else (c :: w) :: ws

theorem Text.fields_ne_nil (sep : Char) (t : Text) : Text.fields sep t ≠ [] := by
  induction t with
  | nil => simp [Text.fields]
  | cons c rest ih =>
    unfold Text.fields
    split
    · simp
    · split <;> simp

/-- The words of a text, with blanks and line ends between them. -/
def Text.words (t : Text) : List Text :=
  (Text.fields ' ' (t.map fun c => if c = '\n' then ' ' else c)).filter (· ≠ [])

def Text.ofNat (n : Nat) : Text := Nat.toDigits 10 n

theorem length_dropWhile_le {α : Type} (p : α → Bool) (l : List α) :
    (l.dropWhile p).length ≤ l.length :=
  (List.dropWhile_sublist p).length_le

theorem exists_of_map_eq_ok {ε α β : Type} {f : α → β} {x : Except ε α} {b : β}
    (h : x.map f = .ok b) : ∃ a, x = .ok a ∧ f a = b := by
  cases x with
  | error e => simp [Except.map] at h
  | ok a => exact ⟨a, rfl, by simpa [Except.map] using h⟩

theorem exists_of_bind_eq_ok {ε α β : Type} {x : Except ε α} {f : α → Except ε β} {b : β}
    (h : x.bind f = .ok b) : ∃ a, x = .ok a ∧ f a = .ok b := by
  cases x with
  | error e => cases h
  | ok a => exact ⟨a, rfl, h⟩

theorem eq_error_of_map {ε α β : Type} {f : α → β} {x : Except ε α} {e : ε}
    (h : x.map f = .error e) : x = .error e := by
  cases x with
  | error e' =>
    cases h
    rfl
  | ok a => cases h

theorem exists_ok_of_isSome {ε α : Type} {x : Except ε α} (h : x.toOption.isSome = true) :
    ∃ a, x = .ok a := by
  cases x with
  | error e => cases h
  | ok a => exact ⟨a, rfl⟩

theorem toOption_map {ε α β : Type} (f : α → β) (x : Except ε α) :
    (x.map f).toOption = x.toOption.map f := by
  cases x <;> rfl

theorem toOption_eq_some_iff {ε α : Type} {x : Except ε α} {a : α} :
    x.toOption = some a ↔ x = .ok a := by
  cases x <;> simp [Except.toOption]

/-! ### computations on results

Of a computation that goes on from the result `x` the whole evaluates, while proofs name the value
of `x` and speak of what comes after it. -/

section

variable {ε ε' α β γ : Type} {x : Except ε α} {a : α}

theorem eq_of_map (k : α → γ) {c : γ} (hx : x = .ok a) (h : x.toOption.map k = some c) :
    k a = c := by
  rw [hx] at h
  exact Option.some.inj h

theorem eq_ok_of_bind (f : α → Except ε' β) {b : β} (hx : x = .ok a)
    (h : (x.toOption.bind fun a => (f a).toOption) = some b) : f a = .ok b := by
  rw [hx] at h
  exact toOption_eq_some_iff.1 h

theorem exists_ok_of_bind (f : α → Except ε' β) (hx : x = .ok a)
    (h : (x.toOption.bind fun a => (f a).toOption).isSome = true) : ∃ b, f a = .ok b := by
  obtain ⟨b, hb⟩ := Option.isSome_iff_exists.1 h
  exact ⟨b, eq_ok_of_bind f hx hb⟩

theorem ne_error_of_bind (f : α → Except ε' β) {e : ε'} (hx : x = .ok a)
    (h : (x.toOption.bind fun a => (f a).toOption).isSome = true) : f a ≠ .error e := by
  obtain ⟨b, hb⟩ := exists_ok_of_bind f hx h
  rw [hb]
  exact nofun

theorem eq_ok_none_of_bind (f : α → Except ε' (Option β)) (hx : x = .ok a)
    (h : (x.toOption.bind fun a => (f a).toOption.map Option.isNone) = some true) :
    f a = .ok none := by
  rw [hx] at h
  obtain ⟨r, hr, hnone⟩ := Option.map_eq_some_iff.1
    (show (f a).toOption.map Option.isNone = some true from h)
  rw [toOption_eq_some_iff.1 hr, Option.isNone_iff_eq_none.1 hnone]

theorem exists_ok_some_of_bind_eq (f : α → Except ε' (Option β)) {k : β → Option γ} {c : γ}
    (hx : x = .ok a) (h : (x.toOption.bind fun a => (f a).toOption.join.bind k) = some c) :
    ∃ b, f a = .ok (some b) ∧ k b = some c := by
  rw [hx] at h
  obtain ⟨b, hb, hk⟩ := Option.bind_eq_some_iff.1 (show (f a).toOption.join.bind k = some c from h)
  exact ⟨b, toOption_eq_some_iff.1 (Option.join_eq_some_iff.1 hb), hk⟩

theorem exists_ok_some_of_bind (f : α → Except ε' (Option β)) (hx : x = .ok a)
    (h : (x.toOption.bind fun a => (f a).toOption.join).isSome = true) :
    ∃ b, f a = .ok (some b) := by
  obtain ⟨b, hb⟩ := Option.isSome_iff_exists.1 h
  obtain ⟨b, hb, -⟩ := exists_ok_some_of_bind_eq f (k := some) hx (by simpa using hb)
  exact ⟨b, hb⟩

end

end PathTemplate
