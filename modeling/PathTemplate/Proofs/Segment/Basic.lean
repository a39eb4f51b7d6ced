import PathTemplate.Expression.Subject
import PathTemplate.Proofs.Expression.Literal

/-!
# Paths of segments

Paths read segment by segment, without expressions.  `D` is the delimiter, one character with no
other form.

* `Slot` — a segment of a template: literal text, or a parameter; `Slot.Fits` — what may stand in
  its place;
* `Spelled` — a text is made of values for some segments, each after delimiters;
* `SplitsInto` — so is all of a path, up to delimiters at its end;
* `runs_unique` — values after delimiters are known from their text;
* `SplitsInto.unique` — the values are known from the path.
-/

namespace PathTemplate

/-- A segment of a template: literal text, or a parameter by its name. -/
inductive Slot where
  | literal (t : Text)
  | param (name : Text)
  deriving DecidableEq, Repr

/-- Case folding gives the delimiter no other form. -/
def IsAlone (D : Char) : Prop := ∀ c, Unicode.sameFold D c = true → c = D

namespace Slot

/-- Literal text is not empty and has no delimiter. -/
def IsProper (D : Char) : Slot → Prop
  | literal t => t ≠ [] ∧ D ∉ t
  | param _ => True

/-- What may stand in the place of a segment: the literal text, up to case if case does not count;
or any text in one line and without a delimiter that is not empty. -/
def Fits (ic : Bool) (D : Char) : Slot → Text → Prop
  | literal t, v => Alike ic t v
  | param _, v => v ≠ [] ∧ D ∉ v ∧ '\n' ∉ v

end Slot

/-- The number of delimiters before a segment. -/
def IsRun (loose : Bool) (k : Nat) : Prop := 1 ≤ k ∧ (loose = false → k = 1)

/-- The number of delimiters at the end. -/
def IsTail (loose trailing : Bool) (k : Nat) : Prop := k = 0 ∨ trailing = true ∧ IsRun loose k

/-- The text `x` is made of the values `vs` for the segments, each after delimiters. -/
def Spelled (ic loose : Bool) (D : Char) : List Slot → (vs : List Text) → (x : Text) → Prop
  | [], [], x => x = []
  | s :: slots, v :: vs, x =>
    ∃ k rest, IsRun loose k ∧ s.Fits ic D v ∧ x = List.replicate k D ++ (v ++ rest) ∧
    Spelled ic loose D slots vs rest
  | _, _, _ => False

/-- The path `u` is made of the values `vs` for the segments, each after delimiters, and of
delimiters at its end. -/
def SplitsInto (ic loose trailing : Bool) (D : Char) (slots : List Slot) (vs : List Text)
    (u : Text) : Prop :=
  ∃ x k, Spelled ic loose D slots vs x ∧ IsTail loose trailing k ∧ u = x ++ List.replicate k D

/-- The values of parameters by name, from left to right. -/
def bindings : List Slot → List Text → List (Text × Text)
  | .literal _ :: slots, _ :: vs => bindings slots vs
  | .param name :: slots, v :: vs => (name, v) :: bindings slots vs
  | _, _ => []

section

variable {ic loose trailing : Bool} {D : Char} {k k' : Nat} {v v' r r' x x' u : Text} {s : Slot}
  {slots : List Slot} {vs vs' : List Text}

theorem isAlone_of_isCaseless (hD : Unicode.isCaseless D = true) : IsAlone D :=
  fun _ hc => ((Unicode.sameFold_iff_of_isCaseless hD).1 hc).symm

theorem matchesChar_delimiter (hD : IsAlone D) {c : Char} : matchesChar c ic D = true ↔ c = D := by
  constructor
  · intro h
    cases ic with
    | false => simpa [matchesChar] using h
    | true =>
      refine hD c ?_
      simp only [matchesChar, if_true, Unicode.sameFold, Bool.or_eq_true, decide_eq_true_eq] at h ⊢
      exact h.imp Eq.symm Eq.symm
  · rintro rfl
    exact matchesChar_refl c ic

theorem matchesChar_delimiter' (hD : IsAlone D) {c : Char} : matchesChar D ic c = true ↔ c = D := by
  constructor
  · intro h
    cases ic with
    | false => simpa [matchesChar, eq_comm] using h
    | true => exact hD c h
  · rintro rfl
    exact matchesChar_refl c ic

theorem Alike.notMem (hD : IsAlone D) {t : Text} (h : Alike ic t v) (ht : D ∉ t) : D ∉ v := by
  induction h with
  | nil => simp
  | @cons c d t v hc _ ih =>
    simp only [List.mem_cons, not_or] at ht ⊢
    refine ⟨?_, ih ht.2⟩
    rintro rfl
    exact ht.1 ((matchesChar_delimiter hD).1 hc).symm

theorem Slot.Fits.proper (hD : IsAlone D) (hs : s.IsProper D) (h : s.Fits ic D v) :
    v ≠ [] ∧ D ∉ v := by
  cases s with
  | param name => exact ⟨h.1, h.2.1⟩
  | literal t =>
    refine ⟨?_, Alike.notMem hD h hs.2⟩
    rintro rfl
    cases h
    exact hs.1 rfl

/-- What follows a value: nothing, or a delimiter. -/
def IsBorder (D : Char) (r : Text) : Prop := r = [] ∨ ∃ r', r = D :: r'

/-- Delimiters, a value and what follows it are known from the whole. -/
theorem border_unique (hv : v ≠ [] ∧ D ∉ v) (hv' : v' ≠ [] ∧ D ∉ v') (hr : IsBorder D r)
    (hr' : IsBorder D r') (h : List.replicate k D ++ (v ++ r) = List.replicate k' D ++ (v' ++ r')) :
    k = k' ∧ v = v' ∧ r = r' := by
  have hdrop : ∀ {k : Nat} {v r : Text}, v ≠ [] ∧ D ∉ v →
      (List.replicate k D ++ (v ++ r)).dropWhile (· = D) = v ++ r := by
    intro k v r hv
    obtain ⟨c, v, rfl⟩ := List.exists_cons_of_ne_nil hv.1
    have hc : c ≠ D := fun hc => hv.2 (by simp [hc])
    rw [List.dropWhile_append_of_pos (by simp)]
    simp [hc]
  have htake : ∀ {v r : Text}, v ≠ [] ∧ D ∉ v → IsBorder D r → (v ++ r).takeWhile (· ≠ D) = v := by
    intro v r hv hr
    rw [List.takeWhile_append_of_pos (fun c hc => by simpa using fun h : c = D => hv.2 (h ▸ hc))]
    rcases hr with rfl | ⟨r', rfl⟩ <;> simp
  have h₁ : v ++ r = v' ++ r' := by rw [← hdrop hv (k := k), h, hdrop hv']
  have h₂ : v = v' := by rw [← htake hv hr, h₁, htake hv' hr']
  subst h₂
  have h₃ : r = r' := List.append_cancel_left h₁
  refine ⟨?_, rfl, h₃⟩
  have hlen := congrArg List.length h
  simp [h₃] at hlen
  exact hlen

/-- The text of some values, each after a number of delimiters. -/
def runs (D : Char) (kvs : List (Nat × Text)) : Text :=
  kvs.flatMap fun kv => List.replicate kv.1 D ++ kv.2

/-- A value after delimiters. -/
def IsRunValue (D : Char) (kv : Nat × Text) : Prop := 1 ≤ kv.1 ∧ kv.2 ≠ [] ∧ D ∉ kv.2

theorem runs_append (D : Char) (kvs kvs' : List (Nat × Text)) :
    runs D (kvs ++ kvs') = runs D kvs ++ runs D kvs' := by
  simp [runs]

theorem isBorder_runs {kvs : List (Nat × Text)} (h : ∀ kv ∈ kvs, IsRunValue D kv)
    (hr : IsBorder D r) : IsBorder D (runs D kvs ++ r) := by
  cases kvs with
  | nil => exact hr
  | cons kv kvs =>
    obtain ⟨n, hn⟩ := Nat.exists_eq_add_of_le' (h kv (List.mem_cons_self ..)).1
    refine .inr ⟨List.replicate n D ++ kv.2 ++ runs D kvs ++ r, ?_⟩
    simp [runs, hn, List.replicate_succ]

theorem runs_unique {kvs kvs' : List (Nat × Text)} (h : ∀ kv ∈ kvs, IsRunValue D kv)
    (h' : ∀ kv ∈ kvs', IsRunValue D kv)
    (heq : runs D kvs ++ List.replicate k D = runs D kvs' ++ List.replicate k' D) : kvs = kvs' := by
  have hborder : ∀ k, IsBorder D (List.replicate k D) := by
    intro k
    cases k with
    | zero => exact .inl rfl
    | succ k => exact .inr ⟨_, List.replicate_succ⟩
  have hne : ∀ {kv : Nat × Text} {r : Text} {k : Nat}, IsRunValue D kv →
      List.replicate kv.1 D ++ (kv.2 ++ r) ≠ List.replicate k D := by
    intro kv r k hkv heq
    obtain ⟨c, v, hv⟩ := List.exists_cons_of_ne_nil hkv.2.1
    have hc : c ∈ List.replicate k D := by
      rw [← heq, hv]
      simp
    exact hkv.2.2 (by rw [hv, List.eq_of_mem_replicate hc]; exact List.mem_cons_self ..)
  induction kvs generalizing kvs' with
  | nil =>
    cases kvs' with
    | nil => rfl
    | cons kv' kvs' =>
      rw [show runs D (kv' :: kvs') = List.replicate kv'.1 D ++ kv'.2 ++ runs D kvs' from rfl,
        List.append_assoc, List.append_assoc] at heq
      exact absurd heq.symm (hne (h' kv' (List.mem_cons_self ..)))
  | cons kv kvs ih =>
    rw [show runs D (kv :: kvs) = List.replicate kv.1 D ++ kv.2 ++ runs D kvs from rfl,
      List.append_assoc, List.append_assoc] at heq
    cases kvs' with
    | nil => exact absurd heq (hne (h kv (List.mem_cons_self ..)))
    | cons kv' kvs' =>
      rw [show runs D (kv' :: kvs') = List.replicate kv'.1 D ++ kv'.2 ++ runs D kvs' from rfl,
        List.append_assoc, List.append_assoc] at heq
      obtain ⟨h₁, h₂, h₃⟩ := border_unique (h kv (List.mem_cons_self ..)).2
        (h' kv' (List.mem_cons_self ..)).2
        (isBorder_runs (fun kv hkv => h kv (List.mem_cons_of_mem _ hkv)) (hborder k))
        (isBorder_runs (fun kv hkv => h' kv (List.mem_cons_of_mem _ hkv)) (hborder k')) heq
      rw [ih (fun kv hkv => h kv (List.mem_cons_of_mem _ hkv))
          (fun kv hkv => h' kv (List.mem_cons_of_mem _ hkv)) h₃, Prod.ext h₁ h₂]

/-- Values for segments are values after delimiters. -/
theorem Spelled.exists_runs (hD : IsAlone D) (hs : ∀ s ∈ slots, s.IsProper D)
    (h : Spelled ic loose D slots vs x) :
    ∃ kvs : List (Nat × Text), kvs.map Prod.snd = vs ∧ x = runs D kvs ∧
      ∀ kv ∈ kvs, IsRunValue D kv := by
  induction slots generalizing vs x with
  | nil =>
    cases vs with
    | nil =>
      obtain rfl : x = [] := h
      exact ⟨[], rfl, rfl, by simp⟩
    | cons v vs => exact h.elim
  | cons s slots ih =>
    cases vs with
    | nil => exact h.elim
    | cons v vs =>
      obtain ⟨k, rest, hk, hv, rfl, hrest⟩ := h
      obtain ⟨kvs, rfl, rfl, hkvs⟩ := ih (fun s hs' => hs s (List.mem_cons_of_mem _ hs')) hrest
      refine ⟨(k, v) :: kvs, rfl, by simp [runs], ?_⟩
      intro kv hkv
      rcases List.mem_cons.1 hkv with rfl | hkv
      · exact ⟨hk.1, hv.proper hD (hs s (List.mem_cons_self ..))⟩
      · exact hkvs kv hkv

theorem SplitsInto.unique (hD : IsAlone D) (hs : ∀ s ∈ slots, s.IsProper D)
    (h : SplitsInto ic loose trailing D slots vs u)
    (h' : SplitsInto ic loose trailing D slots vs' u) : vs = vs' := by
  obtain ⟨x, k, hx, -, rfl⟩ := h
  obtain ⟨x', k', hx', -, heq⟩ := h'
  obtain ⟨kvs, rfl, rfl, hkvs⟩ := hx.exists_runs hD hs
  obtain ⟨kvs', rfl, rfl, hkvs'⟩ := hx'.exists_runs hD hs
  rw [runs_unique hkvs hkvs' heq]

end

end PathTemplate
