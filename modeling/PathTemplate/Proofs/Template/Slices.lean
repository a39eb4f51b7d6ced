import PathTemplate.Proofs.Template.Scan

/-!
# The lexemes of a text tile it

Every lexeme knows where it starts, and the next one starts where it ends.

* `Lexeme.unquoted?` — the name that stands between quotes;
* `Lexeme.Source` — how a lexeme is written, and what may follow it;
* `Lexeme.Tiles` — lexemes whose sources, one after the other, are a text;
* `Lexeme.exists_source_of_next`, `Lexeme.tiles_of_scan` — one lexeme takes its source, and all of
  them the whole text;
* `Lexeme.slices_of_ofText` — so the offsets of lexemes cut the text into their sources.
-/

namespace PathTemplate

open Unicode (isIdentifier)

/-- The stretch of a text from one offset up to another. -/
def Text.slice (t : Text) (i j : Nat) : Text := (t.take j).drop i

theorem Text.slice_append {pre s : Text} (after : Text) :
    Text.slice (pre ++ (s ++ after)) pre.length (pre.length + s.length) = s := by
  rw [slice, ← List.append_assoc, ← List.length_append, List.take_left, List.drop_left]

namespace Lexeme

/-- The name that stands between quotes. There is none if the quotes would end before, or if the
text ends within an escape. -/
def unquoted? : Text → Option Text
  | [] => some []
  | ['\\'] => none
  | '\\' :: c :: rest => (unquoted? rest).map (c :: ·)
  | '"' :: _ => none
  | c :: rest => (unquoted? rest).map (c :: ·)

/-- A lexeme of this kind and value is written in this way where the text `after` follows. -/
inductive Source (after : Text) : Kind → Text → Text → Prop where
  | mark {c : Char} {k : Kind} (hc : Kind.ofMark? c = some k) : Source after k [c] [c]
  | char {c : Char} (hmark : Kind.ofMark? c = none) (hc : c ∉ ['\\', ':', '(']) :
      Source after .char [c] [c]
  | escaped (c : Char) : Source after .escaped [c] ['\\', c]
  | name {v : Text} (hne : v ≠ []) (hv : ∀ c ∈ v, isIdentifier c = true) (hend : EndsName after) :
      Source after .name v (':' :: v)
  | quoted {v q : Text} (hne : v ≠ []) (hq : unquoted? q = some v) :
      Source after .name v (':' :: '"' :: (q ++ ['"']))
  | pattern {p : Text} (hp : p ≠ []) : Source after .pattern p ('(' :: (p ++ [')']))

/-- The lexemes start at the offset `i`, each of them where the one before ends, and are written `t`
together. -/
inductive Tiles : Nat → Text → List Lexeme → Prop where
  | finish (i : Nat) : Tiles i [] [⟨.finish, i, []⟩]
  | cons {i : Nat} {k : Kind} {v s after : Text} {xs : List Lexeme} (hs : Source after k v s)
      (h : Tiles (i + s.length) after xs) : Tiles i (s ++ after) (⟨k, i, v⟩ :: xs)

variable {i j : Nat} {c : Char} {k : Kind} {t rest after name v s : Text} {x y : Lexeme}
  {xs : List Lexeme}

theorem ne_finish_of_ofMark? (h : Kind.ofMark? c = some k) : k ≠ .finish := by
  rintro rfl
  unfold Kind.ofMark? at h
  split at h <;> cases h

theorem Source.length_pos (h : Source after k v s) : 0 < s.length := by
  cases h <;> simp

theorem Source.ne_finish (h : Source after k v s) : k ≠ .finish := by
  cases h with
  | mark hc => exact ne_finish_of_ofMark? hc
  | _ => simp

/-! ### one lexeme -/

theorem exists_of_quotedName (h : quotedName t = some (name, after)) :
    ∃ q, t = q ++ '"' :: after ∧ unquoted? q = some name := by
  fun_induction quotedName t generalizing name after with
  | case1 => cases h
  | case2 rest =>
    cases h
    exact ⟨[], rfl, rfl⟩
  | case3 => cases h
  | case4 c rest ih =>
    obtain ⟨⟨n, a⟩, hn, heq⟩ := Option.map_eq_some_iff.1 h
    cases heq
    obtain ⟨q, rfl, hq⟩ := ih hn
    exact ⟨'\\' :: c :: q, rfl, by rw [unquoted?, hq]; rfl⟩
  | case5 c rest hquote hlast hescape ih =>
    obtain ⟨⟨n, a⟩, hn, heq⟩ := Option.map_eq_some_iff.1 h
    cases heq
    obtain ⟨q, rfl, hq⟩ := ih hn
    refine ⟨c :: q, rfl, ?_⟩
    -- the character is no backslash, as a quote at least follows it
    have hc : c ≠ '\\' := by
      intro hc
      obtain ⟨d, r, hd⟩ := List.exists_cons_of_ne_nil (show q ++ '"' :: after ≠ [] by simp)
      exact hescape d r hc hd
    rw [unquoted?, hq]
    · rfl
    · exact fun hc' _ => hc hc'
    · exact fun _ _ hc' => absurd hc' hc
    · exact hquote

/-- A lexeme starts where it is looked for, and takes its source. -/
theorem exists_source_of_next (h : next i c rest = .ok (x, after)) :
    x.index = i ∧ ∃ s, c :: rest = s ++ after ∧ Source after x.kind x.value s := by
  unfold next at h
  split at h
  · rename_i hk
    cases h
    exact ⟨rfl, [c], rfl, .mark hk⟩
  · rename_i hmark
    split at h
    · cases h
    · rename_i d after
      cases h
      exact ⟨rfl, ['\\', d], rfl, .escaped d⟩
    · split at h
      · cases h
      · cases h
      · rename_i hname hq
        cases h
        obtain ⟨q, rfl, hunquoted⟩ := exists_of_quotedName hq
        exact ⟨rfl, ':' :: '"' :: (q ++ ['"']), by simp, .quoted hname hunquoted⟩
    · split at h
      · cases h
      · rename_i hname
        cases h
        refine ⟨rfl, ':' :: rest.takeWhile isIdentifier, ?_,
          .name hname (fun c hc => List.mem_takeWhile_imp hc) ?_⟩
        · rw [List.cons_append, List.takeWhile_append_dropWhile]
        · intro d hd
          have hnot := List.head?_dropWhile_not isIdentifier rest
          rw [hd] at hnot
          exact hnot
    · cases h
    · split at h
      · cases h
      · cases h
      · rename_i hp hbody
        cases h
        rw [(body?_eq_some hbody).1]
        exact ⟨rfl, '(' :: (_ ++ [')']), by simp, .pattern hp⟩
    · rename_i hcolon hparen hlast hescape _ _
      cases h
      refine ⟨rfl, [c], rfl, .char hmark ?_⟩
      simp only [List.mem_cons, List.not_mem_nil, or_false, not_or]
      refine ⟨fun hc => ?_, hcolon, hparen⟩
      cases rest with
      | nil => exact hlast hc rfl
      | cons d r => exact hescape d r hc rfl

/-! ### all lexemes -/

/-- The lexemes of a text are written as the text. -/
theorem tiles_of_scan (h : scan i t = .ok xs) : Tiles i t xs := by
  fun_induction scan i t generalizing xs with
  | case1 i =>
    cases h
    exact .finish i
  | case2 => cases h
  | case3 i c rest x after hnext _ ih =>
    obtain ⟨ys, hys, rfl⟩ := exists_of_map_eq_ok h
    obtain ⟨rfl, s, hs, hsource⟩ := exists_source_of_next hnext
    have hlen : rest.length + 1 - after.length = s.length := by
      have := congrArg List.length hs
      simp only [List.length_cons, List.length_append] at this
      omega
    have htiles := ih hys
    rw [hlen] at htiles
    rw [hs]
    exact .cons hsource htiles

/-! ### offsets -/

theorem Tiles.head (h : Tiles i t xs) : ∃ x ys, xs = x :: ys ∧ x.index = i := by
  cases h with
  | finish => exact ⟨_, [], rfl, rfl⟩
  | cons => exact ⟨_, _, rfl, rfl⟩

theorem Tiles.le (h : Tiles i t xs) : ∀ x ∈ xs, i ≤ x.index := by
  induction h with
  | finish i => simp
  | cons hs _ ih =>
    intro x hx
    rcases List.mem_cons.1 hx with rfl | hx
    · exact Nat.le_refl _
    · have := ih x hx
      omega

theorem Tiles.increasing (h : Tiles i t xs) : xs.Pairwise fun x y => x.index < y.index := by
  induction h with
  | finish i => exact List.pairwise_singleton _ _
  | cons hs h ih =>
    refine List.pairwise_cons.2 ⟨fun y hy => ?_, ih⟩
    have hle := h.le y hy
    have hpos := hs.length_pos
    exact Nat.lt_of_lt_of_le (Nat.lt_add_of_pos_right hpos) hle

theorem Tiles.last (h : Tiles i t xs) :
    ∃ ys, xs = ys ++ [⟨.finish, i + t.length, []⟩] ∧ ∀ y ∈ ys, y.kind ≠ .finish := by
  induction h with
  | finish i => exact ⟨[], rfl, by simp⟩
  | @cons i k v s after xs hs _ ih =>
    obtain ⟨ys, rfl, hys⟩ := ih
    refine ⟨⟨k, i, v⟩ :: ys, by simp [Nat.add_assoc], fun y hy => ?_⟩
    rcases List.mem_cons.1 hy with rfl | hy
    · exact hs.ne_finish
    · exact hys y hy

/-- From one offset to the next one there is the source of a lexeme; what is before the text is of
no account. -/
theorem Tiles.source {pre : Text} (h : Tiles pre.length t xs) {j : Nat} (hx : xs[j]? = some x)
    (hy : xs[j + 1]? = some y) :
    Source ((pre ++ t).drop y.index) x.kind x.value ((pre ++ t).slice x.index y.index) := by
  induction j generalizing pre t xs with
  | zero =>
    cases h with
    | finish => cases hy
    | @cons _ k v s after xs hs h =>
      obtain ⟨z, zs, rfl, hz⟩ := h.head
      cases hx
      obtain rfl : z = y := by simpa using hy
      rw [hz, Text.slice_append, ← List.append_assoc, ← List.length_append, List.drop_left]
      exact hs
  | succ j ih =>
    cases h with
    | finish => cases hy
    | @cons _ k v s after xs hs h =>
      rw [← List.length_append] at h
      rw [← List.append_assoc]
      exact ih h (by simpa using hx) (by simpa using hy)

/-- The stretches between the offsets are the text. -/
theorem Tiles.flatten {pre : Text} (h : Tiles pre.length t xs) :
    (List.zipWith (fun x y => (pre ++ t).slice x.index y.index) xs xs.tail).flatten = t := by
  generalize hi : pre.length = i at h
  induction h generalizing pre with
  | finish i => rfl
  | @cons i k v s after xs hs h ih =>
    subst hi
    obtain ⟨z, zs, rfl, hz⟩ := h.head
    have hlength : (pre ++ s).length = pre.length + s.length := List.length_append ..
    have hrest := ih hlength
    rw [List.append_assoc] at hrest
    rw [List.tail_cons, List.zipWith_cons_cons, List.flatten_cons, hz, Text.slice_append]
    exact congrArg (s ++ ·) hrest

/-- The lexemes of a text lose none of its characters. Their offsets grow, from the start of the
text to its end; there is the only lexeme that stands for nothing. From one offset to the next one
the text is the source of the lexeme, and so all sources together are the text. -/
theorem slices_of_ofText (h : ofText t = .ok xs) :
    (xs.Pairwise fun x y => x.index < y.index) ∧ (∀ x ∈ xs.head?, x.index = 0) ∧
      (∃ ys, xs = ys ++ [⟨.finish, t.length, []⟩] ∧ ∀ y ∈ ys, y.kind ≠ .finish) ∧
      (∀ j x y, xs[j]? = some x → xs[j + 1]? = some y →
        Source (t.drop y.index) x.kind x.value (t.slice x.index y.index)) ∧
      (List.zipWith (fun x y => t.slice x.index y.index) xs xs.tail).flatten = t := by
  have htiles : Tiles ([] : Text).length t xs := tiles_of_scan h
  refine ⟨htiles.increasing, fun x hx => ?_, ?_, fun j x y hx hy => htiles.source hx hy,
    htiles.flatten⟩
  · obtain ⟨z, zs, rfl, hz⟩ := htiles.head
    obtain rfl : z = x := by simpa using hx
    exact hz
  · simpa using htiles.last

/-- A template text with lexemes of every form of writing. -/
theorem slices_of_ofText_forms :
    ∃ xs : List Lexeme, ofText "/\x7b:id\\*:\"x \\\"y\"(\\d+)\x7d?".toList = .ok xs ∧
      xs.map Lexeme.index = [0, 1, 2, 5, 7, 15, 20, 21, 22] ∧
      List.zipWith
          (fun x y => Text.slice "/\x7b:id\\*:\"x \\\"y\"(\\d+)\x7d?".toList x.index y.index) xs
          xs.tail =
        ["/".toList, "\x7b".toList, ":id".toList, "\\*".toList, ":\"x \\\"y\"".toList,
          "(\\d+)".toList, "\x7d".toList, "?".toList] ∧
      (List.zipWith
          (fun x y => Text.slice "/\x7b:id\\*:\"x \\\"y\"(\\d+)\x7d?".toList x.index y.index) xs
          xs.tail).flatten = "/\x7b:id\\*:\"x \\\"y\"(\\d+)\x7d?".toList := by
  have hxs : ofText "/\x7b:id\\*:\"x \\\"y\"(\\d+)\x7d?".toList =
      .ok [⟨.char, 0, ['/']⟩, ⟨.opening, 1, ['{']⟩, ⟨.name, 2, "id".toList⟩, ⟨.escaped, 5, ['*']⟩,
          ⟨.name, 7, "x \"y".toList⟩, ⟨.pattern, 15, "\\d+".toList⟩, ⟨.closing, 20, ['}']⟩,
          ⟨.question, 21, ['?']⟩, ⟨.finish, 22, []⟩] := by
    cbv
  exact ⟨_, hxs, rfl, by decide +kernel, (slices_of_ofText hxs).2.2.2.2⟩

end Lexeme

end PathTemplate
