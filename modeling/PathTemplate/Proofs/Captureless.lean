import PathTemplate.Fragment
import PathTemplate.Proofs.Expression.Embed
import PathTemplate.Proofs.Expression.Skips
import PathTemplate.Proofs.Template.Writable

/-!
# Patterns capture nothing

A pattern is scanned with no regard for classes, comments and free spacing. Every parenthesis that a
reader of expressions may take for one is looked at nevertheless, whatever it means there.

* `isCaptureless` — no parenthesis in a text would open a group that captures, wherever that
  parenthesis stands;
* `isCaptureless_of_skips`, `isCaptureless_of_class` — readers leave a text of this kind: none
  stops within an escape;
* `Draft.IsCaptureless` — what was read captured nothing, and what is left captures nothing;
  `Draft.IsCaptureless.step`, `Draft.IsCaptureless.readFrom` — so it stays, for one step and to the
  end of the text;
* `Lexeme.IsPattern.isCaptureless` — patterns are of this kind; `Lexeme.groups_of_ofText` — an
  expression that is made of one has no groups.
-/

namespace PathTemplate

namespace Expression

open Lexeme (opensCapture)

/-- No parenthesis in the text would open a group that captures. Only a backslash takes the next
character out of account. -/
def isCaptureless : Text → Bool
  | [] => true
  | ['\\'] => true
  | '\\' :: _ :: t => isCaptureless t
  | '(' :: t => !opensCapture t && isCaptureless t
  | _ :: t => isCaptureless t

variable {sw : Switches} {t rest : Text} {c : Char}

theorem isCaptureless_escape (c : Char) (t : Text) :
    isCaptureless ('\\' :: c :: t) = isCaptureless t :=
  rfl

theorem isCaptureless_char (hc : c ≠ '\\' ∧ c ≠ '(') (t : Text) :
    isCaptureless (c :: t) = isCaptureless t := by
  rw [isCaptureless]
  all_goals simp_all

/-- After a character that is no backslash, what is left of such a text is one, too. -/
theorem isCaptureless_of_cons (hc : c ≠ '\\') (h : isCaptureless (c :: t) = true) :
    isCaptureless t = true := by
  by_cases hopen : c = '('
  · subst hopen
    rw [isCaptureless, Bool.and_eq_true] at h
    exact h.2
  · rwa [isCaptureless_char ⟨hc, hopen⟩] at h

/-! ### what readers leave -/

/-- From a place in what is left out, nothing captures. In a line comment a backslash is a character
like others, so that the place may be within an escape. That one ends in the comment, or with the
line. -/
def Skipping.IsCaptureless : Skipping → Text → Prop
  | .line, t => isCaptureless t = true ∨ isCaptureless t.tail = true
  | .nothing, t | .remark, t => isCaptureless t = true

theorem isCaptureless_of_skipFrom {free : Bool} {k : Skipping} (h : skipFrom free k t = .ok rest)
    (ht : k.IsCaptureless t) : isCaptureless rest = true := by
  fun_induction skipFrom free k t with
  | case1 => cases h; rfl
  | case2 r ih =>
    have hmark := isCaptureless_of_cons (by decide) (isCaptureless_of_cons (by decide) ht)
    exact ih h (isCaptureless_of_cons (by decide) hmark)
  | case3 c r _ hc ih => exact ih h (.inl (isCaptureless_of_cons (by rw [hc.2]; decide) ht))
  | case4 c r _ _ hc ih =>
    refine ih h (isCaptureless_of_cons ?_ ht)
    rintro rfl
    simp at hc
  | case5 c r _ _ _ =>
    cases h
    exact ht
  | case6 => cases h; rfl
  | case7 c r ih =>
    refine ih h ?_
    by_cases hescape : c = '\\'
    · subst hescape
      rcases ht with ht | ht
      · cases r with
        | nil => exact .inl rfl
        | cons d r => exact .inr ht
      · exact .inl ht
    · have hr : isCaptureless r = true := ht.elim (isCaptureless_of_cons hescape) id
      split
      · exact hr
      · exact .inl hr
  | case8 => cases h
  | case9 => cases h
  | case10 _ r ih => exact ih h ht
  | case11 c r hlast hescape ih =>
    have hr := isCaptureless_of_cons (ne_backslash hlast hescape) ht
    refine ih h ?_
    split <;> exact hr

theorem isCaptureless_of_skips (h : Skips sw t rest) (ht : isCaptureless t = true) :
    isCaptureless rest = true := by
  induction h with
  | refl t => exact ht
  | inert hc _ ih => exact ih (isCaptureless_of_cons (isInert_iff.1 hc).1 ht)
  | blank hblank _ ih => exact ih (isCaptureless_of_skipFrom (k := .nothing) hblank ht)

theorem isCaptureless_of_passes (h : Passes t rest) :
    isCaptureless t = true → isCaptureless rest = true := by
  have hskips : Skips {} t rest := h.skips
  exact isCaptureless_of_skips hskips

theorem isCaptureless_of_scanFrom {depth : Nat} {ts : List Bracket.Token}
    (h : Bracket.scanFrom sw depth t = .ok (ts, rest)) (ht : isCaptureless t = true) :
    isCaptureless rest = true := by
  fun_induction Bracket.scanFrom sw depth t generalizing ts with
  | case1 => cases h
  | case2 => cases h
  | case3 => cases h
  | case4 depth c t' d i r hread _ ih | case5 depth c t' d r hread _ ih =>
    obtain ⟨⟨us, a⟩, hscan, heq⟩ := exists_of_map_eq_ok h
    cases heq
    exact ih hscan (isCaptureless_of_passes (Escape.passes_of_read hread) ht)
  | case6 => cases h
  | case7 depth t' ih | case9 t' depth ih =>
    obtain ⟨⟨us, a⟩, hscan, heq⟩ := exists_of_map_eq_ok h
    cases heq
    exact ih hscan (isCaptureless_of_cons (by decide) ht)
  | case8 t' =>
    cases h
    exact isCaptureless_of_cons (by decide) ht
  | case10 depth c t' hlast hescape _ _ ih =>
    obtain ⟨⟨us, a⟩, hscan, heq⟩ := exists_of_map_eq_ok h
    cases heq
    exact ih hscan (isCaptureless_of_cons (ne_backslash hlast hescape) ht)

theorem isCaptureless_takeRaw (hc : c ≠ '\\') (ht : isCaptureless t = true) :
    isCaptureless (Bracket.takeRaw c t).2 = true := by
  unfold Bracket.takeRaw
  split
  · rfl
  · split
    · rename_i hd
      exact isCaptureless_of_cons (hd ▸ hc) ht
    · exact ht

/-- A parenthesis within a class opens nothing, but was looked at. -/
theorem isCaptureless_of_class {s : CharSet} (h : Bracket.read sw t = .ok (s, rest))
    (ht : isCaptureless t = true) : isCaptureless rest = true := by
  unfold Bracket.read at h
  split at h
  · cases h
  · rename_i hscan
    obtain ⟨_, -, heq⟩ := exists_of_map_eq_ok h
    cases heq
    unfold Bracket.scan at hscan
    obtain ⟨⟨us, a⟩, hscan, heq⟩ := exists_of_map_eq_ok hscan
    cases heq
    exact isCaptureless_of_scanFrom hscan
      (isCaptureless_takeRaw (by decide) (isCaptureless_takeRaw (by decide) ht))

/-! ### drafts -/

namespace Draft

variable {d d' : Draft} {p : Piece} {e : Enclosure}

/-- No group that captures was opened, and none will be. -/
structure IsCaptureless (d : Draft) (t : Text) : Prop where
  groups : d.groups = 0
  level : d.level.IsGroupless
  outer : ∀ x ∈ d.outer, x.2.IsGroupless ∧ x.1.IsGroupless
  text : isCaptureless t = true

/-- What was read is of no account for the text that is left. -/
theorem IsCaptureless.leave (hd : d.IsCaptureless t)
    (hrest : isCaptureless t = true → isCaptureless rest = true) : d.IsCaptureless rest :=
  ⟨hd.groups, hd.level, hd.outer, hrest hd.text⟩

/-- Switches, names and references are of no account. -/
theorem IsCaptureless.congr (hd : d.IsCaptureless t) (hgroups : d'.groups = d.groups)
    (hlevel : d'.level = d.level) (houter : d'.outer = d.outer) : d'.IsCaptureless t :=
  ⟨hgroups.trans hd.groups, hlevel ▸ hd.level, houter ▸ hd.outer, hd.text⟩

theorem IsCaptureless.push (hd : d.IsCaptureless t) (hp : p.IsGroupless) :
    (d.push p).IsCaptureless t := by
  have hlevel := isGroupless_level_push hd.level hp
  obtain ⟨l, hl⟩ := d.exists_push_eq p
  rw [hl] at hlevel ⊢
  exact ⟨hd.groups, hlevel, hd.outer, hd.text⟩

theorem IsCaptureless.pushQuantified (hd : d.IsCaptureless t) (hp : p.IsGroupless)
    (h : d.pushQuantified p t = .ok (d', rest)) : d'.IsCaptureless rest := by
  obtain ⟨⟨q, r⟩, hq, heq⟩ := exists_of_map_eq_ok h
  cases heq
  exact (hd.push (isGroupless_of_quantified hp hq)).leave
    (isCaptureless_of_skips (skips_of_quantified hq))

theorem IsCaptureless.refer {index : Nat} (hd : d.IsCaptureless t)
    (h : d.refer index = .ok (d', p)) : d'.IsCaptureless t ∧ p.IsGroupless := by
  unfold Draft.refer at h
  split at h
  · cases h
  · cases h
    exact ⟨hd.congr rfl rfl rfl, Piece.isGroupless_plain rfl⟩

theorem IsCaptureless.referByName {name : Text} (hd : d.IsCaptureless t)
    (h : d.referByName name = .ok (d', p)) : d'.IsCaptureless t ∧ p.IsGroupless := by
  unfold Draft.referByName at h
  split at h
  · exact hd.refer h
  · split at h
    · exact hd.refer h
    · cases h

theorem IsCaptureless.follow {x : Reference} (hd : d.IsCaptureless t)
    (h : d.follow x = .ok (d', p)) : d'.IsCaptureless t ∧ p.IsGroupless := by
  cases x with
  | number n =>
    obtain ⟨⟨d₁, q⟩, hrefer, heq⟩ := exists_of_map_eq_ok h
    cases heq
    obtain ⟨hd₁, hp⟩ := hd.refer hrefer
    exact ⟨hd₁.congr rfl rfl rfl, hp⟩
  | name name => exact hd.referByName h
  | back n =>
    unfold Draft.follow at h
    dsimp only at h
    split at h
    · cases h
    · exact hd.refer h

theorem IsCaptureless.nextBranch (hd : d.IsCaptureless t) : d.nextBranch.IsCaptureless t :=
  ⟨hd.groups, isGroupless_level_nextBranch hd.level, hd.outer, hd.text⟩

theorem IsCaptureless.enter (hd : d.IsCaptureless t) (he : e.IsGroupless) (sw : Switches) :
    Draft.IsCaptureless { d.enter e with switches := sw } t := by
  refine ⟨hd.groups, ⟨by simp [Draft.enter], by simp [Draft.enter]⟩, fun x hx => ?_, hd.text⟩
  rcases List.mem_cons.1 hx with rfl | hx
  · exact ⟨hd.level, he⟩
  · exact hd.outer x hx

theorem IsCaptureless.close (hd : d.IsCaptureless t) (h : d.close = .ok (d', p)) :
    d'.IsCaptureless t ∧ p.IsGroupless := by
  unfold Draft.close at h
  split at h
  · cases h
  · rename_i e level outer houter
    obtain ⟨hlevel, he⟩ := hd.outer (e, level) (by simp [houter])
    have hpop : ∀ sw, Draft.IsCaptureless { d with switches := sw, level, outer } t := fun sw =>
      ⟨hd.groups, hlevel, fun x hx => hd.outer x (by simp [houter, hx]), hd.text⟩
    split at h
    · cases h
    · rename_i q hq
      obtain rfl := eq_of_finishLevel hq
      have hq := hd.level.finish
      cases e with
      | capture i => exact he.elim
      | plain sw =>
        cases h
        exact ⟨hpop sw, hq⟩
      | atomic =>
        cases h
        exact ⟨hpop _, Piece.isGroupless_plain hq.1⟩
      | look ahead positive =>
        obtain ⟨n, hn, heq⟩ := exists_of_map_eq_ok h
        cases heq
        exact ⟨hpop _, Piece.isGroupless_plain (isGroupless_of_lookaround hq hn)⟩
      | condition =>
        cases h
        exact ⟨hpop _, hq.asCondition⟩
      | choice condition =>
        cases h
        exact ⟨hpop _, he.conditional hq⟩

theorem IsCaptureless.escaped (hd : d.IsCaptureless ('\\' :: t))
    (h : d.escaped t = .ok (d', rest)) : d'.IsCaptureless rest := by
  unfold Draft.escaped at h
  split at h
  · cases h
  · rename_i c t
    have hdt : d.IsCaptureless t := hd.leave fun h => by rwa [isCaptureless_escape] at h
    have hleave : ∀ {x : Escape} {after : Text}, Escape.read d.switches false c t = .ok (x, after) →
        d.IsCaptureless after :=
      fun hread => hdt.leave (isCaptureless_of_passes (Escape.passes_of_read hread))
    split at h
    · cases h
    · rename_i hread
      exact (hleave hread).pushQuantified (Piece.isGroupless_plain rfl) h
    · rename_i hread
      exact (hleave hread).pushQuantified (Piece.isGroupless_plain rfl) h
    · rename_i hread
      exact (hleave hread).pushQuantified (Piece.isGroupless_plain rfl) h
    · rename_i hread
      exact (hleave hread).pushQuantified (Piece.isGroupless_plain rfl) h
    · rename_i hread
      split at h
      · cases h
      · rename_i hfollow
        obtain ⟨hd', hp⟩ := (hleave hread).follow hfollow
        exact hd'.pushQuantified hp h

/-- A parenthesis that opens no group which captures is followed by a question mark at once, so that
nothing is left out there. -/
theorem exists_mark_of_isCaptureless (h : isCaptureless ('(' :: t) = true) :
    ∃ r, t = '?' :: r ∧ opensCapture ('?' :: r) = false ∧ isCaptureless r = true := by
  rw [isCaptureless, Bool.and_eq_true, Bool.not_eq_true'] at h
  obtain ⟨hopen, ht⟩ := h
  have hmark : t.head? = some '?' := by
    by_contra hmark
    unfold opensCapture at hopen
    split at hopen <;> simp_all
  obtain ⟨r, rfl⟩ := List.head?_eq_some_iff.1 hmark
  exact ⟨r, rfl, hopen, isCaptureless_of_cons (by decide) ht⟩

/-- An angle bracket after the question mark names a group, unless it looks back. -/
theorem look_of_opensCapture_eq_false (h : opensCapture ('?' :: '<' :: t) = false) :
    (∃ r, t = '=' :: r) ∨ ∃ r, t = '!' :: r := by
  cases t with
  | nil => cases h
  | cons c r =>
    by_cases hahead : c = '='
    · exact .inl ⟨r, by rw [hahead]⟩
    · by_cases hnot : c = '!'
      · exact .inr ⟨r, by rw [hnot]⟩
      · simp [opensCapture, hahead, hnot] at h

theorem IsCaptureless.choose {condition : Piece} (hd : d.IsCaptureless t)
    (hc : condition.IsGroupless) (h : d.choose condition t = .ok (d', rest)) :
    d'.IsCaptureless rest := by
  unfold Draft.choose at h
  split at h
  · cases h
  · split at h
    · exact (hd.leave (isCaptureless_of_cons (by decide))).pushQuantified hc h
    · cases h
  · cases h
    exact hd.enter (e := .choice condition) hc d.switches

theorem IsCaptureless.conditional (hd : d.IsCaptureless t) (h : d.conditional t = .ok (d', rest)) :
    d'.IsCaptureless rest := by
  unfold Draft.conditional at h
  split at h
  · cases h
  · cases h
    exact hd.enter (e := .condition) trivial d.switches
  · rename_i hasked
    split at h
    · cases h
    · rename_i hfollow
      obtain ⟨hd₁, hp⟩ :=
        (hd.leave (isCaptureless_of_passes (Reference.passes_of_asked? hasked))).follow hfollow
      split at h
      · cases h
      · rename_i hblank
        have hclose := hd₁.leave (isCaptureless_of_skips (.blank hblank (.refl _)))
        exact (hclose.leave (isCaptureless_of_cons (by decide))).choose hp.asCondition h
      · cases h

theorem IsCaptureless.openGroup (hd : d.IsCaptureless ('(' :: t))
    (h : d.openGroup t = .ok (d', rest)) : d'.IsCaptureless rest := by
  obtain ⟨r, rfl, hopen, hr⟩ := exists_mark_of_isCaptureless hd.text
  have hdr : d.IsCaptureless r := hd.leave fun _ => hr
  unfold Draft.openGroup at h
  split at h
  · cases h
  rw [skipBlank_mark] at h
  dsimp only at h
  unfold Draft.opening at h
  split at h
  case h_1 heq | h_2 heq | h_8 heq =>
    cases heq
    cases h
    exact (hdr.leave (isCaptureless_of_cons (by decide))).enter (by exact trivial) d.switches
  case h_3 heq | h_4 heq =>
    cases heq
    cases h
    have hbehind := hdr.leave (isCaptureless_of_cons (by decide))
    exact (hbehind.leave (isCaptureless_of_cons (by decide))).enter (by exact trivial) d.switches
  case h_5 hbehind hnotbehind heq =>
    -- a name would open a group that captures, and so it would in the next case
    cases heq
    rcases look_of_opensCapture_eq_false hopen with ⟨r, rfl⟩ | ⟨r, rfl⟩
    · exact absurd rfl (hbehind r)
    · exact absurd rfl (hnotbehind r)
  case h_6 heq =>
    cases heq
    cases hopen
  case h_7 heq =>
    -- a reference by name
    cases heq
    split at h
    · cases h
    · rename_i hname
      split at h
      · cases h
      · rename_i hrefer
        have hpasses := Passes.cons (c := 'P') (by decide)
          (.cons (c := '=') (by decide) (passes_of_groupName? hname))
        have hclose := hdr.leave (isCaptureless_of_passes hpasses)
        obtain ⟨hd', hp⟩ := (hclose.leave (isCaptureless_of_cons (by decide))).referByName hrefer
        exact hd'.pushQuantified hp h
  case h_9 heq =>
    cases heq
    exact (hdr.leave (isCaptureless_of_cons (by decide))).conditional h
  case h_10 heq =>
    -- flags, with or without a group
    cases heq
    split at h
    · cases h
    · rename_i hswitches
      cases h
      have hsign := hdr.leave (isCaptureless_of_passes (passes_of_switchesFrom hswitches))
      exact (hsign.leave (isCaptureless_of_cons (by decide))).enter (e := .plain d.switches) trivial
        _
    · rename_i hswitches
      have hsign := hdr.leave (isCaptureless_of_passes (passes_of_switchesFrom hswitches))
      refine IsCaptureless.pushQuantified ?_ (Piece.isGroupless_plain rfl) h
      exact (hsign.leave (isCaptureless_of_cons (by decide))).congr rfl rfl rfl
  case h_11 hmark => exact absurd rfl (hmark _)

theorem IsCaptureless.step (hd : d.IsCaptureless (c :: t)) (h : d.step c t = .ok (d', rest)) :
    d'.IsCaptureless rest := by
  unfold Draft.step at h
  split at h
  · cases h
    exact (hd.leave (isCaptureless_of_cons (by decide))).nextBranch
  · exact hd.openGroup h
  · split at h
    · cases h
    · rename_i hclose
      obtain ⟨hd', hp⟩ := (hd.leave (isCaptureless_of_cons (by decide))).close hclose
      split at h
      · exact hd'.choose hp h
      · exact hd'.pushQuantified hp h
  · exact hd.escaped h
  · split at h
    · cases h
    · rename_i hclass
      have hleave := hd.leave fun ht => isCaptureless_of_class hclass
        (isCaptureless_of_cons (by decide) ht)
      exact hleave.pushQuantified (Piece.isGroupless_plain rfl) h
  case h_9 | h_10 | h_11 => cases h
  all_goals
    exact (hd.leave (isCaptureless_of_cons (by simp_all))).pushQuantified
      (Piece.isGroupless_plain rfl) h

theorem IsCaptureless.readFrom (hd : d.IsCaptureless t) (h : d.readFrom t = .ok d') :
    d'.IsCaptureless [] := by
  fun_induction Draft.readFrom d t with
  | case1 => cases h
  | case2 d t hblank =>
    cases h
    exact hd.leave (isCaptureless_of_skips (.blank hblank (.refl _)))
  | case3 => cases h
  | case4 d t c rest hblank d₁ rest₁ hstep _ _ _ ih =>
    exact ih ((hd.leave (isCaptureless_of_skips (.blank hblank (.refl _)))).step hstep) h

end Draft

theorem groups_of_isCaptureless {e : Expression} (h : read t = .ok e)
    (ht : isCaptureless t = true) : e.groups = 0 ∧ e.root.groups = [] := by
  unfold read at h
  split at h
  · cases h
  · rename_i d hd
    split at h
    · cases h
    · obtain ⟨p, hp, rfl⟩ := exists_of_map_eq_ok h
      have hstart : Draft.IsCaptureless {} t := ⟨rfl, ⟨by simp, by simp⟩, by simp, ht⟩
      have hend := hstart.readFrom hd
      obtain rfl := Draft.eq_of_finishLevel hp
      exact ⟨hend.groups, hend.level.finish.1⟩

theorem isCaptureless_inlineSwitch (flags : Flags) (t : Text) :
    isCaptureless (flags.inlineSwitch ++ t) = isCaptureless t := by
  unfold Flags.inlineSwitch
  split <;> rfl

end Expression

/-! ### patterns -/

namespace Lexeme

open Expression (isCaptureless isCaptureless_char isCaptureless_escape)

/-- Before a parenthesis that closes it, a pattern captures nothing: each of its own parentheses was
looked at when it was scanned. -/
theorem isCaptureless_of_patternBody {s depth i : Nat} {t p after u : Text}
    (h : patternBody s depth i t = .ok (p, after)) (hu : isCaptureless u = true) :
    isCaptureless (p ++ ')' :: u) = true := by
  fun_induction patternBody s depth i t generalizing p after with
  | case1 => cases h
  | case2 => cases h
  | case3 depth i c t ih =>
    obtain ⟨⟨q, a⟩, hq, heq⟩ := exists_of_map_eq_ok h
    cases heq
    rw [List.cons_append, List.cons_append, isCaptureless_escape, ih hq]
  | case4 i t =>
    cases h
    exact hu
  | case5 i t depth ih =>
    obtain ⟨⟨q, a⟩, hq, heq⟩ := exists_of_map_eq_ok h
    cases heq
    rw [List.cons_append, isCaptureless_char (by decide), ih hq]
  | case6 => cases h
  | case7 depth i t hopen ih =>
    obtain ⟨⟨q, a⟩, hq, heq⟩ := exists_of_map_eq_ok h
    cases heq
    -- what follows the parenthesis is the same up to the end of the pattern
    rw [(body?_eq_some hq).1, opensCapture_append q after u] at hopen
    rw [List.cons_append, isCaptureless, ih hq, Bool.and_true]
    simpa using hopen
  | case8 depth i c t hlast hescape _ _ hopen ih =>
    obtain ⟨⟨q, a⟩, hq, heq⟩ := exists_of_map_eq_ok h
    cases heq
    rw [List.cons_append, isCaptureless_char ⟨Expression.ne_backslash hlast hescape, hopen⟩, ih hq]

theorem IsPattern.isCaptureless {p u : Text} (hp : IsPattern p) (hu : isCaptureless u = true) :
    Expression.isCaptureless (p ++ ')' :: u) = true :=
  isCaptureless_of_patternBody (toOption_eq_some_iff.1 (hp.2.2 u)) hu

/-- The lexemes of a text let no group that captures through: an expression that is made of a
pattern, if there is one, has none, whether case counts or not. -/
theorem groups_of_ofText {t : Text} {xs : List Lexeme} {x : Lexeme} (h : ofText t = .ok xs)
    (hx : x ∈ xs) (hk : x.kind = .pattern) {flags : Flags} {e : Expression}
    (he : Expression.anchored flags (['(', '?', ':'] ++ x.value ++ [')']) = .ok e) :
    e.groups = 0 ∧ e.root.groups = [] := by
  have hpattern : IsPattern x.value := (isSound_of_ofText h x hx).pattern hk
  have hcaptureless : isCaptureless ('^' :: '(' :: '?' :: ':' :: (x.value ++ [')', '$'])) = true :=
    hpattern.isCaptureless (u := ['$']) rfl
  rw [← Expression.isCaptureless_inlineSwitch flags] at hcaptureless
  refine Expression.groups_of_isCaptureless he ?_
  simpa using hcaptureless

/-- A pattern with an escaped parenthesis, one that looks back, and one in a class. -/
theorem groups_of_ofText_class :
    ∃ xs x e, ofText "/(\\((?<!b)[(?:)]+)".toList = .ok xs ∧ x ∈ xs ∧ x.kind = .pattern ∧
      Expression.anchored { sensitive := true } (['(', '?', ':'] ++ x.value ++ [')']) = .ok e ∧
      e.source = "^(?:\\((?<!b)[(?:)]+)$".toList ∧ e.groups = 0 ∧ e.root.groups = [] := by
  let x : Lexeme := ⟨.pattern, 1, "\\((?<!b)[(?:)]+".toList⟩
  have hxs : ofText "/(\\((?<!b)[(?:)]+)".toList = .ok [⟨.char, 0, ['/']⟩, x, ⟨.finish, 18, []⟩] :=
    by cbv
  obtain ⟨e, he⟩ := exists_ok_of_isSome
    (x := Expression.anchored { sensitive := true } (['(', '?', ':'] ++ x.value ++ [')']))
    (by decide +kernel)
  have hsource : e.source = "^(?:\\((?<!b)[(?:)]+)$".toList :=
    eq_of_map Expression.source he (by decide +kernel)
  have hx : x ∈ [⟨.char, 0, ['/']⟩, x, ⟨.finish, 18, []⟩] := by simp
  exact ⟨_, x, e, hxs, hx, rfl, he, hsource, groups_of_ofText hxs hx rfl he⟩

end Lexeme

end PathTemplate
