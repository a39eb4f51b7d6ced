import PathTemplate.Proofs.Expression.Embed

/-!
# Expressions with groups inside of expressions

A text that is an expression on its own, with groups and references or without, is read inside of
any parentheses as it is read on its own: the same parentheses are open after each step, and the
same switches are on, but the groups have other numbers. Reading it there can fail, with too many
parentheses for instance. Whether it does, and what it makes of the text, does not depend on what
follows, unless a line comment goes on beyond the text; then a parenthesis around it stays open.

* `Draft.Tracks` — a draft that is read inside of some parentheses follows one that is read outside;
* `Draft.Keeps`, `Draft.Drops` — a step that what follows has no part in; one after which the rest
  of the line is a comment;
* `Draft.step_cases` — every step is one of these, if reading goes on to the end;
* `Draft.readFrom_cases` — and so is reading as a whole;
* `IsSelfContained`, `IsSelfContained.readFrom_cases` — texts that are expressions on their own.
-/

namespace PathTemplate.Expression

/-- The switches that a parenthesis brings back where it is closed. -/
def Enclosure.saved : Enclosure → Option Switches
  | .plain sw => some sw
  | _ => none

/-- What a parenthesis is for, as far as it matters where it is closed. -/
def Enclosure.role (x : Enclosure) : Option Switches × Bool := (x.saved, x.isCondition)

/-- A condition without branches. -/
def Piece.alone (condition : Piece) : Except Fault Piece :=
  match condition.node with
  | .present _ _ => .ok condition
  | _ => .error .emptyConditional

namespace Draft

variable {base : List (Enclosure × Level)} {d d' d₁ e e' : Draft} {t t' r u : Text} {c : Char}
  {p q : Piece} {k : Skipping}

/-! ### texts that fade -/

theorem push_switches (d : Draft) (p : Piece) : (d.push p).switches = d.switches := by
  obtain ⟨l, hl⟩ := d.exists_push_eq p
  rw [hl]

theorem of_pushQuantified (h : d.pushQuantified p t = .ok (d', r)) :
    d'.switches = d.switches ∧ d'.outer = d.outer ∧ Skips d.switches t r := by
  obtain ⟨x, hx, heq⟩ := exists_of_map_eq_ok h
  cases heq
  exact ⟨push_switches d _, push_outer d _, skips_of_quantified hx⟩

theorem of_step_of_isInert (hc : isInert c = true) (h : d.step c t = .ok (d', r)) :
    d'.switches = d.switches ∧ d'.outer = d.outer ∧ Skips d.switches t r := by
  unfold step at h
  split at h
  case h_1 =>
    cases h
    exact ⟨rfl, rfl, .refl _⟩
  case h_2 | h_3 | h_4 | h_5 => cases hc
  case h_9 | h_10 | h_11 => cases h
  all_goals exact of_pushQuantified h

/-- A text that ends in a comment, and has inert characters before it only, opens and closes
nothing. A comment in parentheses has to be closed. -/
theorem of_readFrom_of_trail (ht : trail d.switches.freeSpacing .nothing t = some k)
    (h : d.readFrom t = .ok d') : k ≠ .remark ∧ d'.outer = d.outer := by
  fun_induction readFrom d t with
  | case1 => cases h
  | case2 d t hs =>
    cases h
    refine ⟨?_, rfl⟩
    rintro rfl
    rcases skipBlank_cases hs with ⟨hnil, -⟩ | ⟨-, hline, -⟩
    · rw [hnil] at ht
      cases ht
    · rw [hline] at ht
      cases ht
  | case3 => cases h
  | case4 d t c rest hs d₁ r hstep _ _ _ ih =>
    rcases skipBlank_cases hs with ⟨htrail, -⟩ | ⟨hnil, -⟩
    · obtain ⟨hremark, hline, -⟩ := head_of_skipFrom hs
      rw [htrail, trail_nothing_cons hremark, if_neg hline] at ht
      split at ht
      · rename_i hc
        obtain ⟨hsw, houter, hskips⟩ := of_step_of_isInert hc hstep
        rcases hskips.trail ht with hr | ⟨rfl, rfl⟩
        · exact houter ▸ ih (hsw ▸ hr) h
        · rw [readFrom_nil] at h
          cases h
          exact ⟨by simp, houter⟩
      · cases ht
    · cases hnil

theorem outer_of_fades (ht : Fades d.switches t) (h : d.readFrom t = .ok d') :
    d'.outer = d.outer := by
  rcases ht with rfl | ht
  · rw [readFrom_nil] at h
    cases h
    rfl
  · exact (of_readFrom_of_trail ht h).2

/-! ### drafts that follow others -/

/-- The draft `e` follows the draft `d` inside of the parentheses `base`: the same switches are on,
and the parentheses that are open in both have the same roles. -/
structure Tracks (base : List (Enclosure × Level)) (d e : Draft) : Prop where
  switches : e.switches = d.switches
  outer : ∃ inner, e.outer = inner ++ base ∧ inner.map (·.1.role) = d.outer.map (·.1.role)

theorem Tracks.suffix (h : d.Tracks base e) : base <:+ e.outer := by
  obtain ⟨inner, houter, -⟩ := h.outer
  exact ⟨inner, houter.symm⟩

theorem Tracks.congr {e₁ d₁ : Draft} (h : d.Tracks base e) (hs : e₁.switches = e.switches)
    (ho : e₁.outer = e.outer) (hs' : d₁.switches = d.switches) (ho' : d₁.outer = d.outer) :
    d₁.Tracks base e₁ :=
  ⟨by rw [hs, hs', h.switches], by rw [ho, ho']; exact h.outer⟩

theorem Tracks.enter {x y : Enclosure} (h : d.Tracks base e) (hxy : x.role = y.role) {d₁ e₁ : Draft}
    (hs : e₁.switches = d₁.switches) (ho : ∃ l, e₁.outer = (x, l) :: e.outer)
    (ho' : ∃ l, d₁.outer = (y, l) :: d.outer) : d₁.Tracks base e₁ := by
  obtain ⟨inner, houter, hmap⟩ := h.outer
  obtain ⟨l, ho⟩ := ho
  obtain ⟨l', ho'⟩ := ho'
  exact ⟨hs, (x, l) :: inner, by rw [ho, houter]; rfl, by rw [ho']; simp [hxy, hmap]⟩

/-- What follows the text has no part in the step, whichever draft it is taken from: it fails, or it
leaves `r`, and a draft that follows `d'`. -/
structure Keeps (f : Draft → Text → Except Fault (Draft × Text)) (d : Draft) (t : Text) (d' : Draft)
    (r : Text) : Prop where
  append : ∀ {base e}, d.Tracks base e → ∀ u, Closed u →
    f e (t ++ u) = (f e t).map fun x => (x.1, x.2 ++ u)
  tracks : ∀ {base e}, d.Tracks base e → ∀ e' r', f e t = .ok (e', r') → r' = r ∧ d'.Tracks base e'

/-- After the step, the rest of the line is a comment, and the parentheses around the text are
open. -/
def Drops (f : Draft → Text → Except Fault (Draft × Text)) (d : Draft) (t : Text) : Prop :=
  ∀ {base e}, d.Tracks base e → ∀ u, Closed u → '\n' ∉ u → ∀ e' r', f e (t ++ u) = .ok (e', r') →
    base <:+ e'.outer ∧ Fades e'.switches r'

/-- What follows has no part in the step, or is part of a comment; or the text has a comment that is
not closed. -/
def Follows (f : Draft → Text → Except Fault (Draft × Text)) (d : Draft) (t : Text) (d' : Draft)
    (r : Text) : Prop :=
  Keeps f d t d' r ∨ Drops f d t ∨ trail d'.switches.freeSpacing .nothing r = some .remark

variable {f : Draft → Text → Except Fault (Draft × Text)}

/-- Another draft may fail; else it goes on from the same place. -/
theorem Follows.of_draft {X : Draft → Except Fault Draft}
    (hX : ∀ {base e}, d.Tracks base e → ∀ e', X e = .ok e' → d'.Tracks base e')
    (hf : ∀ {base e}, d.Tracks base e → ∀ u, Closed u → f e (t ++ u) = (X e).map (·, r ++ u)) :
    Follows f d t d' r := by
  have hnil : ∀ {base e}, d.Tracks base e → f e t = (X e).map (·, r) := by
    intro base e h
    simpa using hf h [] closed_nil
  refine .inl ⟨fun h u hu => ?_, fun {base e} h e' r' he => ?_⟩
  · rw [hf h u hu, hnil h]
    cases X _ <;> rfl
  · rw [hnil h] at he
    obtain ⟨e₁, hX', heq⟩ := exists_of_map_eq_ok he
    cases heq
    exact ⟨rfl, hX h _ hX'⟩

/-- Another draft may fail; else it adds a piece with the repetition that follows. -/
theorem Follows.of_piece {X : Draft → Except Fault (Draft × Piece)}
    (hp : d₁.pushQuantified p t' = .ok (d', r))
    (hX : ∀ {base e}, d.Tracks base e → ∀ y, X e = .ok y → d₁.Tracks base y.1)
    (hf : ∀ {base e}, d.Tracks base e →
      ∀ u, Closed u → f e (t ++ u) = (X e).bind fun y => y.1.pushQuantified y.2 (t' ++ u)) :
    Follows f d t d' r := by
  obtain ⟨x, hx, heq⟩ := exists_of_map_eq_ok hp
  obtain ⟨rfl, rfl⟩ := Prod.mk.inj heq
  -- how much is skipped after the piece depends on the switches only
  have hsealed (ht : Sealed d₁.switches t') : Keeps f d t (d₁.push x.1) x.2 := by
    have hnil : ∀ {base e}, d.Tracks base e →
        f e t = (X e).bind fun y => y.1.pushQuantified y.2 t' := by
      intro base e h
      simpa using hf h [] closed_nil
    refine ⟨fun {base e} h u hu => ?_, fun {base e} h e' r' he => ?_⟩
    · rw [hf h u hu, hnil h]
      cases hy : X e with
      | error k => rfl
      | ok y =>
        have hsw := (hX h y hy).switches
        simp only [Except.bind, pushQuantified, hsw, quantified_append ht hu]
        cases quantified d₁.switches y.2 t' <;> rfl
    · rw [hnil h] at he
      cases hy : X e with
      | error k => simp [hy, Except.bind] at he
      | ok y =>
        have htracks := hX h y hy
        simp only [hy, Except.bind, pushQuantified, htracks.switches] at he
        obtain ⟨z, hz, heq⟩ := exists_of_map_eq_ok he
        obtain ⟨rfl, rfl⟩ := Prod.mk.inj heq
        exact ⟨quantified_rest hx hz, htracks.congr (push_switches _ _) (push_outer _ _)
          (push_switches _ _) (push_outer _ _)⟩
  cases htrail : trail d₁.switches.freeSpacing .nothing t' with
  | none => exact .inl (hsealed fun k hk => by simp [htrail] at hk)
  | some k =>
    cases k with
    | nothing => exact .inl (hsealed fun k hk => by rw [htrail] at hk; cases hk; rfl)
    | line =>
      refine .inr (.inl fun {base e} h u hu hline e' r' he => ?_)
      rw [hf h u hu] at he
      cases hy : X e with
      | error k => simp [hy, Except.bind] at he
      | ok y =>
        simp only [hy, Except.bind] at he
        have htracks := hX h y hy
        obtain ⟨hsw, houter, hskips⟩ := of_pushQuantified he
        rw [htracks.switches] at hskips hsw
        refine ⟨houter ▸ htracks.suffix, ?_⟩
        rw [Fades, hsw]
        rcases hskips.trail (trail_append htrail hline) with hr | ⟨hr, -⟩
        · exact .inr hr
        · exact .inl hr
    | remark =>
      refine .inr (.inr ?_)
      obtain ⟨hsw, -, hskips⟩ := of_pushQuantified hp
      rw [hsw]
      rcases hskips.trail htrail with hr | ⟨-, hk⟩
      · exact hr
      · cases hk

/-- A step may be refused before the text is looked at. -/
theorem Follows.of_guard {g : Draft → Text → Except Fault (Draft × Text)} (refused : Draft → Bool)
    (fault : Fault) (h : Follows g d t' d' r)
    (hf : ∀ {base e}, d.Tracks base e → ∀ u, Closed u →
      f e (t ++ u) = if refused e then .error fault else g e (t' ++ u)) : Follows f d t d' r := by
  have hnil : ∀ {base e}, d.Tracks base e →
      f e t = if refused e then .error fault else g e t' := by
    intro base e h
    simpa using hf h [] closed_nil
  rcases h with hkeeps | hdrops | hremark
  · refine .inl ⟨fun h u hu => ?_, fun h e' r' he => ?_⟩
    · rw [hf h u hu, hnil h]
      split
      · rfl
      · exact hkeeps.append h u hu
    · rw [hnil h] at he
      split at he
      · cases he
      · exact hkeeps.tracks h e' r' he
  · refine .inr (.inl fun h u hu hline e' r' he => ?_)
    rw [hf h u hu] at he
    split at he
    · cases he
    · exact hdrops h u hu hline e' r' he
  · exact .inr (.inr hremark)

theorem Follows.congr {g : Draft → Text → Except Fault (Draft × Text)} (h : Follows g d t' d' r)
    (hf : ∀ {base e}, d.Tracks base e → ∀ u, Closed u → f e (t ++ u) = g e (t' ++ u)) :
    Follows f d t d' r :=
  .of_guard (fun _ => false) .tooDeep h fun h u hu => by simpa using hf h u hu

theorem choose_paren (d : Draft) (condition : Piece) (t : Text) : d.choose condition (')' :: t) =
    condition.alone.bind fun q => d.pushQuantified q t := by
  cases h : condition.node <;> simp [choose, Piece.alone, h, Except.bind]

theorem choose_cons (hc : c ≠ ')') (condition : Piece) (t : Text) :
    d.choose condition (c :: t) = .ok (d.enter (.choice condition), c :: t) := by
  unfold choose
  split <;> simp_all

/-- Another draft may have no such condition; else it goes on after it. -/
theorem Follows.of_choose {X : Draft → Except Fault (Draft × Piece)}
    (hp : d₁.choose p t' = .ok (d', r))
    (hX : ∀ {base e}, d.Tracks base e → ∀ y, X e = .ok y → d₁.Tracks base y.1)
    (hf : ∀ {base e}, d.Tracks base e → ∀ u, Closed u →
      f e (t ++ u) = (X e).bind fun y => y.1.choose y.2 (t' ++ u)) : Follows f d t d' r := by
  cases t' with
  | nil => cases hp
  | cons c t' =>
    by_cases hc : c = ')'
    · subst hc
      rw [choose_paren] at hp
      obtain ⟨q, -, hp⟩ := exists_of_bind_eq_ok hp
      refine .of_piece (X := fun e => (X e).bind fun y => y.2.alone.map (y.1, ·)) hp
        (fun h y hy => ?_) fun {base e} h u hu => ?_
      · obtain ⟨z, hz, hy⟩ := exists_of_bind_eq_ok hy
        obtain ⟨q', -, heq⟩ := exists_of_map_eq_ok hy
        cases heq
        exact hX h z hz
      · rw [hf h u hu]
        cases X e with
        | error k => rfl
        | ok y =>
          simp only [Except.bind, List.cons_append, choose_paren]
          cases y.2.alone <;> rfl
    · rw [choose_cons hc] at hp
      cases hp
      refine .of_draft (X := fun e => (X e).map fun y => y.1.enter (.choice y.2))
        (fun h e' he => ?_) fun {base e} h u hu => ?_
      · obtain ⟨y, hy, heq⟩ := exists_of_map_eq_ok he
        cases heq
        exact (hX h y hy).enter (x := .choice y.2) (y := .choice p) rfl (hX h y hy).switches
          ⟨_, rfl⟩ ⟨_, rfl⟩
      · rw [hf h u hu]
        cases X e with
        | error k => rfl
        | ok y => simp only [Except.bind, List.cons_append, choose_cons hc, Except.map]

/-! ### references -/

theorem of_refer {n : Nat} (h : d.refer n = .ok (d', p)) :
    d'.switches = d.switches ∧ d'.outer = d.outer := by
  unfold refer at h
  split at h
  · cases h
  · cases h
    exact ⟨rfl, rfl⟩

theorem of_referByName {name : Text} (h : d.referByName name = .ok (d', p)) :
    d'.switches = d.switches ∧ d'.outer = d.outer := by
  unfold referByName at h
  split at h
  · exact of_refer h
  · split at h
    · exact of_refer h
    · cases h

theorem of_follow {x : Reference} (h : d.follow x = .ok (d', p)) :
    d'.switches = d.switches ∧ d'.outer = d.outer := by
  unfold follow at h
  split at h
  · obtain ⟨y, hy, heq⟩ := exists_of_map_eq_ok h
    cases heq
    have hsame := of_refer hy
    exact hsame
  · exact of_referByName h
  · split at h
    · cases h
    · exact of_refer h

/-- A reference that another draft can follow changes nothing but what is referred to. -/
theorem Tracks.follow {x : Reference} (h : d.Tracks base e) (hd : d.follow x = .ok (d', p))
    (he : e.follow x = .ok (e', q)) : d'.Tracks base e' := by
  obtain ⟨hs, ho⟩ := of_follow hd
  obtain ⟨hs', ho'⟩ := of_follow he
  exact h.congr hs' ho' hs ho

theorem Tracks.referByName {x : Text} (h : d.Tracks base e) (hd : d.referByName x = .ok (d', p))
    (he : e.referByName x = .ok (e', q)) : d'.Tracks base e' := by
  obtain ⟨hs, ho⟩ := of_referByName hd
  obtain ⟨hs', ho'⟩ := of_referByName he
  exact h.congr hs' ho' hs ho

/-! ### opening parentheses -/

theorem exists_of_groupName? {close : Char} {name : Text}
    (h : groupName? close t = some (name, r)) : ∃ c t', t = c :: t' ∧ isNameChar c = true := by
  obtain ⟨hne, rfl, -⟩ := groupName?_eq_some_iff.1 h
  cases t with
  | nil => exact absurd rfl hne
  | cons c t =>
    refine ⟨c, t, rfl, ?_⟩
    by_contra hc
    simp [hc] at hne

theorem opening_named (hc : isNameChar c = true) (t : Text) :
    d.opening ('?' :: '<' :: c :: t) = d.enterNamed (c :: t) := by
  have hne : c ≠ '=' ∧ c ≠ '!' :=
    ⟨by rintro rfl; exact absurd hc (by decide), by rintro rfl; exact absurd hc (by decide)⟩
  unfold opening
  split
  case h_5 =>
    rename_i hcons
    simp only [List.cons.injEq, true_and] at hcons
    rw [hcons]
  case h_10 =>
    rename_i hcons
    simp only [List.cons.injEq, true_and] at hcons
    subst hcons
    simp_all
  case h_11 =>
    rename_i hcons
    exact absurd rfl (hcons _)
  all_goals
    rename_i hcons
    simp_all

theorem opening_capture (ht : ∀ x, t ≠ '?' :: x) : d.opening t = .ok (d.enterGroup, t) := by
  unfold opening
  split
  case h_11 => rfl
  all_goals exact absurd rfl (ht _)

/-- A group with a name is opened by any draft. -/
theorem follows_enterNamed (hname : d.enterNamed t = .ok (d', r)) :
    Follows (·.enterNamed ·) d t d' r := by
  unfold enterNamed at hname
  split at hname
  · cases hname
  rename_i name after hgroup
  cases hname
  obtain ⟨-, hsettles⟩ := settles_groupName? hgroup
  refine .of_draft (X :=
      fun e => .ok { e.enterGroup with names := (name, e.enterGroup.groups) :: e.enterGroup.names })
    (fun {base e} h e' he => ?_) fun {base e} h u hu => ?_
  · cases he
    exact h.enter (x := .capture (e.groups + 1)) (y := .capture (d.groups + 1)) rfl h.switches
      ⟨_, rfl⟩ ⟨_, rfl⟩
  · simp only [enterNamed, hsettles u hu]
    rfl

/-- So is a conditional, if it asks for a group that is there, or has an expression as its
condition. -/
theorem follows_conditional (h : d.conditional t = .ok (d', r)) :
    Follows (·.conditional ·) d t d' r := by
  unfold conditional at h
  split at h
  · cases h
  · rename_i hasked
    cases h
    refine .of_draft (X := fun e => .ok (e.enter .condition)) (fun h e' he => ?_)
      fun {base e} h u _ => ?_
    · cases he
      exact h.enter (x := .condition) (y := .condition) rfl h.switches ⟨_, rfl⟩ ⟨_, rfl⟩
    · simp only [conditional, Reference.asked?_append hasked u]
      rfl
  · rename_i x after hasked
    obtain ⟨-, hsettles⟩ := Reference.settles_asked? hasked
    split at h
    · cases h
    rename_i d₁ p hfollow
    split at h
    · cases h
    · rename_i t' hskip
      refine .of_choose (X := fun e => (e.follow x).map fun y => (y.1, y.2.asCondition)) h
        (fun h y hy => ?_) fun {base e} htracks u hu => ?_
      · obtain ⟨z, hz, heq⟩ := exists_of_map_eq_ok hy
        cases heq
        exact h.follow hfollow hz
      · simp only [conditional, hsettles u hu]
        cases hy : e.follow x with
        | error k => rfl
        | ok y =>
          have hsw := (htracks.follow hfollow hy).switches
          simp only [hsw, skipBlank_append hskip (by simp) hu]
          rfl
    · cases h

/-- What a parenthesis is for depends on the switches only, and on the groups that can be referred
to. -/
theorem follows_opening (h : d.opening t = .ok (d', r)) : Follows (·.opening ·) d t d' r := by
  unfold opening at h
  split at h
  case h_1 | h_2 | h_3 | h_4 | h_8 =>
    cases h
    refine .of_draft (X := fun e => .ok (e.enter _)) (fun h e' he => ?_) fun h u _ => rfl
    cases he
    exact h.enter rfl h.switches ⟨_, rfl⟩ ⟨_, rfl⟩
  case h_5 =>
    refine (follows_enterNamed h).congr fun _ u _ => ?_
    unfold enterNamed at h
    split at h
    · cases h
    · rename_i hname
      obtain ⟨c, t, rfl, hc⟩ := exists_of_groupName? hname
      exact opening_named hc (t ++ u)
  case h_6 => exact (follows_enterNamed h).congr fun _ _ _ => rfl
  case h_7 =>
    split at h
    · cases h
    rename_i name after hname
    obtain ⟨-, hsettles⟩ := settles_groupName? hname
    split at h
    · cases h
    rename_i d₁ p hrefer
    refine .of_piece (X := fun e => e.referByName name) h (fun h y hy => h.referByName hrefer hy)
      fun {base e} _ u hu => ?_
    simp only [opening, List.cons_append, hsettles u hu]
    cases e.referByName name <;> rfl
  case h_9 => exact (follows_conditional h).congr fun _ _ _ => rfl
  case h_10 =>
    split at h
    · cases h
    · rename_i sw' after hswitches
      cases h
      obtain ⟨-, hsettles⟩ := settles_switchesFrom hswitches
      refine .of_draft (X := fun e => .ok { e.enter (.plain e.switches) with switches := sw' })
        (fun {base e} h e' he => ?_) fun h u _ => opening_switches (h.switches ▸ hsettles u)
      cases he
      exact h.enter (x := .plain e.switches) (y := .plain d.switches) (by rw [h.switches]) rfl
        ⟨_, rfl⟩ ⟨_, rfl⟩
    · rename_i sw' after hswitches
      obtain ⟨-, hsettles⟩ := settles_switchesFrom hswitches
      refine .of_piece (X := fun e => .ok ({ e with switches := sw' }, .nothing)) h
        (fun h y hy => ?_) fun h u _ => opening_switches (h.switches ▸ hsettles u)
      cases hy
      exact ⟨rfl, h.outer⟩
  case h_11 =>
    rename_i hmark
    cases h
    refine .of_draft (X := fun e => .ok e.enterGroup) (fun {base e} h e' he => ?_) fun h u hu => ?_
    · cases he
      exact h.enter (x := .capture (e.groups + 1)) (y := .capture (d.groups + 1)) rfl h.switches
        ⟨_, rfl⟩ ⟨_, rfl⟩
    · refine opening_capture fun x hx => ?_
      cases t with
      | nil =>
        have := hu '?' (by simp_all)
        cases this
      | cons c t =>
        cases hx
        exact hmark t rfl

/-- A parenthesis that is opened is opened as well inside of other ones, unless there are too many
of them. -/
theorem follows_openGroup (h : d.openGroup t = .ok (d', r)) : Follows (·.openGroup ·) d t d' r := by
  unfold openGroup at h
  split at h
  · cases h
  split at h
  · cases h
  rename_i t' hskip
  rcases skipBlank_cases hskip with ⟨-, hall⟩ | ⟨rfl, -, hall⟩
  · refine .of_guard (fun e => decide (maxDepth ≤ e.outer.length)) .tooDeep
      (follows_opening h) fun htracks u hu => ?_
    simp only [openGroup, htracks.switches, hall u hu, decide_eq_true_eq]
  · -- the rest of the line is left out where the parenthesis is opened
    refine .inr (.inl fun {base e} htracks u hu hline e' r' he => ?_)
    simp only [openGroup, htracks.switches, hall u hline] at he
    split at he
    · cases he
    · cases he
      exact ⟨htracks.suffix.trans (List.suffix_cons _ _), .inl rfl⟩

/-! ### other steps -/

/-- What an escape stands for depends on the switches only, and on the groups that can be referred
to. -/
theorem follows_escaped (h : d.escaped t = .ok (d', r)) : Follows (·.escaped ·) d t d' r := by
  cases t with
  | nil => cases h
  | cons c t =>
    have hpush : ∀ {x : Escape} {n : Node} {repeatable : Bool} {after : Text},
        Escape.read d.switches false c t = .ok (x, after) →
        d.pushQuantified (.plain n repeatable) after = .ok (d', r) →
        (∀ {e : Draft} {t after : Text}, Escape.read e.switches false c t = .ok (x, after) →
          e.escaped (c :: t) = e.pushQuantified (.plain n repeatable) after) →
        Follows (·.escaped ·) d (c :: t) d' r := by
      intro x n repeatable after hx hp hall
      refine .of_piece (X := fun e => .ok (e, .plain n repeatable)) hp
        (fun h y hy => by cases hy; exact h) fun h u hu => ?_
      exact hall (h.switches ▸ (Escape.settles_read hx).2 u hu)
    simp only [escaped] at h
    split at h
    · cases h
    · rename_i hx
      exact hpush hx h fun hread => by simp only [escaped, hread]
    · rename_i hx
      exact hpush hx h fun hread => by simp only [escaped, hread]
    · rename_i hx
      exact hpush hx h fun hread => by simp only [escaped, hread]
    · rename_i hx
      exact hpush hx h fun hread => by simp only [escaped, hread]
    · rename_i x after hx
      split at h
      · cases h
      rename_i d₁ p hfollow
      refine .of_piece (X := fun e => e.follow x) h (fun h y hy => h.follow hfollow hy)
        fun {base e} h u hu => ?_
      simp only [escaped, List.cons_append, h.switches, (Escape.settles_read hx).2 u hu]
      cases e.follow x <;> rfl

theorem exists_outer_of_close (h : d.close = .ok (d', p)) :
    ∃ x l outer, d.outer = (x, l) :: outer := by
  unfold close at h
  split at h
  · cases h
  · exact ⟨_, _, _, by assumption⟩

/-- What a parenthesis brings back where it is closed, and what it makes of what was read in it. -/
theorem of_close (h : d.close = .ok (d', p)) {x : Enclosure} {l : Level}
    {outer : List (Enclosure × Level)} (ho : d.outer = (x, l) :: outer) :
    d'.outer = outer ∧ d'.level = l ∧ d'.switches = x.saved.getD d.switches ∧
      (∀ i, x = .capture i → p.repeatable = true ∧ p.node ≠ .empty) ∧
      ∀ sw, x = .plain sw → p = d.level.finish := by
  simp only [close, ho] at h
  split at h
  · cases h
  · rename_i q hq
    obtain rfl := eq_of_finishLevel hq
    split at h
    case h_1 =>
      cases h
      exact ⟨rfl, rfl, rfl, fun _ _ => ⟨rfl, by simp [Piece.plain]⟩, by simp⟩
    case h_2 =>
      cases h
      exact ⟨rfl, rfl, rfl, by simp, fun _ _ => rfl⟩
    case h_4 =>
      obtain ⟨n, -, heq⟩ := exists_of_map_eq_ok h
      cases heq
      exact ⟨rfl, rfl, rfl, by simp, by simp⟩
    all_goals
      cases h
      exact ⟨rfl, rfl, rfl, by simp, by simp⟩

theorem Tracks.close (h : d.Tracks base e) (hd : d.close = .ok (d', p))
    (he : e.close = .ok (e', q)) : d'.Tracks base e' := by
  obtain ⟨x, l, outer, ho⟩ := exists_outer_of_close hd
  obtain ⟨ho', -, hs, -⟩ := of_close hd ho
  obtain ⟨y, m, outer', hp⟩ := exists_outer_of_close he
  obtain ⟨hp', -, hs', -⟩ := of_close he hp
  obtain ⟨inner, houter, hmap⟩ := h.outer
  rw [ho] at hmap
  cases inner with
  | nil => cases hmap
  | cons z inner =>
    rw [hp, List.cons_append, List.cons.injEq] at houter
    obtain ⟨rfl, rfl⟩ := houter
    simp only [List.map_cons, List.cons.injEq, Enclosure.role, Prod.mk.injEq] at hmap
    exact ⟨by rw [hs, hs', hmap.1.1, h.switches], inner, hp', by rw [ho']; exact hmap.2⟩

/-- Conditions are closed where they are closed in the other draft. -/
theorem Tracks.inCondition (h : d.Tracks base e) (hd : d.outer ≠ []) :
    e.inCondition = d.inCondition := by
  obtain ⟨x, outer, ho⟩ := List.exists_cons_of_ne_nil hd
  obtain ⟨inner, houter, hmap⟩ := h.outer
  rw [ho] at hmap
  cases inner with
  | nil => cases hmap
  | cons z inner =>
    simp only [List.map_cons, List.cons.injEq, Enclosure.role, Prod.mk.injEq] at hmap
    simp [Draft.inCondition, ho, houter, hmap.1.2]

/-- Every step of reading is taken as well inside of other parentheses, or fails there. -/
theorem step_cases (h : d.step c t = .ok (d', r)) : Follows (·.step c ·) d t d' r := by
  have hpush : ∀ {p : Piece} {q : Draft → Piece}, d.pushQuantified p t = .ok (d', r) →
      (∀ (e : Draft) (t : Text), e.step c t = e.pushQuantified (q e) t) →
      Follows (·.step c ·) d t d' r :=
    fun {p q} hp hall => .of_piece (X := fun e => .ok (e, q e)) hp
      (fun h y hy => by cases hy; exact h) fun {base e} _ u _ => hall e (t ++ u)
  unfold step at h
  split at h
  · -- the next branch
    cases h
    refine .of_draft (X := fun e => .ok e.nextBranch) (fun h e' he => ?_) fun _ _ _ => rfl
    cases he
    exact h.congr rfl rfl rfl rfl
  · exact follows_openGroup h
  · -- a parenthesis that closes
    split at h
    · cases h
    rename_i d₁ p hclose
    have houter := outer_ne_nil_of_close hclose
    split at h
    · rename_i hcondition
      refine .of_choose (X := fun e => e.close) h (fun h y hy => h.close hclose hy)
        fun {base e} htracks u _ => ?_
      simp only [step, htracks.inCondition houter, hcondition, if_true]
      cases e.close <;> rfl
    · rename_i hcondition
      refine .of_piece (X := fun e => e.close) h (fun h y hy => h.close hclose hy)
        fun {base e} htracks u _ => ?_
      simp only [step, htracks.inCondition houter, if_neg hcondition]
      cases e.close <;> rfl
  · exact follows_escaped h
  · -- a class
    split at h
    · cases h
    rename_i s after hread
    refine .of_piece (X := fun e => .ok (e, .plain (.oneOf s) true)) h
      (fun h y hy => by cases hy; exact h) fun h u hu => ?_
    simp only [step, h.switches, (Bracket.settles_read hread).2 u hu]
    rfl
  · exact hpush h fun e t => rfl
  · exact hpush h fun e t => rfl
  · exact hpush h fun e t => rfl
  · cases h
  · cases h
  · cases h
  · refine hpush (q := fun e => .plain (.char c e.switches.ignoreCase) true) h fun e t => ?_
    unfold step
    split <;> simp_all

/-- What follows a text that is read on its own has no part in how the text is read inside of other
parentheses, or the rest of the line is a comment, and these parentheses stay open. -/
theorem readFrom_cases (h : d.readFrom t = .ok d') :
    (∀ {base e}, d.Tracks base e →
        (∀ u, Closed u → e.readFrom (t ++ u) = (e.readFrom t).bind (·.readFrom u)) ∧
          ∀ e', e.readFrom t = .ok e' → d'.Tracks base e') ∨
      ∀ {base e}, d.Tracks base e → ∀ u, Closed u → '\n' ∉ u → ∀ e', e.readFrom (t ++ u) = .ok e' →
        base <:+ e'.outer := by
  fun_induction readFrom d t with
  | case1 => cases h
  | case2 d₀ t₀ hs =>
    cases h
    rcases skipBlank_cases hs with ⟨-, hall⟩ | ⟨-, -, hall⟩
    · refine .inl fun {base e} htracks => ?_
      rw [readFrom_of_skipBlank_nil (htracks.switches ▸ hs)]
      refine ⟨fun u hu => readFrom_skipBlank ?_, fun e' he => by cases he; exact htracks⟩
      rw [htracks.switches]
      exact hall u hu
    · refine .inr fun {base e} htracks u _ hline e' he => ?_
      rw [readFrom_of_skipBlank_nil (htracks.switches ▸ hall u hline)] at he
      cases he
      exact htracks.suffix
  | case3 => cases h
  | case4 d₀ t₀ c rest hs d₁ r hstep _ _ _ ih =>
    have hread : ∀ {base e}, d₀.Tracks base e → ∀ u, Closed u →
        e.readFrom (t₀ ++ u) = resume (e.step c (rest ++ u)) := fun htracks u hu =>
      readFrom_of_skipBlank (htracks.switches ▸ skipBlank_append hs (by simp) hu)
    have hnil : ∀ {base e}, d₀.Tracks base e → e.readFrom t₀ = resume (e.step c rest) := by
      intro base e htracks
      simpa using hread htracks [] closed_nil
    rcases step_cases hstep with hkeeps | hdrops | hremark
    · rcases ih h with hrest | hrest
      · refine .inl fun {base e} htracks => ?_
        rw [hnil htracks]
        cases he : e.step c rest with
        | error k =>
          refine ⟨fun u hu => ?_, fun e' he' => by cases he'⟩
          rw [hread htracks u hu, hkeeps.append htracks u hu, he]
          rfl
        | ok x =>
          obtain ⟨hr, htracks'⟩ := hkeeps.tracks htracks x.1 x.2 he
          obtain ⟨happend, hend⟩ := hrest htracks'
          refine ⟨fun u hu => ?_, fun e' he' => hend e' (hr ▸ he')⟩
          rw [hread htracks u hu, hkeeps.append htracks u hu, he]
          show x.1.readFrom (x.2 ++ u) = (x.1.readFrom x.2).bind (·.readFrom u)
          rw [hr]
          exact happend u hu
      · refine .inr fun {base e} htracks u hu hline e' he' => ?_
        rw [hread htracks u hu, hkeeps.append htracks u hu] at he'
        cases he : e.step c rest with
        | error k =>
          rw [he] at he'
          cases he'
        | ok x =>
          obtain ⟨hr, htracks'⟩ := hkeeps.tracks htracks x.1 x.2 he
          rw [he] at he'
          exact hrest htracks' u hu hline e' (hr ▸ he')
    · refine .inr fun {base e} htracks u hu hline e' he' => ?_
      rw [hread htracks u hu] at he'
      cases he : e.step c (rest ++ u) with
      | error k =>
        rw [he] at he'
        cases he'
      | ok x =>
        obtain ⟨hsuffix, hfades⟩ := hdrops htracks u hu hline x.1 x.2 he
        rw [he] at he'
        exact outer_of_fades hfades he' ▸ hsuffix
    · exact absurd rfl (of_readFrom_of_trail hremark h).1

end Draft

/-! ### texts on their own -/

/-- The text is an expression on its own. -/
def IsSelfContained (ic : Bool) (x : Text) : Prop := ∃ e, read (switchSource ic ++ x) = .ok e

/-- Such a text is read in the same way whatever closed text follows, and leaves no parenthesis
open; or the rest of the line is a comment, and no parenthesis around the text is closed in it. -/
theorem IsSelfContained.readFrom_cases {ic : Bool} {x : Text} (hx : IsSelfContained ic x) :
    (∀ d : Draft, d.switches = caseSwitch ic → ∃ y : Except Fault Draft,
        (∀ u, Closed u → d.readFrom (x ++ u) = y.bind (·.readFrom u)) ∧
          ∀ d', y = .ok d' → d'.outer = d.outer) ∨
      ∀ d : Draft, d.switches = caseSwitch ic → ∀ u, Closed u → '\n' ∉ u →
        ∀ d', d.readFrom (x ++ u) = .ok d' → d.outer <:+ d'.outer := by
  obtain ⟨e, he⟩ := hx
  unfold read at he
  split at he
  · cases he
  rename_i d₁ hread
  split at he
  · cases he
  rename_i houter
  rw [not_not] at houter
  have htracks : ∀ d : Draft, d.switches = caseSwitch ic →
      ({ switches := caseSwitch ic } : Draft).Tracks d.outer d := fun d hd => ⟨hd, [], rfl, rfl⟩
  rcases Draft.readFrom_cases (readFrom_of_switch hread) with hstable | hopen
  · refine .inl fun d hd => ?_
    obtain ⟨happend, hall⟩ := hstable (htracks d hd)
    refine ⟨d.readFrom x, happend, fun d' hd' => ?_⟩
    obtain ⟨inner, hinner, hmap⟩ := (hall d' hd').outer
    rw [houter, List.map_nil, List.map_eq_nil_iff] at hmap
    rw [hinner, hmap, List.nil_append]
  · exact .inr fun d hd => hopen (htracks d hd)

end PathTemplate.Expression
