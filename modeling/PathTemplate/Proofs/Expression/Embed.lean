import PathTemplate.Proofs.Expression.Extend
import PathTemplate.Proofs.Expression.Reading

/-!
# Expressions inside of expressions

A text that is an expression without groups of its own is the same expression inside of parentheses,
wherever these stand.

* `Draft.IsGroupless` — a draft that opened no group that captures, and refers to none;
* `Draft.inside` — a draft read inside of the parentheses that are open in another one;
* `Draft.Carries` — a step of reading that works as well there; `Draft.carries_step` — every step
  does;
* `Draft.readFrom_inside` — and so does reading as a whole;
* `Expression.isPattern` — a text of this kind; `Expression.denotes_pattern` — in parentheses, it
  has the sense of its expression.
-/

namespace PathTemplate.Expression

/-! ### pieces without groups -/

/-- No group captures in the piece, whichever of its branches is taken. -/
def Piece.IsGroupless (p : Piece) : Prop := p.node.groups = [] ∧ ∀ n ∈ p.choices, n.groups = []

/-- No group captures in what was read. -/
def Level.IsGroupless (l : Level) : Prop :=
  (∀ p ∈ l.pieces, p.IsGroupless) ∧ ∀ p ∈ l.branches, p.IsGroupless

variable {p q : Piece} {l : Level} {sw : Switches} {t u r : Text}

theorem Piece.isGroupless_plain {n : Node} {repeatable : Bool} (h : n.groups = []) :
    (Piece.plain n repeatable).IsGroupless :=
  ⟨h, by simp [plain, h]⟩

theorem isGroupless_of_quantified (hp : p.IsGroupless) (h : quantified sw p t = .ok (q, r)) :
    q.IsGroupless := by
  unfold quantified at h
  split at h
  · cases h
  · split at h
    · cases h
      exact hp
    · split at h
      · cases h
      · split at h
        · cases h
        · split at h
          · cases h
          · simp only [Except.ok.injEq, Prod.mk.injEq] at h
            obtain ⟨rfl, -⟩ := h
            refine Piece.isGroupless_plain ?_
            split <;> exact hp.1

theorem Level.IsGroupless.branch (h : l.IsGroupless) : l.branch.IsGroupless := by
  unfold Level.branch
  split
  · exact Piece.isGroupless_plain rfl
  · rename_i p hp
    exact h.1 p (by simp [hp])
  · refine Piece.isGroupless_plain ?_
    rw [Node.groups_seqAll, List.flatMap_eq_nil_iff]
    intro n hn
    obtain ⟨p, hp, rfl⟩ := List.mem_map.1 hn
    exact (h.1 p (List.mem_reverse.1 hp)).1

theorem Level.IsGroupless.finish (h : l.IsGroupless) : l.finish.IsGroupless := by
  unfold Level.finish
  split
  · exact h.branch
  · rename_i hne
    have hall : ∀ n ∈ (l.branch :: l.branches).reverse.map Piece.node, n.groups = [] := by
      intro n hn
      obtain ⟨p, hp, rfl⟩ := List.mem_map.1 hn
      rcases List.mem_cons.1 (List.mem_reverse.1 hp) with rfl | hp
      · exact h.branch.1
      · exact (h.2 p hp).1
    exact ⟨by rw [Node.groups_altAll, List.flatMap_eq_nil_iff]; exact hall, hall⟩

theorem exists_of_mem_mapM {α β : Type} {f : α → Option β} {l : List α} {bs : List β}
    (h : l.mapM f = some bs) {b : β} (hb : b ∈ bs) : ∃ a ∈ l, f a = some b := by
  induction l generalizing bs with
  | nil =>
    cases h
    cases hb
  | cons a l ih =>
    simp only [List.mapM_cons, Option.bind_eq_bind, Option.bind_eq_some_iff, Option.pure_def,
      Option.some.injEq] at h
    obtain ⟨b', hb', bs', hbs', rfl⟩ := h
    rcases List.mem_cons.1 hb with rfl | hb
    · exact ⟨a, List.mem_cons_self .., hb'⟩
    · obtain ⟨a', ha', h⟩ := ih hbs' hb
      exact ⟨a', List.mem_cons_of_mem _ ha', h⟩

theorem isGroupless_of_lookaround {ahead positive : Bool} {n : Node} (hp : p.IsGroupless)
    (h : Draft.lookaround ahead positive p = .ok n) : n.groups = [] := by
  unfold Draft.lookaround at h
  have hbehind : ∀ {m m' : Node}, m.groups = [] →
      (m.width?.map fun w => Node.look (.behind w) positive m) = some m' → m'.groups = [] := by
    intro m m' hm h
    obtain ⟨w, -, rfl⟩ := Option.map_eq_some_iff.1 h
    exact hm
  split at h
  · cases h
    exact hp.1
  · simp only at h
    split at h
    · rename_i hn
      cases h
      exact hbehind hp.1 hn
    · split at h
      · rename_i ns hns
        cases h
        have hall : ∀ m ∈ ns, m.groups = [] := by
          intro m hm
          split at hns
          · obtain ⟨m', hm', hlook⟩ := exists_of_mem_mapM hns hm
            exact hbehind (hp.2 m' hm') hlook
          · cases hns
        split
        · rw [Node.groups_altAll, List.flatMap_eq_nil_iff]
          exact hall
        · rw [Node.groups_seqAll, List.flatMap_eq_nil_iff]
          exact hall
      · cases h

theorem Piece.IsGroupless.asCondition (hp : p.IsGroupless) : p.asCondition.IsGroupless := by
  unfold Piece.asCondition
  split
  · exact Piece.isGroupless_plain rfl
  · exact hp

theorem Piece.IsGroupless.conditional {condition : Piece} (hc : condition.IsGroupless)
    (hp : p.IsGroupless) : (condition.conditional p).IsGroupless := by
  unfold Piece.conditional
  split
  · exact hc
  · rename_i a rest hchoices
    have hall : ∀ n ∈ a :: rest, n.groups = [] := hchoices ▸ hp.2
    split
    · exact hc
    · refine Piece.isGroupless_plain ?_
      simp only [Node.groups, Node.groups_altAll, hc.1, hall a (List.mem_cons_self ..),
        List.append_nil, List.nil_append, List.flatMap_eq_nil_iff]
      exact fun n hn => hall n (List.mem_cons_of_mem a hn)

/-- The parenthesis is not that of a group, and no group captures in a condition that it goes on
from. -/
def Enclosure.IsGroupless : Enclosure → Prop
  | .capture _ => False
  | .choice c => c.IsGroupless
  | _ => True

/-! ### drafts without groups -/

namespace Draft

variable {d d' base : Draft} {c : Char} {e : Enclosure}
  {f : Draft → Text → Except Fault (Draft × Text)} {room : Nat}

/-- No group that captures was opened, and none is referred to. -/
structure IsGroupless (d : Draft) : Prop where
  groups : d.groups = 0
  names : d.names = []
  referenced : d.referenced = []
  numbered : d.numbered = false
  level : d.level.IsGroupless
  outer : ∀ x ∈ d.outer, x.2.IsGroupless ∧ x.1.IsGroupless

/-- The draft `d`, read inside of the parentheses that are open in `base`. -/
def inside (base d : Draft) : Draft :=
  { base with switches := d.switches, level := d.level, outer := d.outer ++ base.outer }

@[simp] theorem inside_switches (base d : Draft) : (base.inside d).switches = d.switches := rfl
@[simp] theorem inside_outer (base d : Draft) : (base.inside d).outer = d.outer ++ base.outer := rfl

/-- Groups and references are not forgotten. -/
def Grows (d d' : Draft) : Prop := d.groups ≤ d'.groups ∧ d.referenced <:+ d'.referenced

theorem Grows.refl (d : Draft) : d.Grows d := ⟨Nat.le_refl _, List.suffix_refl _⟩

theorem Grows.trans {d'' : Draft} (h : d.Grows d') (h' : d'.Grows d'') : d.Grows d'' :=
  ⟨Nat.le_trans h.1 h'.1, h.2.trans h'.2⟩

theorem Grows.referenced_ne_nil (h : d.Grows d') (hne : d.referenced ≠ []) :
    d'.referenced ≠ [] := by
  intro hnil
  have hsuffix := h.2
  rw [hnil, List.suffix_nil] at hsuffix
  exact hne hsuffix

/-- A step from `d` to `d'` that leaves `r` of the text `t` works as well inside of other
parentheses, if `room` more of them may be opened there. -/
structure Carries (f : Draft → Text → Except Fault (Draft × Text)) (room : Nat) (d : Draft)
    (t : Text) (d' : Draft) (r : Text) : Prop where
  groupless : d'.IsGroupless
  suffix : r <:+ t
  depth : d'.outer.length ≤ d.outer.length + room
  inside :
    ∀ (base : Draft) (u : Text), base.isMixed = false →
      base.outer.length + d.outer.length + room ≤ maxDepth → Closed u →
      f (base.inside d) (t ++ u) = .ok (base.inside d', r ++ u)

/-- What goes on with a step that works inside of other parentheses works there, if it goes on in
the same way there. -/
theorem Carries.after {f f' : Draft → Text → Except Fault (Draft × Text)} {room room' : Nat}
    {d₁ : Draft} {t₁ : Text} (h : Carries f room d₁ t₁ d' r) (hsuffix : t₁ <:+ t)
    (hdepth : d₁.outer.length + room ≤ d.outer.length + room')
    (hall : ∀ (base : Draft) u, base.isMixed = false →
      base.outer.length + d.outer.length + room' ≤ maxDepth → Closed u →
      f' (base.inside d) (t ++ u) = f (base.inside d₁) (t₁ ++ u)) :
    Carries f' room' d t d' r where
  groupless := h.groupless
  suffix := h.suffix.trans hsuffix
  depth := Nat.le_trans h.depth hdepth
  inside base u hbase hroom hu :=
    (hall base u hbase hroom hu).trans (h.inside base u hbase (by omega) hu)

theorem isGroupless_level_push (hd : d.level.IsGroupless) (hp : p.IsGroupless) :
    (d.push p).level.IsGroupless := by
  unfold Draft.push
  split
  · exact hd
  · refine ⟨fun q hq => ?_, hd.2⟩
    rcases List.mem_cons.1 hq with rfl | hq
    · exact hp
    · exact hd.1 q hq

theorem isGroupless_level_nextBranch (hd : d.level.IsGroupless) :
    d.nextBranch.level.IsGroupless := by
  refine ⟨by simp [nextBranch], fun p hp => ?_⟩
  rcases List.mem_cons.1 hp with rfl | hp
  · exact hd.branch
  · exact hd.2 p hp

theorem IsGroupless.push (hd : d.IsGroupless) (hp : p.IsGroupless) : (d.push p).IsGroupless := by
  have hlevel := isGroupless_level_push hd.level hp
  obtain ⟨l, hl⟩ := d.exists_push_eq p
  rw [hl] at hlevel ⊢
  exact ⟨hd.groups, hd.names, hd.referenced, hd.numbered, hlevel, hd.outer⟩

theorem push_outer (d : Draft) (p : Piece) : (d.push p).outer = d.outer := by
  obtain ⟨l, hl⟩ := d.exists_push_eq p
  rw [hl]

theorem inside_push (base d : Draft) (p : Piece) :
    base.inside (d.push p) = (base.inside d).push p := by
  unfold push
  split <;> rfl

theorem carries_pushQuantified (hd : d.IsGroupless) (hp : p.IsGroupless) (ht : '#' ∉ t)
    (h : d.pushQuantified p t = .ok (d', r)) : Carries (·.pushQuantified p ·) 0 d t d' r := by
  obtain ⟨x, hx, heq⟩ := exists_of_map_eq_ok h
  obtain ⟨rfl, rfl⟩ := Prod.mk.inj heq
  refine ⟨hd.push (isGroupless_of_quantified hp hx), (skips_of_quantified hx).suffix,
    by rw [push_outer]; exact Nat.le_refl _, fun base u _ _ hu => ?_⟩
  simp only [pushQuantified, inside_switches, quantified_append (sealed_of_not_mem ht) hu, hx,
    inside_push]
  rfl

theorem grows_pushQuantified (h : d.pushQuantified p t = .ok (d', r)) : d.Grows d' := by
  obtain ⟨x, -, heq⟩ := exists_of_map_eq_ok h
  obtain ⟨rfl, -⟩ := Prod.mk.inj heq
  unfold push
  split <;> exact .refl d

theorem grows_refer {n : Nat} (h : d.refer n = .ok (d', p)) : d.Grows d' ∧ d'.referenced ≠ [] := by
  unfold refer at h
  split at h
  · cases h
  · cases h
    exact ⟨⟨Nat.le_refl _, List.suffix_cons _ _⟩, by simp⟩

theorem grows_referByName {name : Text} (h : d.referByName name = .ok (d', p)) :
    d.Grows d' ∧ d'.referenced ≠ [] := by
  unfold referByName at h
  split at h
  · exact grows_refer h
  · split at h
    · exact grows_refer h
    · cases h

theorem grows_follow {x : Reference} (h : d.follow x = .ok (d', p)) :
    d.Grows d' ∧ d'.referenced ≠ [] := by
  unfold follow at h
  split at h
  · obtain ⟨y, hy, heq⟩ := exists_of_map_eq_ok h
    cases heq
    have hgrows := grows_refer hy
    exact hgrows
  · exact grows_referByName h
  · split at h
    · cases h
    · exact grows_refer h

theorem grows_choose {condition : Piece} (h : d.choose condition t = .ok (d', r)) : d.Grows d' := by
  unfold choose at h
  split at h
  · cases h
  · split at h
    · exact grows_pushQuantified h
    · cases h
  · cases h
    exact .refl d

theorem grows_conditional (h : d.conditional t = .ok (d', r)) : d.Grows d' := by
  unfold conditional at h
  split at h
  · cases h
  · cases h
    exact .refl d
  · split at h
    · cases h
    · rename_i hfollow
      split at h
      · cases h
      · exact (grows_follow hfollow).1.trans (grows_choose h)
      · cases h

theorem grows_enterNamed (h : d.enterNamed t = .ok (d', r)) : d.Grows d' ∧ d'.groups ≠ 0 := by
  unfold enterNamed at h
  split at h
  · cases h
  · cases h
    exact ⟨⟨Nat.le_succ _, List.suffix_refl _⟩, Nat.succ_ne_zero _⟩

theorem IsGroupless.enter (hd : d.IsGroupless) (he : e.IsGroupless) (sw : Switches) :
    ({ d.enter e with switches := sw } : Draft).IsGroupless := by
  refine ⟨hd.groups, hd.names, hd.referenced, hd.numbered,
    ⟨by simp [Draft.enter], by simp [Draft.enter]⟩, fun x hx => ?_⟩
  rcases List.mem_cons.1 hx with rfl | hx
  · exact ⟨hd.level, he⟩
  · exact hd.outer x hx

theorem head_of_switchesFrom {off : Bool} {previous : Char} {x : Switches × Bool × Text}
    (h : switchesFrom sw off previous t = .ok x) :
    ∃ c t', t = c :: t' ∧ c ≠ '=' ∧ c ≠ '!' ∧ c ≠ '<' ∧ c ≠ '>' ∧ c ≠ 'P' ∧ c ≠ '(' := by
  cases t with
  | nil => cases h
  | cons c t =>
    refine ⟨c, t, rfl, ?_⟩
    refine ⟨?_, ?_, ?_, ?_, ?_, ?_⟩
    all_goals
      rintro rfl
      simp [switchesFrom] at h

/-- Flags set the switches, in a group of their own if it is opened. -/
theorem opening_switches {x : Switches × Bool × Text}
    (h : switchesFrom d.switches false '?' t = .ok x) :
    d.opening ('?' :: t) =
      if x.2.1 then .ok ({ d.enter (.plain d.switches) with switches := x.1 }, x.2.2)
        else { d with switches := x.1 }.pushQuantified .nothing x.2.2 := by
  obtain ⟨sw', opens, after⟩ := x
  obtain ⟨c, t'', rfl, h₁, h₂, h₃, h₄, h₅, h₆⟩ := head_of_switchesFrom h
  unfold opening
  split
  case h_10 =>
    rename_i hcons
    cases hcons
    rw [h]
    cases opens <;> rfl
  case h_11 =>
    rename_i hne
    exact absurd rfl (hne (c :: t''))
  all_goals
    rename_i hcons
    simp only [List.cons.injEq, true_and] at hcons
    exact absurd hcons.1 (by assumption)

/-- What follows a condition is looked at in the same way inside of other parentheses. -/
theorem carries_choose {condition : Piece} (hd : d.IsGroupless) (hc : condition.IsGroupless)
    (ht : '#' ∉ t) (h : d.choose condition t = .ok (d', r)) :
    Carries (·.choose condition ·) 1 d t d' r := by
  unfold choose at h
  split at h
  · cases h
  · rename_i t
    split at h
    · rename_i i entered hnode
      have hpush := carries_pushQuantified hd hc (not_mem_of_suffix (List.suffix_cons _ _) ht) h
      refine hpush.after (List.suffix_cons _ _) (Nat.le_succ _) fun base u _ _ _ => ?_
      simp only [List.cons_append, choose, hnode]
    · cases h
  · rename_i hnil hparen
    cases h
    refine ⟨hd.enter (e := .choice condition) hc d.switches, List.suffix_refl _, by simp [enter],
      fun base u _ _ _ => ?_⟩
    cases t with
    | nil => exact absurd rfl hnil
    | cons c t =>
      show (base.inside d).choose condition (c :: (t ++ u)) = _
      unfold choose
      split
      · simp_all
      · simp_all
      · rfl

theorem carries_conditional (hd : d.IsGroupless) (h : d.conditional t = .ok (d', r))
    (href : d'.referenced = []) : Carries (·.conditional ·) 1 d t d' r := by
  unfold conditional at h
  split at h
  · cases h
  · rename_i hasked
    cases h
    refine ⟨hd.enter (by exact trivial) d.switches, List.suffix_refl _, by simp [enter],
      fun base u _ _ _ => ?_⟩
    simp only [conditional, Reference.asked?_append hasked]
    rfl
  · split at h
    · cases h
    · rename_i hfollow
      split at h
      · cases h
      · exact absurd href ((grows_choose h).referenced_ne_nil (grows_follow hfollow).2)
      · cases h

theorem carries_opening (hd : d.IsGroupless) (ht : '#' ∉ t) (h : d.opening t = .ok (d', r))
    (hg : d'.groups = 0) (href : d'.referenced = []) : Carries (·.opening ·) 1 d t d' r := by
  -- what the parenthesis is for is seen in the same way inside of other parentheses
  have hopen : ∀ {d' r}, r <:+ t → d'.IsGroupless → d'.outer.length ≤ d.outer.length + 1 →
      (∀ (base : Draft) u, (base.inside d).opening (t ++ u) = .ok (base.inside d', r ++ u)) →
      Carries (·.opening ·) 1 d t d' r :=
    fun hr hd' hdepth hall => ⟨hd', hr, hdepth, fun base u _ _ _ => hall base u⟩
  unfold opening at h
  split at h
  case h_1 | h_2 | h_3 | h_4 | h_8 =>
    cases h
    exact hopen (by simp [List.suffix_cons_iff]) (hd.enter (by exact trivial) d.switches)
      (by simp [enter]) fun base u => rfl
  case h_5 | h_6 => exact absurd hg (grows_enterNamed h).2
  case h_7 =>
    split at h
    · cases h
    · split at h
      · cases h
      · rename_i hrefer
        exact absurd href
          ((grows_pushQuantified h).referenced_ne_nil (grows_referByName hrefer).2)
  case h_9 =>
    exact (carries_conditional hd h href).after
      ((List.suffix_cons _ _).trans (List.suffix_cons _ _)) (Nat.le_refl _) fun base u _ _ _ => rfl
  case h_10 =>
    rename_i t' _ _ _ _ _ _ _ _ _
    split at h
    · cases h
    · rename_i sw' after hx
      cases h
      obtain ⟨hr, hsettles⟩ := settles_switchesFrom hx
      exact hopen (hr.trans (List.suffix_cons _ _)) (hd.enter (by exact trivial) _)
        (by simp [enter]) fun base u => opening_switches (d := base.inside d) (hsettles u)
    · rename_i sw' after hx
      obtain ⟨hr, hsettles⟩ := settles_switchesFrom hx
      have hd' : ({ d with switches := sw' } : Draft).IsGroupless :=
        ⟨hd.groups, hd.names, hd.referenced, hd.numbered, hd.level, hd.outer⟩
      have hr' := hr.trans (List.suffix_cons '?' t')
      have hpush := carries_pushQuantified hd' (Piece.isGroupless_plain rfl)
        (not_mem_of_suffix hr' ht) h
      exact hpush.after hr' (Nat.le_succ _) fun base u _ _ _ =>
        opening_switches (d := base.inside d) (hsettles u)
  case h_11 =>
    cases h
    exact absurd hg (Nat.succ_ne_zero _)

theorem carries_openGroup (hd : d.IsGroupless) (ht : '#' ∉ t) (h : d.openGroup t = .ok (d', r))
    (hg : d'.groups = 0) (href : d'.referenced = []) : Carries (·.openGroup ·) 1 d t d' r := by
  obtain ⟨t', hskip', hskip⟩ := (sealed_of_not_mem ht : Sealed d.switches t).exists_skipBlank
  have ht' := suffix_of_skipBlank hskip'
  unfold openGroup at h
  split at h
  · cases h
  simp only [hskip'] at h
  have hcarries := carries_opening hd (not_mem_of_suffix ht' ht) h hg href
  refine hcarries.after ht' (Nat.le_refl _) fun base u _ hroom hu => ?_
  have hlt : ¬maxDepth ≤ (base.inside d).outer.length := by
    simp only [inside_outer, List.length_append]
    omega
  simp only [openGroup, if_neg hlt, inside_switches, hskip u hu]

theorem grows_opening (h : d.opening t = .ok (d', r)) : d.Grows d' := by
  unfold opening at h
  split at h
  case h_5 | h_6 => exact (grows_enterNamed h).1
  case h_7 =>
    split at h
    · cases h
    · split at h
      · cases h
      · rename_i hrefer
        exact (grows_referByName hrefer).1.trans (grows_pushQuantified h)
  case h_9 => exact grows_conditional h
  case h_10 =>
    split at h
    · cases h
    · cases h
      exact .refl d
    · exact (grows_pushQuantified h : Grows { d with switches := _ } d')
  case h_11 =>
    cases h
    exact ⟨Nat.le_succ _, List.suffix_refl _⟩
  all_goals
    cases h
    exact .refl d

theorem grows_openGroup (h : d.openGroup t = .ok (d', r)) : d.Grows d' := by
  unfold openGroup at h
  split at h
  · cases h
  · split at h
    · cases h
    · exact grows_opening h

theorem carries_escaped (hd : d.IsGroupless) (ht : '#' ∉ t) (h : d.escaped t = .ok (d', r))
    (href : d'.referenced = []) : Carries (·.escaped ·) 0 d t d' r := by
  cases t with
  | nil => cases h
  | cons c t =>
    have ht' : '#' ∉ t := not_mem_of_suffix (List.suffix_cons c t) ht
    -- what the escape stands for is added as a piece
    have hpush : ∀ {e : Escape} {n : Node} {repeatable : Bool} {after : Text}, n.groups = [] →
        Escape.read d.switches false c t = .ok (e, after) →
        d.pushQuantified (.plain n repeatable) after = .ok (d', r) →
        (∀ (base : Draft) u, Escape.read d.switches false c (t ++ u) = .ok (e, after ++ u) →
          (base.inside d).escaped (c :: (t ++ u)) =
            (base.inside d).pushQuantified (.plain n repeatable) (after ++ u)) →
        Carries (·.escaped ·) 0 d (c :: t) d' r := by
      intro e n repeatable after hn hread h hall
      obtain ⟨hr, hread⟩ := Escape.settles_read hread
      have hcarries := carries_pushQuantified hd (Piece.isGroupless_plain hn)
        (not_mem_of_suffix hr ht') h
      exact hcarries.after (hr.trans (List.suffix_cons _ _)) (Nat.le_refl _)
        fun base u _ _ hu => hall base u (hread u hu)
    simp only [escaped] at h
    split at h
    · cases h
    · rename_i hread
      exact hpush rfl hread h fun base u hread => by simp only [escaped, inside_switches, hread]
    · rename_i hread
      exact hpush rfl hread h fun base u hread => by simp only [escaped, inside_switches, hread]
    · rename_i hread
      exact hpush rfl hread h fun base u hread => by simp only [escaped, inside_switches, hread]
    · rename_i hread
      exact hpush rfl hread h fun base u hread => by simp only [escaped, inside_switches, hread]
    · split at h
      · cases h
      · rename_i hfollow
        exact absurd href ((grows_pushQuantified h).referenced_ne_nil (grows_follow hfollow).2)

theorem grows_escaped (h : d.escaped t = .ok (d', r)) : d.Grows d' := by
  unfold escaped at h
  split at h
  · cases h
  · split at h
    · cases h
    · exact grows_pushQuantified h
    · exact grows_pushQuantified h
    · exact grows_pushQuantified h
    · exact grows_pushQuantified h
    · split at h
      · cases h
      · rename_i hfollow
        exact (grows_follow hfollow).1.trans (grows_pushQuantified h)

/-- A parenthesis that was opened in a draft is closed in the same way inside of other
parentheses. -/
theorem inside_close (hd : d.IsGroupless) (h : d.close = .ok (d', p)) :
    d'.IsGroupless ∧ p.IsGroupless ∧ d'.outer.length < d.outer.length ∧
      ∀ base : Draft, base.isMixed = false → (base.inside d).close = .ok (base.inside d', p) := by
  unfold close at h
  split at h
  · cases h
  · rename_i e level outer houter
    have hfinish : d.finishLevel = .ok d.level.finish := by simp [finishLevel, hd.numbered]
    have hp := hd.level.finish
    obtain ⟨hlevel, he⟩ := hd.outer (e, level) (by simp [houter])
    have hrest : ∀ sw, ({ d with switches := sw, level, outer } : Draft).IsGroupless := fun sw =>
      ⟨hd.groups, hd.names, hd.referenced, hd.numbered, hlevel, fun x hx =>
      hd.outer x (by simp [houter, hx])⟩
    have hlen : outer.length < d.outer.length := by simp [houter]
    have hinside : ∀ base : Draft, base.isMixed = false →
        (base.inside d).finishLevel = .ok d.level.finish := by
      intro base hbase
      exact finishLevel_of_unmixed (d := base.inside d) hbase
    have houter' : ∀ base : Draft, (base.inside d).outer = (e, level) :: (outer ++ base.outer) := by
      simp [houter]
    simp only [hfinish] at h
    cases e with
    | capture i => exact he.elim
    | plain sw =>
      cases h
      refine ⟨hrest sw, hp, hlen, fun base hbase => ?_⟩
      simp only [close, houter', hinside base hbase]
      rfl
    | atomic =>
      cases h
      refine ⟨hrest _, Piece.isGroupless_plain hp.1, hlen, fun base hbase => ?_⟩
      simp only [close, houter', hinside base hbase]
      rfl
    | look ahead positive =>
      obtain ⟨n, hn, heq⟩ := exists_of_map_eq_ok h
      cases heq
      refine ⟨hrest _, Piece.isGroupless_plain (isGroupless_of_lookaround hp hn), hlen,
        fun base hbase => ?_⟩
      simp only [close, houter', hinside base hbase, hn]
      rfl
    | condition =>
      cases h
      refine ⟨hrest _, hp.asCondition, hlen, fun base hbase => ?_⟩
      simp only [close, houter', hinside base hbase]
      rfl
    | choice condition =>
      cases h
      refine ⟨hrest _, he.conditional hp, hlen, fun base hbase => ?_⟩
      simp only [close, houter', hinside base hbase]
      rfl

theorem outer_ne_nil_of_close (h : d.close = .ok (d', p)) : d.outer ≠ [] := by
  rintro hnil
  simp [close, hnil] at h

theorem inCondition_inside (h : d.outer ≠ []) : (base.inside d).inCondition = d.inCondition := by
  obtain ⟨x, outer, houter⟩ := List.exists_cons_of_ne_nil h
  simp [inCondition, houter]

theorem eq_of_finishLevel (h : d.finishLevel = .ok p) : p = d.level.finish := by
  unfold finishLevel at h
  split at h
  · cases h
  · cases h
    rfl

theorem grows_close (h : d.close = .ok (d', p)) : d.Grows d' := by
  unfold close at h
  split at h
  · cases h
  · split at h
    · cases h
    · split at h
      case h_4 =>
        obtain ⟨n, -, heq⟩ := exists_of_map_eq_ok h
        cases heq
        exact .refl d
      all_goals
        cases h
        exact .refl d

theorem grows_step (h : d.step c t = .ok (d', r)) : d.Grows d' := by
  unfold step at h
  split at h
  · cases h
    exact .refl d
  · exact grows_openGroup h
  · split at h
    · cases h
    · rename_i hclose
      split at h
      · exact (grows_close hclose).trans (grows_choose h)
      · exact (grows_close hclose).trans (grows_pushQuantified h)
  · exact grows_escaped h
  · split at h
    · cases h
    · exact grows_pushQuantified h
  all_goals first
    | exact grows_pushQuantified h
    | cases h

theorem carries_closing (hd : d.IsGroupless) (ht : '#' ∉ t) (h : d.step ')' t = .ok (d', r)) :
    Carries (·.step ')' ·) 0 d t d' r := by
  simp only [step] at h
  split at h
  · cases h
  · rename_i d₁ p hclose
    obtain ⟨hd₁, hp, hlen, hinside⟩ := inside_close hd hclose
    split at h
    · rename_i hcondition
      refine (carries_choose hd₁ hp ht h).after (List.suffix_refl _) hlen fun base u hbase _ _ => ?_
      simp only [step, hinside base hbase, inCondition_inside (outer_ne_nil_of_close hclose),
        hcondition, if_true]
    · rename_i hcondition
      refine (carries_pushQuantified hd₁ hp ht h).after (List.suffix_refl _) (Nat.le_of_lt hlen)
        fun base u hbase _ _ => ?_
      simp only [step, hinside base hbase, inCondition_inside (outer_ne_nil_of_close hclose),
        if_neg hcondition]

/-- Every step of reading works as well inside of other parentheses. -/
theorem carries_step (hd : d.IsGroupless) (ht : '#' ∉ t) (h : d.step c t = .ok (d', r))
    (hg : d'.groups = 0) (href : d'.referenced = []) :
    Carries (·.step c ·) ([c].count '(') d t d' r := by
  have hpush : ∀ {n : Node} {repeatable : Bool}, n.groups = [] →
      d.pushQuantified (.plain n repeatable) t = .ok (d', r) →
      (∀ (base : Draft) u, (base.inside d).step c (t ++ u) =
        (base.inside d).pushQuantified (.plain n repeatable) (t ++ u)) →
      Carries (·.step c ·) ([c].count '(') d t d' r := by
    intro n repeatable hn h hall
    have hcarries := carries_pushQuantified hd (Piece.isGroupless_plain hn) ht h
    exact hcarries.after (List.suffix_refl _) (Nat.le_add_right _ _) fun base u _ _ _ => hall base u
  unfold step at h
  split at h
  · -- the next branch
    cases h
    exact ⟨⟨hd.groups, hd.names, hd.referenced, hd.numbered, isGroupless_level_nextBranch hd.level,
        hd.outer⟩, List.suffix_refl _, Nat.le_refl _, fun base u _ _ _ => rfl⟩
  · exact carries_openGroup hd ht h hg href
  · exact carries_closing hd ht h
  · -- an escape
    exact (carries_escaped hd ht h href).after (List.suffix_refl _) (Nat.le_refl _)
      fun base u _ _ _ => rfl
  · -- a class
    split at h
    · cases h
    · rename_i s after hread
      obtain ⟨hr, hread⟩ := Bracket.settles_read hread
      have hcarries := carries_pushQuantified hd (Piece.isGroupless_plain rfl)
        (not_mem_of_suffix hr ht) h
      refine hcarries.after hr (Nat.le_refl _) fun base u _ _ hu => ?_
      simp only [step, inside_switches, hread u hu]
  · exact hpush rfl h fun base u => rfl
  · exact hpush rfl h fun base u => rfl
  · exact hpush rfl h fun base u => rfl
  · cases h
  · cases h
  · cases h
  · refine hpush rfl h fun base u => ?_
    unfold step
    split <;> simp_all

theorem readFrom_of_skipBlank (hs : skipBlank d.switches t = .ok (c :: u)) :
    d.readFrom t = resume (d.step c u) := by
  rw [readFrom]
  split
  · simp_all
  · simp_all
  · rename_i hs'
    rw [hs] at hs'
    cases hs'
    split <;> simp_all [resume]

theorem readFrom_of_skipBlank_nil (hs : skipBlank d.switches t = .ok []) :
    d.readFrom t = .ok d := by
  rw [readFrom]
  split
  · simp_all
  · rfl
  · simp_all

/-- What stands for nothing can be left out before reading. -/
theorem readFrom_skipBlank {t' : Text} (hs : skipBlank d.switches t = .ok t') :
    d.readFrom t = d.readFrom t' := by
  cases t' with
  | nil => rw [readFrom_of_skipBlank_nil hs, readFrom_nil]
  | cons c t' => rw [readFrom_of_skipBlank hs, readFrom_of_skipBlank (skipBlank_skipBlank hs)]

theorem readFrom_grows (h : d.readFrom t = .ok d') : d.Grows d' := by
  fun_induction readFrom d t with
  | case1 => cases h
  | case2 =>
    cases h
    exact .refl _
  | case3 => cases h
  | case4 d t c rest hs d₁ r hstep _ _ _ ih => exact (grows_step hstep).trans (ih h)

/-- A text that is read without groups is read as well inside of parentheses, whatever closed text
follows. -/
theorem readFrom_inside (hd : d.IsGroupless) (ht : '#' ∉ t) (h : d.readFrom t = .ok d')
    (hg : d'.groups = 0) (href : d'.referenced = []) :
    d'.IsGroupless ∧
    ∀ (base : Draft) u, base.isMixed = false →
      base.outer.length + d.outer.length + t.count '(' ≤ maxDepth → Closed u →
      (base.inside d).readFrom (t ++ u) = (base.inside d').readFrom u := by
  fun_induction readFrom d t with
  | case1 => cases h
  | case2 d₀ t₀ hs =>
    obtain rfl : d₀ = d' := by simpa using h
    obtain ⟨t', hnil, hskip⟩ := (sealed_of_not_mem ht : Sealed d₀.switches t₀).exists_skipBlank
    simp only [hs, Except.ok.injEq] at hnil
    refine ⟨hd, fun base u _ _ hu => ?_⟩
    have hu' : skipBlank (base.inside d₀).switches (t₀ ++ u) = .ok u := by
      rw [inside_switches, hskip u hu, ← hnil]
      rfl
    exact readFrom_skipBlank hu'
  | case3 => cases h
  | case4 d₀ t₀ c rest hs d₁ r hstep _ _ _ ih =>
    obtain ⟨t', hcons, hskip⟩ := (sealed_of_not_mem ht : Sealed d₀.switches t₀).exists_skipBlank
    simp only [hs, Except.ok.injEq] at hcons
    subst hcons
    have ht' := suffix_of_skipBlank hs
    have hmem := not_mem_of_suffix ht' ht
    have hgrows := readFrom_grows h
    have hg₁ : d₁.groups = 0 := by
      have := hgrows.1
      omega
    have href₁ : d₁.referenced = [] := by
      have := hgrows.2
      rwa [href, List.suffix_nil] at this
    have hcarries := carries_step hd (not_mem_of_suffix (List.suffix_cons c rest) hmem) hstep hg₁
      href₁
    obtain ⟨hd', hrest⟩ := ih hcarries.groupless
      (not_mem_of_suffix (hcarries.suffix.trans (List.suffix_cons c rest)) hmem) h
    refine ⟨hd', fun base u hbase hroom hu => ?_⟩
    -- the parentheses that are opened here are among those of the text
    have hcount : [c].count '(' + r.count '(' ≤ t₀.count '(' := by
      have h₁ := ht'.sublist.count_le '('
      have h₂ := hcarries.suffix.sublist.count_le '('
      rw [← List.singleton_append, List.count_append] at h₁
      omega
    have hdepth := hcarries.depth
    have hskip' : skipBlank (base.inside d₀).switches (t₀ ++ u) = .ok (c :: (rest ++ u)) :=
      hskip u hu
    rw [readFrom_of_skipBlank hskip',
      show (base.inside d₀).step c (rest ++ u) = _ from hcarries.inside base u hbase (by omega) hu]
    exact hrest base u hbase (by omega) hu

end Draft

/-! ### patterns -/

variable {ic once : Bool} {g : Nat} {x : Text} {e : Expression}

/-- The text is an expression of its own, without `#`, with at most 59 parentheses that open, and
without groups that capture, references and choices that are final. -/
def isPattern (ic : Bool) (x : Text) : Bool :=
  match read (switchSource ic ++ x) with
  | .error _ => false
  | .ok e =>
    e.groups = 0 && e.referenced =
      [] && e.root.isRegular && !x.contains '#' && decide (x.count '(' ≤ 59)

/-- The sense of a pattern is that of its expression. -/
def patternSense (ic : Bool) (x : Text) : Sense :=
  match read (switchSource ic ++ x) with
  | .error _ => .nothing
  | .ok e => e.root.Matches

theorem patternSense_of_read (h : read (switchSource ic ++ x) = .ok e) :
    patternSense ic x = e.root.Matches := by
  simp only [patternSense, h]

theorem exists_of_isPattern (h : isPattern ic x = true) :
    ∃ e, read (switchSource ic ++ x) = .ok e ∧ e.groups = 0 ∧ e.referenced = [] ∧
      e.root.isRegular = true ∧ '#' ∉ x ∧ x.count '(' ≤ 59 := by
  unfold isPattern at h
  split at h
  · cases h
  · rename_i e he
    simp only [Bool.and_eq_true, decide_eq_true_eq, Bool.not_eq_true', List.contains_eq_mem,
      decide_eq_false_iff_not] at h
    exact ⟨e, he, h.1.1.1.1, h.1.1.1.2, h.1.1.2, h.1.2, h.2⟩

/-- The switch at the start changes nothing but whether case counts. -/
theorem readFrom_of_switch {d' : Draft} (h : Draft.readFrom {} (switchSource ic ++ x) = .ok d') :
    Draft.readFrom { switches := caseSwitch ic } x = .ok d' := by
  cases ic with
  | false => exact h
  | true =>
    have hswitch :
        Draft.switchesFrom {} false '?' ('i' :: ')' :: x) = .ok (caseSwitch true, false, x) := by
      simp [Draft.switchesFrom, caseSwitch]
    have hopen := Draft.opening_switches (d := {}) hswitch
    have hskip : skipBlank {} ('?' :: 'i' :: ')' :: x) = .ok ('?' :: 'i' :: ')' :: x) :=
      skipBlank_mark _ _
    have hstep : Draft.step {} '(' ('?' :: 'i' :: ')' :: x) =
        ({ switches := caseSwitch true } : Draft).pushQuantified .nothing x := by
      simpa [Draft.step, Draft.openGroup, hskip, maxDepth] using hopen
    change Draft.readFrom {} ('(' :: '?' :: 'i' :: ')' :: x) = _ at h
    rw [Draft.readFrom_cons (by simp [skipBlank, skipFrom]), hstep, Draft.pushQuantified] at h
    cases hskip : skipBlank (caseSwitch true) x with
    | error e =>
      simp only [quantified, hskip] at h
      cases h
    | ok t =>
      cases hcount : count? (caseSwitch true) t with
      | none =>
        simp only [quantified, hskip, hcount] at h
        rw [Draft.readFrom_skipBlank hskip]
        exact h
      | some c =>
        simp only [quantified, hskip, hcount] at h
        cases h

/-- What a pattern is read as on its own, and how it is read inside of parentheses. -/
theorem exists_draft_of_isPattern (h : isPattern ic x = true) :
    ∃ (d : Draft) (p : Piece), d.outer = [] ∧ d.level.finish = p ∧ p.IsGroupless ∧
      p.node.isRegular = true ∧ patternSense ic x = p.node.Matches ∧
      ∀ (base : Draft) u, base.isMixed = false → base.outer.length ≤ 4 → Closed u →
        (base.inside { switches := caseSwitch ic }).readFrom (x ++ u) =
          (base.inside d).readFrom u := by
  obtain ⟨e, he, hgroups, href, hregular, hx, hroom⟩ := exists_of_isPattern h
  rw [patternSense_of_read he]
  unfold read at he
  split at he
  · cases he
  rename_i d hread
  split at he
  · cases he
  rename_i houter
  rw [not_not] at houter
  obtain ⟨p, hp, rfl⟩ := exists_of_map_eq_ok he
  have hstart : ({ switches := caseSwitch ic } : Draft).IsGroupless :=
    ⟨rfl, rfl, rfl, rfl, ⟨by simp, by simp⟩, by simp⟩
  obtain ⟨hd, hinside⟩ := Draft.readFrom_inside hstart hx (readFrom_of_switch hread) hgroups href
  have hlevel : d.finishLevel = .ok d.level.finish := by simp [Draft.finishLevel, hd.numbered]
  rw [hlevel] at hp
  cases hp
  refine ⟨d, _, houter, rfl, hd.level.finish, hregular, rfl,
    fun base u hbase hlen hu => hinside base u hbase ?_ hu⟩
  simp only [List.length_nil, maxDepth]
  omega

theorem isSilent_patternSense (h : isPattern ic x = true) : (patternSense ic x).IsSilent := by
  obtain ⟨d, p, -, -, hpiece, hregular, hsense, -⟩ := exists_draft_of_isPattern h
  rw [hsense]
  exact Node.isSilent_of_groups_eq_nil hregular hpiece.1

/-- In parentheses that do not capture, a pattern has the sense of its expression wherever it
stands. -/
theorem denotes_pattern (once : Bool) (g : Nat) (h : isPattern ic x = true) :
    Denotes once false ic 60 g g (['(', '?', ':'] ++ x ++ [')']) (patternSense ic x) := by
  obtain ⟨d', p, houter, hfinish, hpiece, hregular, hsense, hinside⟩ := exists_draft_of_isPattern h
  rw [hsense]
  -- the pattern in parentheses
  have hclose : ∀ (d : Draft) rest, d.IsOpen ic 60 g →
      d.readFrom (['(', '?', ':'] ++ x ++ [')'] ++ rest) =
        Draft.resume ((d.add [] g).pushQuantified p rest) := by
    intro d rest hd
    let base : Draft := { d with outer := (.plain d.switches, d.level) :: d.outer }
    have htext : ['(', '?', ':'] ++ x ++ [')'] ++ rest =
        '(' :: '?' :: ':' :: (x ++ ')' :: rest) := by simp
    have hbase : d.enter (.plain d.switches) = base.inside { switches := caseSwitch ic } := by
      rw [← hd.switches]
      rfl
    have hlen : base.outer.length ≤ 4 := by
      have := hd.room
      simp only [base, List.length_cons, maxDepth] at this ⊢
      omega
    have hend : (base.inside d').close = .ok (d.add [] g, p) := by
      have hfinish' : (base.inside d').finishLevel = .ok p := by
        rw [← hfinish]
        exact Draft.finishLevel_of_unmixed (d := base.inside d') hd.unmixed
      have houter' : (base.inside d').outer = (.plain d.switches, d.level) :: d.outer := by
        simp [houter, base]
      simp only [Draft.close, houter', hfinish']
      simp [Draft.inside, Draft.add, base, ← hd.groups]
    have hplain : (base.inside d').inCondition = false := by
      simp [Draft.inCondition, houter, base, Enclosure.isCondition]
    have hstep := Draft.step_close hplain hend rest
    rw [htext, hd.readFrom_cons rfl]
    show Draft.resume (d.openGroup _) = _
    rw [(hd.weaken (show 0 + 1 ≤ 60 by omega) |>.openGroup _).1]
    show Draft.readFrom (d.enter _) _ = _
    rw [hbase, hinside base _ hd.unmixed hlen (closed_paren rest),
      Draft.readFrom_cons (by simp [skipBlank, skipFrom]), hstep]
  refine ⟨fun rest _ => rfl, ?_⟩
  by_cases hempty : p.node = .empty
  · -- nothing is added
    refine ⟨[], fun d rest hd hrest => ?_, ⟨by simp, by simp, fun _ => Nat.le_refl g, ?_⟩, by simp⟩
    · rw [hclose d rest hd, Draft.pushQuantified, (hd.add [] g).switches,
        quantified_of_isQuiet _ hrest]
      simp [Except.map, Draft.resume, Draft.push, hempty]
    · show Sense.nothing = p.node.Matches
      rw [hempty]
      rfl
  · refine ⟨[p], fun d rest hd hrest => ?_, hasSense_one hempty hregular (fun ho => ?_) rfl,
      by simp⟩
    · rw [hclose d rest hd, (hd.add [] g).resume_push hempty hrest, Draft.add_add]
      rfl
    · exact ⟨Nat.le_refl g, Node.isLinear_of_groups_eq_nil hregular hpiece.1, by simp [hpiece.1]⟩

end PathTemplate.Expression
