import PathTemplate.Proofs.Shape
import PathTemplate.Proofs.Template.Parsed

/-!
# Parameters without a name

A parameter without a name is called by how many of its kind are before it.

* `Text.ofNat_injective` — different numbers are different names;
* `Item.name_part`, `Item.parts_append` — the name of a part, and the number that a part gets;
* `Item.number_ne_iff` — a number is the name of an earlier parameter only where it is written as
  one;
* `Matcher.get?_collect_concat`, `Matcher.Spares` — collecting a value changes nothing under other
  names;
* `Path.number_isFree_iff` — the number of a parameter is free unless it is written as the name of
  an earlier one, and then no capture is lost to it.
-/

namespace PathTemplate

/-! ### numbers as names -/

theorem Text.ofNat_injective : Function.Injective Text.ofNat := by
  intro m n h
  calc
    m = Nat.ofDigitChars 10 (Nat.toDigits 10 m) 0 := Nat.ofDigitChars_ten_toDigits.symm
    _ = Nat.ofDigitChars 10 (Nat.toDigits 10 n) 0 := congrArg (Nat.ofDigitChars 10 · 0) h
    _ = n := Nat.ofDigitChars_ten_toDigits

theorem Text.ofNat_ne_nil (n : Nat) : Text.ofNat n ≠ [] := Nat.toDigits_ne_nil

namespace Item

variable {o : ParseOptions} {free n : Nat} {i k : Item} {l r : List Item} {p q : Param}

variable (o free) in
theorem exists_param_of_isUnnamed (hi : i.isUnnamed = true) : ∃ p, i.part o free = .param p := by
  cases i with
  | text run => cases hi
  | _ => exact ⟨_, rfl⟩

theorem name_part (h : i.part o free = .param p) :
    p.name = if i.isUnnamed then Text.ofNat free else i.name?.getD [] := by
  cases i with
  | text run => cases h
  | bare name pattern modifier =>
    cases h
    cases name <;> rfl
  | wildcard star run =>
    cases h
    cases run <;> rfl
  | group b =>
    cases h
    cases hn : b.name <;> cases hp : b.pattern <;> simp [isUnnamed, name?, hn, hp, Template.nameOr]

variable (o free) in
theorem exists_param_of_name? {name : Text} (h : i.name? = some name) :
    i.isUnnamed = false ∧ ∃ p, i.part o free = .param p ∧ p.name = name := by
  have hunnamed : i.isUnnamed = false := by
    cases i with
    | text run => rfl
    | bare n pattern modifier => cases n <;> simp_all [name?, isUnnamed]
    | wildcard star run => cases run <;> simp_all [name?, isUnnamed]
    | group b => cases hn : b.name <;> simp_all [name?, isUnnamed]
  have hparam : ∃ p, i.part o free = .param p := by
    cases i with
    | text run => cases h
    | _ => exact ⟨_, rfl⟩
  obtain ⟨p, hp⟩ := hparam
  refine ⟨hunnamed, p, hp, ?_⟩
  rw [name_part hp, hunnamed, h]
  rfl

/-- The parts of some items follow those of the items before; each parameter without a name there
has taken a number. -/
theorem parts_append (o : ParseOptions) (free : Nat) (l r : List Item) :
    parts o free (l ++ r) = parts o free l ++ parts o (free + l.countP isUnnamed) r := by
  induction l generalizing free with
  | nil => rfl
  | cons i l ih =>
    rw [List.cons_append, parts, parts, ih, List.countP_cons, List.cons_append]
    congr 3
    split <;> omega

/-- A number that is still to be given is the name of an earlier parameter only where it is written
as its name. -/
theorem number_ne_iff (hn : free + l.countP isUnnamed ≤ n) :
    (∀ q, .param q ∈ parts o free l → q.name ≠ Text.ofNat n) ↔
    ∀ k ∈ l, k.name? ≠ some (Text.ofNat n) := by
  induction l generalizing free with
  | nil => simp [parts]
  | cons i l ih =>
    rw [List.countP_cons] at hn
    have hrest := @ih (if i.isUnnamed then free + 1 else free) (by
      split at hn <;> simp_all
      omega)
    have hhead : (∀ q, i.part o free = .param q → q.name ≠ Text.ofNat n) ↔
        i.name? ≠ some (Text.ofNat n) := by
      constructor
      · intro h hname
        obtain ⟨-, p, hp, hpn⟩ := exists_param_of_name? o free hname
        exact h p hp hpn
      · intro h q hq heq
        rw [name_part hq] at heq
        split at heq
        · rename_i hu
          have := Text.ofNat_injective heq
          simp only [hu, if_true] at hn
          omega
        · cases hname : i.name? with
          | none =>
            rw [hname] at heq
            exact Text.ofNat_ne_nil n heq.symm
          | some name =>
            rw [hname] at heq h
            exact h (congrArg some heq)
    simp only [parts, List.mem_cons, forall_eq_or_imp, ← hrest, ← hhead]
    constructor
    · intro h
      exact ⟨fun q hq => h q (.inl hq.symm), fun q hq => h q (.inr hq)⟩
    · rintro ⟨h, h'⟩ q (hq | hq)
      · exact h q hq.symm
      · exact h' q hq

end Item

/-! ### what is collected -/

namespace Matcher

variable {decode : Option Codec} {m : Match} {ps : List (Param × Option Expression)}
  {s : Option Expression} {p : Param} {params params' : Params}

theorem get?_collect_concat (h : collect decode m 1 ps .empty = .ok params)
    (h' : collect decode m 1 (ps ++ [(p, s)]) .empty = .ok params') {n : Text} (hn : n ≠ p.name) :
    params'.get? n = params.get? n := by
  obtain ⟨es, hes, rfl⟩ := exists_collects h
  rw [collect_append hes] at h'
  simp only [collect] at h'
  split at h'
  · cases h'
    rfl
  · split at h'
    · cases h'
    · cases h'
      rw [Params.get?_insert, if_neg hn]

/-- When the values of the first parameters, `before`, are collected, `p` comes next, and its value
takes the place of none of them. -/
def Spares (matcher : Matcher) (before : List Param) (p : Param) : Prop :=
  ∃ ps s rest, matcher.expression.keys.zip matcher.separators = ps ++ (p, s) :: rest ∧
  ps.map Prod.fst = before ∧
    ∀ m params params', collect matcher.decode m 1 ps .empty = .ok params →
      collect matcher.decode m 1 (ps ++ [(p, s)]) .empty = .ok params' → ∀ q ∈ before,
      params'.get? q.name = params.get? q.name

end Matcher

theorem Template.keys_of_toExpression {d : Template} {o : ExpressionOptions} {e : PathExpression}
    (h : d.toExpression o = .ok e) : e.keys = d.params := by
  unfold toExpression at h
  split at h
  · cases h
  · split at h
    · cases h
    · cases h
      rfl

namespace Path

variable {o : ParseOptions} {mo : MatchOptions} {t : Text} {d : Template} {m : Matcher}
  {before after : List Part} {p : Param}

/-- A parameter with a name of its own among the first ones spares them. -/
theorem spares_of_name_ne (hm : (pattern t).matcher mo = .ok m)
    (hd : Path.parse mo.expression.parse t = .ok d) (hparts : d.parts = before ++ .param p :: after)
    (hp : p.isCapturing = true) (hname : ∀ q, .param q ∈ before → q.name ≠ p.name) :
    m.Spares (paramsOf before) p := by
  have hresolve : (pattern t).resolve mo.expression.parse = .ok (.inl d) := by
    rw [resolve, hd]
    rfl
  obtain ⟨e, separators, he, rfl, hs⟩ := exists_of_matcher hresolve hm
  have hkeys : e.keys = paramsOf before ++ p :: paramsOf after := by
    rw [Template.keys_of_toExpression he, Template.params, Template.allParams, hparts]
    simp [paramsOf, Part.param?, hp]
  rw [hkeys] at hs
  obtain ⟨ss, ss', hbefore, hafter, rfl⟩ := forall₂_append_left_iff.1 hs
  obtain _ | @⟨_, s, _, ss', -, -⟩ := hafter
  have hlength := hbefore.length_eq
  refine ⟨(paramsOf before).zip ss, s, (paramsOf after).zip ss', ?_,
    List.map_fst_zip (Nat.le_of_eq hlength), ?_⟩
  · simp only [hkeys]
    rw [List.zip_append hlength, List.zip_cons_cons]
  · intro m params params' h h' q hq
    exact Matcher.get?_collect_concat h h' (hname q (mem_paramsOf.1 hq).1)

/-- A text that is read is made of items. A parameter without a name is called by the number of
those before it. No earlier parameter is called so, unless it has this number written as its name;
where none has, no capture of an earlier parameter is lost to it. -/
theorem number_isFree_iff (h : Path.parse o t = .ok d) :
    (∃ is, IsMadeOf t is) ∧
    ∀ l i r, IsMadeOf t (l ++ i :: r) → i.isUnnamed = true →
      ∃ before p after, d.parts = before ++ .param p :: after ∧ before.length = l.length ∧
        p.name = Text.ofNat (l.countP Item.isUnnamed) ∧
        ((∀ q, .param q ∈ before → q.name ≠ p.name) ↔ ∀ k ∈ l, k.name? ≠ some p.name) ∧
        ((∀ k ∈ l, k.name? ≠ some p.name) →
          ∀ mo m, mo.expression.parse = o → (pattern t).matcher mo = .ok m →
            m.Spares (paramsOf before) p) := by
  refine ⟨exists_isMadeOf (Path.parse_eq_ok_iff.1 h).2, fun l i r his hi => ?_⟩
  obtain ⟨p, hp⟩ := Item.exists_param_of_isUnnamed o (0 + l.countP Item.isUnnamed) hi
  have hname : p.name = Text.ofNat (l.countP Item.isUnnamed) := by
    rw [Item.name_part hp, if_pos hi, Nat.zero_add]
  have hparts :
      d.parts = Item.parts o 0 l ++ .param p :: Item.parts o (l.countP Item.isUnnamed + 1) r := by
    rw [his.eq_of_parse h, Item.parts_append, Item.parts, hp, if_pos hi, Nat.zero_add]
  have hfree :
      (∀ q, .param q ∈ Item.parts o 0 l → q.name ≠ p.name) ↔ ∀ k ∈ l, k.name? ≠ some p.name := by
    rw [hname]
    exact Item.number_ne_iff (by omega)
  refine ⟨_, p, _, hparts, Item.length_parts .., hname, hfree, fun hwritten mo m hmo hm => ?_⟩
  have hcapturing : p.isCapturing = true := by
    simp [Param.isCapturing, hname, Text.ofNat_ne_nil]
  exact spares_of_name_ne hm (hmo ▸ h) hparts hcapturing (hfree.2 hwritten)

/-- Two patterns take the first two numbers, and a wildcard the third one. -/
theorem number_isFree_wildcard :
    ∃ d before p after, Path.parse {} "/:a/(b)\x7b-(c)\x7d?*".toList = .ok d ∧
      d.parts = before ++ .param p :: after ∧ before.length = 5 ∧ p.name = ['2'] ∧
      (∀ q, .param q ∈ before → q.name ≠ ['2']) ∧
      ∃ m, (pattern "/:a/(b)\x7b-(c)\x7d?*".toList).matcher {} = .ok m ∧
        m.Spares (paramsOf before) p := by
  have hxs : Lexeme.ofText "/:a/(b)\x7b-(c)\x7d?*".toList =
      .ok [⟨.char, 0, ['/']⟩, ⟨.name, 1, ['a']⟩, ⟨.char, 3, ['/']⟩, ⟨.pattern, 4, ['b']⟩,
          ⟨.opening, 7, ['{']⟩, ⟨.char, 8, ['-']⟩, ⟨.pattern, 9, ['c']⟩, ⟨.closing, 12, ['}']⟩,
          ⟨.question, 13, ['?']⟩, ⟨.asterisk, 14, ['*']⟩, ⟨.finish, 15, []⟩] := by
    cbv
  let group : Braced :=
    ⟨⟨.opening, 7, ['{']⟩, [⟨.char, 8, ['-']⟩], none, some ⟨.pattern, 9, ['c']⟩, [], none,
    ⟨.closing, 12, ['}']⟩,
      some ⟨.question, 13, ['?']⟩⟩
  let l : List Item :=
    [.text [⟨.char, 0, ['/']⟩], .bare (some ⟨.name, 1, ['a']⟩) none none, .text [⟨.char, 3, ['/']⟩],
      .bare none (some ⟨.pattern, 4, ['b']⟩) none, .group group]
  have hgroup : group.IsProper :=
    ⟨rfl, by simp [group, Lexeme.isText], by simp [group], by simp [group], by simp [group],
      by simp [group], by simp [group], rfl, by simp [group, Lexeme.Kind.modifier?]⟩
  have his :
      IsMadeOf "/:a/(b)\x7b-(c)\x7d?*".toList (l ++ .wildcard ⟨.asterisk, 14, ['*']⟩ [] :: []) := by
    refine ⟨_, hxs, ?_, ?_⟩
    · refine .cons (i := .text _) ⟨by simp, by simp [Lexeme.isText]⟩
        (by simp [Item.Precedes, Lexeme.isText]) ?_
      refine .cons (i := .bare _ _ _) ⟨by simp, by simp, by simp, by simp⟩ (by simp [Item.Precedes])
        ?_
      refine .cons (i := .text _) ⟨by simp, by simp [Lexeme.isText]⟩
        (by simp [Item.Precedes, Lexeme.isText]) ?_
      refine .cons (i := .bare _ _ _) ⟨by simp, by simp, by simp, by simp⟩ (by simp [Item.Precedes])
        ?_
      refine .cons (i := .group group) hgroup trivial ?_
      exact .cons (i := .wildcard _ []) ⟨rfl, by simp⟩
        (by simp [Item.Precedes, Lexeme.continuesName]) (.finish rfl)
    · simp [l, IsGreedy, Item.IsFull, Item.Absorbs, group]
  obtain ⟨d, hd⟩ := exists_ok_of_isSome (x := Path.parse {} "/:a/(b)\x7b-(c)\x7d?*".toList)
    (by decide +kernel)
  obtain ⟨m, hm⟩ := exists_ok_of_isSome (x := (pattern "/:a/(b)\x7b-(c)\x7d?*".toList).matcher {})
    (by decide +kernel)
  obtain ⟨-, hall⟩ := number_isFree_iff hd
  obtain ⟨before, p, after, hparts, hlength, hname, hfree, hspares⟩ := hall l _ [] his rfl
  have hnumber : p.name = ['2'] := hname.trans (by decide)
  rw [hnumber] at hfree hspares
  have hwritten : ∀ k ∈ l, k.name? ≠ some ['2'] := by decide
  exact ⟨d, before, p, after, hd, hparts, hlength, hnumber, hfree.2 hwritten, m, hm,
    hspares hwritten {} m rfl hm⟩

/-- A number that is written as a name is given again, and the capture of the first parameter is
lost to the second one. -/
theorem number_taken :
    ∃ d m f, Path.parse {} "/:0/(b)".toList = .ok d ∧ d.params.map Param.name = [['0'], ['0']] ∧
      (pattern "/:0/(b)".toList).matcher {} = .ok m ∧ m.run "/a/b".toList = .ok (some f) ∧
      f.params.entries = [(['0'], .single ['b'])] := by
  obtain ⟨d, hd⟩ := exists_ok_of_isSome (x := Path.parse {} "/:0/(b)".toList) (by decide +kernel)
  obtain ⟨m, hm⟩ := exists_ok_of_isSome (x := (pattern "/:0/(b)".toList).matcher {})
    (by decide +kernel)
  have hnames : d.params.map Param.name = [['0'], ['0']] :=
    eq_of_map (fun d => d.params.map Param.name) hd (by decide +kernel)
  obtain ⟨f, hf, hentries⟩ : ∃ f, m.run "/a/b".toList = .ok (some f) ∧
      some f.params.entries = some [(['0'], .single ['b'])] :=
    exists_ok_some_of_bind_eq (Matcher.run · "/a/b".toList) hm (by decide +kernel)
  exact ⟨d, m, f, hd, hnames, hm, hf, Option.some.inj hentries⟩

end Path

end PathTemplate
