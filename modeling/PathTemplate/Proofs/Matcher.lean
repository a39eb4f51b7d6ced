import PathTemplate.Matcher
import PathTemplate.Proofs.Fragment

/-!
# What a matcher gives

* `Params.get?_ofList` — of the values under one name, the last one counts;
* `Expression.find_cases` — an expression of whole texts matches a text, or it does not, or the
  budget is spent;
* `Matcher.Collects` — the captures of parameters have these values; `Matcher.run_found` — what is
  found then;
* `Matcher.run_of_find`, `Matcher.exists_find_of_run` — a path is found exactly if the expression
  finds it;
* `Matcher.ofExpression_eq`, `Matcher.separators_none` — the separators of parameters, and of
  those that do not repeat.
-/

namespace PathTemplate

/-! ### values by name -/

theorem lookup_filter_ne {es : List (Text × ParamValue)} {name n : Text} (h : n ≠ name) :
    (es.filter fun e => e.1 ≠ name).lookup n = es.lookup n := by
  induction es with
  | nil => rfl
  | cons e es ih =>
    obtain ⟨m, v⟩ := e
    by_cases hm : m = name
    · subst hm
      have hb : (n == m) = false := by simpa using h
      rw [List.filter_cons_of_neg (by simp), ih, List.lookup_cons, hb]
    · rw [List.filter_cons_of_pos (by simpa using hm), List.lookup_cons, List.lookup_cons, ih]

theorem lookup_eq_some_of_mem {es : List (Text × ParamValue)} (hnodup : (es.map Prod.fst).Nodup)
    {e : Text × ParamValue} (he : e ∈ es) : es.lookup e.1 = some e.2 := by
  obtain ⟨l₁, l₂, rfl⟩ := List.append_of_mem he
  refine List.lookup_eq_some_iff.2 ⟨l₁, l₂, rfl, fun e' he' => ?_⟩
  rw [List.map_append, List.map_cons, List.nodup_append] at hnodup
  have hne := hnodup.2.2 e'.1 (List.mem_map_of_mem he') e.1 (by simp)
  simpa using hne.symm

namespace Params

theorem get?_insert (p : Params) (name n : Text) (v : ParamValue) :
    (p.insert name v).get? n = if n = name then some v else p.get? n := by
  unfold get? insert
  rw [List.lookup_append]
  split
  · rename_i h
    subst h
    have hnone : (p.entries.filter fun e => e.1 ≠ n).lookup n = none := by
      rw [List.lookup_eq_none_iff]
      intro e he
      have hne : e.1 ≠ n := by simpa using (List.mem_filter.1 he).2
      simpa using hne.symm
    rw [hnone]
    simp
  · rename_i h
    have hb : (n == name) = false := by simpa using h
    rw [lookup_filter_ne h]
    simp [List.lookup_cons, hb]

/-- Of the values under one name, the last one counts. -/
theorem get?_ofList (es : List (Text × ParamValue)) (n : Text) :
    (ofList es).get? n = es.reverse.lookup n := by
  have hfold : ∀ (p : Params), (es.foldl (fun p e => p.insert e.1 e.2) p).get? n =
      (es.reverse.lookup n).or (p.get? n) := by
    induction es with
    | nil => simp
    | cons e es ih =>
      intro p
      obtain ⟨name, v⟩ := e
      rw [List.foldl_cons, ih, get?_insert, List.reverse_cons, List.lookup_append]
      by_cases h : n = name
      · subst h
        simp
      · have hb : (n == name) = false := by simpa using h
        simp [h, List.lookup_cons, hb]
  show (es.foldl (fun p e => p.insert e.1 e.2) empty).get? n = _
  rw [hfold]
  simp

theorem get?_ofList_of_nodup {es : List (Text × ParamValue)} (hnodup : (es.map Prod.fst).Nodup)
    {e : Text × ParamValue} (he : e ∈ es) : (ofList es).get? e.1 = some e.2 := by
  rw [get?_ofList]
  exact lookup_eq_some_of_mem (by simpa using hnodup) (List.mem_reverse.2 he)

theorem get?_ofList_eq_none {es : List (Text × ParamValue)} {n : Text} (hn : n ∉ es.map Prod.fst) :
    (ofList es).get? n = none := by
  rw [get?_ofList, List.lookup_eq_none_iff]
  intro e he
  have hne : n ≠ e.1 := fun h => hn (h ▸ List.mem_map_of_mem (List.mem_reverse.1 he))
  simpa using hne

theorem mem_of_get?_ofList {es : List (Text × ParamValue)} {name : Text} {v : ParamValue}
    (h : (ofList es).get? name = some v) : (name, v) ∈ es := by
  rw [get?_ofList] at h
  obtain ⟨l₁, l₂, heq, -⟩ := List.lookup_eq_some_iff.1 h
  rw [← List.mem_reverse, heq]
  simp

/-- Values put in one after the other are those of `params`, if all of them are, and if no name is
left out. -/
theorem get?_ofList_eq {es : List (Text × ParamValue)} {params : Params}
    (h : ∀ e ∈ es, params.get? e.1 = some e.2)
    (h' : ∀ n, params.get? n ≠ none → n ∈ es.map Prod.fst) (n : Text) :
    (ofList es).get? n = params.get? n := by
  cases hl : (ofList es).get? n with
  | none =>
    rw [get?_ofList, List.lookup_eq_none_iff] at hl
    by_contra hne
    obtain ⟨e, he, rfl⟩ := List.mem_map.1 (h' n fun hn => hne hn.symm)
    simpa using hl e (List.mem_reverse.2 he)
  | some v => exact (h (n, v) (mem_of_get?_ofList hl)).symm

theorem mem_entries_iff (p : Params) (e : Text × ParamValue) :
    e ∈ p.entries ↔ p.get? e.1 = some e.2 := by
  unfold get?
  constructor
  · exact lookup_eq_some_of_mem p.nodup
  · intro he
    obtain ⟨l₁, l₂, heq, -⟩ := List.lookup_eq_some_iff.1 he
    rw [heq]
    simp

/-- Values are the same if they are so under each name. -/
theorem same_of_get?_eq {p q : Params} (h : ∀ n, p.get? n = q.get? n) : p.same q = true := by
  unfold same
  rw [List.isPerm_iff, List.perm_ext_iff_of_nodup p.nodup.of_map q.nodup.of_map]
  intro e
  rw [mem_entries_iff, mem_entries_iff, h]

end Params

/-! ### searches in whole texts -/

/-- An expression of whole texts matches a text, or it does not, or the budget is spent. -/
theorem Expression.find_cases {e : Expression} {S : Sense} (hr : e.root.isRegular = true)
    (hl : e.root.isLinear = true) (hm : e.root.Matches = wholly S) (u : Text) :
    e.find u = .gaveUp ∨ (e.find u = .none ∧ ∀ w, ¬S (.start u) (.finish u) w) ∨
    ∃ m w, e.find u = .found m ∧ m.start = .start u ∧ m.finish.pos = .finish u ∧
      S (.start u) (.finish u) w ∧ m.finish.capture? = Captures.get? w := by
  have ha := isAnchored_of_wholly hm
  cases hfind : e.find u with
  | gaveUp => exact .inl rfl
  | none => exact .inr (.inl ⟨rfl, not_sense_of_none hr hm hfind⟩)
  | found m =>
    obtain ⟨hstart, hfinish, hleft⟩ := find_found hr ha hfind
    obtain ⟨w, hw, hc⟩ := hleft.captures hl
    rw [hm, wholly_iff, hstart, hfinish] at hw
    exact .inr (.inr ⟨m, w, rfl, hstart, hfinish, hw.2.2, funext hc⟩)

/-! ### matchers -/

theorem Match.text_span {m : Match} {u : Text} (hstart : m.start = .start u)
    (hfinish : m.finish.pos = .finish u) : m.span.text = u := by
  rw [Match.span, hstart, hfinish]
  exact Span.text_eq (Cursor.start_takes_finish u)

theorem Expression.text_of_find {e : Expression} {S : Sense} {x : Text} {m : Match}
    (hr : e.root.isRegular = true) (hm : e.root.Matches = Expression.wholly S)
    (h : e.find x = .found m) : m.span.text = x := by
  obtain ⟨hstart, hfinish, -⟩ := find_found hr (isAnchored_of_wholly hm) h
  exact Match.text_span hstart hfinish

namespace Matcher

/-- The captures of the groups after `g` have these values, under the names of the parameters. -/
def Collects (decode : Option Codec) (get : Nat → Option Span) : (g : Nat) →
  List (Param × Option Expression) →
    List (Text × ParamValue) → Prop
  | _, [], es => es = []
  | g, (p, separator) :: ps, es =>
    (get (g + 1) = none ∧ Collects decode get (g + 1) ps es) ∨
      ∃ s v es', get (g + 1) = some s ∧ value decode separator s.text = .ok v ∧
      es = (p.name, v) :: es' ∧
        Collects decode get (g + 1) ps es'

variable {decode : Option Codec} {m : Match} {g : Nat} {ps : List (Param × Option Expression)}
  {es : List (Text × ParamValue)} {matcher : Matcher} {u : Text}

theorem Collects.append {get : Nat → Option Span} {ps' : List (Param × Option Expression)}
    {es' : List (Text × ParamValue)} (h : Collects decode get g ps es)
    (h' : Collects decode get (g + ps.length) ps' es') :
    Collects decode get g (ps ++ ps') (es ++ es') := by
  induction ps generalizing g es with
  | nil =>
    obtain rfl : es = [] := h
    exact h'
  | cons p ps ih =>
    have hlen : g + (p :: ps).length = g + 1 + ps.length := by
      simp
      omega
    rw [hlen] at h'
    rcases h with ⟨hnone, h⟩ | ⟨s, v, es₁, hsome, hv, rfl, h⟩
    · exact .inl ⟨hnone, ih h h'⟩
    · exact .inr ⟨s, v, _, hsome, hv, rfl, ih h h'⟩

/-- Parameters with these values are collected before what follows them. -/
theorem collect_append (h : Collects decode m.finish.capture? g ps es)
    (ps' : List (Param × Option Expression)) (params : Params) :
    collect decode m (g + 1) (ps ++ ps') params =
      collect decode m (g + ps.length + 1) ps' (es.foldl (fun p e => p.insert e.1 e.2) params) := by
  induction ps generalizing g es params with
  | nil =>
    obtain rfl : es = [] := h
    rfl
  | cons p ps ih =>
    obtain ⟨p, separator⟩ := p
    have hgroup : m.group? (g + 1) = m.finish.capture? (g + 1) := rfl
    have hlen : g + ((p, separator) :: ps).length + 1 = g + 1 + ps.length + 1 := by
      simp
      omega
    rw [hlen]
    rcases h with ⟨hnone, h⟩ | ⟨s, v, es', hsome, hv, rfl, h⟩
    · simp only [List.cons_append, collect, hgroup, hnone]
      exact ih h params
    · simp only [List.cons_append, collect, hgroup, hsome, hv]
      exact ih h (params.insert p.name v)

/-- Whatever is collected are values of captures. -/
theorem exists_collects {params params' : Params}
    (h : collect decode m (g + 1) ps params = .ok params') :
    ∃ es, Collects decode m.finish.capture? g ps es ∧
      params' = es.foldl (fun p e => p.insert e.1 e.2) params := by
  induction ps generalizing g params with
  | nil =>
    cases h
    exact ⟨[], rfl, rfl⟩
  | cons p ps ih =>
    obtain ⟨p, separator⟩ := p
    have hgroup : m.group? (g + 1) = m.finish.capture? (g + 1) := rfl
    simp only [collect, hgroup] at h
    split at h
    · rename_i hnone
      obtain ⟨es, hes, rfl⟩ := ih h
      exact ⟨es, .inl ⟨hnone, hes⟩, rfl⟩
    · rename_i s hsome
      split at h
      · cases h
      · rename_i v hv
        obtain ⟨es, hes, rfl⟩ := ih h
        exact ⟨(p.name, v) :: es, .inr ⟨s, v, es, hsome, hv, rfl, hes⟩, rfl⟩

/-- Values are collected under the names of the parameters, in their order. -/
theorem Collects.sublist {get : Nat → Option Span} (h : Collects decode get g ps es) :
    (es.map Prod.fst).Sublist (ps.map fun p => p.1.name) := by
  induction ps generalizing g es with
  | nil =>
    obtain rfl : es = [] := h
    exact .slnil
  | cons p ps ih =>
    obtain ⟨p, separator⟩ := p
    rcases h with ⟨-, h⟩ | ⟨s, v, es', -, -, rfl, h⟩
    · exact (ih h).cons _
    · exact (ih h).cons_cons _

theorem Collects.names {get : Nat → Option Span} {keys : List Param}
    {separators : List (Option Expression)} (hlen : keys.length = separators.length)
    (h : Collects decode get g (keys.zip separators) es) :
    (es.map Prod.fst).Sublist (keys.map Param.name) := by
  have hzip : (keys.zip separators).map (fun p => p.1.name) = keys.map Param.name := by
    conv_rhs => rw [← List.map_fst_zip (Nat.le_of_eq hlen), List.map_map]
    rfl
  exact hzip ▸ h.sublist

theorem run_eq (hfind : matcher.expression.expression.find u = .found m)
    (hstart : m.start = .start u) (hfinish : m.finish.pos = .finish u) :
    matcher.run u =
      (collect matcher.decode m 1 (matcher.expression.keys.zip matcher.separators) .empty).map
        fun params => some ⟨u, 0, params⟩ := by
  have hspan : m.span.text = u := Match.text_span hstart hfinish
  have hbytes : m.start.byteOffset = 0 := by
    rw [hstart]
    rfl
  simp only [run, PathExpression.find, hfind, hspan, hbytes]

theorem run_found (hfind : matcher.expression.expression.find u = .found m)
    (hstart : m.start = .start u) (hfinish : m.finish.pos = .finish u)
    (h : Collects matcher.decode m.finish.capture? 0
      (matcher.expression.keys.zip matcher.separators) es) :
    matcher.run u = .ok (some ⟨u, 0, Params.ofList es⟩) := by
  have hcollect := collect_append h [] .empty
  rw [List.append_nil] at hcollect
  rw [run_eq hfind hstart hfinish, hcollect]
  rfl

/-- The values that are found are those of `params`, if all captures have such values and no name is
left out. -/
theorem run_recovers {params : Params} (hfind : matcher.expression.expression.find u = .found m)
    (hstart : m.start = .start u) (hfinish : m.finish.pos = .finish u)
    (h : Collects matcher.decode m.finish.capture? 0
      (matcher.expression.keys.zip matcher.separators) es)
    (hget : ∀ e ∈ es, params.get? e.1 = some e.2)
    (hcover : ∀ n, params.get? n ≠ none → n ∈ es.map Prod.fst) :
    ∃ f, matcher.run u = .ok (some f) ∧ f.path = u ∧ f.index = 0 ∧ f.params.same params = true ∧
      ∀ name, f.get? name = params.get? name := by
  have hfound := Params.get?_ofList_eq hget hcover
  exact ⟨_, run_found hfind hstart hfinish h, rfl, rfl, Params.same_of_get?_eq hfound, hfound⟩

theorem run_value_gaveUp (hfind : matcher.expression.expression.find u = .found m)
    (hstart : m.start = .start u) (hfinish : m.finish.pos = .finish u) {p : Param}
    {e : Option Expression} {ps' : List (Param × Option Expression)}
    (hkeys : matcher.expression.keys.zip matcher.separators = ps ++ (p, e) :: ps')
    (h : Collects matcher.decode m.finish.capture? 0 ps es) {s : Span}
    (hs : m.finish.capture? (ps.length + 1) = some s)
    (hv : value matcher.decode e s.text = .error .gaveUp) : matcher.run u = .error .gaveUp := by
  have hcollect := collect_append h ((p, e) :: ps') .empty
  have hgroup : m.group? (ps.length + 1) = some s := hs
  rw [Nat.zero_add] at hcollect
  rw [run_eq hfind hstart hfinish, hkeys, hcollect]
  simp only [Nat.zero_add, collect, hgroup, hv]
  rfl

theorem run_none (hfind : matcher.expression.expression.find u = .none) :
    matcher.run u = .ok none := by
  simp only [run, PathExpression.find, hfind]

theorem run_gaveUp (hfind : matcher.expression.expression.find u = .gaveUp) :
    matcher.run u = .error .gaveUp := by
  simp only [run, PathExpression.find, hfind]

theorem ofExpression_eq {e : PathExpression} {delimiter : Text} {o : MatchOptions}
    {separators : List (Option Expression)}
    (h : List.Forall₂ (fun p s => separator e.flags ⟨delimiter, o.expression.loose⟩ p = .ok s)
      e.keys separators) : ofExpression e delimiter o = .ok ⟨e, o.decode, separators⟩ := by
  rw [ofExpression, mapM_eq_ok_iff.2 h]
  rfl

/-- The only error that a matcher gives is that its budget is spent. -/
theorem eq_gaveUp_of_collect {params : Params} {i : Nat} {e : ExpressionError}
    (h : collect decode m i ps params = .error e) : e = .gaveUp := by
  induction ps generalizing i params with
  | nil => cases h
  | cons p ps ih =>
    obtain ⟨p, separator⟩ := p
    simp only [collect] at h
    split at h
    · exact ih h
    · split at h
      · rename_i hvalue
        cases h
        unfold value at hvalue
        split at hvalue
        · cases hvalue
        · split at hvalue
          · cases hvalue
          all_goals
            cases hvalue
            rfl
      · exact ih h

theorem run_of_find (hfind : matcher.expression.expression.find u = .found m) :
    matcher.run u = .error .gaveUp ∨ ∃ f, matcher.run u = .ok (some f) ∧ f.path = m.span.text := by
  simp only [run, PathExpression.find, hfind]
  cases hcollect : collect matcher.decode m 1 (matcher.expression.keys.zip matcher.separators)
      .empty with
  | error e =>
    rw [eq_gaveUp_of_collect hcollect]
    exact .inl rfl
  | ok params => exact .inr ⟨_, rfl, rfl⟩

theorem exists_find_of_run {f : Found} (h : matcher.run u = .ok (some f)) :
    ∃ m, matcher.expression.expression.find u = .found m := by
  cases hfind : matcher.expression.expression.find u with
  | gaveUp =>
    rw [run_gaveUp hfind] at h
    cases h
  | none =>
    rw [run_none hfind] at h
    cases h
  | found m => exact ⟨m, rfl⟩

theorem separator_eq {flags : Flags} {ic : Bool} (hflags : flags.sensitive = !ic)
    (l : Expression.Literal) {p : Param} (hr : p.isRepeating = true) :
    ∃ e, separator flags l p = .ok (some e) ∧ e.root.isRegular = true ∧
      e.root.Matches = l.sense ic p.between := by
  obtain ⟨e, hread, hregular, -, hm⟩ := (Expression.denotes_source false ic 62 0 l p.between).read
  exact ⟨e, by simp [separator, hr, Expression.inlineSwitch_eq hflags, hread], hregular, hm⟩

/-- Literal text can always be read, so the values of parameters can always be separated. -/
theorem exists_ofExpression (e : PathExpression) (delimiter : Text) (o : MatchOptions) :
    ∃ separators, ofExpression e delimiter o = .ok ⟨e, o.decode, separators⟩ := by
  have hseparator : ∀ p, ∃ s, separator e.flags ⟨delimiter, o.expression.loose⟩ p = .ok s := by
    intro p
    cases hr : p.isRepeating with
    | false => exact ⟨none, by simp [separator, hr]⟩
    | true =>
      obtain ⟨s, hs, -⟩ := @separator_eq e.flags (!e.flags.sensitive) (by simp)
        ⟨delimiter, o.expression.loose⟩ p hr
      exact ⟨some s, hs⟩
  choose f hf using hseparator
  exact ⟨e.keys.map f,
    ofExpression_eq (List.forall₂_map_right_iff.2 (List.forall₂_same.2 fun p _ => hf p))⟩

theorem exists_separators {e : PathExpression} {delimiter : Text} {o : MatchOptions}
    (h : ofExpression e delimiter o = .ok matcher) :
    ∃ separators, matcher = ⟨e, o.decode, separators⟩ ∧
      List.Forall₂ (fun p s => separator e.flags ⟨delimiter, o.expression.loose⟩ p = .ok s) e.keys
        separators := by
  obtain ⟨separators, hs, rfl⟩ := exists_of_map_eq_ok h
  exact ⟨separators, rfl, mapM_eq_ok_iff.1 hs⟩

theorem separators_none (flags : Flags) (l : Expression.Literal) {ps : List Param}
    (h : ∀ p ∈ ps, p.isRepeating = false) :
    List.Forall₂ (fun p s => separator flags l p = .ok s) ps (ps.map fun _ => none) := by
  rw [List.forall₂_map_right_iff, List.forall₂_same]
  intro p hp
  simp [separator, h p hp]

theorem zip_none {α β : Type} (ps : List α) :
    (ps.zip (ps.map fun _ => (none : Option β))) = ps.map fun p => (p, none) := by
  simpa using List.zip_map' (l := ps) (f := id) (g := fun _ => (none : Option β))

end Matcher

end PathTemplate
