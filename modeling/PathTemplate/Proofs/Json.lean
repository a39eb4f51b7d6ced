import PathTemplate.Json
import PathTemplate.Proofs.Matcher

/-!
# Written forms are read back

* `Params.entries_ofList` — values under different names, put in one after the other, stay in
  their order;
* `Template.ofJson?_toJson`, `ParamValue.ofJson?_toJson`, `Found.ofJson?_toJson` — templates,
  values and matches are read as they were written;
* `Params.IsWritten` — the members of values are in no particular order; `Params.exists_ofJson?` —
  nor need they be;
* `ParseOptions.ofJson?_toJson` and its like — of options, all but the codecs is read as it was
  written;
* `Json.reads_written` — all of them together.
-/

namespace PathTemplate

open Json

/-- What is written for the members of a list is read one by one. -/
theorem mapM_map_eq_some {α β : Type} {w : α → β} {r : β → Option α} (h : ∀ a, r (w a) = some a)
    (l : List α) : (l.map w).mapM r = some l := by
  have hread : r ∘ w = fun a => pure a := funext h
  rw [List.mapM_map, hread, List.mapM_pure, List.map_id']
  rfl

/-! ### templates -/

theorem Modifier.ofJson?_toJson (m : Modifier) : Modifier.ofJson? m.toJson = some m :=
  Modifier.ofChar?_eq_some_iff.2 rfl

theorem Param.ofJson?_toJson (p : Param) : Param.ofJson? p.toJson = some p := by
  obtain ⟨name, before, after, pattern, modifier, separator⟩ := p
  -- what a parameter does not have is written as `null`
  cases modifier with
  | none => cases pattern <;> cases separator <;> rfl
  | some m => cases m <;> cases pattern <;> cases separator <;> rfl

theorem Part.ofJson?_toJson (part : Part) : Part.ofJson? part.toJson = some part := by
  cases part with
  | text t => rfl
  | param p =>
    have hread : Part.ofJson? (Part.param p).toJson = (Param.ofJson? p.toJson).map .param := rfl
    rw [hread, Param.ofJson?_toJson]
    rfl

theorem Template.ofJson?_toJson (t : Template) : Template.ofJson? t.toJson = some t := by
  have hread : Template.ofJson? t.toJson =
      ((t.parts.map Part.toJson).mapM Part.ofJson?).bind fun parts => some ⟨parts, t.delimiter⟩ :=
    rfl
  rw [hread, mapM_map_eq_some Part.ofJson?_toJson]
  rfl

/-! ### values -/

theorem ParamValue.ofJson?_toJson (v : ParamValue) : ParamValue.ofJson? v.toJson = some v := by
  cases v with
  | single t => rfl
  | multiple ts =>
    have hread : ParamValue.ofJson? (multiple ts).toJson = ((ts.map str).mapM text?).map multiple :=
      rfl
    have htext : ∀ t, text? (str t) = some t := fun _ => rfl
    rw [hread, mapM_map_eq_some htext]
    rfl

namespace Params

theorem ext {p q : Params} (h : p.entries = q.entries) : p = q := by
  cases p
  cases q
  simpa using h

/-- Values under different names stay in the order in which they are put in. -/
theorem entries_ofList {es : List (Text × ParamValue)} (h : (es.map Prod.fst).Nodup) :
    (ofList es).entries = es := by
  have hfold : ∀ (es : List (Text × ParamValue)) (p : Params), ((p.entries ++ es).map
        Prod.fst).Nodup → (es.foldl (fun p e => p.insert e.1 e.2) p).entries = p.entries ++ es := by
    intro es
    induction es with
    | nil => simp
    | cons e es ih =>
      intro p hp
      have hnew : p.entries.filter (fun x => x.1 ≠ e.1) = p.entries := by
        rw [List.filter_eq_self]
        intro x hx
        rw [List.map_append, List.map_cons, List.nodup_append] at hp
        simpa using hp.2.2 x.1 (List.mem_map_of_mem hx) e.1 (by simp)
      have hinsert : (p.insert e.1 e.2).entries = p.entries ++ [e] := congrArg (· ++ [e]) hnew
      rw [List.foldl_cons, ih _ (by simpa [hinsert] using hp), hinsert, List.append_assoc,
        List.singleton_append]
  exact hfold es empty h

/-- The values are written as the members of an object, in some order. -/
def IsWritten (p : Params) (j : Json) : Prop :=
  ∃ es : List (Text × ParamValue), es.Perm p.entries ∧ j = obj (es.map fun e => (e.1, e.2.toJson))

/-- Members that are written for values are read as these, one after the other. -/
theorem ofJson?_members (es : List (Text × ParamValue)) :
    Params.ofJson? (obj (es.map fun e => (e.1, e.2.toJson))) = some (ofList es) := by
  have hmember :
      ∀ e : Text × ParamValue, (ParamValue.ofJson? e.2.toJson).map (e.1, ·) = some e := by
    intro e
    rw [ParamValue.ofJson?_toJson]
    rfl
  have hmembers := mapM_map_eq_some (w := fun e : Text × ParamValue => (e.1, e.2.toJson))
    (r := fun m => (ParamValue.ofJson? m.2).map (m.1, ·)) hmember es
  rw [ofJson?, hmembers]
  rfl

theorem ofJson?_toJson (p : Params) : Params.ofJson? p.toJson = some p := by
  have hread : Params.ofJson? p.toJson = some (ofList p.entries) := ofJson?_members p.entries
  rw [hread, ext (entries_ofList p.nodup)]

/-- In whatever order the values are written, the same ones are read. -/
theorem exists_ofJson? {p : Params} {j : Json} (h : p.IsWritten j) :
    ∃ q, Params.ofJson? j = some q ∧ q.same p = true := by
  obtain ⟨es, hes, rfl⟩ := h
  have hnodup : (es.map Prod.fst).Nodup := (hes.map Prod.fst).nodup_iff.2 p.nodup
  refine ⟨ofList es, ofJson?_members es, ?_⟩
  rw [same, entries_ofList hnodup, List.isPerm_iff]
  exact hes

end Params

/-! ### matches -/

theorem Found.index?_int {n : Nat} (h : n ≤ Found.maxIndex) : Found.index? (int n) = some n := by
  simp [index?, h]

theorem Found.ofJson?_obj {f : Found} (hf : f.index ≤ Found.maxIndex) (j : Json) :
    Found.ofJson? (obj [(Field.path, str f.path), (Field.index, int f.index), (Field.params, j)]) =
      (Params.ofJson? j).map fun params => { f with params } := by
  have hread : Found.ofJson? (obj [(Field.path, str f.path), (Field.index, int f.index),
    (Field.params, j)]) =
      (Found.index? (int f.index)).bind fun index =>
        (Params.ofJson? j).bind fun params => some ⟨f.path, index, params⟩ := rfl
  rw [hread, index?_int hf, Option.bind_some, Option.map_eq_bind]
  rfl

theorem Found.ofJson?_toJson {f : Found} (hf : f.index ≤ Found.maxIndex) :
    Found.ofJson? f.toJson = some f := by
  rw [toJson, ofJson?_obj hf, Params.ofJson?_toJson]
  rfl

/-! ### options -/

theorem ParseOptions.ofJson?_toJson (o : ParseOptions) :
    ParseOptions.ofJson? o.toJson = some { o with encodePath := ({} : ParseOptions).encodePath } :=
  rfl

theorem ExpressionOptions.ofJson?_toJson (o : ExpressionOptions) :
    ExpressionOptions.ofJson? o.toJson =
      some { o with parse := { o.parse with encodePath := ({} : ParseOptions).encodePath } } :=
  rfl

theorem MatchOptions.ofJson?_toJson (o : MatchOptions) : MatchOptions.ofJson? o.toJson =
    some {
      expression :=
        { o.expression with
          parse := { o.expression.parse with encodePath := ({} : ParseOptions).encodePath } }
      decode := ({} : MatchOptions).decode } := rfl

theorem BuildOptions.ofJson?_toJson (o : BuildOptions) : BuildOptions.ofJson? o.toJson =
    some { o with
      parse := { o.parse with encodePath := ({} : ParseOptions).encodePath }
      encode := ({} : BuildOptions).encode } := rfl

/-! ### all of them -/

/-- What was written is read as it was. The offset of a match is one that can be read, and its
values may be written in any order. Options lose their codecs and get those that are there unless
others are set. -/
theorem Json.reads_written (t : Template) (v : ParamValue) {f : Found}
    (hf : f.index ≤ Found.maxIndex) {j : Json} (hj : f.params.IsWritten j) (po : ParseOptions)
    (eo : ExpressionOptions) (mo : MatchOptions) (bo : BuildOptions) :
    Template.ofJson? t.toJson = some t ∧ ParamValue.ofJson? v.toJson = some v ∧
    Found.ofJson? f.toJson = some f ∧
    (∃ params, Found.ofJson?
          (obj [(Field.path, str f.path), (Field.index, int f.index), (Field.params, j)]) =
        some { f with params } ∧ params.same f.params = true) ∧
    ParseOptions.ofJson? po.toJson = some { po with encodePath := ({} : ParseOptions).encodePath } ∧
    ExpressionOptions.ofJson? eo.toJson =
      some { eo with parse := { eo.parse with encodePath := ({} : ParseOptions).encodePath } } ∧
    MatchOptions.ofJson? mo.toJson =
      some {
        expression :=
          { mo.expression with
            parse := { mo.expression.parse with encodePath := ({} : ParseOptions).encodePath } }
        decode := ({} : MatchOptions).decode } ∧
    BuildOptions.ofJson? bo.toJson =
      some { bo with
        parse := { bo.parse with encodePath := ({} : ParseOptions).encodePath }
        encode := ({} : BuildOptions).encode } := by
  refine ⟨t.ofJson?_toJson, v.ofJson?_toJson, Found.ofJson?_toJson hf, ?_, po.ofJson?_toJson,
    eo.ofJson?_toJson, mo.ofJson?_toJson, bo.ofJson?_toJson⟩
  obtain ⟨params, hparams, hsame⟩ := Params.exists_ofJson? hj
  exact ⟨params, by rw [Found.ofJson?_obj hf, hparams]; rfl, hsame⟩

/-- Two values that are written in the other order, and options with other codecs. -/
theorem Json.reads_written_found :
    let f : Found := ⟨"/é/a/b".toList, 2,
    .ofList [(['x'], .single ['é']), ("rest".toList, .multiple [['a'], ['b']])]⟩
    let j : Json := obj [("rest".toList, arr [str ['a'], str ['b']]), (['x'], str ['é'])]
    let t : Template :=
      ⟨[.text ['/'],
        .param { name := ['x'], modifier := some .zeroOrMore, separator := some ['-'] }], ['.']⟩
    let bo : BuildOptions :=
      { parse := { delimiter := ['.'], encodePath := .uriComponent }
        validate := false
        encode := none }
    f.index ≤ Found.maxIndex ∧ f.params.IsWritten j ∧ Template.ofJson? t.toJson = some t ∧
      Found.ofJson? f.toJson = some f ∧
      (∃ params, Found.ofJson?
          (obj [(Field.path, str f.path), (Field.index, int f.index), (Field.params, j)]) =
        some { f with params } ∧ params.same f.params = true) ∧
      BuildOptions.ofJson? bo.toJson =
        some { bo with parse := { delimiter := ['.'] }, encode := some .uriComponent } := by
  intro f j t bo
  have hf : f.index ≤ Found.maxIndex := by decide
  have hj : f.params.IsWritten j :=
    ⟨[("rest".toList, .multiple [['a'], ['b']]), (['x'], .single ['é'])], List.Perm.swap _ _ _, rfl⟩
  obtain ⟨ht, -, hfound, hperm, -, -, -, hbo⟩ := Json.reads_written t (.single []) hf hj {} {} {} bo
  exact ⟨hf, hj, ht, hfound, hperm, hbo⟩

end PathTemplate
