import PathTemplate.Unicode.Script

/-!
# Names of scripts

* `Text.mem_of_mem_fields`, `Text.mem_of_mem_words` — fields and words are made of the characters
  of a text;
* `Script.isWritten_names` — the names of scripts are made of letters and digits, and of marks
  that no expression has for its own use.
-/

namespace PathTemplate

theorem Text.mem_of_mem_fields {sep : Char} {t w : Text} (hw : w ∈ Text.fields sep t) {c : Char}
    (hc : c ∈ w) : c ∈ t := by
  induction t generalizing w with
  | nil =>
    obtain rfl : w = [] := by simpa [fields] using hw
    exact hc
  | cons d t ih =>
    unfold fields at hw
    cases hf : fields sep t with
    | nil => exact absurd hf (fields_ne_nil sep t)
    | cons v vs =>
      rw [hf] at ih hw
      dsimp only at hw
      split at hw
      · rcases List.mem_cons.1 hw with rfl | hw
        · cases hc
        · exact List.mem_cons_of_mem _ (ih hw hc)
      · rcases List.mem_cons.1 hw with rfl | hw
        · rcases List.mem_cons.1 hc with rfl | hc
          · exact List.mem_cons_self ..
          · exact List.mem_cons_of_mem _ (ih (List.mem_cons_self ..) hc)
        · exact List.mem_cons_of_mem _ (ih (List.mem_cons_of_mem _ hw) hc)

theorem Text.mem_of_mem_words {t w : Text} (hw : w ∈ Text.words t) {c : Char} (hc : c ∈ w) :
    c = ' ' ∨ c ∈ t := by
  have hmem := mem_of_mem_fields (List.mem_filter.1 hw).1 hc
  obtain ⟨d, hd, rfl⟩ := List.mem_map.1 hmem
  split
  · exact .inl rfl
  · exact .inr hd

namespace Unicode.Script

/-- A character of the table of scripts. -/
def isWritten (c : Char) : Bool := c.isAlphanum || [' ', '\n', ':', ';', '+', '-'].contains c

/-- The names of an entry are part of it. -/
theorem isWritten_ofEntry {entry n : Text} (h : ∀ c ∈ entry, isWritten c = true)
    (hn : n ∈ (ofEntry entry).names) : ∀ c ∈ n, isWritten c = true := by
  have hwords : ∀ {names : Text}, names ∈ Text.fields ':' entry → n ∈ Text.words names →
      ∀ c ∈ n, isWritten c = true := by
    intro names hnames hn c hc
    rcases Text.mem_of_mem_words hn hc with rfl | hmem
    · rfl
    · exact h c (Text.mem_of_mem_fields hnames hmem)
  unfold ofEntry at hn
  dsimp only at hn
  split at hn
  · rename_i names characters hfields
    have hnames : names ∈ Text.fields ':' entry := by simp [hfields]
    split at hn <;> exact hwords hnames hn
  · cases hn

set_option maxRecDepth 100000 in
/-- What can be said of the scripts in a table can be said of all scripts, as the table is one
text. -/
theorem forall_all {p : List Script → Prop}
    (h : ∀ t : Text, t.all isWritten = true → p ((Text.fields ';' t).map ofEntry)) : p all := by
  have hlist : ∀ {s : String} (l : List Char), String.ofList l = s → l.all isWritten = true →
      s.toList.all isWritten = true := by
    rintro _ l rfl hl
    rwa [String.toList_ofList]
  refine h _ ?_
  apply hlist
  · rfl
  · decide +kernel

theorem isWritten_names : ∀ s ∈ all, ∀ n ∈ s.names, ∀ c ∈ n, isWritten c = true := by
  refine forall_all (p := fun ss => ∀ s ∈ ss, ∀ n ∈ s.names, ∀ c ∈ n, isWritten c = true) fun t ht s
      hs n hn => ?_
  obtain ⟨entry, hentry, rfl⟩ := List.mem_map.1 hs
  exact isWritten_ofEntry (fun c hc => List.all_eq_true.1 ht c (Text.mem_of_mem_fields hentry hc))
    hn

end Unicode.Script

end PathTemplate
