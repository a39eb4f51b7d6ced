import PathTemplate.Text.Basic

/-!
# Values of parameters

* `ParamValue` — one text, or a sequence of texts for a parameter that repeats.
* `Params` — values by name, each name once.
* `Found` — a match: the matched text, where it starts in bytes, and the values.
-/

namespace PathTemplate

inductive ParamValue where
  | single (t : Text)
  | multiple (ts : List Text)
  deriving DecidableEq, Repr

namespace ParamValue

def single? : ParamValue → Option Text
  | single t => some t
  | multiple _ => none

def multiple? : ParamValue → Option (List Text)
  | single _ => none
  | multiple ts => some ts

/-- A number as a value: its decimal text. -/
def ofInt (n : Int) : ParamValue :=
  single (if n < 0 then '-' :: Text.ofNat n.natAbs else Text.ofNat n.natAbs)

end ParamValue

/-- Values by name. No name occurs twice. -/
structure Params where
  entries : List (Text × ParamValue) := []
  nodup : (entries.map Prod.fst).Nodup := by simp

namespace Params

def empty : Params := {}

instance : Inhabited Params := ⟨empty⟩

def get? (p : Params) (name : Text) : Option ParamValue := p.entries.lookup name

/-- Gives a name a value, in place of the one it had. -/
def insert (p : Params) (name : Text) (v : ParamValue) : Params where
  entries := p.entries.filter (fun e => e.1 ≠ name) ++ [(name, v)]
  nodup := by
    have h : ((p.entries.filter fun e => e.1 ≠ name).map Prod.fst).Nodup :=
      p.nodup.sublist (List.filter_sublist.map _)
    simp only [List.map_append, List.map_cons, List.map_nil]
    rw [List.nodup_append]
    refine ⟨h, by simp, ?_⟩
    intro a ha b hb
    simp only [List.mem_map, List.mem_filter, decide_eq_true_eq] at ha
    obtain ⟨e, ⟨_, he⟩, rfl⟩ := ha
    simp only [List.mem_singleton] at hb
    exact hb ▸ he

/-- The entries put in one after the other, so that the last one of a name counts. -/
def ofList (entries : List (Text × ParamValue)) : Params :=
  entries.foldl (fun p (name, v) => p.insert name v) empty

/-- The two hold the same values under the same names, in any order. -/
def same (p q : Params) : Bool := p.entries.isPerm q.entries

@[simp] theorem get?_empty (name : Text) : empty.get? name = none := rfl

end Params

/-- A successful match: the matched text, its first byte in the input, and the decoded values. A
parameter that did not take part has none. -/
structure Found where
  path : Text
  index : Nat
  params : Params

def Found.get? (f : Found) (name : Text) : Option ParamValue := f.params.get? name

end PathTemplate
