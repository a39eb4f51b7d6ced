import PathTemplate.Text.Percent

/-!
# Codecs

* `Codec` — a rewriting of texts: of literal text while a template is read, of values while a path
  is built, of captures while a path is matched.
* `Codec.label`, `Codec.display` — the name of a codec and its displayed form.
-/

namespace PathTemplate

/-- A rewriting of texts. The built-in ones are known by name. -/
inductive Codec where
  | identity | uriComponent | percentDecode
  | custom (rewrite : Text → Text)

def Codec.apply : Codec → Text → Text
  | .identity => id
  | .uriComponent => Percent.encode
  | .percentDecode => Percent.decode
  | .custom rewrite => rewrite

/-- The name of a codec; all custom ones share a name. -/
def Codec.label : Codec → String
  | .identity => "identity"
  | .uriComponent => "uri_component"
  | .percentDecode => "percent_decode"
  | .custom _ => "custom"

def Codec.display (c : Codec) : String := "Codec(\"" ++ c.label ++ "\")"

instance : Inhabited Codec := ⟨.identity⟩

@[simp] theorem Codec.apply_identity (t : Text) : Codec.identity.apply t = t := rfl
@[simp] theorem Codec.apply_custom (f : Text → Text) (t : Text) : (Codec.custom f).apply t = f t :=
  rfl

end PathTemplate
