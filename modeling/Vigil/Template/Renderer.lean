import Vigil.Notice
import Vigil.Template.Render

/-!
# The standard renderer

One renderer, for templates with outputs, branches and a few filters. The names of a template are the members
of the document that it is rendered with. No theorem about what others are told asks for this renderer.
-/

namespace Vigil

namespace Template

/-- A text or a whole number, as templates have them. -/
def Value.ofJson : Json → Value
  | .string text => .string text
  | .int n => .int ⟨.signed64, n⟩
  | _ => .undefined

def lookup : Json → String → Value
  | .object members, name => ((members.lookup name).map Value.ofJson).getD .undefined
  | _, _ => .undefined

end Template

def Renderer.standard : Renderer where
  reads template := (Template.parse? template).isSome
  render? round template document := Template.render? template ⟨Template.lookup document, round⟩

namespace Template

def validate (source : String) : Except TemplateError Unit := Renderer.standard.validate source

end Template

/-- The message that a template makes of a notice by the standard renderer. -/
def Notice.render (c : Notice) (source : String) : Except TemplateError String :=
  c.message .standard source

end Vigil
