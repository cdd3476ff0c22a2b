import Agents.Run.Engine

/-! # Generating images

The images are reported as they are, and become the first declared output.
-/

namespace Agents.ImageGeneration

/-- The output of an agent that declares none. -/
def defaultOutput : String := "images"

/-- The outputs that hold some images: a single one where an image or a text is declared, otherwise
all. -/
def outputsOf (d : Definition) (images : List String) : Json :=
  let all := Json.arr (images.map Json.str)
  let first := (images.head?.map Json.str).getD .null
  match d.outputs.head? with
  | none => .obj [(defaultOutput, all)]
  | some o => .obj [(o.name, if o.type = .image ∨ o.type = .string then first else all)]

def process (t : TaskContext) (spec : ImageGenerationSpec) (inputs : Json) : Fallible Json := do
  if !t.engine.hasImageModel then throw (.model "no image model collaborator configured")
  let prompt := Template.renderText (t.scope inputs (← t.memory)) spec.prompt
  let images ← ExceptT.mk
    (Activity.query (.images prompt (t.settings spec.model) (max spec.count 1)))
  TaskContext.report (t.emitter.images images)
  t.validated (outputsOf t.definition images)

end Agents.ImageGeneration
