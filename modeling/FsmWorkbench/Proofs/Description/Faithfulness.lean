import FsmWorkbench.Proofs.Description.Contents
import FsmWorkbench.Proofs.Json.Squeezing
import FsmWorkbench.Proofs.Validation.Reporting
import FsmWorkbench.Services.Service

set_option autoImplicit false

namespace FsmWorkbench

namespace Model

variable {first second : Model}

theorem describe_eq_iff {info : LanguageInfo} :
    first.describe info = second.describe info ↔ first.outline = second.outline := by
  constructor
  · intro same
    have read := congrArg Description.read? same
    rw [read?_describe, read?_describe] at read
    rw [← first.outline_description info, Option.some.inj read, outline_description]
  · intro same
    -- With all spans dropped, a model is no more than its outline.
    have bare (model : Model) : model.moved (fun _ => ⟨0, 0⟩) =
        ⟨model.outline.machine.map fun name => ⟨⟨name, ⟨0, 0⟩⟩, ⟨0, 0⟩⟩,
          model.outline.states.map fun state => ⟨⟨state.1, ⟨0, 0⟩⟩, state.2, ⟨0, 0⟩⟩,
          model.outline.transitions.map fun transition =>
            ⟨⟨transition.name, ⟨0, 0⟩⟩, ⟨transition.source, ⟨0, 0⟩⟩, ⟨transition.target, ⟨0, 0⟩⟩,
              transition.guard, ⟨0, 0⟩⟩⟩ := by
      simp only [moved, outline, Option.map_map, List.map_map]
      rfl
    rw [← first.describe_moved, bare, same, ← bare, second.describe_moved]

end Model

theorem generate_faithful (info : LanguageInfo) :
    (∀ (pretty : Bool) (first second : Model),
      (Generator.json info).generate first pretty = (Generator.json info).generate second pretty ↔
        first.outline = second.outline) ∧
      ∀ model, Json.squeezed ((Generator.json info).generate model true) =
        (Generator.json info).generate model false := by
  refine ⟨fun pretty first second => ?_, fun model => ?_⟩
  · rw [← Model.describe_eq_iff]
    exact ⟨Json.render_injective, congrArg (Json.render pretty)⟩
  · exact Json.squeezed_render true (model.describe info)

end FsmWorkbench
