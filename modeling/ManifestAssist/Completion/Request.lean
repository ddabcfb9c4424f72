import ManifestAssist.Completion.Cursor
import ManifestAssist.Completion.Settings
import ManifestAssist.Completion.Suggestion
import ManifestAssist.Manifest.Tree

/-! # Requests for completion

What a vocabulary is asked with, and the entity types that more than one of them offers.
-/

namespace ManifestAssist

/-- A cursor with the manifest and the context that suggestions are drawn from. -/
structure Request where
  cursor : Cursor
  manifest : Manifest
  context : Context

/-- The entity types that exist without a declaration. -/
def builtinTypes : List String :=
  ["dt.entity.host", "dt.entity.process_group", "dt.entity.process_group_instance",
    "dt.entity.service", "dt.entity.application", "dt.entity.custom_device",
    "dt.entity.custom_device_group", "dt.entity.kubernetes_cluster", "dt.entity.cloud_application",
    "dt.entity.cloud_application_namespace"]

/-- The declared entity types and then the other built-in ones. Accepting one puts `closing` behind
it. -/
def Request.entityTypes (request : Request) (closing : String) : List Suggestion :=
  let suggest (detail : String) (label : String) : Suggestion :=
    { label, kind := .entityType, insertText := label ++ closing, detail := some detail }
  let declared := request.manifest.entityTypes
  let builtin := if request.context.settings.hasBuiltinTypes then builtinTypes else []
  declared.map (suggest "topology type") ++
    (builtin.filter (!declared.contains ·)).map (suggest "built-in type")

end ManifestAssist
