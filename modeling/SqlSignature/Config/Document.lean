import SqlSignature.Catalog.Document
import SqlSignature.Config
/-!
# SqlSignature.Config.Document

Configurations as JSON documents. What a document does not mention keeps its default.
-/

namespace SqlSignature.Config

def ofJson? (document : Json) : Option Config := do
  let fields := [["defaultParameterType"], ["renameDuplicatedColumns"], ["dataNotNullFromSchema"],
    ["inferMultipleRows"]]
  let standard : Config := {}
  match ← Json.fields? fields document with
  | [type, rename, data, multiple] =>
    return {
      defaultParameterType := ← Json.optional SqlType.ofJson? standard.defaultParameterType type
      renameDuplicates := ← Json.optional Json.asBool? standard.renameDuplicates rename
      dataNotNullFromSchema := ← Json.optional Json.asBool? standard.dataNotNullFromSchema data
      inferMultipleRows := ← Json.optional Json.asBool? standard.inferMultipleRows multiple }
  | _ => none

/-- The configuration that a text holds. -/
def load? (text : String) : Option Config := (Json.parse? text).bind ofJson?

end SqlSignature.Config
