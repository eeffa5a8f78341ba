import CollisionRules.Settings
import CollisionRules.Yaml.Block

namespace CollisionRules.Settings

/-- The text of settings as the program's library writes it. -/
def toYaml (settings : Settings) : String :=
  String.ofList settings.toDocument.render

end CollisionRules.Settings
