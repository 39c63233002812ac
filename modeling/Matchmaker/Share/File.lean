import Matchmaker.Share.Table
import Matchmaker.Yaml.Decode

/-!
Share tables as documents: a default share, and the settings of each group that is listed.
-/
namespace Matchmaker

namespace ShareEntry

def ofNode? (d : Yaml.Document) (node : Yaml.Node) : Option (ShareEntry Float) := do
  let record ← d.asRecord? node
  let share ← Yaml.field? record "share" (d.asOptional? d.asFloat?)
  let pooled ← Yaml.field? record "pooled" d.asBool?
  let allowsBackground ← Yaml.field? record "allow_background" d.asBool?
  some ⟨share.join, pooled.getD false, allowsBackground.getD false⟩

end ShareEntry

namespace ShareTable

def ofDocument? (d : Yaml.Document) : Option (ShareTable Float) := do
  let record ← d.rootRecord?
  let share ← Yaml.field? record "default_share" d.asFloat?
  let groups ← Yaml.field? record "groups" (d.asMap? d.asText? (ShareEntry.ofNode? d))
  some ⟨share.getD 1, .ofList (groups.getD [])⟩

/-- The table of a file with this text, or of one that cannot be read. -/
def read : Option String → Except CollaboratorError (ShareTable Float)
  | none => .error .unreadable
  | some text =>
    match (Yaml.Document.ofText? text).bind ofDocument? with
    | none => .error .malformed
    | some table => table.checked

end ShareTable

end Matchmaker
