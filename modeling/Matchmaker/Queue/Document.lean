import Matchmaker.Json.Decode
import Matchmaker.Json.Printer
import Matchmaker.Queue.Definition

/-!
Definitions as documents.
-/
namespace Matchmaker.Definition

def valuesJson (values : Attribute.Table (Option TextSet)) : Json :=
  .record (values.present.map fun (a, set) => (a.tag, .ofList .text set.toList))

def toJson (d : Definition) : Json :=
  .record [("ownerIdentity", .text d.ownerIdentity), ("ownerGroup", .text d.ownerGroup),
    ("setup", .text d.setup), ("cpuTime", .ofNat d.cpuTime), ("multiValues", valuesJson d.values)]

def setOfJson? (j : Json) : Option TextSet := j.asTexts?.map TextSet.ofList

/-- Declares sets one after another, so that the last one of an attribute stays. -/
def declare? (values : Attribute.Table (Option TextSet)) :
    List (String × Json) → Option (Attribute.Table (Option TextSet))
  | [] => some values
  | (tag, value) :: rest => do
    let a ← Attribute.ofTag? tag
    let set ← setOfJson? value
    declare? (values.set a (some set)) rest

def valuesOfJson? (j : Json) : Option (Attribute.Table (Option TextSet)) :=
  j.asMembers?.bind (declare? (.ofFn fun _ => none))

def ofJson? (j : Json) : Option Definition := do
  match ← j.fields? ["ownerIdentity", "ownerGroup", "setup", "cpuTime", "multiValues"] with
  | [ownerIdentity, ownerGroup, setup, cpuTime, values] =>
    some {
      ownerIdentity := ← Json.required? Json.asText? ownerIdentity
      ownerGroup := ← Json.required? Json.asText? ownerGroup
      setup := ← Json.required? Json.asText? setup
      cpuTime := ← Json.required? Json.asWord? cpuTime
      values := ← Json.required? valuesOfJson? values }
  | _ => none

def text (d : Definition) : String := Json.compactText d.toJson

def parse? (s : String) : Option Definition := (Json.parse? s).bind ofJson?

end Matchmaker.Definition
