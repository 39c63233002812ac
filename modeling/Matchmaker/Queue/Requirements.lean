import Matchmaker.Json.Decode
import Matchmaker.Queue.Definition
import Matchmaker.Queue.Segments
import Matchmaker.Text.Blank

/-!
What a job asks for, as submitted, and the definition of the queue it belongs to: texts and values
are trimmed, the CPU time goes to its segment.
-/
namespace Matchmaker

structure Requirements where
  ownerIdentity : Option String
  ownerGroup : Option String
  setup : Option String
  cpuTime : Option Nat
  lists : Attribute.Table (Option (List String))
  deriving DecidableEq, Repr

namespace Requirements

def fieldNames : List String :=
  ["ownerIdentity", "ownerGroup", "setup", "cpuTime"] ++ Attribute.all.map Attribute.tag

def ofJson? (j : Json) : Option Requirements := do
  match ← j.fields? fieldNames with
  | [ownerIdentity, ownerGroup, setup, cpuTime, sites, computeElements, middlewares, bannedSites,
      platforms, pilotTypes, submitPools] =>
    some {
      ownerIdentity := ← Json.optional? Json.asText? ownerIdentity
      ownerGroup := ← Json.optional? Json.asText? ownerGroup
      setup := ← Json.optional? Json.asText? setup
      cpuTime := ← Json.optional? Json.asWord? cpuTime
      lists := {
        sites := ← Json.optional? Json.asTexts? sites
        computeElements := ← Json.optional? Json.asTexts? computeElements
        middlewares := ← Json.optional? Json.asTexts? middlewares
        bannedSites := ← Json.optional? Json.asTexts? bannedSites
        platforms := ← Json.optional? Json.asTexts? platforms
        pilotTypes := ← Json.optional? Json.asTexts? pilotTypes
        submitPools := ← Json.optional? Json.asTexts? submitPools } }
  | _ => none

def parse? (s : String) : Option Requirements := (Json.parse? s).bind ofJson?

def toJson (r : Requirements) : Json :=
  .record ([("ownerIdentity", .ofOption .text r.ownerIdentity),
    ("ownerGroup", .ofOption .text r.ownerGroup), ("setup", .ofOption .text r.setup),
    ("cpuTime", .ofOption .ofNat r.cpuTime)]
    ++ r.lists.entries.map fun (a, list) => (a.tag, .ofOption (.ofList .text) list))

def requiredText (field : String) : Option String → Except ValidationError String
  | none => .error (.missingField field)
  | some given =>
    match Text.content? given with
    | some content => .ok content
    | none => .error (.emptyField field)

/-- The trimmed values, none of which may be blank. -/
def cleanValues (tag : String) (given : List String) : Except ValidationError (List String) :=
  given.mapM fun value =>
    match Text.content? value with
    | some content => .ok content
    | none => .error (.invalidValue tag "list values must not be blank")

def valueSet (a : Attribute) : Option (List String) → Except ValidationError (Option TextSet)
  | none => .ok none
  | some [] => .error (.emptyList a.tag)
  | some given => (cleanValues a.tag given).map fun values => some (TextSet.ofList values)

/-- The definition of the queue for a job with these requirements, or the first field at fault. -/
def toDefinition (r : Requirements) (segments : Segments) : Except ValidationError Definition := do
  let ownerIdentity ← requiredText "ownerIdentity" r.ownerIdentity
  let ownerGroup ← requiredText "ownerGroup" r.ownerGroup
  let setup ← requiredText "setup" r.setup
  let cpuTime ← match r.cpuTime with
    | some time => .ok time
    | none => .error (.missingField "cpuTime")
  let values ← Attribute.Table.build fun a => valueSet a (r.lists.get a)
  .ok ⟨ownerIdentity, ownerGroup, setup, segments.bucket cpuTime, values⟩

end Requirements

end Matchmaker
