import Matchmaker.Error
import Matchmaker.Queue.Definition
import Matchmaker.Resource.Capabilities
import Matchmaker.Text.Blank

/-!
The condition that a resource sets on the queues it takes jobs from.
-/
namespace Matchmaker

structure Owner where
  identity : String
  group : String
  deriving DecidableEq, Repr

structure Filter where
  setup : Option String
  cpuTime : Option Nat
  /-- The only owner whose queues are admitted, for a private pilot. -/
  owner : Option Owner
  offered : List (Facility × String)
  deriving DecidableEq, Repr

namespace Filter

def site (f : Filter) : Option String := f.offered.lookup .site

/-- Whether a resource with this filter may run the jobs of a queue. -/
def admits (f : Filter) (d : Definition) : Bool :=
  f.setup.all (d.setup = ·)
    && f.cpuTime.all (d.cpuTime ≤ ·)
    && f.owner.all (fun owner => d.ownerIdentity = owner.identity && d.ownerGroup = owner.group)
    && f.offered.all (fun (facility, value) =>
      (d.values.get facility.acceptedIn).all (·.contains value))
    && f.site.all fun site => (d.values.get .bannedSites).all fun banned => !banned.contains site

end Filter

namespace Capabilities

def optionalText (field : String) : Option String → Except ValidationError (Option String)
  | none => .ok none
  | some given =>
    match Text.content? given with
    | some content => .ok (some content)
    | none => .error (.emptyField field)

/-- A private pilot only runs the jobs of its own identity and group. -/
def restriction (privateTypes : TextSet) (pilotType identity group : Option String) :
    Except ValidationError (Option Owner) :=
  match pilotType with
  | none => .ok none
  | some pilot =>
    if privateTypes.contains pilot then
      match identity, group with
      | some identity, some group => .ok (some ⟨identity, group⟩)
      | _, _ => .error (.privatePilotWithoutOwner pilot)
    else .ok none

def offers (c : Capabilities) : List Facility → Except ValidationError (List (Facility × String))
  | [] => .ok []
  | facility :: rest => do
    let value ← optionalText facility.name (c.offer facility)
    let others ← offers c rest
    .ok ((value.map (facility, ·)).toList ++ others)

def toFilter (c : Capabilities) (privateTypes : TextSet) : Except ValidationError Filter := do
  let setup ← optionalText "setup" c.setup
  let pilotType ← optionalText "pilotType" c.pilotType
  let identity ← optionalText "ownerIdentity" c.ownerIdentity
  let group ← optionalText "ownerGroup" c.ownerGroup
  let owner ← restriction privateTypes pilotType identity group
  let offered ← c.offers Facility.all
  .ok ⟨setup, c.cpuTime, owner, offered⟩

end Capabilities

end Matchmaker
