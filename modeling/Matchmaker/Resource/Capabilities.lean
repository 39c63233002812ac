import Matchmaker.Json.Decode
import Matchmaker.Queue.Attribute

/-!
What a resource says about itself when it asks for work. Every field is optional; one that is absent
restricts nothing.
-/
namespace Matchmaker

/-- The attributes for which a resource offers a single value. -/
inductive Facility where
  | site
  | computeElement
  | middleware
  | platform
  | submitPool
  deriving DecidableEq, Repr

namespace Facility

def all : List Facility := [site, computeElement, middleware, platform, submitPool]

theorem mem_all (f : Facility) : f ∈ all := by cases f <;> decide

def name : Facility → String
  | site => "site"
  | computeElement => "computeElement"
  | middleware => "middleware"
  | platform => "platform"
  | submitPool => "submitPool"

/-- The attribute whose set has to hold the offered value. -/
def acceptedIn : Facility → Attribute
  | site => .sites
  | computeElement => .computeElements
  | middleware => .middlewares
  | platform => .platforms
  | submitPool => .submitPools

def ofAttribute? (a : Attribute) : Option Facility := all.find? fun f => f.acceptedIn = a

end Facility

structure Capabilities where
  ownerIdentity : Option String := none
  ownerGroup : Option String := none
  setup : Option String := none
  /-- The CPU time on offer, in seconds. -/
  cpuTime : Option Nat := none
  pilotType : Option String := none
  site : Option String := none
  computeElement : Option String := none
  middleware : Option String := none
  platform : Option String := none
  submitPool : Option String := none
  deriving DecidableEq, Repr

namespace Capabilities

def offer (c : Capabilities) : Facility → Option String
  | .site => c.site
  | .computeElement => c.computeElement
  | .middleware => c.middleware
  | .platform => c.platform
  | .submitPool => c.submitPool

def withOffer (c : Capabilities) (value : String) : Facility → Capabilities
  | .site => { c with site := some value }
  | .computeElement => { c with computeElement := some value }
  | .middleware => { c with middleware := some value }
  | .platform => { c with platform := some value }
  | .submitPool => { c with submitPool := some value }

def fieldNames : List String :=
  ["ownerIdentity", "ownerGroup", "setup", "cpuTime", "pilotType"] ++ Facility.all.map Facility.name

def ofJson? (j : Json) : Option Capabilities := do
  match ← j.fields? fieldNames with
  | [ownerIdentity, ownerGroup, setup, cpuTime, pilotType, site, computeElement, middleware,
      platform, submitPool] =>
    some {
      ownerIdentity := ← Json.optional? Json.asText? ownerIdentity
      ownerGroup := ← Json.optional? Json.asText? ownerGroup
      setup := ← Json.optional? Json.asText? setup
      cpuTime := ← Json.optional? Json.asWord? cpuTime
      pilotType := ← Json.optional? Json.asText? pilotType
      site := ← Json.optional? Json.asText? site
      computeElement := ← Json.optional? Json.asText? computeElement
      middleware := ← Json.optional? Json.asText? middleware
      platform := ← Json.optional? Json.asText? platform
      submitPool := ← Json.optional? Json.asText? submitPool }
  | _ => none

def parse? (s : String) : Option Capabilities := (Json.parse? s).bind ofJson?

def toJson (c : Capabilities) : Json :=
  .record ([("ownerIdentity", .ofOption .text c.ownerIdentity),
    ("ownerGroup", .ofOption .text c.ownerGroup), ("setup", .ofOption .text c.setup),
    ("cpuTime", .ofOption .ofNat c.cpuTime), ("pilotType", .ofOption .text c.pilotType)]
    ++ Facility.all.map fun f => (f.name, .ofOption .text (c.offer f)))

end Capabilities

end Matchmaker
