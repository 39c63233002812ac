import Std.Data.ExtTreeSet

/-!
The attributes of a queue that hold a set of values, and tables with one entry for each of them.
-/
namespace Matchmaker

/-- A set of texts; two with the same members are equal. -/
abbrev TextSet := Std.ExtTreeSet String

def TextSet.ofList (texts : List String) : TextSet := Std.ExtTreeSet.ofList texts

inductive Attribute where
  | sites
  | computeElements
  | middlewares
  | bannedSites
  | platforms
  | pilotTypes
  | submitPools
  deriving DecidableEq, Repr

namespace Attribute

def all : List Attribute :=
  [sites, computeElements, middlewares, bannedSites, platforms, pilotTypes, submitPools]

theorem mem_all (a : Attribute) : a ∈ all := by cases a <;> decide

def tag : Attribute → String
  | sites => "sites"
  | computeElements => "computeElements"
  | middlewares => "middlewares"
  | bannedSites => "bannedSites"
  | platforms => "platforms"
  | pilotTypes => "pilotTypes"
  | submitPools => "submitPools"

def ofTag? (tag : String) : Option Attribute := all.find? fun a => a.tag = tag

theorem ofTag?_tag (a : Attribute) : ofTag? a.tag = some a := by cases a <;> decide

structure Table (β : Type) where
  sites : β
  computeElements : β
  middlewares : β
  bannedSites : β
  platforms : β
  pilotTypes : β
  submitPools : β
  deriving DecidableEq, Repr

namespace Table

variable {β γ : Type}

def get (t : Table β) : Attribute → β
  | .sites => t.sites
  | .computeElements => t.computeElements
  | .middlewares => t.middlewares
  | .bannedSites => t.bannedSites
  | .platforms => t.platforms
  | .pilotTypes => t.pilotTypes
  | .submitPools => t.submitPools

def ofFn (f : Attribute → β) : Table β :=
  ⟨f .sites, f .computeElements, f .middlewares, f .bannedSites, f .platforms, f .pilotTypes,
    f .submitPools⟩

@[simp] theorem get_ofFn (f : Attribute → β) (a : Attribute) : (ofFn f).get a = f a := by
  cases a <;> rfl

theorem ext_get {s t : Table β} (h : ∀ a, s.get a = t.get a) : s = t := by
  cases s
  cases t
  have := h .sites
  have := h .computeElements
  have := h .middlewares
  have := h .bannedSites
  have := h .platforms
  have := h .pilotTypes
  have := h .submitPools
  simp_all [get]

/-- Fills a table in the order of the attributes; the first failure is the result. -/
def build {ε : Type} (f : Attribute → Except ε β) : Except ε (Table β) := do
  let sites ← f .sites
  let computeElements ← f .computeElements
  let middlewares ← f .middlewares
  let bannedSites ← f .bannedSites
  let platforms ← f .platforms
  let pilotTypes ← f .pilotTypes
  let submitPools ← f .submitPools
  .ok ⟨sites, computeElements, middlewares, bannedSites, platforms, pilotTypes, submitPools⟩

def set (t : Table β) (a : Attribute) (entry : β) : Table β :=
  ofFn fun b => if b = a then entry else t.get b

def entries (t : Table β) : List (Attribute × β) := all.map fun a => (a, t.get a)

end Table

def Table.present {β : Type} (t : Table (Option β)) : List (Attribute × β) :=
  t.entries.filterMap fun (a, entry) => entry.map (a, ·)

end Attribute

end Matchmaker
