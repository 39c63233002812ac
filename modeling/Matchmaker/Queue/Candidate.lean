import Matchmaker.Json.Value

/-!
A queue as a resource sees it that asks for work.
-/
namespace Matchmaker

structure Candidate (α : Type) where
  queue : Int
  ownerIdentity : String
  ownerGroup : String
  cpuTime : Nat
  priority : α
  deriving Repr

def Candidate.toJson (c : Candidate Float) : Json :=
  .record [("taskQueueId", .ofInt c.queue), ("ownerIdentity", .text c.ownerIdentity),
    ("ownerGroup", .text c.ownerGroup), ("cpuTime", .ofNat c.cpuTime),
    ("priority", .ofFloat c.priority)]

end Matchmaker
