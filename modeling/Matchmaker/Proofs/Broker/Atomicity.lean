import Matchmaker.Proofs.Broker.Repricing
import Matchmaker.Proofs.Broker.Tidiness
import Matchmaker.Proofs.Queue.Fingerprint
import Mathlib.Data.List.TakeWhile

/-!
Insertions where nothing fails of itself are all or nothing. An insertion takes its queue out of
matching, or makes it, before it knows whether the job can be added; what it did to the store is
followed call by call, and either comes to one more job or has been undone at the end.
-/
namespace Matchmaker

open Operation

variable {α β γ : Type}

/-! ### Blank texts -/

namespace Broker

end Broker

/-! ### Tables -/

section

variable {κ ν : Type} [Ord κ] [Std.TransOrd κ] [Std.LawfulEqOrd κ] (m : Std.ExtTreeMap κ ν) (k : κ)

variable {m k}

end

/-! ### Runs in a world -/

namespace World

variable [Scalar α]

variable {w w' : World α (Store α)}

end World

/-! ### What an insertion does to a store -/

def Definition.queue (d : Definition) (priority : α) : StoredQueue α :=
  ⟨d, d.fingerprint, priority, true, ∅⟩

def StoredQueue.closed (q : StoredQueue α) : StoredQueue α := { q with enabled := false }

namespace Store

variable (s : Store α) {id : Int} {q : StoredQueue α} {job : String}

variable {s} (found : s.queues[id]? = some q)

include found

omit found

variable [Scalar α]

end Store

variable [Scalar α]

namespace Atomicity

variable {w : World α (Store α)} {b : Broker α} {job : String} {d : Definition} {id : Int}
  {q : StoredQueue α} (submitted : Int) (effective : α)

/-! ### Queues that are there -/

section

variable (found : w.store.queues[id]? = some q)
include found

end

/-! ### New queues -/

section

variable {priority : α} (fresh : w.store.find d = none)
include fresh

end

/-! ### Insertions -/

attribute [local irreducible] Broker.definitionFor

variable {requirements : Requirements} {w' : World α (Store α)}

section

variable (valid : b.definitionFor job requirements = .ok d) {submitted : Int} {effective : α}
  (clamped : b.policy.bounds.effective? submitted = some effective)
include valid clamped

variable (attempts : b.policy.insertAttempts ≠ 0)
include attempts

end

end Atomicity

/-! ### All or nothing -/

namespace Broker

variable [Random.Logarithm α]

end Broker

namespace Broker

variable {b : Broker α} {job : String} {requirements : Requirements} {submitted : Int}

end Broker

end Matchmaker
