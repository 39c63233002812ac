import Matchmaker.Database.Store

/-!
Where queues and jobs are kept: in memory or in a database.
-/
namespace Matchmaker

inductive Storage (α : Type) where
  | memory (store : Store α)
  | database (tables : Database α)

namespace Storage

variable {α : Type} [Scalar α]

def perform (call : StoreCall α) : Storage α → Except StoreError call.Answer × Storage α
  | memory s =>
    let (answer, s) := s.perform call
    (answer, memory s)
  | database d =>
    let (answer, d) := d.perform call
    (answer, database d)

def tables? : Storage α → Option (Database α)
  | memory _ => none
  | database d => some d

end Storage

end Matchmaker
