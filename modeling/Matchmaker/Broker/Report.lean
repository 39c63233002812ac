import Matchmaker.Broker.Bulk
import Matchmaker.Broker.Match
import Matchmaker.Json.Printer

/-!
Results of operations as documents.
-/
namespace Matchmaker

def MatchedJob.toJson (m : MatchedJob) : Json :=
  .record [("outcome", .text "matched"), ("job_id", .text m.job), ("task_queue_id", .ofInt m.queue),
    ("owner_identity", .text m.ownerIdentity), ("owner_group", .text m.ownerGroup)]

def matchJson : Option MatchedJob → Json
  | some found => found.toJson
  | none => .record [("outcome", .text "no_match")]

def DeleteReport.toJson (r : DeleteReport) : Json :=
  .record [("removed", .ofNat r.removed), ("missing", .ofList .text r.missing),
    ("deleted_queues", .ofList .ofInt r.deletedQueues)]

def PriorityReport.toJson (r : PriorityReport) : Json :=
  .record [("updated", .ofNat r.updated), ("unknown", .ofList .text r.unknown)]

end Matchmaker
