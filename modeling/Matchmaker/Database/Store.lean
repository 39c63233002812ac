import Matchmaker.Database.Tables
import Matchmaker.Store.Call

/-!
The operations of a store as statements on tables. What changes rows in more than one statement is a
transaction: it happens as a whole or not at all.
-/
namespace Matchmaker.Database

variable {α : Type} (d : Database α)

def maxInteger : Nat := Nat.pow 2 63 - 1

def columnValue (name : String) (n : Nat) : Except StoreError Nat :=
  if n ≤ maxInteger then .ok n
  else .error (.corrupt (name ++ " out of range: " ++ Decimal.natText n))

def find (definition : Definition) : Except StoreError (Option Int) := do
  let queues ← rows d.queues
  .ok ((queues.toList.find? fun (_, q) => q.fingerprint = definition.fingerprint).map Prod.fst)

def valueRows (id : Int) (definition : Definition) : List ValueRow :=
  definition.values.present.flatMap fun (a, set) =>
    if set.isEmpty then [⟨id, a.tag, none⟩] else set.toList.map fun value => ⟨id, a.tag, some value⟩

def queueRow (definition : Definition) (priority : α) (enabled : Bool) : QueueRow α :=
  ⟨definition.fingerprint, definition.ownerIdentity, definition.ownerGroup, definition.setup,
    definition.cpuTime, priority, enabled⟩

def insertValues (added : List ValueRow) : Except StoreError (Option (Table (List ValueRow))) :=
  if added.isEmpty then .ok d.values
  else do
    let values ← rows d.values
    if added.any fun row => row.value.any d.refusedValues.contains then
      .error (.queryFailed failure)
    else .ok (some (.own (values ++ added)))

/-- Inserts a queue with its sets. A number is taken even if that fails. -/
def create (definition : Definition) (priority : α) (enabled : Bool) :
    Except StoreError Int × Database α :=
  match columnValue "cpu_time" definition.cpuTime, rows d.queues with
  | .error e, _ => (.error e, d)
  | _, .error e => (.error e, d)
  | .ok _, .ok queues =>
    let id := d.lastId + 1
    let taken := { d with lastId := id }
    if queues.toList.any fun (_, q) => q.fingerprint = definition.fingerprint then
      (.error .duplicateDefinition, taken)
    else match d.insertValues (valueRows id definition) with
      | .error e => (.error e, taken)
      | .ok values =>
        (.ok id, { taken with
          queues := some (.own (queues.insert id (queueRow definition priority enabled)))
          values := values })

def setEnabled (id : Int) (expected new : Bool) : Except StoreError (Bool × Database α) := do
  let queues ← rows d.queues
  match queues[id]? with
  | none => .ok (false, d)
  | some q =>
    if q.enabled = expected then
      .ok (true, { d with queues := some (.own (queues.insert id { q with enabled := new })) })
    else .ok (false, d)

def addJob (id : Int) (job : String) (submitted : Int) (effective : α) :
    Except StoreError (Unit × Database α) := do
  let jobs ← rows d.jobs
  let queues ← rows d.queues
  if jobs.contains job then .error (.duplicateJob job)
  else if queues.contains id then
    .ok ((), { d with jobs := some (.own (jobs.insert job ⟨id, submitted, effective⟩)) })
  else .error (.unknownQueue id)

def removeJob (job : String) : Except StoreError (Option Int × Database α) := do
  let jobs ← rows d.jobs
  match jobs[job]? with
  | none => .ok (none, d)
  | some found => .ok (some found.queue, { d with jobs := some (.own (jobs.erase job)) })

def jobsOf (jobs : Std.ExtTreeMap String (Job α)) (id : Int) : List (String × Job α) :=
  jobs.toList.filter fun (_, job) => job.queue = id

def countJobs (id : Int) : Except StoreError Nat := do
  let jobs ← rows d.jobs
  .ok (jobsOf jobs id).length

def deleteIfEmpty (id : Int) : Except StoreError (Bool × Database α) := do
  let queues ← rows d.queues
  let jobs ← rows d.jobs
  match queues[id]? with
  | none => .ok (false, d)
  | some q =>
    if q.enabled && (jobsOf jobs id).isEmpty then
      .ok (true, { d with
        queues := some (.own (queues.erase id))
        values := d.values.map fun
          | .own values => .own (values.filter (·.queue ≠ id))
          | .foreign => .foreign })
    else .ok (false, d)

/-- Whether a queue accepts a value: it has no set of this field, or the value is in it. -/
def accepts (values : List ValueRow) (id : Int) (field value : String) : Bool :=
  let declared := values.filter fun row => row.queue = id && row.field = field
  declared.isEmpty || declared.any (·.value = some value)

def bans (values : List ValueRow) (id : Int) (site : String) : Bool :=
  values.contains ⟨id, Attribute.bannedSites.tag, some site⟩

def admitsRow (f : Filter) (q : QueueRow α) : Bool :=
  f.setup.all (q.setup = ·) && f.cpuTime.all (q.cpuTime ≤ ·)
    && f.owner.all fun owner => q.ownerIdentity = owner.identity && q.ownerGroup = owner.group

def admitsValues (f : Filter) (values : List ValueRow) (id : Int) : Bool :=
  f.offered.all (fun (facility, value) => accepts values id facility.acceptedIn.tag value)
    && f.site.all fun site => !bans values id site

def matching (f : Filter) : Except StoreError (List (Candidate α)) := do
  let _ ← f.cpuTime.mapM (columnValue "cpu_time")
  let queues ← rows d.queues
  let values ← if f.offered.isEmpty then .ok [] else rows d.values
  .ok (queues.toList.filterMap fun (id, q) =>
    if q.enabled && admitsRow f q && admitsValues f values id then
      some ⟨id, q.ownerIdentity, q.ownerGroup, q.cpuTime, q.priority⟩
    else none)

def job? (job : String) : Except StoreError (Option (Job α)) := do
  let jobs ← rows d.jobs
  .ok jobs[job]?

def updateJob (job : String) (submitted : Int) (effective : α) :
    Except StoreError (Option Int × Database α) := do
  let jobs ← rows d.jobs
  match jobs[job]? with
  | none => .ok (none, d)
  | some found =>
    .ok (some found.queue,
      { d with jobs := some (.own (jobs.insert job ⟨found.queue, submitted, effective⟩)) })

def collect (sets : Attribute.Table (Option TextSet)) (row : ValueRow) :
    Except StoreError (Attribute.Table (Option TextSet)) :=
  match Attribute.ofTag? row.field with
  | none => .error (.corrupt ("unknown multi-value field '" ++ row.field ++ "'"))
  | some a =>
    let set := (sets.get a).getD ∅
    .ok (sets.set a (some (match row.value with | some value => set.insert value | none => set)))

def setsOf (values : List ValueRow) (id : Int) :
    Except StoreError (Attribute.Table (Option TextSet)) :=
  (values.filter (·.queue = id)).foldlM collect (.ofFn fun _ => none)

/-- The first row with a field that no attribute has. -/
def strayField (values : List ValueRow) (ids : List Int) : Except StoreError Unit :=
  match values.find? fun row => ids.contains row.queue && (Attribute.ofTag? row.field).isNone with
  | some row => .error (.corrupt ("unknown multi-value field '" ++ row.field ++ "'"))
  | none => .ok ()

def summaries (jobs : Std.ExtTreeMap String (Job α)) (found : List (Int × QueueRow α)) :
    Except StoreError (List (QueueSummary α)) :=
  if found.isEmpty then .ok []
  else do
    let values ← rows d.values
    strayField values (found.map Prod.fst)
    found.mapM fun (id, q) => do
      let sets ← setsOf values id
      .ok ⟨id, ⟨q.ownerIdentity, q.ownerGroup, q.setup, q.cpuTime, sets⟩, q.priority, q.enabled,
        (jobsOf jobs id).length⟩

def queue? (id : Int) : Except StoreError (Option (QueueSummary α)) := do
  let queues ← rows d.queues
  let jobs ← rows d.jobs
  let found ← d.summaries jobs ((queues[id]?).toList.map (id, ·))
  .ok found.head?

def selects (s : QueueSelection) (id : Int) (q : QueueRow α) : Bool :=
  s.ownerGroup.all (q.ownerGroup = ·) && s.ownerIdentity.all (q.ownerIdentity = ·)
    && s.setup.all (q.setup = ·) && s.ids.all (·.contains id)

def list (s : QueueSelection) : Except StoreError (List (QueueSummary α)) := do
  let queues ← rows d.queues
  let jobs ← rows d.jobs
  d.summaries jobs (queues.toList.filter fun (id, q) => selects s id q)

def ownersIn (group : String) : Except StoreError TextSet := do
  let queues ← rows d.queues
  .ok (.ofList (queues.values.filterMap fun q =>
    if q.ownerGroup = group then some q.ownerIdentity else none))

def groups : Except StoreError TextSet := do
  let queues ← rows d.queues
  .ok (.ofList (queues.values.map (·.ownerGroup)))

def setPriorities (priorities : List (Int × α)) : Except StoreError (Unit × Database α) :=
  if priorities.isEmpty then .ok ((), d)
  else do
    let queues ← rows d.queues
    if priorities.any fun (id, _) => queues.contains id && d.refusedQueues.contains id then
      .error (.queryFailed failure)
    else
      .ok ((), { d with queues := some (.own (priorities.foldl
        (fun queues (id, priority) => queues.modify id fun q => { q with priority := priority })
        queues)) })

def empties : Except StoreError (List (Int × String)) := do
  let queues ← rows d.queues
  let jobs ← rows d.jobs
  .ok (queues.toList.filterMap fun (id, q) =>
    if (jobsOf jobs id).isEmpty then some (id, q.ownerGroup) else none)

variable [Scalar α]

def priorityClasses (id : Int) : Except StoreError (List (PriorityClass α)) := do
  let jobs ← rows d.jobs
  .ok (PriorityClass.ofPriorities ((jobsOf jobs id).map (·.2.effective)))

def jobsWithPriority (id : Int) (priority : α) (limit : Nat) : Except StoreError (List String) := do
  let jobs ← rows d.jobs
  .ok ((((jobsOf jobs id).filter fun (_, job) => job.effective == priority).take limit).map Prod.fst)

/-- The loads of queues, the sums with their rounding errors made good. The sum over no jobs is zero. -/
def loads (group : String) (identity : Option String) : Except StoreError (List (Load α)) := do
  let queues ← rows d.queues
  let jobs ← rows d.jobs
  .ok (queues.toList.filterMap fun (id, q) =>
    if q.ownerGroup = group && identity.all (q.ownerIdentity = ·) then
      let found := jobsOf jobs id
      some ⟨id, Scalar.compensatedTotal (found.map (·.2.effective)), found.length⟩
    else none)

def reading {β : Type} (d : Database α) (answer : Except StoreError β) :
    Except StoreError β × Database α :=
  (answer, d)

def writing {β : Type} (d : Database α) :
    Except StoreError (β × Database α) → Except StoreError β × Database α
  | .ok (answer, d) => (.ok answer, d)
  | .error e => (.error e, d)

def perform (d : Database α) :
    (call : StoreCall α) → Except StoreError call.Answer × Database α
  | .find definition => d.reading (d.find definition)
  | .create definition priority enabled => d.create definition priority enabled
  | .setEnabled id expected new => d.writing (d.setEnabled id expected new)
  | .addJob id job submitted effective => d.writing (d.addJob id job submitted effective)
  | .removeJob job => d.writing (d.removeJob job)
  | .countJobs id => d.reading (d.countJobs id)
  | .deleteIfEmpty id => d.writing (d.deleteIfEmpty id)
  | .matching filter => d.reading (d.matching filter)
  | .priorityClasses id => d.reading (d.priorityClasses id)
  | .jobsWithPriority id priority limit => d.reading (d.jobsWithPriority id priority limit)
  | .job job => d.reading (d.job? job)
  | .updateJob job submitted effective => d.writing (d.updateJob job submitted effective)
  | .queue id => d.reading (d.queue? id)
  | .list selection => d.reading (d.list selection)
  | .ownersIn group => d.reading (d.ownersIn group)
  | .groups => d.reading d.groups
  | .loads group identity => d.reading (d.loads group identity)
  | .setPriorities priorities => d.writing (d.setPriorities priorities)
  | .empties => d.reading d.empties

end Matchmaker.Database
