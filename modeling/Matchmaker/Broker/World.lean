import Matchmaker.Broker.Operation

/-!
What the broker works with: a store, the sources of share settings and usage, what was read from
them, random words, counters and the time. An operation runs against it, question by question.
-/
namespace Matchmaker

structure World (α σ : Type) where
  store : σ
  shares : ShareSource α
  usage : UsageSource α := .empty
  book : ShareBook α := ∅
  ledger : UsageLedger α := {}
  generator : Random.Generator
  metrics : Metrics := {}
  /-- In seconds. -/
  now : Nat := 0

namespace World

variable {α σ : Type} [Scalar α]

def answer (perform : (call : StoreCall α) → σ → Except StoreError call.Answer × σ) :
    (q : Request α) → World α σ → q.Answer × World α σ
  | .store call, w =>
    let (answer, store) := perform call w.store
    (answer, { w with store := store })
  | .reloadShares, w =>
    let (answer, shares) := w.shares.reload
    (answer, { w with shares := shares })
  | .listedGroups, w => (.ok w.shares.table.listed, w)
  | .groupSettings group, w => (.ok (w.shares.table.settings group), w)
  | .usage span grouping, w =>
    let (answer, usage) := w.usage.report span grouping
    (answer, { w with usage := usage })
  | .booked group, w => (w.book[group]?, w)
  | .bookedGroups, w => (w.book.keys, w)
  | .book settings, w =>
    if w.book.agrees settings then (false, w) else (true, { w with book := settings })
  | .held grouping, w =>
    ((w.ledger.record grouping).held, { w with ledger := w.ledger.register grouping })
  | .groupings, w => (w.ledger.groupings, w)
  | .isDue grouping period, w => ((w.ledger.record grouping).isDue period w.now, w)
  | .hold grouping windows fetched, w =>
    ((), { w with ledger := w.ledger.setRecord (.ofAttempt windows fetched w.now) grouping })
  | .word request, w =>
    let (word, generator) := Random.Draw.answer request w.generator
    (word, { w with generator := generator })
  | .record event, w => ((), { w with metrics := w.metrics.record event })

/-- Runs an operation; one that cannot go on has no result. -/
def run {β : Type} (perform : (call : StoreCall α) → σ → Except StoreError call.Answer × σ)
    (w : World α σ) (operation : Operation α β) : Option (Except BrokerError β) × World α σ :=
  Script.run (answer perform) operation.run w

end World

end Matchmaker
