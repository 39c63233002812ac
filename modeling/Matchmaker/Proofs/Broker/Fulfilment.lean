import Matchmaker.Proofs.Broker.Asking
import Matchmaker.Proofs.Broker.Repricing
import Matchmaker.Proofs.Broker.Sequence

/-!
Operations where no source fails. Settings and usage are those of a world, whatever is drawn; where
nothing is drawn, an operation goes as it does in that world. So a recalculation writes the
priorities that there are in the world.
-/
namespace Matchmaker

variable {α : Type} [Scalar α]

/-- A group is recalculated: each of its queues has the priority that follows from the settings, the
jobs and the usage that there are, and nothing else changes. -/
structure Recalculated (b : Broker α) (w : World α (Store α)) (group : String) (t : Store α) :
    Prop where
  written : t = w.store.setPriorities (w.priorities b group)
  distinct : ((w.priorities b group).map Prod.fst).Nodup
  own : ∀ id, id ∈ (w.priorities b group).map Prod.fst ↔
    ∃ q : StoredQueue α, w.store.queues[id]? = some q ∧ q.definition.ownerGroup = group

namespace World

/-- How questions for settings and usage are answered by the world; words may be any. -/
def Tells (w : World α (Store α)) : (q : Request α) → q.Answer → Prop
  | .booked group, answer => answer = w.book[group]?
  | .groupSettings group, answer => answer = .ok (w.shares.table.settings group)
  | .held grouping, answer => answer = (w.ledger.record grouping).held
  | _, _ => True

theorem tells_reply (w : World α (Store α)) {q : Request α} (h : q.keepsSources = true) :
    (w.reply q).2.Tells = w.Tells := by
  cases q with
  | reloadShares | book | hold => cases h
  | held grouping =>
    funext asked told
    cases asked <;> simp [Tells, reply, answer]
  | _ => rfl

theorem plays_told {β : Type} {breaks : Prop} {x : Operation α β}
    (h : x.Within (fun q => q.keepsSources = true) breaks) (w : World α (Store α)) :
    x.run.Plays w.Tells w.store (w.play x).1 (w.play x).2.store := by
  unfold Operation.Within Script.Within at h
  unfold World.play World.run
  generalize x.run = script at h ⊢
  induction script generalizing w with
  | done r => exact .done r w.store
  | ask q next ih =>
    have told : w.Tells q (w.reply q).1 := by
      cases q <;> first | rfl | trivial
    have later := ih _ (w.reply q).2 (h.2 (w.reply q).1)
    rw [w.tells_reply h.1] at later
    exact .ask (w.replied_reply fun _ => told) later
  | abort => exact .abort w.store

theorem reply_of_replied {w : World α (Store α)} {q : Request α} (h : q.reprices = true)
    {answer : q.Answer} {t : Store α} (replied : Replied w.Tells w.store q answer t) :
    (w.reply q).1 = answer ∧ (w.reply q).2.store = t := by
  cases replied with
  | performed call => exact ⟨rfl, rfl⟩
  | elsewhere other told =>
    cases q with
    | store call => cases other
    | booked | groupSettings | held => exact ⟨told.symm, rfl⟩
    | record => exact ⟨rfl, rfl⟩
    | _ => cases h

theorem play_of_plays {β : Type} {breaks : Prop} {x : Operation α β}
    (h : x.Within (fun q => q.reprices = true) breaks) {w : World α (Store α)}
    {r : Operation.Ending β} {t : Store α} (plays : x.run.Plays w.Tells w.store r t) :
    (w.play x).1 = r ∧ (w.play x).2.store = t := by
  unfold Operation.Within Script.Within at h
  unfold World.play World.run
  generalize x.run = script at h plays ⊢
  induction script generalizing w with
  | done result =>
    cases plays
    exact ⟨rfl, rfl⟩
  | ask q next ih =>
    cases plays with
    | ask replied rest =>
      obtain ⟨rfl, rfl⟩ := reply_of_replied h.1 replied
      have keeps := Request.keepsSources_of_isApart (Request.isApart_of_reprices h.1)
      rw [← w.tells_reply keeps] at rest
      exact ih _ (h.2 _) rest
  | abort =>
    cases plays
    exact ⟨rfl, rfl⟩

end World

theorem Fulfilment.leaves_recalculate {b : Broker α} (inOrder : b.InOrder)
    (w : World α (Store α)) (s : Store α) (group : String) :
    (b.recalculate group).Leaves w.Tells
      (fun t r => ∃ n, r = some (.ok n) ∧ Recalculated b { w with store := s } group t) s := by
  intro r t plays
  obtain ⟨rfl, rfl⟩ :=
    World.play_of_plays (w := { w with store := s }) (b.reprices_recalculate group) plays
  obtain ⟨n, w', played, written, -⟩ :=
    World.play_recalculate inOrder { w with store := s } group
  rw [played]
  exact ⟨n, rfl, written, World.nodup_priorities _ group inOrder,
    World.mem_priorities _ group inOrder⟩

end Matchmaker
