import Matchmaker.Proofs.Broker.Trial
import Matchmaker.Proofs.Concurrency.System

/-!
Calls to a broker one after another, over a store that does not fail. What is not asked of the store
is answered as others may, so that sources of settings and usage can fail at any time and random
words are any.
-/
namespace Matchmaker

variable {α : Type} [Scalar α]

inductive Replied (may : (q : Request α) → q.Answer → Prop) (s : Store α) :
    (q : Request α) → q.Answer → Store α → Prop where
  | performed (call : StoreCall α) :
      Replied may s (.store call) (s.perform call).1 (s.perform call).2
  | elsewhere {q : Request α} (other : q.call? = none) {answer : q.Answer}
      (allowed : may q answer) : Replied may s q answer s

namespace Script

variable {may : (q : Request α) → q.Answer → Prop} {β γ : Type}

/-- The script can go from one store to another, with this end. -/
inductive Plays (may : (q : Request α) → q.Answer → Prop) :
    Course α β → Store α → Option β → Store α → Prop where
  | done (result : β) (s : Store α) : Plays may (done result) s (some result) s
  | ask {q : Request α} {next : q.Answer → Course α β} {s t u : Store α} {answer : q.Answer}
      {r : Option β} (replied : Replied may s q answer t) (rest : Plays may (next answer) t r u) :
      Plays may (ask q next) s r u
  | abort (s : Store α) : Plays may abort s none s

def Leaves (may : (q : Request α) → q.Answer → Prop) (post : Store α → Option β → Prop)
    (x : Course α β) (s : Store α) : Prop := ∀ r t, Plays may x s r t → post t r

variable {post : Store α → Option β → Prop} {s : Store α}

theorem leaves_done {result : β} : Leaves may post (done result) s ↔ post s (some result) :=
  ⟨fun h => h _ _ (.done result s), fun h r t plays => by cases plays; exact h⟩

theorem leaves_abort : Leaves may post (abort : Course α β) s ↔ post s none :=
  ⟨fun h => h _ _ (.abort s), fun h r t plays => by cases plays; exact h⟩

theorem leaves_ask {q : Request α} {next : q.Answer → Course α β} :
    Leaves may post (ask q next) s ↔
      ∀ answer t, Replied may s q answer t → Leaves may post (next answer) t := by
  constructor
  · exact fun h answer t replied r u rest => h r u (.ask replied rest)
  · intro h r u plays
    cases plays with
    | ask replied rest => exact h _ _ replied r u rest

theorem leaves_bind {post : Store α → Option γ → Prop} (x : Course α β) (f : β → Course α γ)
    (s : Store α) :
    Leaves may post (x.bind f) s ↔
      Leaves may (fun t r => match r with
        | some b => Leaves may post (f b) t
        | none => post t none) x s := by
  induction x generalizing s with
  | done result => rw [bind, leaves_done]
  | ask q next ih => simp only [bind, leaves_ask, ih]
  | abort => rw [bind, leaves_abort, leaves_abort]

theorem Leaves.mono {post' : Store α → Option β → Prop} {x : Course α β} (h : Leaves may post x s)
    (weaker : ∀ t r, post t r → post' t r) : Leaves may post' x s :=
  fun r t plays => weaker t r (h r t plays)

theorem Keeps.leaves {asks : Request α → Prop} {ends : Option β → Prop} {x : Course α β}
    (h : x.Keeps (.only asks) (fun _ r => ends r) ()) {stays : Store α → Prop} (now : stays s)
    (kept : ∀ s q answer t, stays s → asks q → Replied may s q answer t → stays t) :
    Leaves may (fun t r => stays t ∧ ends r) x s := by
  induction x generalizing s with
  | done result => exact leaves_done.2 ⟨now, h⟩
  | ask q next ih =>
    exact leaves_ask.2 fun answer t replied => ih answer (h.2 answer) (kept _ q _ _ now h.1 replied)
  | abort => exact leaves_abort.2 ⟨now, h⟩

end Script

namespace Operation

variable {may : (q : Request α) → q.Answer → Prop} {β γ : Type}

def Leaves (may : (q : Request α) → q.Answer → Prop) (post : Store α → Ending β → Prop)
    (x : Operation α β) (s : Store α) : Prop := Script.Leaves may post x.run s

variable {post : Store α → Ending β → Prop} {s : Store α}

theorem Leaves.mono {post' : Store α → Ending β → Prop} {x : Operation α β}
    (h : x.Leaves may post s) (weaker : ∀ t r, post t r → post' t r) : x.Leaves may post' s :=
  Script.Leaves.mono h weaker

theorem leaves_pure {b : β} (h : post s (some (.ok b))) : (pure b : Operation α β).Leaves may post s :=
  Script.leaves_done.2 h

theorem leaves_throw {e : BrokerError} (h : post s (some (.error e))) :
    (throw e : Operation α β).Leaves may post s := Script.leaves_done.2 h

theorem leaves_bind {x : Operation α γ} {f : γ → Operation α β}
    (h : x.Leaves may (proceed post fun t c => (f c).Leaves may post t) s) :
    (x >>= f).Leaves may post s := by
  refine (Script.leaves_bind x.run _ s).2 (Script.Leaves.mono h fun t r ended => ?_)
  rcases r with _ | e | c
  · exact ended
  · exact Script.leaves_done.2 ended
  · exact ended

theorem Leaves.bind {stays : Store α → Prop} {x : Operation α γ} {f : γ → Operation α β}
    (h : x.Leaves may (fun t _ => stays t) s)
    (rest : ∀ c t, stays t → (f c).Leaves may (fun t _ => stays t) t) :
    (x >>= f).Leaves may (fun t _ => stays t) s := by
  refine leaves_bind (h.mono fun t r still => ?_)
  rcases r with _ | e | c
  · exact still
  · exact still
  · exact rest c t still

theorem leaves_ask {q : Request α} {post : Store α → Ending q.Answer → Prop}
    (h : ∀ answer t, Replied may s q answer t → post t (some (.ok answer))) :
    (ask q).Leaves may post s :=
  Script.leaves_ask.2 fun answer t replied => Script.leaves_done.2 (h answer t replied)

theorem leaves_tryStore (call : StoreCall α)
    {post : Store α → Ending (Except StoreError call.Answer) → Prop}
    (h : post (s.perform call).2 (some (.ok (s.perform call).1))) :
    (tryStore call).Leaves may post s := by
  refine leaves_ask (q := .store call) fun answer t replied => ?_
  cases replied with
  | performed => exact h
  | elsewhere other => cases other

theorem leaves_tryStore_effect (call : StoreCall α)
    {post : Store α → Ending (Except StoreError call.Answer) → Prop}
    (h : ∀ answer t, s.Effect call answer t → post t (some (.ok answer))) :
    (tryStore call).Leaves may post s :=
  leaves_tryStore call (h _ _ (s.effect_perform call))

theorem leaves_store_effect (call : StoreCall α) {post : Store α → Ending call.Answer → Prop}
    (ok : ∀ answer t, s.Effect call (.ok answer) t → post t (some (.ok answer)))
    (error : ∀ e t, s.Effect call (.error e) t → post t (some (.error (.store e)))) :
    (store call).Leaves may post s := by
  refine leaves_bind (leaves_tryStore_effect call fun answer t effect => ?_)
  cases answer with
  | ok answer => exact leaves_pure (ok answer t effect)
  | error e => exact leaves_throw (error e t effect)

theorem leaves_store (call : StoreCall α) {post : Store α → Ending call.Answer → Prop}
    {answer : call.Answer} {t : Store α} (performed : s.perform call = (.ok answer, t))
    (h : post t (some (.ok answer))) : (store call).Leaves may post s := by
  refine leaves_bind (leaves_tryStore call ?_)
  rw [performed]
  exact leaves_pure h

theorem leaves_record {event : Event} {post : Store α → Ending Unit → Prop}
    (h : post s (some (.ok ()))) : (record event).Leaves may post s := by
  refine leaves_ask (q := .record event) fun answer t replied => ?_
  cases replied with
  | elsewhere => exact h

theorem leaves_orAbort {value : Option β} (h : post s (value.map .ok)) :
    (orAbort value : Operation α β).Leaves may post s := by
  cases value with
  | none => exact Script.leaves_abort.2 h
  | some b => exact Script.leaves_done.2 h

theorem leaves_attempt {x : Operation α β} {post : Store α → Ending Unit → Prop}
    (h : x.Leaves may (fun t r => post t (r.map fun _ => .ok ())) s) :
    (attempt x).Leaves may post s := by
  refine leaves_bind ((Script.leaves_bind x.run _ s).2 (Script.Leaves.mono h fun t r ended => ?_))
  cases r with
  | none => exact ended
  | some r => exact Script.leaves_done.2 (leaves_pure ended)

theorem Within.leaves {asks : Request α → Prop} {breaks : Prop} {x : Operation α β}
    (h : x.Within asks breaks) {stays : Store α → Prop} (now : stays s)
    (kept : ∀ s call, stays s → asks (.store call) → stays (s.perform call).2) :
    x.Leaves may (fun t r => stays t ∧ (r = none → breaks)) s := by
  refine Script.Keeps.leaves h now fun s q answer t here asked replied => ?_
  cases replied with
  | performed call => exact kept s call here asked
  | elsewhere => exact here

theorem Within.leaves_attempt {asks : Request α → Prop} {breaks : Prop} {x : Operation α β}
    (h : x.Within asks breaks) (unbroken : ¬ breaks) {stays : Store α → Prop} (now : stays s)
    (kept : ∀ s call, stays s → asks (.store call) → stays (s.perform call).2) :
    (Operation.attempt x).Leaves may (fun t r => stays t ∧ r = some (.ok ())) s := by
  refine Operation.leaves_attempt ((h.leaves now kept).mono ?_)
  rintro t r ⟨still, aborts⟩
  cases r with
  | none => exact (unbroken (aborts rfl)).elim
  | some r => exact ⟨still, rfl⟩

theorem leaves_choose {d : Random.Draw β} (h : ∀ r : Option β, post s (r.map .ok)) :
    (choose d : Operation α β).Leaves may post s := by
  refine (Script.leaves_bind (d.lift _) _ s).2 ?_
  induction d with
  | done b => exact Script.leaves_done.2 (Script.leaves_done.2 (h (some b)))
  | ask q next ih =>
    refine Script.leaves_ask.2 fun answer t replied => ?_
    cases replied with
    | elsewhere => exact ih answer
  | abort => exact Script.leaves_abort.2 (h none)

theorem leaves_choose_of_returns {d : Random.Draw β} {good : β → Prop} (returns : d.Returns good)
    (h : ∀ b, good b → post s (some (.ok b))) : (choose d : Operation α β).Leaves may post s := by
  refine (Script.leaves_bind (d.lift _) _ s).2 ?_
  induction d with
  | done b => exact Script.leaves_done.2 (Script.leaves_done.2 (h b returns))
  | ask q next ih =>
    refine Script.leaves_ask.2 fun answer t replied => ?_
    cases replied with
    | elsewhere => exact ih answer (returns answer)
  | abort => exact returns.elim

end Operation

/-! ### Stores that can be reached -/

variable [Random.Logarithm α]

/-- A store after calls in a row, whatever others answer. -/
inductive Broker.Reached (b : Broker α) : Store α → Prop where
  | empty : Reached b {}
  | call {s t : Store α} (before : Reached b s) (call : BrokerCall)
      {r : Operation.Ending (call.Result α)}
      (plays : (b.course call).run.Plays (fun _ _ => True) s r t) : Reached b t

/-- What each call leaves as it was holds of all stores that can be reached. -/
theorem Broker.Reached.induct {b : Broker α} {motive : Store α → Prop} (init : motive {})
    (step : ∀ s call, motive s → (b.course call).Leaves (fun _ _ => True) (fun t _ => motive t) s)
    {s : Store α} (h : b.Reached s) : motive s := by
  induction h with
  | empty => exact init
  | call before call plays ih => exact step _ call ih _ _ plays

omit [Random.Logarithm α] in
theorem World.replied_reply {may : (q : Request α) → q.Answer → Prop} (w : World α (Store α))
    {q : Request α} (allowed : q.call? = none → may q (w.reply q).1) :
    Replied may w.store q (w.reply q).1 (w.reply q).2.store := by
  cases q with
  | store call => exact .performed call
  | book settings =>
    have same : (w.reply (.book settings)).2.store = w.store := by
      simp only [reply, answer]
      split <;> rfl
    rw [same]
    exact .elsewhere rfl (allowed rfl)
  | _ => exact .elsewhere rfl (allowed rfl)

omit [Random.Logarithm α] in
theorem World.plays_any {β : Type} (x : Operation α β) (w : World α (Store α)) :
    x.run.Plays (fun _ _ => True) w.store (w.play x).1 (w.play x).2.store := by
  unfold World.play World.run
  generalize x.run = script
  induction script generalizing w with
  | done r => exact .done r w.store
  | ask q next ih => exact .ask (w.replied_reply fun _ => trivial) (ih _ _)
  | abort => exact .abort w.store

def World.serve (b : Broker α) (w : World α (Store α)) (calls : List BrokerCall) :
    World α (Store α) := calls.foldl (fun w call => (w.play (b.course call)).2) w

theorem Broker.reached_serve {b : Broker α} {w : World α (Store α)} (reached : b.Reached w.store)
    (calls : List BrokerCall) : b.Reached (w.serve b calls).store := by
  induction calls generalizing w with
  | nil => exact reached
  | cons call rest ih => exact ih (.call reached call (w.plays_any (b.course call)))

end Matchmaker
