import Matchmaker.Broker.World
import Matchmaker.Proofs.Script.Protocol

/-!
Operations in a world where calls to the store and to the sources may fail, each on its own. What
holds at the end of a run is proved along the operation, question by question.
-/
namespace Matchmaker

open Operation

namespace World

variable {α β : Type} [Scalar α] (w : World α (Store α))

def reply (q : Request α) : q.Answer × World α (Store α) :=
  w.answer (fun call s => s.perform call) q

def play (x : Operation α β) : Ending β × World α (Store α) :=
  w.run (fun call s => s.perform call) x

end World

structure Outage where
  store : StoreError
  source : CollaboratorError

/-- The failure of a question; the broker's own steps do not fail. -/
def Request.refusal? {α : Type} (o : Outage) : (q : Request α) → Option q.Answer
  | .store _ => some (.error o.store)
  | .reloadShares => some (.error o.source)
  | .listedGroups => some (.error o.source)
  | .groupSettings _ => some (.error o.source)
  | .usage _ _ => some (.error o.source)
  | _ => none

/-- A world in which some of the next questions fail. -/
structure Trial (α : Type) where
  world : World α (Store α)
  outages : List (Option Outage) := []

namespace Trial

variable {α β γ : Type} [Scalar α]

def answer (q : Request α) (t : Trial α) : q.Answer × Trial α :=
  match t.outages.head?.join.bind q.refusal? with
  | some refusal => (refusal, ⟨t.world, t.outages.tail⟩)
  | none =>
    let (answer, world) := t.world.reply q
    (answer, ⟨world, t.outages.tail⟩)

def run (t : Trial α) (x : Operation α β) : Ending β × Trial α := Script.run answer x.run t

def Ends (t : Trial α) (x : Operation α β) (post : Trial α → Ending β → Prop) : Prop :=
  post (t.run x).2 (t.run x).1

theorem Ends.mono {t : Trial α} {x : Operation α β} {post post' : Trial α → Ending β → Prop}
    (h : t.Ends x post) (weaker : ∀ t r, post t r → post' t r) : t.Ends x post' := weaker _ _ h

theorem ends_bind (t : Trial α) (x : Operation α γ) (f : γ → Operation α β)
    (post : Trial α → Ending β → Prop) :
    t.Ends (x >>= f) post ↔ t.Ends x (proceed post fun t c => t.Ends (f c) post) := by
  have whole : (x >>= f).run = x.run.bind (ExceptT.bindCont f) := rfl
  unfold Ends run
  rw [whole, Script.run_bind]
  rcases Script.run answer x.run t with ⟨_ | _ | _, t'⟩ <;> rfl

theorem Ends.bind {t : Trial α} {first : Trial α → Ending γ → Prop} {x : Operation α γ}
    {f : γ → Operation α β} {post : Trial α → Ending β → Prop} (h : t.Ends x first)
    (early : ∀ t r, (∀ c, r ≠ some (.ok c)) → first t r → ∀ r', (∀ c, r' ≠ some (.ok c)) → post t r')
    (rest : ∀ t c, first t (some (.ok c)) → t.Ends (f c) post) : t.Ends (x >>= f) post := by
  refine (ends_bind t x f post).2 (h.mono fun t r ended => ?_)
  rcases r with _ | e | c
  · exact early t none nofun ended none nofun
  · exact early t (some (.error e)) nofun ended (some (.error e)) nofun
  · exact rest t c ended

inductive Met (t : Trial α) (q : Request α) : q.Answer → Trial α → Prop where
  | refused {o : Outage} {refusal : q.Answer} (out : t.outages ≠ []) (h : q.refusal? o = some refusal) :
      Met t q refusal ⟨t.world, t.outages.tail⟩
  | answered :
      Met t q (t.world.reply q).1 ⟨(t.world.reply q).2, t.outages.tail⟩

theorem met_answer (t : Trial α) (q : Request α) : t.Met q (t.answer q).1 (t.answer q).2 := by
  unfold answer
  split
  · rename_i refusal h
    obtain ⟨o, next, refused⟩ := Option.bind_eq_some_iff.1 h
    refine .refused (fun none => ?_) refused
    rw [none] at next
    cases next
  · exact .answered

theorem Met.calm {t t' : Trial α} {q : Request α} {answer : q.Answer} (h : t.Met q answer t')
    (calm : t.outages = []) : t'.outages = [] := by
  cases h <;> simp [calm]

theorem ends_ask {t : Trial α} {q : Request α} {post : Trial α → Ending q.Answer → Prop}
    (h : ∀ answer t', t.Met q answer t' → post t' (some (.ok answer))) : t.Ends (ask q) post :=
  h _ _ (t.met_answer q)

theorem ends_ask_bind {t : Trial α} {q : Request α} {f : q.Answer → Operation α β}
    {post : Trial α → Ending β → Prop}
    (h : ∀ answer t', t.Met q answer t' → t'.Ends (f answer) post) : t.Ends (ask q >>= f) post :=
  (ends_bind t (ask q) f post).2 (h _ _ (t.met_answer q))

theorem ends_store {t : Trial α} {call : StoreCall α} {answer : call.Answer} {s : Store α}
    {post : Trial α → Ending call.Answer → Prop}
    (performed : t.world.store.perform call = (.ok answer, s))
    (refused : ∀ e, t.outages ≠ [] → post ⟨t.world, t.outages.tail⟩ (some (.error (.store e))))
    (answered : post ⟨{ t.world with store := s }, t.outages.tail⟩ (some (.ok answer))) :
    t.Ends (store call) post := by
  refine (ends_bind t _ _ _).2 (ends_ask fun answer t' met => ?_)
  cases met with
  | refused out refusal =>
    cases refusal
    exact refused _ out
  | answered =>
    simp only [World.reply, World.answer, performed]
    exact answered

theorem ends_store_bind {t : Trial α} {call : StoreCall α} {answer : call.Answer} {s : Store α}
    {f : call.Answer → Operation α β} {post : Trial α → Ending β → Prop}
    (performed : t.world.store.perform call = (.ok answer, s))
    (refused : ∀ e, t.outages ≠ [] → post ⟨t.world, t.outages.tail⟩ (some (.error (.store e))))
    (rest : (⟨{ t.world with store := s }, t.outages.tail⟩ : Trial α).Ends (f answer) post) :
    t.Ends (store call >>= f) post :=
  (ends_bind t (store call) f post).2 (ends_store performed refused rest)

theorem ends_of_within {asks : Request α → Prop} {breaks : Prop} {x : Operation α β}
    (h : x.Within asks breaks) {t : Trial α} {stays : Trial α → Prop} (now : stays t)
    (kept : ∀ t q answer t', stays t → asks q → t.Met q answer t' → stays t') :
    t.Ends x fun t' _ => stays t' := by
  unfold Operation.Within Script.Within at h
  unfold Ends run
  generalize x.run = script at h ⊢
  induction script generalizing t with
  | done r => exact now
  | ask q next ih => exact ih _ (kept t q _ _ now h.1 (t.met_answer q)) (h.2 _)
  | abort => exact now

theorem ends_of_keeps {σ : Type} {P : Protocol σ (Request α) Request.Answer}
    {post : σ → Ending β → Prop} {x : Operation α β} {g : σ} (h : x.Keeps P post g) (t : Trial α) :
    t.Ends x fun _ r => ∃ g', post g' r := by
  unfold Operation.Keeps at h
  unfold Ends run
  generalize x.run = script at h ⊢
  induction script generalizing t g with
  | done r => exact ⟨g, h⟩
  | ask q next ih => exact ih _ _ (h.2 _)
  | abort => exact ⟨g, h⟩

/-- Where nothing fails, an operation does what it does in the world. -/
theorem run_calm (w : World α (Store α)) (x : Operation α β) :
    (⟨w, []⟩ : Trial α).run x = ((w.play x).1, ⟨(w.play x).2, []⟩) := by
  unfold run World.play World.run
  generalize x.run = script
  induction script generalizing w with
  | done r => rfl
  | ask q next ih => exact ih _ _
  | abort => rfl

/-! ### Results -/

structure Gives (t : Trial α) (x : Operation α β) (post : Trial α → β → Prop) : Prop where
  result : ∀ c, (t.run x).1 = some (.ok c) → post (t.run x).2 c
  calm : t.outages = [] → (t.run x).2.outages = [] ∧ ∃ c, (t.run x).1 = some (.ok c)

variable {t : Trial α}

theorem Gives.mono {x : Operation α β} {post post' : Trial α → β → Prop} (h : t.Gives x post)
    (weaker : ∀ t c, post t c → post' t c) : t.Gives x post' :=
  ⟨fun c ok => weaker _ c (h.result c ok), h.calm⟩

theorem gives_of_ends {x : Operation α β} {post : Trial α → β → Prop}
    (h : t.Ends x fun t' r => (∀ c, r = some (.ok c) → post t' c) ∧
      (t.outages = [] → t'.outages = [] ∧ ∃ c, r = some (.ok c))) : t.Gives x post :=
  ⟨h.1, h.2⟩

theorem gives_pure {c : β} {post : Trial α → β → Prop} (h : post t c) :
    t.Gives (pure c) post := by
  refine gives_of_ends ⟨fun c' ok => ?_, fun calm => ⟨calm, c, rfl⟩⟩
  cases ok
  exact h

theorem Gives.bind {x : Operation α γ} {f : γ → Operation α β} {first : Trial α → γ → Prop}
    {post : Trial α → β → Prop} (h : t.Gives x first)
    (rest : ∀ t c, first t c → t.Gives (f c) post) : t.Gives (x >>= f) post := by
  have ended : t.Ends x fun t' r => (∀ c, r = some (.ok c) → first t' c) ∧
      (t.outages = [] → t'.outages = [] ∧ ∃ c, r = some (.ok c)) := ⟨h.result, h.calm⟩
  refine gives_of_ends (ended.bind ?_ ?_)
  · intro t' r bad ended r' bad'
    refine ⟨fun c ok => (bad' c ok).elim, fun calm => ?_⟩
    obtain ⟨-, c, ok⟩ := ended.2 calm
    exact (bad c ok).elim
  · intro t' c ended
    have later := rest t' c (ended.1 c rfl)
    exact ⟨later.result, fun calm => later.calm (ended.2 calm).1⟩

theorem Gives.and_ends {x : Operation α β} {post : Trial α → β → Prop} {stays : Trial α → Prop}
    (h : t.Gives x post) (ends : t.Ends x fun t' _ => stays t') :
    t.Gives x fun t' c => post t' c ∧ stays t' :=
  ⟨fun c ok => ⟨h.result c ok, ends⟩, h.calm⟩

theorem gives_record_world (event : Event) :
    t.Gives (record event) fun t' _ =>
      t'.world = { t.world with metrics := t.world.metrics.record event } := by
  refine gives_of_ends (ends_ask (q := .record event) fun answer t' met => ?_)
  refine ⟨fun c ok => ?_, fun calm => ⟨met.calm calm, _, rfl⟩⟩
  cases met with
  | refused _ refusal => cases refusal
  | answered => rfl

theorem gives_record (event : Event) :
    t.Gives (record event) fun t' _ => t'.world.store = t.world.store :=
  (gives_record_world event).mono fun _ _ same => by rw [same]

theorem gives_store {call : StoreCall α} {answer : call.Answer} {s : Store α}
    (performed : t.world.store.perform call = (.ok answer, s)) :
    t.Gives (store call) fun t' c => c = answer ∧ t'.world.store = s := by
  refine gives_of_ends (ends_store performed (fun e out => ?_) ?_)
  · exact ⟨nofun, fun calm => (out calm).elim⟩
  · refine ⟨fun c ok => ?_, fun calm => ⟨?_, answer, rfl⟩⟩
    · cases ok
      exact ⟨rfl, rfl⟩
    · rw [calm, List.tail_nil]

end Trial

/-- Where calls have failed, the operation done once more with none failing leaves the store that it
would have left at once. -/
def World.Recovers {α β : Type} [Scalar α] (w : World α (Store α)) (x : Operation α β) : Prop :=
  ∀ outages : List (Option Outage),
    (((⟨w, outages⟩ : Trial α).run x).2.world.play x).2.store = (w.play x).2.store

end Matchmaker
