import Matchmaker.Broker.Operation

/-!
Rules that a script keeps whatever is answered. What may be asked depends on a state, and each
exchange moves the state on. `Keeps` is computed along the script, so that a proof follows it
question by question; `keeps_bind` cuts it at the end of a part.
-/
namespace Matchmaker

structure Protocol (σ Q : Type) (A : Q → Type) where
  allows : σ → Q → Prop
  next : σ → (q : Q) → A q → σ

namespace Protocol

variable {Q : Type} {A : Q → Type}

def only (asks : Q → Prop) : Protocol Unit Q A where
  allows _ q := asks q
  next _ _ _ := ()

def transcript : Protocol (List ((q : Q) × A q)) Q A where
  allows _ _ := True
  next exchanges q answer := exchanges ++ [⟨q, answer⟩]

end Protocol

namespace Script

variable {σ Q : Type} {A : Q → Type} {β γ : Type}

/-- Every course of the script keeps the protocol, and ends as `post` says. An aborted course has
no result. -/
def Keeps (P : Protocol σ Q A) (post : σ → Option β → Prop) : Script Q A β → σ → Prop
  | done result, g => post g (some result)
  | ask q next, g => P.allows g q ∧ ∀ a, (next a).Keeps P post (P.next g q a)
  | abort, g => post g none

/-- Every course of the script has a result, and `post` holds of it. -/
def Returns (post : β → Prop) : Script Q A β → Prop
  | done result => post result
  | ask _ next => ∀ a, (next a).Returns post
  | abort => False

variable {P : Protocol σ Q A}

theorem Keeps.mono {post post' : σ → Option β → Prop} {x : Script Q A β} {g : σ}
    (h : x.Keeps P post g) (weaker : ∀ g r, post g r → post' g r) : x.Keeps P post' g := by
  induction x generalizing g with
  | done result => exact weaker _ _ h
  | ask q next ih => exact ⟨h.1, fun a => ih a (h.2 a)⟩
  | abort => exact weaker _ _ h

theorem keeps_bind {post : σ → Option γ → Prop} (x : Script Q A β) (f : β → Script Q A γ)
    (g : σ) :
    (x.bind f).Keeps P post g ↔
      x.Keeps P (fun g r => match r with
        | some b => (f b).Keeps P post g
        | none => post g none) g := by
  induction x generalizing g with
  | done result => rfl
  | ask q next ih => simp only [bind, Keeps, ih]
  | abort => rfl

theorem Keeps.returns {post : σ → Option β → Prop} {good : β → Prop} {x : Script Q A β}
    {g : σ} (h : x.Keeps P post g) (stays : σ → Prop) (now : stays g)
    (later : ∀ g q a, stays g → P.allows g q → stays (P.next g q a))
    (ends : ∀ g r, stays g → post g r → ∃ b, r = some b ∧ good b) : x.Returns good := by
  induction x generalizing g with
  | done result =>
    obtain ⟨b, same, fine⟩ := ends g _ now h
    cases same
    exact fine
  | ask q next ih => exact fun a => ih a (h.2 a) (later g q a now h.1)
  | abort =>
    obtain ⟨b, same, -⟩ := ends g _ now h
    cases same

/-- The script asks nothing else, and is aborted only if `breaks`. -/
def Within (asks : Q → Prop) (breaks : Prop) (x : Script Q A β) : Prop :=
  x.Keeps (.only asks) (fun _ r => r = none → breaks) ()

theorem Keeps.widen {asks asks' : Q → Prop} {post : Unit → Option β → Prop} {x : Script Q A β}
    (h : x.Keeps (.only asks) post ()) (wider : ∀ q, asks q → asks' q) :
    x.Keeps (.only asks') post () := by
  induction x with
  | done result => exact h
  | ask q next ih => exact ⟨wider q h.1, fun a => ih a (h.2 a)⟩
  | abort => exact h

theorem Within.mono {asks asks' : Q → Prop} {breaks breaks' : Prop} {x : Script Q A β}
    (h : x.Within asks breaks) (wider : ∀ q, asks q → asks' q) (freer : breaks → breaks') :
    x.Within asks' breaks' :=
  (h.widen wider).mono fun _ _ aborts same => freer (aborts same)

theorem Within.bind {asks : Q → Prop} {breaks : Prop} {x : Script Q A β} {f : β → Script Q A γ}
    (h : x.Within asks breaks) (rest : ∀ b, (f b).Within asks breaks) :
    (x.bind f).Within asks breaks := by
  refine (keeps_bind x f _).2 (Keeps.mono h fun g r aborts => ?_)
  cases r with
  | none => exact fun _ => aborts rfl
  | some b => exact rest b

theorem Keeps.of_allowed {asks : Q → Prop} {ends : Option β → Prop} {stays : σ → Prop}
    {x : Script Q A β} {g : σ} (h : x.Keeps (.only asks) (fun _ r => ends r) ()) (now : stays g)
    (allowed : ∀ g q, stays g → asks q → P.allows g q ∧ ∀ a, stays (P.next g q a)) :
    x.Keeps P (fun g r => stays g ∧ ends r) g := by
  induction x generalizing g with
  | done b => exact ⟨now, h⟩
  | ask q next ih =>
    have here := allowed g q now h.1
    exact ⟨here.1, fun a => ih a (h.2 a) (here.2 a)⟩
  | abort => exact ⟨now, h⟩

theorem Keeps.of_ignored {asks : Q → Prop} {ends : Option β → Prop} {post : σ → Option β → Prop}
    {x : Script Q A β} {g : σ} (h : x.Keeps (.only asks) (fun _ r => ends r) ())
    (ignored : ∀ q, asks q → P.allows g q ∧ ∀ a, P.next g q a = g)
    (result : ∀ r, ends r → post g r) : x.Keeps P post g := by
  have kept : x.Keeps P (fun g' r => g' = g ∧ ends r) g := by
    refine h.of_allowed rfl fun g' q same asked => ?_
    subst same
    exact ignored q asked
  refine kept.mono fun g' r ended => ?_
  rw [ended.1]
  exact result r ended.2

theorem Keeps.transcript {shown exchanges : List ((q : Q) × A q)} (h : shown.Sublist exchanges)
    (x : Script Q A β) : x.Keeps .transcript (fun later _ => shown.Sublist later) exchanges := by
  induction x generalizing exchanges with
  | done b => exact h
  | ask q next ih =>
    exact ⟨trivial, fun a => ih a (h.trans (List.sublist_append_left exchanges [⟨q, a⟩]))⟩
  | abort => exact h

def Yields (good : β → Prop) (x : Script Q A β) : Prop :=
  x.Keeps (.only fun _ => True) (fun _ r => ∀ b, r = some b → good b) ()

theorem yields_done {good : β → Prop} {b : β} (h : good b) : (done b : Script Q A β).Yields good := by
  intro c same
  cases same
  exact h

theorem Yields.bind {good : β → Prop} {fine : γ → Prop} {x : Script Q A β} {f : β → Script Q A γ}
    (h : x.Yields good) (rest : ∀ b, good b → (f b).Yields fine) : (x.bind f).Yields fine := by
  refine (keeps_bind x f _).2 (Keeps.mono h fun g r results => ?_)
  cases r with
  | none => nofun
  | some b => exact rest b (results b rfl)

end Script

namespace Operation

variable {α β γ σ : Type}

/-- How an operation may end: with a result, with a failure, or not at all. -/
abbrev Ending (β : Type) := Option (Except BrokerError β)

/-- What to prove of the end of a part: `rest` of its result, and `post` of an early end. -/
def proceed (post : σ → Ending γ → Prop) (rest : σ → β → Prop) : σ → Ending β → Prop
  | g, some (.ok b) => rest g b
  | g, some (.error e) => post g (some (.error e))
  | g, none => post g none

@[simp] theorem proceed_ok (post : σ → Ending γ → Prop) (rest : σ → β → Prop) (g : σ) (b : β) :
    proceed post rest g (some (.ok b)) = rest g b := rfl

@[simp] theorem proceed_error (post : σ → Ending γ → Prop) (rest : σ → β → Prop) (g : σ)
    (e : BrokerError) : proceed post rest g (some (.error e)) = post g (some (.error e)) := rfl

@[simp] theorem proceed_none (post : σ → Ending γ → Prop) (rest : σ → β → Prop) (g : σ) :
    proceed post rest g none = post g none := rfl

def Keeps (P : Protocol σ (Request α) Request.Answer) (post : σ → Ending β → Prop)
    (x : Operation α β) (g : σ) : Prop := Script.Keeps P post x.run g

variable {P : Protocol σ (Request α) Request.Answer}

variable {post : σ → Ending β → Prop} {g : σ}

theorem Keeps.mono {post' : σ → Ending β → Prop} {x : Operation α β}
    (h : x.Keeps P post g) (weaker : ∀ g r, post g r → post' g r) : x.Keeps P post' g :=
  Script.Keeps.mono h weaker

@[simp] theorem keeps_pure (b : β) :
    Keeps P post (pure b : Operation α β) g ↔ post g (some (.ok b)) := Iff.rfl

@[simp] theorem keeps_bind (x : Operation α γ) (f : γ → Operation α β) :
    Keeps P post (x >>= f) g ↔ Keeps P (proceed post fun g c => Keeps P post (f c) g) x g := by
  refine (Script.keeps_bind x.run _ g).trans (iff_of_eq ?_)
  unfold Keeps
  congr 1
  funext g r
  rcases r with _ | _ | _ <;> rfl

theorem Keeps.bind {first : σ → Ending γ → Prop} {x : Operation α γ} {f : γ → Operation α β}
    (h : x.Keeps P first g) (stuck : ∀ g, first g none → post g none)
    (fails : ∀ g e, first g (some (.error e)) → post g (some (.error e)))
    (rest : ∀ g c, first g (some (.ok c)) → (f c).Keeps P post g) : (x >>= f).Keeps P post g := by
  refine (keeps_bind x f).2 (h.mono fun g r ended => ?_)
  rcases r with _ | e | c
  · exact stuck g ended
  · exact fails g e ended
  · exact rest g c ended

@[simp] theorem keeps_ask (q : Request α) (post : σ → Ending q.Answer → Prop) :
    Keeps P post (ask q) g ↔ P.allows g q ∧ ∀ a, post (P.next g q a) (some (.ok a)) := Iff.rfl

@[simp] theorem keeps_tryStore (call : StoreCall α)
    (post : σ → Ending (Except StoreError call.Answer) → Prop) :
    Keeps P post (tryStore call) g ↔
      P.allows g (.store call) ∧ ∀ a, post (P.next g (.store call) a) (some (.ok a)) := Iff.rfl

@[simp] theorem keeps_store (call : StoreCall α) (post : σ → Ending call.Answer → Prop) :
    Keeps P post (store call) g ↔
      P.allows g (.store call) ∧
        (∀ a, post (P.next g (.store call) (Except.ok a)) (some (.ok a))) ∧
        ∀ e, post (P.next g (.store call) (Except.error e)) (some (.error (.store e))) := by
  rw [store, keeps_bind, keeps_tryStore]
  refine and_congr_right fun _ => ⟨fun h => ⟨fun a => h (.ok a), fun e => h (.error e)⟩, ?_⟩
  rintro ⟨ok, error⟩ (e | a)
  · exact error e
  · exact ok a

@[simp] theorem keeps_record (event : Event) (post : σ → Ending Unit → Prop) :
    Keeps P post (record event) g ↔
      P.allows g (.record event) ∧ ∀ a, post (P.next g (.record event) a) (some (.ok ())) := Iff.rfl

@[simp] theorem keeps_orAbort (value : Option β) :
    Keeps P post (orAbort value : Operation α β) g ↔ post g (value.map .ok) := by
  cases value <;> rfl

@[simp] theorem keeps_attempt (x : Operation α β) (post : σ → Ending Unit → Prop) :
    Keeps P post (attempt x) g ↔ Keeps P (fun g r => post g (r.map fun _ => .ok ())) x g := by
  refine (keeps_bind _ _).trans ?_
  refine (Script.keeps_bind x.run _ g).trans (iff_of_eq ?_)
  unfold Keeps
  congr 1
  funext g r
  rcases r with _ | r <;> rfl

/-! ### What an operation asks -/

def Within (asks : Request α → Prop) (breaks : Prop) (x : Operation α β) : Prop :=
  Script.Within asks breaks x.run

variable {asks : Request α → Prop} {breaks : Prop}

theorem Within.bind {x : Operation α γ} {f : γ → Operation α β} (h : x.Within asks breaks)
    (rest : ∀ c, (f c).Within asks breaks) : (x >>= f).Within asks breaks := by
  refine Script.Within.bind h fun c => ?_
  cases c with
  | error e => exact fun none => nomatch none
  | ok c => exact rest c

theorem within_pure (b : β) : (pure b : Operation α β).Within asks breaks :=
  fun none => nomatch none

theorem within_throw (e : BrokerError) : (throw e : Operation α β).Within asks breaks :=
  fun none => nomatch none

theorem within_ask {q : Request α} (h : asks q) : (ask q).Within asks breaks :=
  ⟨h, fun _ none => nomatch none⟩

theorem within_store {call : StoreCall α} (h : asks (.store call)) :
    (store call).Within asks breaks :=
  (within_ask h).bind fun answer => by
    cases answer with
    | ok answer => exact within_pure answer
    | error e => exact within_throw _

theorem within_record {event : Event} (h : asks (.record event)) :
    (record event).Within asks breaks := within_ask h

theorem within_ofCollaborator (answer : Except CollaboratorError β) :
    (ofCollaborator answer : Operation α β).Within asks breaks := by
  cases answer with
  | ok b => exact within_pure b
  | error e => exact within_throw _

theorem within_ofValidation (answer : Except ValidationError β) :
    (ofValidation answer : Operation α β).Within asks breaks := by
  cases answer with
  | ok b => exact within_pure b
  | error e => exact within_throw _

theorem within_orAbort {value : Option β} (h : value = none → breaks) :
    (orAbort value : Operation α β).Within asks breaks := by
  cases value with
  | none => exact fun _ => h rfl
  | some b => exact fun none => nomatch none

theorem Within.orAbort_bind {value : Option γ} {f : γ → Operation α β} (aborts : value = none → breaks)
    (rest : ∀ c, value = some c → (f c).Within asks breaks) :
    (Operation.orAbort value >>= f).Within asks breaks := by
  cases value with
  | none => exact fun _ => aborts rfl
  | some c => exact rest c rfl

theorem Within.attempt {x : Operation α β} (h : x.Within asks breaks) :
    (attempt x).Within asks breaks := by
  have lifted : Within asks breaks (ExceptT.lift x.run : Operation α (Except BrokerError β)) :=
    Script.Within.bind h fun r => within_pure r
  exact Within.bind lifted fun _ => within_pure ()

theorem Within.keeps_attempt {x : Operation α β} (h : x.Within asks breaks) :
    Keeps (.only asks) (fun _ r => r = some (.ok ()) ∨ r = none ∧ breaks) (Operation.attempt x) () := by
  rw [Operation.keeps_attempt]
  refine Script.Keeps.mono h fun g r ended => ?_
  cases r with
  | none => exact .inr ⟨rfl, ended rfl⟩
  | some r => exact .inl rfl

theorem Within.attempt_settles {x : Operation α β} (h : x.Within asks False) :
    Keeps (.only asks) (fun _ r => r = some (.ok ())) (Operation.attempt x) () :=
  Script.Keeps.mono h.keeps_attempt fun _ _ ended => ended.resolve_right And.right

theorem keeps_choose_transcript {d : Random.Draw β} {good : β → Prop} (h : d.Yields good)
    {shown exchanges : List ((q : Request α) × q.Answer)} (kept : shown.Sublist exchanges) :
    (choose d).Keeps .transcript
      (fun later r => shown.Sublist later ∧ ∀ b, r = some (.ok b) → good b) exchanges := by
  refine (Script.keeps_bind (d.lift _) _ _).2 ?_
  induction d generalizing exchanges with
  | done b =>
    refine ⟨kept, fun c same => ?_⟩
    cases same
    exact h b rfl
  | ask q next ih =>
    exact ⟨trivial, fun a => ih a (h.2 a)
      (kept.trans (List.sublist_append_left exchanges [⟨.word q, a⟩]))⟩
  | abort => exact ⟨kept, nofun⟩

theorem keeps_choose_bind {d : Random.Draw γ} {f : γ → Operation α β} {good : γ → Prop}
    (stays : σ → Prop) (now : stays g)
    (words : ∀ g q, stays g → P.allows g (.word q) ∧ ∀ a, stays (P.next g (.word q) a))
    (returns : d.Returns good) (rest : ∀ g c, stays g → good c → (f c).Keeps P post g) :
    (choose d >>= f).Keeps P post g := by
  induction d generalizing g with
  | done c => exact rest g c now returns
  | ask q next ih =>
    have here := words g q now
    exact ⟨here.1, fun a => ih a (here.2 a) (returns a)⟩
  | abort => exact returns.elim

theorem Within.choose_bind {d : Random.Draw γ} {f : γ → Operation α β} {good : γ → Prop}
    (words : ∀ q, asks (.word q)) (returns : d.Returns good)
    (rest : ∀ c, good c → (f c).Within asks breaks) : (choose d >>= f).Within asks breaks :=
  keeps_choose_bind (fun _ => True) trivial (fun _ q _ => ⟨words q, fun _ => trivial⟩) returns
    fun _ c _ fine => rest c fine

theorem within_choose_of_returns {d : Random.Draw β} {good : β → Prop}
    (words : ∀ q, asks (.word q)) (returns : d.Returns good) :
    (choose d : Operation α β).Within asks breaks := by
  have chosen : (choose d >>= pure : Operation α β).Within asks breaks :=
    Within.choose_bind words returns fun b _ => within_pure b
  rwa [bind_pure] at chosen

theorem within_choose {d : Random.Draw β} (words : ∀ q, asks (.word q)) (h : breaks) :
    (choose d : Operation α β).Within asks breaks := by
  refine Script.Within.bind (x := d.lift _) ?_ fun _ none => nomatch none
  induction d with
  | done b => exact fun none => nomatch none
  | ask q next ih => exact ⟨words q, fun a => ih a⟩
  | abort => exact fun _ => h

end Operation

end Matchmaker
