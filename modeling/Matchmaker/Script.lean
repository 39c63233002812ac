/-!
Scripts: computations that ask for things and go on with the answers. A script is a finite tree, so
what it does under any answers, and between any two of its questions, can be stated.
-/
namespace Matchmaker

/-- A computation with questions `Q`, the answers to `q` being of type `A q`, and a result. -/
inductive Script (Q : Type) (A : Q → Type) (β : Type) : Type where
  | done (result : β)
  | ask (question : Q) (next : A question → Script Q A β)
  /-- The script cannot go on. -/
  | abort

namespace Script

variable {Q R : Type} {A : Q → Type} {B : R → Type} {β γ σ : Type}

def bind : Script Q A β → (β → Script Q A γ) → Script Q A γ
  | done result, f => f result
  | ask question next, f => ask question fun answer => (next answer).bind f
  | abort, _ => abort

instance : Monad (Script Q A) where
  pure := done
  bind := bind

def question (q : Q) : Script Q A (A q) := ask q done

def orAbort : Option β → Script Q A β
  | some value => done value
  | none => abort

def lift (f : (q : Q) → Script R B (A q)) : Script Q A β → Script R B β
  | done result => done result
  | ask q next => (f q).bind fun answer => (next answer).lift f
  | abort => abort

/-- Plays a script against a state that answers; an aborted script has no result. -/
def run (answer : (q : Q) → σ → A q × σ) : Script Q A β → σ → Option β × σ
  | done result, s => (some result, s)
  | ask q next, s =>
    let (a, s) := answer q s
    (next a).run answer s
  | abort, s => (none, s)

theorem bind_done (x : Script Q A β) : x.bind done = x := by
  induction x with
  | done => rfl
  | ask q next ih => simp [bind, ih]
  | abort => rfl

theorem bind_assoc {δ : Type} (x : Script Q A β) (f : β → Script Q A γ) (g : γ → Script Q A δ) :
    (x.bind f).bind g = x.bind fun b => (f b).bind g := by
  induction x with
  | done => rfl
  | ask q next ih => simp [bind, ih]
  | abort => rfl

instance : LawfulMonad (Script Q A) := LawfulMonad.mk' _
  (fun x => bind_done x) (fun _ _ => rfl) (fun x f g => bind_assoc x f g)

theorem run_bind (answer : (q : Q) → σ → A q × σ) (x : Script Q A β) (f : β → Script Q A γ)
    (s : σ) :
    (x.bind f).run answer s =
      match x.run answer s with
      | (some b, s) => (f b).run answer s
      | (none, s) => (none, s) := by
  induction x generalizing s with
  | done => rfl
  | ask q next ih => simp [bind, run, ih]
  | abort => rfl

end Script

end Matchmaker
