import Matchmaker.Broker.Recalculation

/-!
What is known of settings that have passed their checks.
-/
namespace Matchmaker

theorem exists_ok_of_bind {ε β γ : Type} {x : Except ε β} {f : β → Except ε γ} {c : γ}
    (h : x >>= f = .ok c) : ∃ b, x = .ok b ∧ f b = .ok c := by
  cases x with
  | error e => cases h
  | ok b => exact ⟨b, rfl, h⟩

variable {α : Type} [Scalar α]

structure Policy.Sound (p : Policy α) : Prop where
  bounds : p.bounds.isValid = true
  insertAttempts : p.insertAttempts ≠ 0
  matchAttempts : p.matchAttempts ≠ 0
  candidateLimit : p.candidateLimit ≠ 0
  batchSize : p.batchSize ≠ 0
  minShare : Scalar.isWeight p.minShare = true

namespace Settings

omit [Scalar α] in
theorem of_demand {condition : Bool} {fault : SettingsFault α} {u : Unit}
    (h : demand condition fault = .ok u) : condition = true := by
  unfold demand at h
  split at h
  · assumption
  · cases h

theorem sound_of_policy {s : Settings α} {p : Policy α} (h : s.policy = .ok p) : p.Sound := by
  obtain ⟨segments, -, h⟩ := exists_ok_of_bind h
  obtain ⟨_, bounds, h⟩ := exists_ok_of_bind h
  obtain ⟨_, -, h⟩ := exists_ok_of_bind h
  obtain ⟨_, insertAttempts, h⟩ := exists_ok_of_bind h
  obtain ⟨_, matchAttempts, h⟩ := exists_ok_of_bind h
  obtain ⟨_, candidateLimit, h⟩ := exists_ok_of_bind h
  obtain ⟨_, batchSize, h⟩ := exists_ok_of_bind h
  obtain ⟨_, minShare, h⟩ := exists_ok_of_bind h
  obtain ⟨_, -, h⟩ := exists_ok_of_bind h
  obtain ⟨_, -, h⟩ := exists_ok_of_bind h
  cases h
  exact ⟨of_demand bounds, of_decide_eq_true (of_demand insertAttempts),
    of_decide_eq_true (of_demand matchAttempts), of_decide_eq_true (of_demand candidateLimit),
    of_decide_eq_true (of_demand batchSize), of_demand minShare⟩

end Settings

/-- The settings of a broker have passed their checks. -/
structure Broker.Validated (b : Broker α) : Prop where
  policy : ∃ settings : Settings α, settings.policy = .ok b.policy
  history : ∀ settings ∈ b.history, settings.fault? = none

theorem Broker.Validated.sound {b : Broker α} (h : b.Validated) : b.policy.Sound := by
  obtain ⟨settings, made⟩ := h.policy
  exact Settings.sound_of_policy made

end Matchmaker
