import Mathlib.Algebra.Group.Nat.Defs
import Matchmaker.Json.Decode
import Matchmaker.Proofs.Json.RoundTrip

/-!
What the typed views give of documents made of whole numbers, lists and records.
-/
namespace Matchmaker.Json

/-! ### Written forms -/

theorem writable_ofNat (n : Nat) : Writable (ofNat n) := by
  refine .number ⟨Decimal.digits_ne_nil n, Decimal.digits_ne_zero_cons n, ?_⟩
  simpa [Decimal.Parts.ofNat] using Decimal.digits_lt n

theorem writable_texts (texts : List String) : Writable (.ofList .text texts) := by
  refine .array fun item mem => ?_
  obtain ⟨s, -, rfl⟩ := List.mem_map.1 mem
  exact .text s

variable {members : List (String × Json)}

theorem writable_record (h : ∀ member ∈ members, Writable member.2) :
    Writable (record members) := by
  refine .object (fun member mem => ?_) (fun member mem => ?_)
  · obtain ⟨member, -, rfl⟩ := List.mem_map.1 mem
    exact Option.some_ne_none _
  · obtain ⟨member, here, rfl⟩ := List.mem_map.1 mem
    exact h member here

/-! ### Views -/

theorem asWord?_ofNat {n : Nat} (h : n < 2 ^ 64) : asWord? (ofNat n) = some n := by
  have read : asInt? (ofNat n) = some (n : Int) := by
    simp [ofNat, Decimal.Parts.ofNat, asInt?, Decimal.ofDigits_digits]
  have fits : (n : Int) < (Nat.pow 2 64 : Int) := Int.ofNat_lt.2 h
  rw [asWord?, read, Option.bind_some, if_pos (by simpa using fits), Int.toNat_natCast]

theorem mapM_map_some {β γ δ : Type} {f : γ → Option δ} {write : β → γ} {read : β → δ}
    (xs : List β) (h : ∀ x ∈ xs, f (write x) = some (read x)) :
    (xs.map write).mapM f = some (xs.map read) := by
  induction xs with
  | nil => rfl
  | cons x xs ih =>
    obtain ⟨here, later⟩ := List.forall_mem_cons.1 h
    rw [List.map_cons, List.mapM_cons, here, ih later]
    rfl

theorem asTexts?_ofList (texts : List String) : asTexts? (.ofList .text texts) = some texts := by
  have read : asTexts? (.ofList .text texts) = some (texts.map id) :=
    mapM_map_some texts fun _ _ => rfl
  rwa [List.map_id] at read

theorem asMembers?_record (members : List (String × Json)) :
    asMembers? (record members) = some members := by
  have read : asMembers? (record members) = some (members.map id) :=
    mapM_map_some members fun _ _ => rfl
  rwa [List.map_id] at read

theorem unique?_of_mem (distinct : (members.map Prod.fst).Nodup) {member : String × Json}
    (mem : member ∈ members) : unique? members member.1 = some (some member.2) := by
  have only : members.filter (fun other => other.1 = member.1) = [member] := by
    induction members with
    | nil => cases mem
    | cons first members ih =>
      obtain ⟨fresh, distinct⟩ := List.nodup_cons.1 distinct
      rcases List.mem_cons.1 mem with rfl | later
      · have none : members.filter (fun other => other.1 = member.1) = [] := by
          rw [List.filter_eq_nil_iff]
          intro other there same
          rw [decide_eq_true_eq] at same
          exact fresh (same ▸ List.mem_map_of_mem there)
        simp [none]
      · have other : first.1 ≠ member.1 := by
          intro same
          exact fresh (same ▸ List.mem_map_of_mem later)
        simp [other, ih distinct later]
  rw [unique?, only]

theorem fields?_record (members : List (String × Json))
    (distinct : (members.map Prod.fst).Nodup) :
    fields? (members.map Prod.fst) (record members) = some (members.map fun m => some m.2) := by
  have found : (members.map Prod.fst).mapM (unique? members) =
      some (members.map fun m => some m.2) :=
    mapM_map_some members fun member mem => unique?_of_mem distinct mem
  rw [← found, record, fields?]
  exact congrArg (Option.bind · _) (asMembers?_record members)

end Matchmaker.Json
