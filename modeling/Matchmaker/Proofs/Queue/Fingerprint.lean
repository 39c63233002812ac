import Mathlib.Algebra.Group.Nat.Defs
import Matchmaker.Proofs.Decimal.Digits
import Matchmaker.Queue.Definition

/-!
What a fingerprint tells apart. Each part of a canonical text can be read off its front whatever
follows, so that the text determines the definition, and a digest shows all the bits of its words:
two definitions share a fingerprint only where SHA-256 collides on their texts.
-/
namespace Matchmaker

/-! ### Parts that can be read off the front of a text -/

/-- The written form of a value shows where it ends. -/
def Delimits {β : Type} (write : β → List Char) : Prop :=
  ∀ (x y : β) (rest rest' : List Char), write x ++ rest = write y ++ rest' → x = y ∧ rest = rest'

namespace Delimits

variable {β : Type} {write : β → List Char}

theorem of_length {n : Nat} (length : ∀ x, (write x).length = n)
    (injective : ∀ x y, write x = write y → x = y) : Delimits write := by
  intro x y rest rest' h
  obtain ⟨same, tail⟩ := List.append_inj h ((length x).trans (length y).symm)
  exact ⟨injective x y same, tail⟩

theorem flatMap_inj (delimits : Delimits write) {xs ys : List β} (length : xs.length = ys.length)
    (h : xs.flatMap write = ys.flatMap write) : xs = ys := by
  induction xs generalizing ys with
  | nil => exact (List.length_eq_zero_iff.1 length.symm).symm
  | cons x xs ih =>
    obtain ⟨y, ys, rfl⟩ := List.exists_cons_of_length_eq_add_one length.symm
    rw [List.flatMap_cons, List.flatMap_cons] at h
    obtain ⟨rfl, tail⟩ := delimits x y _ _ h
    rw [ih (Nat.succ.inj length) tail]

theorem items (delimits : Delimits write) {mark stop : Char}
    (begins : ∀ x, ∃ c rest, write x = c :: rest ∧ c ≠ stop) :
    Delimits fun xs : List β => xs.flatMap (fun x => write x ++ [mark]) ++ [stop] := by
  intro xs ys rest rest' h
  -- An item against the end of the other list: the first characters differ.
  have clash (x : β) (tail tail' : List Char) : write x ++ tail ≠ stop :: tail' := by
    obtain ⟨c, more, same, other⟩ := begins x
    rw [same]
    exact fun equal => other (List.cons.inj equal).1
  induction xs generalizing ys with
  | nil =>
    cases ys with
    | nil => exact ⟨rfl, (List.cons.inj h).2⟩
    | cons y ys =>
      simp only [List.flatMap_cons, List.append_assoc] at h
      exact absurd h.symm (clash y _ rest)
  | cons x xs ih =>
    cases ys with
    | nil =>
      simp only [List.flatMap_cons, List.append_assoc] at h
      exact absurd h (clash x _ rest')
    | cons y ys =>
      simp only [List.flatMap_cons, List.append_assoc] at h
      obtain ⟨rfl, tail⟩ := delimits x y _ _ h
      have later := (List.cons.inj tail).2
      simp only [← List.append_assoc] at later
      obtain ⟨rfl, same⟩ := ih ys later
      exact ⟨rfl, same⟩

end Delimits

namespace Definition

/-! ### Texts and fields -/

theorem toList_append_inj {s t : String} (size : s.utf8ByteSize = t.utf8ByteSize)
    {rest rest' : List Char} (h : s.toList ++ rest = t.toList ++ rest') : s = t ∧ rest = rest' := by
  have nothing {s t : String} {more : List Char} (size : s.utf8ByteSize = t.utf8ByteSize)
      (longer : t.toList = s.toList ++ more) : more = [] := by
    have whole : t = s ++ String.ofList more := by
      rw [← String.toList_inj, longer, String.toList_append, String.toList_ofList]
    have none : (String.ofList more).utf8ByteSize = 0 := by
      rw [whole, String.utf8ByteSize_append] at size
      omega
    rw [String.utf8ByteSize_eq_zero_iff] at none
    exact String.ofList_inj.1 none
  rcases List.append_eq_append_iff.1 h with ⟨more, longer, same⟩ | ⟨more, longer, same⟩
  · obtain rfl := nothing size longer
    rw [List.append_nil] at longer
    exact ⟨String.toList_inj.1 longer.symm, same⟩
  · obtain rfl := nothing size.symm longer
    rw [List.append_nil] at longer
    exact ⟨String.toList_inj.1 longer, same.symm⟩

theorem delimits_measured : Delimits measured := by
  intro s t rest rest' h
  simp only [measured, List.append_assoc, List.cons_append] at h
  have colon (tail : List Char) : ∀ c ∈ (':' :: tail).head?, Decimal.isDigit c = false := by
    rintro c ⟨⟩
    rfl
  obtain ⟨size, tail⟩ := Decimal.natChars_append_inj (colon _) (colon _) h
  exact toList_append_inj size (List.cons.inj tail).2

theorem canonicalField_append (name : String) (content rest : List Char) :
    canonicalField name content ++ rest = name.toList ++ '=' :: (content ++ ';' :: rest) := by
  simp [canonicalField]

theorem delimits_field {β : Type} {write : β → List Char} (delimits : Delimits write)
    (name : String) : Delimits fun x => canonicalField name (write x) := by
  intro x y rest rest' h
  simp only [canonicalField_append, List.append_cancel_left_eq, List.cons.injEq, true_and] at h
  obtain ⟨rfl, tail⟩ := delimits x y _ _ h
  exact ⟨rfl, (List.cons.inj tail).2⟩

theorem delimits_numberField (name : String) :
    Delimits fun n => canonicalField name (Decimal.natChars n) := by
  intro m n rest rest' h
  simp only [canonicalField_append, List.append_cancel_left_eq, List.cons.injEq, true_and] at h
  have semicolon (tail : List Char) : ∀ c ∈ (';' :: tail).head?, Decimal.isDigit c = false := by
    rintro c ⟨⟩
    rfl
  obtain ⟨rfl, tail⟩ := Decimal.natChars_append_inj (semicolon _) (semicolon _) h
  exact ⟨rfl, (List.cons.inj tail).2⟩

theorem delimits_canonicalSet : Delimits canonicalSet := by
  have begins (s : String) : ∃ c rest, measured s = c :: rest ∧ c ≠ ']' := by
    obtain ⟨c, rest, same, digit⟩ := Decimal.exists_natChars s.utf8ByteSize
    refine ⟨c, rest ++ ':' :: s.toList, by rw [measured, same, List.cons_append], ?_⟩
    rintro rfl
    cases digit
  have listed : Delimits fun values : List String =>
      values.flatMap (fun value => measured value ++ [',']) ++ [']'] :=
    delimits_measured.items begins
  intro x y rest rest' h
  rcases x with _ | x <;> rcases y with _ | y
  · exact ⟨rfl, (List.cons.inj h).2⟩
  · exact absurd (List.cons.inj h).1 (by decide)
  · exact absurd (List.cons.inj h).1 (by decide)
  · obtain ⟨same, tail⟩ := listed x.toList y.toList rest rest' (List.cons.inj h).2
    rw [Std.ExtTreeSet.toList_inj] at same
    exact ⟨congrArg some same, tail⟩

theorem canonical_append (d : Definition) (rest : List Char) :
    d.canonical ++ rest =
      canonicalField "ownerIdentity" (measured d.ownerIdentity)
        ++ (canonicalField "ownerGroup" (measured d.ownerGroup)
        ++ (canonicalField "setup" (measured d.setup)
        ++ (canonicalField "cpuTime" (Decimal.natChars d.cpuTime)
        ++ ((d.values.entries.flatMap fun (a, declared) =>
          canonicalField a.tag (canonicalSet declared)) ++ rest)))) := by
  simp only [canonical, List.append_assoc]

theorem get_eq_of_entries {s t : Attribute.Table (Option TextSet)} {attributes : List Attribute}
    (h : (attributes.flatMap fun a => canonicalField a.tag (canonicalSet (s.get a))) =
      attributes.flatMap fun a => canonicalField a.tag (canonicalSet (t.get a))) :
    ∀ a ∈ attributes, s.get a = t.get a := by
  induction attributes with
  | nil => exact fun _ mem => absurd mem List.not_mem_nil
  | cons b rest ih =>
    rw [List.flatMap_cons, List.flatMap_cons] at h
    obtain ⟨here, later⟩ := delimits_field delimits_canonicalSet b.tag _ _ _ _ h
    intro a mem
    rcases List.mem_cons.1 mem with rfl | mem
    · exact here
    · exact ih later a mem

theorem canonical_injective {d e : Definition} (h : d.canonical = e.canonical) : d = e := by
  have texts := congrArg (· ++ []) h
  simp only [canonical_append] at texts
  obtain ⟨identity, texts⟩ := delimits_field delimits_measured _ _ _ _ _ texts
  obtain ⟨group, texts⟩ := delimits_field delimits_measured _ _ _ _ _ texts
  obtain ⟨setup, texts⟩ := delimits_field delimits_measured _ _ _ _ _ texts
  obtain ⟨time, texts⟩ := delimits_numberField _ _ _ _ _ texts
  have values : d.values = e.values := by
    simp only [Attribute.Table.entries, List.flatMap_map, List.append_nil] at texts
    exact Attribute.Table.ext_get fun a => get_eq_of_entries texts a a.mem_all
  cases d
  cases e
  simp_all

end Definition

/-! ### Digests -/

namespace Digest

theorem length_hexPlaces (places n : Nat) : (Text.hexPlaces places n).length = places := by
  induction places generalizing n with
  | zero => rfl
  | succ places ih => rw [Text.hexPlaces, List.length_append, ih, List.length_singleton]

theorem hexDigit_inj {m n : Nat} (h : Text.hexDigit m = Text.hexDigit n) : m % 16 = n % 16 := by
  have all : ∀ m < 16, ∀ n < 16, Nat.digitChar m = Nat.digitChar n → m = n := by decide
  exact all _ (Nat.mod_lt m (by decide)) _ (Nat.mod_lt n (by decide)) h

theorem hexPlaces_inj {places m n : Nat}
    (h : Text.hexPlaces places m = Text.hexPlaces places n) : m % 16 ^ places = n % 16 ^ places := by
  induction places generalizing m n with
  | zero => rw [Nat.pow_zero, Nat.mod_one, Nat.mod_one]
  | succ places ih =>
    rw [Text.hexPlaces, Text.hexPlaces] at h
    obtain ⟨upper, last⟩ := List.append_inj' h rfl
    have high := ih upper
    have low := hexDigit_inj (List.cons.inj last).1
    rw [Nat.pow_succ, Nat.mul_comm, Nat.mod_mul, Nat.mod_mul, high, low]

theorem delimits_hexWord : Delimits fun word : Word => Text.hexPlaces 8 word.toNat := by
  refine .of_length (fun word => length_hexPlaces 8 word.toNat) fun x y h => ?_
  have same : x.toNat % 2 ^ 32 = y.toNat % 2 ^ 32 := hexPlaces_inj h
  rw [Nat.mod_eq_of_lt x.toNat_lt, Nat.mod_eq_of_lt y.toNat_lt] at same
  exact UInt32.toNat_inj.1 same

theorem toList_working_inj {v w : Working} (h : v.toList = w.toList) : v = w := by
  cases v
  cases w
  simpa [Working.toList] using h

theorem sha256Text_eq_iff {s t : String} :
    sha256Text s = sha256Text t ↔ sha256 s.toUTF8.toList = sha256 t.toUTF8.toList := by
  have eight (w : Working) : w.toList.length = 8 := rfl
  constructor
  · intro h
    rw [sha256Text, sha256Text, String.ofList_inj] at h
    exact toList_working_inj
      (delimits_hexWord.flatMap_inj ((eight _).trans (eight _).symm) h)
  · intro h
    rw [sha256Text, sha256Text, h]

theorem toList_loop (bytes : ByteArray) (i : Nat) (before : List UInt8) :
    ByteArray.toList.loop bytes i before = before.reverse ++ bytes.data.toList.drop i := by
  induction i, before using ByteArray.toList.loop.induct bytes with
  | case1 i before inside ih =>
    have here : bytes.data.toList.drop i = bytes.get! i :: bytes.data.toList.drop (i + 1) := by
      have bound : i < bytes.data.size := inside
      rw [List.drop_eq_getElem_cons (by simpa using bound), Array.getElem_toList]
      exact congrArg (· :: _) (getElem!_pos bytes.data i bound).symm
    rw [ByteArray.toList.loop, if_pos inside, ih, here, List.reverse_cons, List.append_assoc,
      List.singleton_append]
  | case2 i before outside =>
    have none : bytes.data.toList.drop i = [] := by
      rw [List.drop_eq_nil_iff]
      simpa using outside
    rw [ByteArray.toList.loop, if_neg outside, none, List.append_nil]

theorem toUTF8_toList_inj {s t : String} (h : s.toUTF8.toList = t.toUTF8.toList) : s = t := by
  have listed (bytes : ByteArray) : bytes.toList = bytes.data.toList := toList_loop bytes 0 []
  rw [listed, listed, Array.toList_inj] at h
  exact String.toByteArray_inj.1 (ByteArray.ext h)

/-- Two byte strings have one digest. -/
def Collide (x y : List UInt8) : Prop := x ≠ y ∧ sha256 x = sha256 y
  deriving Decidable

theorem Collide.symm {x y : List UInt8} (h : Collide x y) : Collide y x := ⟨h.1.symm, h.2.symm⟩

end Digest

/-! ### Definitions -/

namespace Definition

def bytes (d : Definition) : List UInt8 := (String.ofList d.canonical).toUTF8.toList

theorem bytes_injective {d e : Definition} (h : d.bytes = e.bytes) : d = e :=
  canonical_injective (String.ofList_inj.1 (Digest.toUTF8_toList_inj h))

/-- All single values are equal, and each attribute has no set in both or sets with the same
members. -/
structure Agrees (d e : Definition) : Prop where
  ownerIdentity : d.ownerIdentity = e.ownerIdentity
  ownerGroup : d.ownerGroup = e.ownerGroup
  setup : d.setup = e.setup
  cpuTime : d.cpuTime = e.cpuTime
  values : ∀ a, d.values.get a = none ∧ e.values.get a = none ∨
    ∃ x y, d.values.get a = some x ∧ e.values.get a = some y ∧ ∀ value, value ∈ x ↔ value ∈ y

theorem agrees_iff_eq {d e : Definition} : d.Agrees e ↔ d = e := by
  constructor
  · rintro ⟨identity, group, setup, time, values⟩
    have table : d.values = e.values := by
      refine Attribute.Table.ext_get fun a => ?_
      rcases values a with ⟨absent, absent'⟩ | ⟨x, y, here, there, members⟩
      · rw [absent, absent']
      · rw [here, there, Std.ExtTreeSet.ext_mem members]
    cases d
    cases e
    simp_all
  · rintro rfl
    refine ⟨rfl, rfl, rfl, rfl, fun a => ?_⟩
    cases declared : d.values.get a with
    | none => exact .inl ⟨rfl, rfl⟩
    | some x => exact .inr ⟨x, x, rfl, rfl, fun _ => Iff.rfl⟩

theorem fingerprint_eq_iff {d e : Definition} :
    d.fingerprint = e.fingerprint ↔ d = e ∨ Digest.Collide d.bytes e.bytes := by
  rw [fingerprint, fingerprint, Digest.sha256Text_eq_iff]
  constructor
  · intro same
    by_cases equal : d = e
    · exact .inl equal
    · exact .inr ⟨mt bytes_injective equal, same⟩
  · rintro (rfl | ⟨-, same⟩)
    · rfl
    · exact same

/-- The text that is hashed is the same exactly for definitions that agree, so that two of them share
a fingerprint only if they agree or SHA-256 collides on their texts. -/
theorem fingerprint_separates (d e : Definition) :
    (String.ofList d.canonical = String.ofList e.canonical ↔ d.Agrees e) ∧
      (d.fingerprint = e.fingerprint ↔ d.Agrees e ∨ Digest.Collide d.bytes e.bytes) := by
  rw [agrees_iff_eq, String.ofList_inj]
  exact ⟨⟨canonical_injective, congrArg canonical⟩, fingerprint_eq_iff⟩

end Definition

end Matchmaker
