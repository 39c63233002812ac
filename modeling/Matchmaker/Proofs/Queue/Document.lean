import Matchmaker.Proofs.Json.Decode
import Matchmaker.Proofs.Queue.Attribute
import Matchmaker.Queue.Document

/-!
What of a definition its document keeps. Everything: it is read back as itself, an attribute without
a set as one without a set and an empty set as an empty set.
-/
namespace Matchmaker.Definition

/-! ### Declared sets -/

theorem setOfJson?_ofList (set : TextSet) : setOfJson? (.ofList .text set.toList) = some set := by
  rw [setOfJson?, Json.asTexts?_ofList, Option.map_some, TextSet.ofList_toList]

def declared (values : Attribute.Table (Option TextSet)) (attributes : List Attribute) :
    List (String × Json) :=
  attributes.filterMap fun a => (values.get a).map fun set => (a.tag, .ofList .text set.toList)

theorem valuesJson_eq (values : Attribute.Table (Option TextSet)) :
    valuesJson values = .record (declared values Attribute.all) := by
  simp only [valuesJson, Attribute.Table.present, Attribute.Table.entries, declared,
    List.filterMap_map, List.map_filterMap, Function.comp_def, Option.map_map]

theorem declare?_declared (values before : Attribute.Table (Option TextSet))
    (attributes : List Attribute) :
    ∃ after, declare? before (declared values attributes) = some after ∧
      ∀ a, after.get a =
        if a ∈ attributes ∧ values.get a ≠ none then values.get a else before.get a := by
  induction attributes generalizing before with
  | nil => exact ⟨before, rfl, fun a => by simp⟩
  | cons b rest ih =>
    cases here : values.get b with
    | none =>
      obtain ⟨after, read, entry⟩ := ih before
      refine ⟨after, by simpa [declared, here] using read, fun a => ?_⟩
      by_cases same : a = b
      · simp [entry, same, here]
      · simp [entry, same]
    | some set =>
      obtain ⟨after, read, entry⟩ := ih (before.set b (some set))
      refine ⟨after, ?_, fun a => ?_⟩
      · have written : declared values (b :: rest) =
            (b.tag, .ofList .text set.toList) :: declared values rest := by
          simp [declared, here]
        rw [written, declare?, Attribute.ofTag?_tag, setOfJson?_ofList]
        exact read
      · by_cases same : a = b
        · simp [entry, Attribute.Table.get_set, same, here]
        · simp [entry, Attribute.Table.get_set, same]

theorem valuesOfJson?_valuesJson (values : Attribute.Table (Option TextSet)) :
    valuesOfJson? (valuesJson values) = some values := by
  obtain ⟨after, read, entry⟩ :=
    declare?_declared values (.ofFn fun _ => none) Attribute.all
  have same : after = values := by
    apply Attribute.Table.ext_get
    intro a
    cases here : values.get a with
    | none => simp [entry, here]
    | some set => simp [entry, here, a.mem_all]
  rw [valuesOfJson?, valuesJson_eq, Json.asMembers?_record, Option.bind_some, read, same]

theorem writable_valuesJson (values : Attribute.Table (Option TextSet)) :
    (valuesJson values).Writable := by
  rw [valuesJson]
  apply Json.writable_record
  intro member mem
  obtain ⟨entry, -, rfl⟩ := List.mem_map.1 mem
  exact Json.writable_texts entry.2.toList

/-! ### Definitions -/

theorem writable_toJson (d : Definition) : d.toJson.Writable := by
  rw [toJson]
  apply Json.writable_record
  simp only [List.forall_mem_cons, List.not_mem_nil, false_imp_iff, implies_true, and_true]
  exact ⟨.text _, .text _, .text _, Json.writable_ofNat _, writable_valuesJson _⟩

theorem ofJson?_of_fields {j identity group setup time values : Json} {d : Definition}
    (fields : j.fields? ["ownerIdentity", "ownerGroup", "setup", "cpuTime", "multiValues"] =
      some [some identity, some group, some setup, some time, some values])
    (identity_read : identity.asText? = some d.ownerIdentity)
    (group_read : group.asText? = some d.ownerGroup) (setup_read : setup.asText? = some d.setup)
    (time_read : time.asWord? = some d.cpuTime)
    (values_read : valuesOfJson? values = some d.values) : ofJson? j = some d := by
  rw [ofJson?, fields]
  simp [Json.required?, identity_read, group_read, setup_read, time_read, values_read]

theorem ofJson?_toJson {d : Definition} (fits : d.cpuTime < 2 ^ 64) :
    ofJson? d.toJson = some d := by
  have fields := Json.fields?_record [("ownerIdentity", .text d.ownerIdentity),
    ("ownerGroup", .text d.ownerGroup), ("setup", .text d.setup), ("cpuTime", .ofNat d.cpuTime),
    ("multiValues", valuesJson d.values)] (by simp)
  exact ofJson?_of_fields fields rfl rfl rfl (Json.asWord?_ofNat fits)
    (valuesOfJson?_valuesJson d.values)

theorem parse?_text {d : Definition} (fits : d.cpuTime < 2 ^ 64) : parse? d.text = some d := by
  rw [parse?, text, Json.parse?_compactText d.writable_toJson, Option.bind_some,
    ofJson?_toJson fits]

def declaring (d : Definition) (a : Attribute) (entry : Option TextSet) : Definition :=
  { d with values := d.values.set a entry }

theorem get_declaring (d : Definition) (a : Attribute) (entry : Option TextSet) :
    (d.declaring a entry).values.get a = entry := by
  rw [declaring, Attribute.Table.get_set, if_pos rfl]

/-- A definition is read from its text as itself and so with its fingerprint, and of two documents
that differ only in an attribute without a set or with an empty one, each keeps its own. -/
theorem reads_back (d : Definition) (fits : d.cpuTime < 2 ^ 64) :
    (∃ e, parse? d.text = some e ∧ e = d ∧ e.fingerprint = d.fingerprint) ∧
      ∀ a, ∃ absent empty, parse? (d.declaring a none).text = some absent ∧
        parse? (d.declaring a (some ∅)).text = some empty ∧
        absent.values.get a = none ∧ empty.values.get a = some ∅ ∧ absent ≠ empty := by
  refine ⟨⟨d, parse?_text fits, rfl, rfl⟩, fun a => ?_⟩
  have none := d.get_declaring a none
  have some := d.get_declaring a (some ∅)
  refine ⟨d.declaring a .none, d.declaring a (.some ∅), parse?_text fits, parse?_text fits, none,
    some, fun same => ?_⟩
  rw [same, some] at none
  cases none

/-- Quotes, a backslash, control characters and characters of several bytes, the longest time, an
empty set and one of two texts. -/
def unusual : Definition where
  ownerIdentity := "CN=\"user\"\\\n\x01\x7f"
  ownerGroup := "größe 𝄞"
  setup := ""
  cpuTime := 2 ^ 64 - 1
  values := .ofFn fun a =>
    match a with
    | .sites => some ∅
    | .platforms => some (.ofList ["slc6\t", "\u2028"])
    | _ => none

theorem reads_back_unusual :
    unusual.cpuTime < 2 ^ 64 ∧
      ∃ e, parse? unusual.text = some e ∧ e = unusual ∧ e.fingerprint = unusual.fingerprint :=
  ⟨by decide, (reads_back unusual (by decide)).1⟩

end Matchmaker.Definition
