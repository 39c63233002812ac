import Matchmaker.Proofs.Queue.Attribute
import Matchmaker.Proofs.Queue.Segments
import Matchmaker.Proofs.Settings.Policy
import Matchmaker.Proofs.Text.Blank
import Matchmaker.Queue.Requirements

/-!
From requirements to the definition of a queue. Fields are checked in order and the first one at
fault is reported, whatever comes after it. What passes has a definition in normal form, which is
its own definition, and requirements have the same one exactly when they differ in blanks around
texts, in order and repetition within lists, and in times of one segment only.
-/
namespace Matchmaker

theorem bind_eq_error_iff {ε β γ : Type} {x : Except ε β} {f : β → Except ε γ} {e : ε} :
    x >>= f = .error e ↔ x = .error e ∨ ∃ b, x = .ok b ∧ f b = .error e := by
  cases x with
  | error e' => simp [bind, Except.bind]
  | ok b => simp [bind, Except.bind]

theorem Attribute.Table.get_of_build {ε β : Type} {f : Attribute → Except ε β} {t : Table β}
    (h : build f = .ok t) (a : Attribute) : f a = .ok (t.get a) := by
  obtain ⟨sites, h₁, h⟩ := exists_ok_of_bind h
  obtain ⟨computeElements, h₂, h⟩ := exists_ok_of_bind h
  obtain ⟨middlewares, h₃, h⟩ := exists_ok_of_bind h
  obtain ⟨bannedSites, h₄, h⟩ := exists_ok_of_bind h
  obtain ⟨platforms, h₅, h⟩ := exists_ok_of_bind h
  obtain ⟨pilotTypes, h₆, h⟩ := exists_ok_of_bind h
  obtain ⟨submitPools, h₇, h⟩ := exists_ok_of_bind h
  cases h
  cases a <;> assumption

theorem Text.eq_trim_of_content? {given text : String} (h : Text.content? given = some text) :
    text = Text.trim given := by
  unfold content? at h
  dsimp only at h
  split at h
  · cases h
  · exact (Option.some.inj h).symm

namespace Requirements

/-! ### Faults -/

inductive Field where
  | ownerIdentity
  | ownerGroup
  | setup
  | cpuTime
  | list (a : Attribute)

def Field.all : List Field :=
  [ownerIdentity, ownerGroup, setup, cpuTime] ++ Attribute.all.map list

theorem Field.mem_all (field : Field) : field ∈ all := by
  cases field with
  | list a => exact List.mem_append_right _ (List.mem_map_of_mem a.mem_all)
  | _ => simp [all]

inductive TextFault (field : String) : Option String → ValidationError → Prop where
  | missing : TextFault field none (.missingField field)
  | blank {given : String} :
    Text.Blank given → TextFault field (some given) (.emptyField field)

inductive ListFault (a : Attribute) : Option (List String) → ValidationError → Prop where
  | empty : ListFault a (some []) (.emptyList a.tag)
  | blank {given : List String} {value : String} : value ∈ given → Text.Blank value →
    ListFault a (some given) (.invalidValue a.tag "list values must not be blank")

def Fault (r : Requirements) (e : ValidationError) : Field → Prop
  | .ownerIdentity => TextFault "ownerIdentity" r.ownerIdentity e
  | .ownerGroup => TextFault "ownerGroup" r.ownerGroup e
  | .setup => TextFault "setup" r.setup e
  | .cpuTime => r.cpuTime = none ∧ e = .missingField "cpuTime"
  | .list a => ListFault a (r.lists.get a) e

inductive FirstFault (r : Requirements) (e : ValidationError) : List Field → Prop where
  | here {field : Field} {rest : List Field} : r.Fault e field → FirstFault r e (field :: rest)
  | later {field : Field} {rest : List Field} : (∀ e', ¬ r.Fault e' field) →
    FirstFault r e rest → FirstFault r e (field :: rest)

/-- The texts and the time are there, and no text and no list is blank or empty. -/
structure Complete (r : Requirements) : Prop where
  ownerIdentity : ∃ given ∈ r.ownerIdentity, ¬ Text.Blank given
  ownerGroup : ∃ given ∈ r.ownerGroup, ¬ Text.Blank given
  setup : ∃ given ∈ r.setup, ¬ Text.Blank given
  cpuTime : ∃ time, r.cpuTime = some time
  lists : ∀ a, ∀ given ∈ r.lists.get a, given ≠ [] ∧ ∀ value ∈ given, ¬ Text.Blank value

variable {r r' : Requirements} {segments : Segments} {d d' : Definition} {e : ValidationError}

theorem no_textFault_iff {field : String} {given : Option String} :
    (∀ e, ¬ TextFault field given e) ↔ ∃ text ∈ given, ¬ Text.Blank text := by
  constructor
  · intro sound
    cases given with
    | none => exact absurd .missing (sound _)
    | some text => exact ⟨text, rfl, fun blank => sound _ (.blank blank)⟩
  · rintro ⟨text, rfl, filled⟩ e (_ | blank)
    exact filled blank

theorem no_listFault_iff {a : Attribute} {given : Option (List String)} :
    (∀ e, ¬ ListFault a given e) ↔
      ∀ values ∈ given, values ≠ [] ∧ ∀ value ∈ values, ¬ Text.Blank value := by
  constructor
  · rintro sound values rfl
    refine ⟨?_, fun value mem blank => sound _ (.blank mem blank)⟩
    rintro rfl
    exact sound _ .empty
  · rintro complete e (_ | ⟨mem, blank⟩)
    · exact (complete [] rfl).1 rfl
    · exact (complete _ rfl).2 _ mem blank

theorem complete_iff : r.Complete ↔ ∀ field e, ¬ r.Fault e field := by
  constructor
  · intro h field
    cases field with
    | ownerIdentity => exact no_textFault_iff.2 h.ownerIdentity
    | ownerGroup => exact no_textFault_iff.2 h.ownerGroup
    | setup => exact no_textFault_iff.2 h.setup
    | cpuTime =>
      obtain ⟨time, given⟩ := h.cpuTime
      simp [Fault, given]
    | list a => exact no_listFault_iff.2 (h.lists a)
  · intro h
    have timed : r.cpuTime ≠ none := fun absent => h .cpuTime _ ⟨absent, rfl⟩
    exact ⟨no_textFault_iff.1 (h .ownerIdentity), no_textFault_iff.1 (h .ownerGroup),
      no_textFault_iff.1 (h .setup), Option.ne_none_iff_exists'.1 timed,
      fun a => no_listFault_iff.1 (h (.list a))⟩

theorem exists_firstFault_iff {fields : List Field} :
    (∃ e, r.FirstFault e fields) ↔ ∃ field ∈ fields, ∃ e, r.Fault e field := by
  induction fields with
  | nil =>
    constructor
    · rintro ⟨e, ⟨⟩⟩
    · simp
  | cons field rest ih =>
    by_cases sound : ∀ e, ¬ r.Fault e field
    · have next : (∃ e, r.FirstFault e (field :: rest)) ↔ ∃ e, r.FirstFault e rest := by
        constructor
        · rintro ⟨e, fault | ⟨-, later⟩⟩
          · exact absurd fault (sound e)
          · exact ⟨e, later⟩
        · rintro ⟨e, later⟩
          exact ⟨e, .later sound later⟩
      simp [next, ih, sound]
    · obtain ⟨e, fault⟩ := Classical.not_forall_not.1 sound
      exact ⟨fun _ => ⟨field, List.mem_cons_self, e, fault⟩, fun _ => ⟨e, .here fault⟩⟩

/-! ### Checks -/

theorem requiredText_eq_error_iff {field : String} {given : Option String} :
    requiredText field given = .error e ↔ TextFault field given e := by
  cases given with
  | none =>
    constructor
    · rintro ⟨⟩
      exact .missing
    · rintro ⟨⟩
      rfl
  | some given =>
    by_cases blank : Text.Blank given
    · simp only [requiredText, Text.content?_of_blank blank]
      constructor
      · rintro ⟨⟩
        exact .blank blank
      · rintro ⟨⟩
        rfl
    · simp only [requiredText, Text.content?_of_not_blank blank]
      constructor
      · rintro ⟨⟩
      · rintro (_ | blank')
        exact absurd blank' blank

theorem cleanValues_eq_error_iff {tag : String} {given : List String} :
    cleanValues tag given = .error e ↔
      (∃ value ∈ given, Text.Blank value) ∧
        e = .invalidValue tag "list values must not be blank" := by
  unfold cleanValues
  induction given with
  | nil =>
    constructor
    · rintro ⟨⟩
    · simp
  | cons value rest ih =>
    rw [List.mapM_cons, bind_eq_error_iff]
    by_cases blank : Text.Blank value
    · simp [Text.content?_of_blank blank, blank, eq_comm]
    · simp only [Text.content?_of_not_blank blank, reduceCtorEq, false_or, Except.ok.injEq,
        exists_eq_left', bind_eq_error_iff, ih]
      simp [blank, pure, Except.pure]

theorem valueSet_eq_error_iff {a : Attribute} {given : Option (List String)} :
    valueSet a given = .error e ↔ ListFault a given e := by
  rcases given with _ | _ | ⟨first, rest⟩
  · constructor
    · rintro ⟨⟩
    · rintro ⟨⟩
  · constructor
    · rintro ⟨⟩
      exact .empty
    · rintro (_ | ⟨mem, -⟩)
      · rfl
      · cases mem
  · have cleaned : valueSet a (some (first :: rest)) = .error e ↔
        cleanValues a.tag (first :: rest) = .error e := by
      rw [valueSet]
      · cases cleanValues a.tag (first :: rest) <;> simp [Except.map]
      · exact fun none => by cases none
    rw [cleaned, cleanValues_eq_error_iff]
    constructor
    · rintro ⟨⟨value, mem, blank⟩, rfl⟩
      exact .blank mem blank
    · rintro (_ | ⟨mem, blank⟩)
      exact ⟨⟨_, mem, blank⟩, rfl⟩

theorem firstFault_cons_iff {β γ : Type} {x : Except ValidationError β}
    {f : β → Except ValidationError γ} {field : Field} {rest : List Field}
    (check : ∀ e, x = .error e ↔ r.Fault e field)
    (later : ∀ b, f b = .error e ↔ r.FirstFault e rest) :
    x >>= f = .error e ↔ r.FirstFault e (field :: rest) := by
  rw [bind_eq_error_iff, check]
  simp only [later]
  constructor
  · rintro (fault | ⟨b, passed, first⟩)
    · exact .here fault
    · refine .later (fun e' fault => ?_) first
      rw [← check, passed] at fault
      cases fault
  · rintro (fault | ⟨sound, first⟩)
    · exact .inl fault
    · cases result : x with
      | error e' => exact absurd ((check e').1 result) (sound e')
      | ok b => exact .inr ⟨b, rfl, first⟩

theorem build_eq_error_iff :
    Attribute.Table.build (fun a => valueSet a (r.lists.get a)) = .error e ↔
      r.FirstFault e (Attribute.all.map .list) := by
  have check (a : Attribute) (e : ValidationError) :
      valueSet a (r.lists.get a) = .error e ↔ r.Fault e (.list a) := valueSet_eq_error_iff
  refine firstFault_cons_iff (check .sites) fun _ => firstFault_cons_iff (check .computeElements)
    fun _ => firstFault_cons_iff (check .middlewares) fun _ => firstFault_cons_iff
    (check .bannedSites) fun _ => firstFault_cons_iff (check .platforms) fun _ =>
    firstFault_cons_iff (check .pilotTypes) fun _ => firstFault_cons_iff (check .submitPools)
    fun _ => ?_
  constructor
  · rintro ⟨⟩
  · rintro ⟨⟩

theorem toDefinition_eq_error_iff :
    r.toDefinition segments = .error e ↔ r.FirstFault e Field.all := by
  have values (f : Attribute.Table (Option TextSet) → Definition) :
      (Attribute.Table.build fun a => valueSet a (r.lists.get a)) >>= (fun t => .ok (f t)) =
        .error e ↔ r.FirstFault e (Attribute.all.map .list) := by
    rw [← build_eq_error_iff, bind_eq_error_iff]
    simp
  refine firstFault_cons_iff (fun _ => requiredText_eq_error_iff) fun _ =>
    firstFault_cons_iff (fun _ => requiredText_eq_error_iff) fun _ =>
    firstFault_cons_iff (fun _ => requiredText_eq_error_iff) fun _ => ?_
  cases asked : r.cpuTime with
  | none => exact firstFault_cons_iff (by simp [Fault, asked, eq_comm]) fun _ => values _
  | some time => exact firstFault_cons_iff (by simp [Fault, asked]) fun _ => values _

theorem exists_toDefinition_iff : (∃ d, r.toDefinition segments = .ok d) ↔ r.Complete := by
  rw [complete_iff]
  constructor
  · rintro ⟨d, made⟩ field e fault
    obtain ⟨e', first⟩ := exists_firstFault_iff.2 ⟨field, field.mem_all, e, fault⟩
    have refused : r.toDefinition segments = .error e' := toDefinition_eq_error_iff.2 first
    rw [made] at refused
    cases refused
  · intro sound
    cases made : r.toDefinition segments with
    | ok d => exact ⟨d, rfl⟩
    | error e =>
      obtain ⟨field, -, e', fault⟩ :=
        exists_firstFault_iff.1 ⟨e, toDefinition_eq_error_iff.1 made⟩
      exact absurd fault (sound field e')

/-! ### Content -/

theorem trim_of_requiredText {field text : String} {given : Option String}
    (h : requiredText field given = .ok text) : given.map Text.trim = some text := by
  cases given with
  | none => cases h
  | some given =>
    dsimp only [requiredText] at h
    split at h
    · rename_i content found
      cases h
      rw [Text.eq_trim_of_content? found, Option.map_some]
    · cases h

theorem map_trim_of_cleanValues {tag : String} {given values : List String}
    (h : cleanValues tag given = .ok values) : values = given.map Text.trim := by
  induction given generalizing values with
  | nil =>
    cases h
    rfl
  | cons first rest ih =>
    rw [cleanValues, List.mapM_cons] at h
    cases found : Text.content? first with
    | none =>
      rw [found] at h
      cases h
    | some content =>
      rw [found] at h
      cases later : cleanValues tag rest with
      | error e =>
        rw [cleanValues] at later
        rw [later] at h
        cases h
      | ok others =>
        have same := ih later
        rw [cleanValues] at later
        rw [later] at h
        cases h
        rw [List.map_cons, ← Text.eq_trim_of_content? found, same]

def trimmedSet (values : List String) : TextSet := .ofList (values.map Text.trim)

theorem eq_of_valueSet {a : Attribute} {given : Option (List String)} {set : Option TextSet}
    (h : valueSet a given = .ok set) : set = given.map trimmedSet := by
  rcases given with _ | _ | ⟨first, rest⟩
  · cases h
    rfl
  · cases h
  · rw [valueSet] at h
    · cases cleaned : cleanValues a.tag (first :: rest) with
      | error e =>
        rw [cleaned] at h
        cases h
      | ok values =>
        rw [cleaned] at h
        cases h
        rw [map_trim_of_cleanValues cleaned]
        rfl
    · exact fun none => by cases none

/-- What a definition says of the requirements that it was made from. -/
structure Described (r : Requirements) (segments : Segments) (d : Definition) : Prop where
  ownerIdentity : r.ownerIdentity.map Text.trim = some d.ownerIdentity
  ownerGroup : r.ownerGroup.map Text.trim = some d.ownerGroup
  setup : r.setup.map Text.trim = some d.setup
  cpuTime : r.cpuTime.map segments.bucket = some d.cpuTime
  values : ∀ a, d.values.get a = (r.lists.get a).map trimmedSet

theorem described_of_toDefinition {r : Requirements} {segments : Segments} {d : Definition}
    (h : r.toDefinition segments = .ok d) : r.Described segments d := by
  obtain ⟨identity, identified, h⟩ := exists_ok_of_bind h
  obtain ⟨group, grouped, h⟩ := exists_ok_of_bind h
  obtain ⟨setup, prepared, h⟩ := exists_ok_of_bind h
  cases asked : r.cpuTime with
  | none =>
    rw [asked] at h
    cases h
  | some time =>
    rw [asked] at h
    obtain ⟨_, timed, h⟩ := exists_ok_of_bind h
    obtain ⟨values, listed, h⟩ := exists_ok_of_bind h
    cases timed
    cases h
    exact ⟨trim_of_requiredText identified, trim_of_requiredText grouped,
      trim_of_requiredText prepared, congrArg (Option.map segments.bucket) asked,
      fun a => eq_of_valueSet (Attribute.Table.get_of_build listed a)⟩

theorem Described.unique (h : r.Described segments d) (h' : r.Described segments d') : d = d' := by
  have identity := h.ownerIdentity.symm.trans h'.ownerIdentity
  have group := h.ownerGroup.symm.trans h'.ownerGroup
  have setup := h.setup.symm.trans h'.setup
  have time := h.cpuTime.symm.trans h'.cpuTime
  have values : d.values = d'.values :=
    Attribute.Table.ext_get fun a => (h.values a).trans (h'.values a).symm
  cases d
  cases d'
  simp_all

end Requirements

/-! ### Normal form -/

/-- The texts are trimmed and not empty, the time is a boundary, and each set that is there has
values, trimmed and not empty. -/
structure Definition.Normal (d : Definition) (segments : Segments) : Prop where
  ownerIdentity : Text.Clean d.ownerIdentity
  ownerGroup : Text.Clean d.ownerGroup
  setup : Text.Clean d.setup
  cpuTime : d.cpuTime ∈ segments.boundaries
  values : ∀ a, ∀ set ∈ d.values.get a, set ≠ ∅ ∧ ∀ value ∈ set, Text.Clean value

def Definition.toRequirements (d : Definition) : Requirements where
  ownerIdentity := some d.ownerIdentity
  ownerGroup := some d.ownerGroup
  setup := some d.setup
  cpuTime := some d.cpuTime
  lists := .ofFn fun a => (d.values.get a).map (·.toList)

namespace Requirements

variable {r r' : Requirements} {segments : Segments} {d d' : Definition} {e : ValidationError}

theorem clean_of_complete {given : Option String} {text : String}
    (complete : ∃ s ∈ given, ¬ Text.Blank s) (trimmed : given.map Text.trim = some text) :
    Text.Clean text := by
  obtain ⟨s, rfl, filled⟩ := complete
  cases trimmed
  exact Text.clean_trim filled

theorem mem_trimmedSet {value : String} {given : List String} :
    value ∈ trimmedSet given ↔ ∃ s ∈ given, Text.trim s = value := by
  rw [trimmedSet, TextSet.mem_ofList, List.mem_map]

theorem trimmedSet_ne_empty {given : List String} (filled : given ≠ []) :
    trimmedSet given ≠ ∅ := by
  obtain ⟨first, rest, rfl⟩ := List.exists_cons_of_ne_nil filled
  intro empty
  have mem : Text.trim first ∈ trimmedSet (first :: rest) :=
    mem_trimmedSet.2 ⟨first, List.mem_cons_self, rfl⟩
  rw [empty] at mem
  exact Std.ExtTreeSet.not_mem_empty mem

theorem Described.normal (h : r.Described segments d) (complete : r.Complete) :
    d.Normal segments where
  ownerIdentity := clean_of_complete complete.ownerIdentity h.ownerIdentity
  ownerGroup := clean_of_complete complete.ownerGroup h.ownerGroup
  setup := clean_of_complete complete.setup h.setup
  cpuTime := by
    obtain ⟨time, -, same⟩ := Option.map_eq_some_iff.1 h.cpuTime
    rw [← same]
    exact segments.bucket_mem time
  values := by
    intro a set declared
    rw [h.values] at declared
    obtain ⟨given, listed, rfl⟩ := Option.map_eq_some_iff.1 declared
    obtain ⟨filled, sound⟩ := complete.lists a given listed
    refine ⟨trimmedSet_ne_empty filled, fun value mem => ?_⟩
    obtain ⟨s, among, rfl⟩ := mem_trimmedSet.1 mem
    exact Text.clean_trim (sound s among)

theorem trimmedSet_toList {set : TextSet} (clean : ∀ value ∈ set, Text.Clean value) :
    trimmedSet set.toList = set := by
  have same : set.toList.map Text.trim = set.toList.map id := by
    apply List.map_congr_left
    intro value mem
    exact (clean value (Std.ExtTreeSet.mem_toList.1 mem)).trimmed.trim_eq
  rw [trimmedSet, same, List.map_id, TextSet.ofList_toList]

theorem complete_toRequirements (h : d.Normal segments) : d.toRequirements.Complete where
  ownerIdentity := ⟨_, rfl, h.ownerIdentity.not_blank⟩
  ownerGroup := ⟨_, rfl, h.ownerGroup.not_blank⟩
  setup := ⟨_, rfl, h.setup.not_blank⟩
  cpuTime := ⟨_, rfl⟩
  lists := by
    intro a given listed
    rw [Definition.toRequirements, Attribute.Table.get_ofFn] at listed
    obtain ⟨set, declared, rfl⟩ := Option.map_eq_some_iff.1 listed
    obtain ⟨filled, clean⟩ := h.values a set declared
    refine ⟨fun empty => ?_, fun value mem => ?_⟩
    · obtain ⟨value, mem⟩ := TextSet.exists_mem filled
      rw [← Std.ExtTreeSet.mem_toList, empty] at mem
      cases mem
    · exact (clean value (Std.ExtTreeSet.mem_toList.1 mem)).not_blank

theorem described_toRequirements (h : d.Normal segments) :
    d.toRequirements.Described segments d where
  ownerIdentity := congrArg some h.ownerIdentity.trimmed.trim_eq
  ownerGroup := congrArg some h.ownerGroup.trimmed.trim_eq
  setup := congrArg some h.setup.trimmed.trim_eq
  cpuTime := congrArg some (segments.bucket_eq_self h.cpuTime)
  values := by
    intro a
    rw [Definition.toRequirements, Attribute.Table.get_ofFn, Option.map_map]
    cases declared : d.values.get a with
    | none => rfl
    | some set => exact congrArg some (trimmedSet_toList (h.values a set declared).2).symm

/-- What is described is what is made. -/
theorem toDefinition_of_described (h : r.Described segments d) (complete : r.Complete) :
    r.toDefinition segments = .ok d := by
  obtain ⟨d', made⟩ := exists_toDefinition_iff.2 complete
  rw [made, h.unique (described_of_toDefinition made)]

theorem toDefinition_toRequirements (h : d.Normal segments) :
    d.toRequirements.toDefinition segments = .ok d :=
  toDefinition_of_described (described_toRequirements h) (complete_toRequirements h)

/-! ### Requirements of one definition -/

/-- The lists have the same values, up to blanks around them, order and repetition. -/
def SameValues (xs ys : List String) : Prop :=
  (∀ x ∈ xs, ∃ y ∈ ys, Text.Alike x y) ∧ ∀ y ∈ ys, ∃ x ∈ xs, Text.Alike x y

/-- The requirements differ only in blanks around texts, in order and repetition within lists, and
in times of one segment. -/
structure Alike (segments : Segments) (r r' : Requirements) : Prop where
  ownerIdentity : Option.Rel Text.Alike r.ownerIdentity r'.ownerIdentity
  ownerGroup : Option.Rel Text.Alike r.ownerGroup r'.ownerGroup
  setup : Option.Rel Text.Alike r.setup r'.setup
  cpuTime : Option.Rel (fun x y => segments.bucket x = segments.bucket y) r.cpuTime r'.cpuTime
  lists : ∀ a, Option.Rel SameValues (r.lists.get a) (r'.lists.get a)

theorem rel_iff_map_eq {β γ : Type} (R : β → β → Prop) (f : β → γ)
    (same : ∀ x y, R x y ↔ f x = f y) (x y : Option β) :
    Option.Rel R x y ↔ x.map f = y.map f := by
  cases x <;> cases y <;> simp [same, Option.rel_some_some]

theorem eq_none_iff_of_rel {β : Type} {R : β → β → Prop} {x y : Option β} (h : Option.Rel R x y) :
    x = none ↔ y = none := by
  cases h <;> simp

theorem rel_alike_iff {x y : Option String} :
    Option.Rel Text.Alike x y ↔ x.map Text.trim = y.map Text.trim :=
  rel_iff_map_eq Text.Alike Text.trim (fun _ _ => Text.alike_iff) x y

theorem sameValues_iff {xs ys : List String} :
    SameValues xs ys ↔ trimmedSet xs = trimmedSet ys := by
  simp only [SameValues, Text.alike_iff, trimmedSet, TextSet.ofList_eq_iff, List.mem_map]
  constructor
  · rintro ⟨left, right⟩ value
    constructor
    · rintro ⟨x, mem, rfl⟩
      obtain ⟨y, mem', same⟩ := left x mem
      exact ⟨y, mem', same.symm⟩
    · rintro ⟨y, mem, rfl⟩
      exact right y mem
  · intro same
    refine ⟨fun x mem => ?_, fun y mem => (same _).2 ⟨y, mem, rfl⟩⟩
    obtain ⟨y, mem', equal⟩ := (same _).1 ⟨x, mem, rfl⟩
    exact ⟨y, mem', equal.symm⟩

theorem alike_iff : Alike segments r r' ↔
    r.ownerIdentity.map Text.trim = r'.ownerIdentity.map Text.trim ∧
      r.ownerGroup.map Text.trim = r'.ownerGroup.map Text.trim ∧
      r.setup.map Text.trim = r'.setup.map Text.trim ∧
      r.cpuTime.map segments.bucket = r'.cpuTime.map segments.bucket ∧
      ∀ a, (r.lists.get a).map trimmedSet = (r'.lists.get a).map trimmedSet := by
  have times : Option.Rel (fun x y => segments.bucket x = segments.bucket y) r.cpuTime r'.cpuTime ↔
      r.cpuTime.map segments.bucket = r'.cpuTime.map segments.bucket :=
    rel_iff_map_eq _ segments.bucket (fun _ _ => Iff.rfl) r.cpuTime r'.cpuTime
  have lists (a : Attribute) : Option.Rel SameValues (r.lists.get a) (r'.lists.get a) ↔
      (r.lists.get a).map trimmedSet = (r'.lists.get a).map trimmedSet :=
    rel_iff_map_eq SameValues trimmedSet (fun _ _ => sameValues_iff) _ _
  simp only [← rel_alike_iff, ← times, ← lists]
  constructor
  · rintro ⟨identity, group, setup, time, values⟩
    exact ⟨identity, group, setup, time, values⟩
  · rintro ⟨identity, group, setup, time, values⟩
    exact ⟨identity, group, setup, time, values⟩

theorem Described.alike (h : r.Described segments d) (h' : r'.Described segments d) :
    Alike segments r r' := by
  rw [alike_iff, h.ownerIdentity, h.ownerGroup, h.setup, h.cpuTime, h'.ownerIdentity,
    h'.ownerGroup, h'.setup, h'.cpuTime]
  exact ⟨rfl, rfl, rfl, rfl, fun a => (h.values a).symm.trans (h'.values a)⟩

theorem Alike.described (h : Alike segments r r') (made : r.Described segments d) :
    r'.Described segments d := by
  rw [alike_iff] at h
  obtain ⟨identity, group, setup, time, values⟩ := h
  exact ⟨identity.symm.trans made.ownerIdentity, group.symm.trans made.ownerGroup,
    setup.symm.trans made.setup, time.symm.trans made.cpuTime,
    fun a => (made.values a).trans (values a)⟩

theorem textFault_iff_of_rel {field : String} {x y : Option String}
    (h : Option.Rel Text.Alike x y) : TextFault field x e ↔ TextFault field y e := by
  cases h with
  | none => rfl
  | some alike =>
    constructor
    · rintro (_ | blank)
      exact .blank (alike.blank_iff.1 blank)
    · rintro (_ | blank)
      exact .blank (alike.blank_iff.2 blank)

theorem listFault_of_sameValues {a : Attribute} {xs ys : List String} (h : SameValues xs ys)
    (fault : ListFault a (some xs) e) : ListFault a (some ys) e := by
  cases fault with
  | empty =>
    obtain rfl : ys = [] := by simpa [SameValues, List.eq_nil_iff_forall_not_mem] using h
    exact .empty
  | blank mem blank =>
    obtain ⟨y, mem', alike⟩ := h.1 _ mem
    exact .blank mem' (alike.blank_iff.1 blank)

theorem listFault_iff_of_rel {a : Attribute} {x y : Option (List String)}
    (h : Option.Rel SameValues x y) : ListFault a x e ↔ ListFault a y e := by
  cases h with
  | none => rfl
  | some same =>
    have back := sameValues_iff.2 (sameValues_iff.1 same).symm
    exact ⟨listFault_of_sameValues same, listFault_of_sameValues back⟩

theorem Alike.fault_iff (h : Alike segments r r') (field : Field) :
    r.Fault e field ↔ r'.Fault e field := by
  cases field with
  | ownerIdentity => exact textFault_iff_of_rel h.ownerIdentity
  | ownerGroup => exact textFault_iff_of_rel h.ownerGroup
  | setup => exact textFault_iff_of_rel h.setup
  | cpuTime => rw [Fault, Fault, eq_none_iff_of_rel h.cpuTime]
  | list a => exact listFault_iff_of_rel (h.lists a)

theorem Alike.firstFault_iff (h : Alike segments r r') (fields : List Field) :
    r.FirstFault e fields ↔ r'.FirstFault e fields := by
  have same : r.Fault = r'.Fault := by
    funext e field
    exact propext (h.fault_iff field)
  induction fields with
  | nil =>
    constructor
    · rintro ⟨⟩
    · rintro ⟨⟩
  | cons field rest ih =>
    constructor
    · rintro (fault | ⟨sound, later⟩)
      · exact .here (same ▸ fault)
      · exact .later (same ▸ sound) (ih.1 later)
    · rintro (fault | ⟨sound, later⟩)
      · exact .here (same ▸ fault)
      · exact .later (same ▸ sound) (ih.2 later)

theorem Alike.toDefinition_eq (h : Alike segments r r') :
    r.toDefinition segments = r'.toDefinition segments := by
  cases result : r.toDefinition segments with
  | error e =>
    rw [toDefinition_eq_error_iff, h.firstFault_iff] at result
    exact (toDefinition_eq_error_iff.2 result).symm
  | ok d =>
    have complete : r'.Complete := by
      have sound := complete_iff.1 (exists_toDefinition_iff.1 ⟨d, result⟩)
      exact complete_iff.2 fun field e => mt (h.fault_iff field).2 (sound field e)
    exact (toDefinition_of_described (h.described (described_of_toDefinition result)) complete).symm

/-! ### Normalization -/

structure Normalizes (r : Requirements) (segments : Segments) : Prop where
  accepted_iff : (∃ d, r.toDefinition segments = .ok d) ↔ r.Complete
  /-- All else is refused for the first field at fault. -/
  refused_iff : ∀ e, r.toDefinition segments = .error e ↔ r.FirstFault e Field.all
  described : ∀ d, r.toDefinition segments = .ok d → r.Described segments d
  normal : ∀ d, r.toDefinition segments = .ok d → d.Normal segments ∧
    ∀ a, (d.values.get a).isSome = (r.lists.get a).isSome
  /-- One result for requirements that are alike, -/
  alike : ∀ r', Alike segments r r' → r'.toDefinition segments = r.toDefinition segments
  /-- and one definition only for those. -/
  apart : ∀ r' d, r.toDefinition segments = .ok d → r'.toDefinition segments = .ok d →
    Alike segments r r'
  /-- A definition is its own definition. -/
  again : ∀ d, r.toDefinition segments = .ok d →
    d.toRequirements.toDefinition segments = .ok d

theorem normalizes (r : Requirements) (segments : Segments) : r.Normalizes segments := by
  have described (r : Requirements) (d : Definition) (made : r.toDefinition segments = .ok d) :
      r.Described segments d := described_of_toDefinition made
  have normal (d : Definition) (made : r.toDefinition segments = .ok d) : d.Normal segments :=
    (described r d made).normal (exists_toDefinition_iff.1 ⟨d, made⟩)
  refine ⟨exists_toDefinition_iff, fun _ => toDefinition_eq_error_iff, described r,
    fun d made => ⟨normal d made, fun a => ?_⟩, fun r' h => h.toDefinition_eq.symm,
    fun r' d made made' => (described r d made).alike (described r' d made'),
    fun d made => toDefinition_toRequirements (normal d made)⟩
  rw [(described r d made).values, Option.isSome_map]

end Requirements

end Matchmaker
