import Matchmaker.Proofs.Concurrency.System
import Matchmaker.Proofs.Queue.Requirements
import Matchmaker.Proofs.Queue.Segments

/-!
Which jobs a resource may run, said of the documents that the two sides submit. What the checks of
both accept is read back first, then each part of the filter.
-/
namespace Matchmaker

/-! ### Capabilities -/

namespace Capabilities

theorem eq_of_optionalText {field : String} {given value : Option String}
    (h : optionalText field given = .ok value) : value = given.map Text.trim := by
  cases given with
  | none =>
    cases h
    rfl
  | some given =>
    dsimp only [optionalText] at h
    split at h
    · rename_i content found
      cases h
      rw [Text.eq_trim_of_content? found, Option.map_some]
    · cases h

theorem eq_of_offers {c : Capabilities} {facilities : List Facility}
    {offered : List (Facility × String)} (h : c.offers facilities = .ok offered) :
    offered = facilities.filterMap fun facility =>
      (c.offer facility).map fun value => (facility, Text.trim value) := by
  induction facilities generalizing offered with
  | nil =>
    cases h
    rfl
  | cons facility rest ih =>
    obtain ⟨value, given, h⟩ := exists_ok_of_bind h
    obtain ⟨others, later, h⟩ := exists_ok_of_bind h
    cases h
    rw [eq_of_optionalText given, ih later, List.filterMap_cons]
    cases c.offer facility <;> rfl

theorem eq_of_restriction {privateTypes : TextSet} {pilot identity group : Option String}
    {owner : Option Owner} (h : restriction privateTypes pilot identity group = .ok owner) :
    (∃ type, pilot = some type ∧ type ∈ privateTypes ∧ ∃ i g,
        identity = some i ∧ group = some g ∧ owner = some ⟨i, g⟩) ∨
      (∀ type, pilot = some type → type ∉ privateTypes) ∧ owner = none := by
  cases pilot with
  | none =>
    cases h
    exact .inr ⟨nofun, rfl⟩
  | some type =>
    dsimp only [restriction] at h
    split at h
    · rename_i bound
      split at h
      · cases h
        exact .inl ⟨type, rfl, Std.ExtTreeSet.contains_iff_mem.1 bound, _, _, rfl, rfl, rfl⟩
      · cases h
    · rename_i free
      cases h
      refine .inr ⟨fun other same bound => free ?_, rfl⟩
      cases same
      exact Std.ExtTreeSet.contains_iff_mem.2 bound

structure Described {α : Type} (c : Capabilities) (p : Policy α) (f : Filter) : Prop where
  setup : f.setup = c.setup.map Text.trim
  cpuTime : f.cpuTime = c.cpuTime.map p.segments.bucket
  owner : restriction p.privateTypes (c.pilotType.map Text.trim) (c.ownerIdentity.map Text.trim)
    (c.ownerGroup.map Text.trim) = .ok f.owner
  offered : f.offered = Facility.all.filterMap fun facility =>
    (c.offer facility).map fun value => (facility, Text.trim value)

theorem described_of_filterFor {α : Type} {b : Broker α} {c : Capabilities} {f : Filter}
    (h : b.filterFor c = .ok f) : c.Described b.policy f := by
  obtain ⟨setup, prepared, h⟩ := exists_ok_of_bind h
  obtain ⟨pilot, piloted, h⟩ := exists_ok_of_bind h
  obtain ⟨identity, identified, h⟩ := exists_ok_of_bind h
  obtain ⟨group, grouped, h⟩ := exists_ok_of_bind h
  obtain ⟨owner, restricted, h⟩ := exists_ok_of_bind h
  obtain ⟨offered, listed, h⟩ := exists_ok_of_bind h
  cases h
  rw [eq_of_optionalText piloted, eq_of_optionalText identified, eq_of_optionalText grouped]
    at restricted
  refine ⟨eq_of_optionalText prepared, rfl, restricted, (eq_of_offers listed).trans ?_⟩
  -- Taking the CPU time to its segment leaves the offers alone.
  refine congrArg (Facility.all.filterMap ·) (funext fun facility => ?_)
  cases facility <;> rfl

end Capabilities

/-! ### Admission -/

section Admission

open Text

variable {α : Type}

/-- A resource may run the jobs with these requirements; texts are compared without the blanks at
their ends. -/
structure Fits (p : Policy α) (c : Capabilities) (r : Requirements) : Prop where
  setup : ∀ setup ∈ c.setup, r.setup.map trim = some (trim setup)
  cpuTime : ∀ offered ∈ c.cpuTime, ∀ asked ∈ r.cpuTime,
    p.segments.bucket asked ≤ p.segments.bucket offered
  /-- A private pilot runs the jobs of one owner. -/
  owner : ∀ pilot ∈ c.pilotType, trim pilot ∈ p.privateTypes →
    c.ownerIdentity.map trim = r.ownerIdentity.map trim ∧
      c.ownerGroup.map trim = r.ownerGroup.map trim
  accepted : ∀ facility, ∀ value ∈ c.offer facility, ∀ list ∈ r.lists.get facility.acceptedIn,
    trim value ∈ list.map trim
  unbanned : ∀ site ∈ c.site, ∀ banned ∈ r.lists.get .bannedSites, trim site ∉ banned.map trim

variable {p : Policy α} {c : Capabilities} {r : Requirements} {d : Definition} {f : Filter}

theorem site_of_described (resource : c.Described p f) : f.site = c.site.map trim := by
  rw [Filter.site, resource.offered]
  cases given : c.site with
  | some site =>
    have first : c.offer .site = some site := given
    rw [Facility.all, List.filterMap_cons, first, Option.map_some, List.lookup_cons_self,
      Option.map_some]
  | none =>
    refine List.lookup_eq_none_iff.2 fun entry mem => ?_
    obtain ⟨facility, -, shown⟩ := List.mem_filterMap.1 mem
    obtain ⟨value, offered, rfl⟩ := Option.map_eq_some_iff.1 shown
    cases facility with
    | site =>
      have none : c.offer .site = none := given
      rw [none] at offered
      cases offered
    | _ => rfl

variable (job : r.Described p.segments d) (resource : c.Described p f)

include job resource

theorem setup_iff :
    f.setup.all (d.setup = ·) = true ↔
      ∀ setup ∈ c.setup, r.setup.map trim = some (trim setup) := by
  rw [resource.setup, job.setup, Option.all_map, Option.all_eq_true]
  simp

theorem cpuTime_iff :
    f.cpuTime.all (d.cpuTime ≤ ·) = true ↔ ∀ offered ∈ c.cpuTime, ∀ asked ∈ r.cpuTime,
      p.segments.bucket asked ≤ p.segments.bucket offered := by
  obtain ⟨asked, given, own⟩ := Option.map_eq_some_iff.1 job.cpuTime
  rw [resource.cpuTime, given, ← own, Option.all_map, Option.all_eq_true]
  simp

theorem owner_iff :
    f.owner.all (fun owner => d.ownerIdentity = owner.identity && d.ownerGroup = owner.group) =
        true ↔
      ∀ pilot ∈ c.pilotType, trim pilot ∈ p.privateTypes →
        c.ownerIdentity.map trim = r.ownerIdentity.map trim ∧
          c.ownerGroup.map trim = r.ownerGroup.map trim := by
  rw [job.ownerIdentity, job.ownerGroup]
  rcases Capabilities.eq_of_restriction resource.owner with
    ⟨type, piloted, bound, identity, group, identified, grouped, owned⟩ | ⟨free, owned⟩
  · obtain ⟨pilot, given, rfl⟩ := Option.map_eq_some_iff.1 piloted
    rw [owned, identified, grouped, given]
    constructor
    · intro same _ _ _
      rw [Option.all_some, Bool.and_eq_true, decide_eq_true_iff, decide_eq_true_iff] at same
      rw [same.1, same.2]
      exact ⟨rfl, rfl⟩
    · intro same
      obtain ⟨identities, groups⟩ := same pilot rfl bound
      cases identities
      cases groups
      rw [Option.all_some, decide_eq_true rfl, decide_eq_true rfl, Bool.and_self]
  · rw [owned]
    refine ⟨fun _ pilot given bound => (free (trim pilot) ?_ bound).elim, fun _ => rfl⟩
    rw [given, Option.map_some]

theorem accepted_iff :
    f.offered.all (fun (facility, value) =>
        (d.values.get facility.acceptedIn).all (·.contains value)) = true ↔
      ∀ facility, ∀ value ∈ c.offer facility, ∀ list ∈ r.lists.get facility.acceptedIn,
        trim value ∈ list.map trim := by
  rw [resource.offered, List.all_eq_true]
  constructor
  · intro accepted facility value offered list declared
    have entry := accepted (facility, trim value) (List.mem_filterMap.2
      ⟨facility, facility.mem_all, by rw [offered, Option.map_some]⟩)
    dsimp only at entry
    rw [job.values, declared, Option.map_some, Option.all_some] at entry
    exact TextSet.mem_ofList.1 (Std.ExtTreeSet.contains_iff_mem.1 entry)
  · intro accepted entry mem
    obtain ⟨facility, -, shown⟩ := List.mem_filterMap.1 mem
    obtain ⟨value, offered, rfl⟩ := Option.map_eq_some_iff.1 shown
    dsimp only
    rw [job.values, Option.all_map, Option.all_eq_true]
    intro list declared
    exact Std.ExtTreeSet.contains_iff_mem.2
      (TextSet.mem_ofList.2 (accepted facility value offered list declared))

theorem unbanned_iff :
    (f.site.all fun site => (d.values.get .bannedSites).all fun banned => !banned.contains site) =
        true ↔
      ∀ site ∈ c.site, ∀ banned ∈ r.lists.get .bannedSites, trim site ∉ banned.map trim := by
  have listed (site : String) (banned : List String) :
      (!(Requirements.trimmedSet banned).contains (trim site)) = true ↔
        trim site ∉ banned.map trim := by
    rw [Bool.not_eq_true', ← Bool.not_eq_true, Std.ExtTreeSet.contains_iff_mem,
      Requirements.trimmedSet, TextSet.mem_ofList]
  simp only [site_of_described resource, job.values, Option.all_map, Option.all_eq_true,
    listed]
  rfl

omit job resource

/-- The filter of a resource admits the queue of a job exactly when the resource fits the job. Time
is no obstacle where the job asks for no more than is offered. -/
theorem admits_iff_fits (b : Broker α) (made : r.toDefinition b.policy.segments = .ok d)
    (accepted : b.filterFor c = .ok f) :
    (f.admits d = true ↔ Fits b.policy c r) ∧
      ((∀ offered ∈ c.cpuTime, ∀ asked ∈ r.cpuTime, asked ≤ offered) →
        f.cpuTime.all (d.cpuTime ≤ ·) = true) := by
  have job := Requirements.described_of_toDefinition made
  have resource := Capabilities.described_of_filterFor accepted
  have timed := cpuTime_iff job resource
  constructor
  · rw [Filter.admits, Bool.and_eq_true, Bool.and_eq_true, Bool.and_eq_true, Bool.and_eq_true,
      setup_iff job resource, timed, owner_iff job resource, accepted_iff job resource,
      unbanned_iff job resource]
    constructor
    · rintro ⟨⟨⟨⟨setup, cpuTime⟩, owner⟩, accepted⟩, unbanned⟩
      exact ⟨setup, cpuTime, owner, accepted, unbanned⟩
    · intro fits
      exact ⟨⟨⟨⟨fits.setup, fits.cpuTime⟩, fits.owner⟩, fits.accepted⟩, fits.unbanned⟩
  · intro enough
    exact timed.2 fun offered given asked wanted =>
      b.policy.segments.bucket_mono (enough offered given asked wanted)

/-! A private pilot and a job of its owner, with blanks in various places. -/

def pilotJob : Requirements where
  ownerIdentity := some " alice"
  ownerGroup := some "users"
  setup := some "prod"
  cpuTime := some 700
  lists := .ofFn fun
    | .sites => some ["RAL", "CERN "]
    | .bannedSites => some ["PIC"]
    | _ => none

def pilotResource : Capabilities where
  ownerIdentity := some "alice"
  ownerGroup := some "users\t"
  setup := some "prod"
  cpuTime := some 600
  pilotType := some "private"
  site := some " CERN"
  platform := some "x86_64"

theorem fits_pilot : ∃ d f, pilotJob.toDefinition Broker.standard.policy.segments = .ok d ∧
    Broker.standard.filterFor pilotResource = .ok f ∧
    Fits Broker.standard.policy pilotResource pilotJob :=
  ⟨_, _, rfl, rfl, (admits_iff_fits Broker.standard rfl rfl).1.1 (by decide +kernel)⟩

end Admission

end Matchmaker
