import Matchmaker.Broker.Bulk
import Matchmaker.Broker.Match
import Matchmaker.Broker.Sweep
import Matchmaker.Proofs.Script.Protocol
import Matchmaker.Proofs.Usage.Correction

/-!
The parts of operations that leave jobs alone: recalculating priorities, reading usage and settings
again, removing empty queues. They may be without an end only where a bound of the correction is
below its reciprocal.
-/
namespace Matchmaker

/-- Whether a question does not queue or remove jobs, does not look for them and does not touch
whether a queue is enabled. -/
def Request.isQuiet {α : Type} : Request α → Bool
  | store (.create _ _ _) => false
  | store (.setEnabled _ _ _) => false
  | store (.addJob _ _ _ _) => false
  | store (.removeJob _) => false
  | store (.matching _) => false
  | store (.jobsWithPriority _ _ _) => false
  | _ => true

/-- Whether a quiet question also leaves the records of jobs alone, and does not look for the queue
of a definition. -/
def Request.isStill {α : Type} : Request α → Bool
  | store (.find _) => false
  | store (.updateJob _ _ _) => false
  | q => q.isQuiet

theorem Request.isQuiet_of_isStill {α : Type} {q : Request α} (h : q.isStill = true) :
    q.isQuiet = true := by
  unfold isStill at h
  split at h
  · cases h
  · cases h
  · exact h

def Request.refreshes {α : Type} : Request α → Bool
  | store .groups => true
  | reloadShares => true
  | listedGroups => true
  | groupSettings _ => true
  | usage _ _ => true
  | book _ => true
  | groupings => true
  | isDue _ _ => true
  | hold _ _ _ => true
  | _ => false

theorem Request.isStill_of_refreshes {α : Type} {q : Request α} (h : q.refreshes = true) :
    q.isStill = true := by
  unfold refreshes at h
  split at h <;> first | rfl | cases h

/-- Whether a question is one of those for new priorities. -/
def Request.reprices {α : Type} : Request α → Bool
  | store .groups => true
  | store (.ownersIn _) => true
  | store (.loads _ _) => true
  | store (.setPriorities _) => true
  | booked _ => true
  | groupSettings _ => true
  | held _ => true
  | record .recalculation => true
  | _ => false

theorem Request.isStill_of_reprices {α : Type} {q : Request α} (h : q.reprices = true) :
    q.isStill = true := by
  unfold reprices at h
  split at h <;> first | rfl | cases h

namespace Broker

open Operation

variable {α : Type} [Scalar α] (b : Broker α)

/-- Usage can always be taken into account. -/
def InOrder : Prop := ∀ settings ∈ b.history, settings.InOrder

theorem inOrder_of_checked {b : Broker Float} (h : ∀ settings ∈ b.history, settings.fault? = none) :
    b.InOrder := fun settings mem => HistorySettings.inOrder_of_fault? (h settings mem)

abbrev Quiet (ends : Prop) {β : Type} (x : Operation α β) : Prop :=
  x.Within (fun q => q.isQuiet = true) (¬ ends)

abbrev Still (ends : Prop) {β : Type} (x : Operation α β) : Prop :=
  x.Within (fun q => q.isStill = true) (¬ ends)

omit [Scalar α] in
theorem Still.quiet {ends : Prop} {β : Type} {x : Operation α β} (h : Still ends x) :
    Quiet ends x := h.mono (fun _ => Request.isQuiet_of_isStill) id

abbrev Reprices (ends : Prop) {β : Type} (x : Operation α β) : Prop :=
  x.Within (fun q => q.reprices = true) (¬ ends)

omit [Scalar α] in
theorem Reprices.still {ends : Prop} {β : Type} {x : Operation α β} (h : Reprices ends x) :
    Still ends x := h.mono (fun _ => Request.isStill_of_reprices) id

abbrev Refreshes {β : Type} (x : Operation α β) : Prop :=
  x.Within (fun q => q.refreshes = true) False

abbrev Settles (x : Operation α Unit) : Prop :=
  x.Keeps (.only fun q => q.isQuiet = true) (fun _ r => r = some (.ok ())) ()

omit [Scalar α] in
theorem reprices_groupSettings (ends : Prop) (group : String) :
    Reprices ends (groupSettings (α := α) group) := by
  refine Within.bind (within_ask rfl) fun settings => ?_
  cases settings with
  | some settings => exact within_pure settings
  | none => exact Within.bind (within_ask rfl) within_ofCollaborator

theorem inOrder_of_correction? {settings : HistorySettings α} (h : b.InOrder)
    (enabled : b.correction? = some settings) : settings.InOrder :=
  h settings (Option.filter_eq_some_iff.1 enabled).1

theorem reprices_correct {settings : HistorySettings α} (enabled : b.correction? = some settings)
    (grouping : Grouping) (expected : Shares α) :
    Reprices b.InOrder (correct settings grouping expected) := by
  refine Within.bind (within_ask rfl) fun held => within_orAbort fun none inOrder => ?_
  have some := Correction.corrected?_isSome (b.inOrder_of_correction? inOrder enabled) held expected
  rw [none] at some
  cases some

omit [Scalar α] in
theorem reprices_competingShares (ends : Prop) (group : String) (shares : Shares α)
    (others : List String) : Reprices ends (competingShares group shares others) := by
  induction others generalizing shares with
  | nil => exact within_pure shares
  | cons other rest ih =>
    unfold competingShares
    split
    · exact ih shares
    · exact Within.bind (reprices_groupSettings ends other) fun settings => ih _

theorem reprices_groupShare (group : String) (configured : α) :
    Reprices b.InOrder (b.groupShare group configured) := by
  unfold groupShare
  split
  · exact within_pure configured
  · rename_i settings enabled
    refine Within.bind (within_store rfl) fun others => ?_
    refine Within.bind (reprices_competingShares _ group ∅ _) fun expected => ?_
    exact Within.bind (b.reprices_correct enabled _ _) fun corrected => within_pure _

theorem reprices_ownerShares (group : String) (share : α) (owners : TextSet) :
    Reprices b.InOrder (b.ownerShares group share owners) := by
  unfold ownerShares
  dsimp only
  split
  · exact Within.bind (within_pure _) fun corrected => within_pure _
  · rename_i settings enabled
    exact Within.bind (b.reprices_correct enabled _ _) fun corrected => within_pure _

theorem reprices_splitShares (ends : Prop) (group : String) (threshold : Option α)
    (entities : List (Option String × α)) :
    Reprices ends (b.splitShares group threshold entities) := by
  induction entities with
  | nil => exact within_pure []
  | cons entity rest ih =>
    refine Within.bind (within_store rfl) fun loads => ?_
    exact Within.bind ih fun others => within_pure _

theorem reprices_finish (ends : Prop) (group : String) (threshold : Option α)
    (entities : List (Option String × α)) :
    Reprices ends (recalculate.finish b group threshold entities) := by
  refine Within.bind (b.reprices_splitShares ends group threshold entities) fun priorities => ?_
  refine Within.bind (within_store rfl) fun _ => ?_
  exact Within.bind (within_record rfl) fun _ => within_pure _

theorem reprices_recalculate (group : String) : Reprices b.InOrder (b.recalculate group) := by
  refine Within.bind (reprices_groupSettings _ group) fun settings => ?_
  refine Within.bind (b.reprices_groupShare group _) fun share => ?_
  dsimp only
  split
  · exact b.reprices_finish _ group _ _
  · refine Within.bind (within_store rfl) fun owners => ?_
    split
    · exact within_pure 0
    · exact Within.bind (b.reprices_ownerShares group share owners) fun _ => b.reprices_finish _ group _ _

theorem reprices_recalculateGroups (groups : List String) :
    Reprices b.InOrder (b.recalculateGroups groups) := by
  induction groups with
  | nil => exact within_pure ()
  | cons group rest ih => exact Within.bind (b.reprices_recalculate group) fun _ => ih

theorem reprices_recalculateAll : Reprices b.InOrder b.recalculateAll :=
  Within.bind (within_store rfl) fun groups =>
    Within.bind (b.reprices_recalculateGroups groups.toList) fun _ => within_pure _

theorem still_recalculate (group : String) : Still b.InOrder (b.recalculate group) :=
  (b.reprices_recalculate group).still

theorem still_recalculateGroups (groups : List String) :
    Still b.InOrder (b.recalculateGroups groups) := (b.reprices_recalculateGroups groups).still

theorem still_recalculateAll : Still b.InOrder b.recalculateAll := b.reprices_recalculateAll.still

theorem quiet_recalculate (group : String) : Quiet b.InOrder (b.recalculate group) :=
  (b.still_recalculate group).quiet

theorem quiet_recalculateGroups (groups : List String) :
    Quiet b.InOrder (b.recalculateGroups groups) := (b.still_recalculateGroups groups).quiet

theorem quiet_recalculateAll : Quiet b.InOrder b.recalculateAll := b.still_recalculateAll.quiet

/-! ### Removing empty queues and changing priorities -/

theorem settles_cleanUp (inOrder : b.InOrder) (candidate : Candidate α) :
    Settles (b.cleanUp candidate) := by
  refine (keeps_bind _ _).2 ⟨rfl, fun answer => ?_⟩
  rcases answer with e | _ | _
  · rfl
  · rfl
  · refine (keeps_bind _ _).2 ⟨rfl, fun _ => ?_⟩
    have quiet := b.quiet_recalculate candidate.ownerGroup
    exact Within.attempt_settles (quiet.mono (fun _ asked => asked) fun fails => fails inOrder)

theorem settles_cleanUpAfter (inOrder : b.InOrder) (candidate : Candidate α) :
    Settles (b.cleanUpAfter candidate) := by
  refine (keeps_bind _ _).2 ⟨rfl, fun left => ?_⟩
  rcases left with e | _ | _
  · rfl
  · exact b.settles_cleanUp inOrder candidate
  · rfl

omit [Scalar α] in
theorem within_removeJobs {asks : Request α → Prop} {breaks : Prop} {jobs : List String}
    (removing : ∀ job ∈ jobs, asks (.store (.removeJob job))) (r : Removals) :
    (removeJobs (α := α) r jobs).Within asks breaks := by
  induction jobs generalizing r with
  | nil => exact within_pure r
  | cons job rest ih =>
    have later := ih fun other mem => removing other (.tail job mem)
    refine Within.bind (within_store (removing job List.mem_cons_self)) fun home => ?_
    cases home with
    | none => exact later _
    | some id => exact later _

omit [Scalar α] in
theorem within_dropEmptied {asks : Request α → Prop} {breaks : Prop}
    (looking : ∀ id, asks (.store (.queue id))) (dropping : ∀ id, asks (.store (.deleteIfEmpty id)))
    (ids : List Int) : (dropEmptied (α := α) ids).Within asks breaks := by
  induction ids with
  | nil => exact within_pure _
  | cons id rest ih =>
    refine Within.bind (within_store (looking id)) fun q => ?_
    cases q with
    | none => exact ih
    | some q =>
      dsimp only
      split
      · exact Within.bind (within_store (dropping id)) fun _ => Within.bind ih fun _ => within_pure _
      · exact Within.bind (within_pure false) fun _ => Within.bind ih fun _ => within_pure _

omit [Scalar α] in
theorem still_dropEmptied (ends : Prop) (ids : List Int) :
    Still ends (dropEmptied (α := α) ids) := within_dropEmptied (fun _ => rfl) (fun _ => rfl) ids

omit [Scalar α] in
theorem still_dropEach (ends : Prop) (found : List (Int × String)) :
    Still ends (dropEach (α := α) found) := by
  induction found with
  | nil => exact within_pure _
  | cons entry rest ih =>
    exact Within.bind (within_store rfl) fun _ => Within.bind ih fun _ => within_pure _

theorem still_clean : Still b.InOrder b.clean := by
  refine Within.bind (within_store rfl) fun found => ?_
  refine Within.bind (still_dropEach _ found) fun (deleted, groups) => ?_
  refine Within.bind (within_record rfl) fun _ => ?_
  exact Within.bind (b.still_recalculateGroups groups.toList) fun _ => within_pure deleted

omit [Scalar α] in
theorem quiet_dropEmptied (ends : Prop) (ids : List Int) :
    Quiet ends (dropEmptied (α := α) ids) := (still_dropEmptied ends ids).quiet

theorem quiet_clean : Quiet b.InOrder b.clean := b.still_clean.quiet

theorem within_updateJobs {asks : Request α → Prop}
    (updating : ∀ job submitted effective, asks (.store (.updateJob job submitted effective)))
    (u : Updates) (updates : List (String × Int)) : (b.updateJobs u updates).Within asks True := by
  induction updates generalizing u with
  | nil => exact within_pure u
  | cons update rest ih =>
    refine Within.bind (within_orAbort fun _ => trivial) fun effective => ?_
    refine Within.bind (within_store (updating _ _ _)) fun home => ?_
    cases home with
    | none => exact ih _
    | some id => exact ih _

omit [Scalar α] in
theorem within_groupsOf {asks : Request α → Prop} {breaks : Prop}
    (looking : ∀ id, asks (.store (.queue id))) (ids : List Int) :
    (groupsOf (α := α) ids).Within asks breaks := by
  induction ids with
  | nil => exact within_pure _
  | cons id rest ih =>
    refine Within.bind (within_store (looking id)) fun q => ?_
    cases q with
    | none => exact ih
    | some q => exact Within.bind ih fun groups => within_pure _

theorem within_reprioritize {asks : Request α → Prop}
    (updating : ∀ job submitted effective, asks (.store (.updateJob job submitted effective)))
    (looking : ∀ id, asks (.store (.queue id))) (repricing : ∀ q, q.reprices = true → asks q)
    (updates : List (String × Int)) : (b.reprioritize updates).Within asks True := by
  refine Within.bind (b.within_updateJobs updating {} updates) fun u => ?_
  refine Within.bind (within_groupsOf looking u.touched.toList) fun groups => ?_
  have recalculated : (b.recalculateGroups groups.toList).Within asks True :=
    (b.reprices_recalculateGroups groups.toList).mono repricing fun _ => trivial
  exact Within.bind recalculated fun _ => within_pure _

theorem quiet_reprioritize (updates : List (String × Int)) :
    Quiet False (b.reprioritize updates) :=
  (b.within_reprioritize (fun _ _ _ => rfl) (fun _ => rfl)
    (fun _ repricing => Request.isQuiet_of_isStill (Request.isStill_of_reprices repricing))
    updates).mono (fun _ asked => asked) fun _ => id

/-! ### Reading usage and settings again -/

omit [Scalar α] in
theorem refreshes_fetchWindows (grouping : Grouping) (windows : List (UsageWindow α)) :
    Refreshes (fetchWindows grouping windows) := by
  induction windows with
  | nil => exact within_pure _
  | cons w rest ih =>
    refine Within.bind (within_ask rfl) fun answer => ?_
    cases answer with
    | error e => exact within_pure none
    | ok usage => exact Within.bind ih fun others => within_pure _

theorem refreshes_refreshGrouping (settings : HistorySettings α) (grouping : Grouping) :
    Refreshes (refreshGrouping settings grouping) := by
  refine Within.bind (within_ask rfl) fun due => ?_
  dsimp only
  split
  · refine Within.bind (refreshes_fetchWindows grouping _) fun fetched => ?_
    exact Within.bind (within_ask rfl) fun _ => within_pure _
  · exact within_pure false

theorem refreshes_refreshGroupings (settings : HistorySettings α)
    (groupings : List Grouping) : Refreshes (refreshGroupings settings groupings) := by
  induction groupings with
  | nil => exact within_pure false
  | cons g rest ih =>
    refine Within.bind (refreshes_refreshGrouping settings g) fun first => ?_
    exact Within.bind ih fun others => within_pure _

theorem refreshes_refreshHistory : Refreshes b.refreshHistory := by
  unfold refreshHistory
  split
  · exact within_pure none
  · rename_i settings enabled
    refine Within.bind ?_ fun changed => within_pure _
    unfold refreshUsage
    split
    · refine Within.bind (refreshes_refreshGrouping settings .groups) fun first => ?_
      refine Within.bind (within_ask rfl) fun others => ?_
      exact Within.bind (refreshes_refreshGroupings settings _) fun rest => within_pure _
    · exact within_pure false

omit [Scalar α] in
theorem refreshes_fetchSettings (groups : List String) :
    Refreshes (fetchSettings (α := α) groups) := by
  induction groups with
  | nil => exact within_pure _
  | cons group rest ih =>
    refine Within.bind (within_ask rfl) fun answer => ?_
    refine Within.bind (within_ofCollaborator answer) fun settings => ?_
    exact Within.bind ih fun others => within_pure _

omit [Scalar α] in
theorem refreshes_refreshShares : Refreshes (refreshShares (α := α)) := by
  refine Within.bind (within_store rfl) fun inUse => ?_
  refine Within.bind (within_ask rfl) fun reloaded => ?_
  refine Within.bind (within_ofCollaborator reloaded) fun _ => ?_
  refine Within.bind (within_ask rfl) fun listing => ?_
  refine Within.bind (within_ofCollaborator listing) fun listed => ?_
  exact Within.bind (refreshes_fetchSettings _) fun settings => within_ask rfl

/-! ### Sweeping -/

omit [Scalar α] in
theorem still_of_refreshes {ends : Prop} {β : Type} {x : Operation α β} (h : Refreshes x) :
    Still ends x := h.mono (fun _ => Request.isStill_of_refreshes) False.elim

theorem still_refreshHistory (ends : Prop) : Still ends b.refreshHistory :=
  still_of_refreshes b.refreshes_refreshHistory

omit [Scalar α] in
theorem still_refreshShares (ends : Prop) : Still ends (refreshShares (α := α)) :=
  still_of_refreshes refreshes_refreshShares

theorem still_sweep : Still b.InOrder b.sweep := by
  refine Within.bind (b.still_refreshHistory _) fun usageChanged => ?_
  refine Within.bind (still_refreshShares _) fun sharesChanged => ?_
  split
  · exact Within.bind b.still_recalculateAll fun _ => within_pure true
  · exact within_pure false

theorem quiet_refreshHistory (ends : Prop) : Quiet ends b.refreshHistory :=
  (b.still_refreshHistory ends).quiet

omit [Scalar α] in
theorem quiet_refreshShares (ends : Prop) : Quiet ends (refreshShares (α := α)) :=
  (still_refreshShares ends).quiet

theorem quiet_sweep : Quiet b.InOrder b.sweep := b.still_sweep.quiet

end Broker

end Matchmaker
