import Matchmaker.Proofs.Broker.Basis
import Matchmaker.Proofs.Broker.Trial

/-!
A recalculation in a world where calls may fail: it writes all that follows from its basis and
answers, or it writes nothing and fails. It answers if no call fails.
-/
namespace Matchmaker

open Operation

namespace Operation

variable {α β γ : Type} [Scalar α]

/-! ### Reading -/

/-- The operation changes nothing that a recalculation goes by, nor a priority. Where the basis is
afforded it has no result but the value; it has that result if nothing fails. -/
structure Reads.Post (t : Trial α) (value : Option β) (t' : Trial α) (r : Ending β) : Prop where
  basis : t'.world.basis = t.world.basis
  shares : t'.world.shares = t.world.shares
  store : t'.world.store = t.world.store
  right : ∀ c, r = some (.ok c) → value = some c
  calm : t.outages = [] → t'.outages = [] ∧ ∀ c, value = some c → r = some (.ok c)

def Reads (d : Basis α) (x : Operation α β) (value : Option β) : Prop :=
  ∀ t : Trial α, t.world.Affords d → t.Ends x (Reads.Post t value)

variable {d : Basis α}

theorem Reads.Post.ok {t t' : Trial α} (basis : t'.world.basis = t.world.basis)
    (shares : t'.world.shares = t.world.shares) (store : t'.world.store = t.world.store)
    (calm : t.outages = [] → t'.outages = []) (c : β) :
    Reads.Post t (some c) t' (some (.ok c)) where
  basis := basis
  shares := shares
  store := store
  right _ same := by cases same; rfl
  calm now := ⟨calm now, fun _ same => by cases same; rfl⟩

theorem Reads.Post.after {t t' t'' : Trial α} {value : Option β} {r : Ending β}
    (h : Reads.Post t' value t'' r) (basis : t'.world.basis = t.world.basis)
    (shares : t'.world.shares = t.world.shares) (store : t'.world.store = t.world.store)
    (calm : t.outages = [] → t'.outages = []) : Reads.Post t value t'' r where
  basis := h.basis.trans basis
  shares := h.shares.trans shares
  store := h.store.trans store
  right := h.right
  calm now := h.calm (calm now)

theorem reads_pure (c : β) : Reads d (pure c : Operation α β) (some c) :=
  fun _ _ => .ok rfl rfl rfl id c

theorem reads_orAbort (value : Option β) : Reads d (orAbort value : Operation α β) value := by
  cases value with
  | none => exact fun t _ => ⟨rfl, rfl, rfl, nofun, fun calm => ⟨calm, nofun⟩⟩
  | some c => exact reads_pure c

theorem Reads.bind {x : Operation α γ} {f : γ → Operation α β} {value : Option γ}
    {value' : γ → Option β} (h : Reads d x value)
    (rest : ∀ c, value = some c → Reads d (f c) (value' c)) :
    Reads d (x >>= f) (value.bind value') := by
  intro t affords
  refine (h t affords).bind (fun t' r bad read r' bad' => ?_) fun t' c read => ?_
  · refine ⟨read.basis, read.shares, read.store, fun c ok => (bad' c ok).elim, fun calm => ?_⟩
    refine ⟨(read.calm calm).1, fun c found => ?_⟩
    obtain ⟨first, here, -⟩ := Option.bind_eq_some_iff.1 found
    exact (bad first ((read.calm calm).2 first here)).elim
  · have found := read.right c rfl
    have read' := rest c found t' (affords.congr read.basis read.shares)
    rw [found]
    exact read'.after read.basis read.shares read.store fun calm => (read.calm calm).1

theorem Reads.next {x : Operation α γ} {f : γ → Operation α β} {c : γ} {value : Option β}
    (h : Reads d x (some c)) (rest : Reads d (f c) value) : Reads d (x >>= f) value := by
  change Reads d (x >>= f) ((some c).bind fun _ => value)
  refine h.bind fun c' same => ?_
  cases same
  exact rest

theorem reads_store {call : StoreCall α} {answer : call.Answer}
    (h : ∀ w : World α (Store α), w.Affords d →
      w.store.perform call = (.ok answer, w.store)) :
    Reads d (store call) (some answer) := by
  intro t affords
  have calm : t.outages = [] → t.outages.tail = [] := fun calm => by rw [calm, List.tail_nil]
  refine Trial.ends_store (h t.world affords) (fun e out => ?_) ?_
  · exact ⟨rfl, rfl, rfl, nofun, fun calm => (out calm).elim⟩
  · refine Reads.Post.ok ?_ ?_ ?_ calm answer <;> rfl

theorem reads_groups : Reads d (store .groups) (some d.groups) :=
  reads_store fun _ affords => by rw [← affords.groups]; rfl

theorem reads_ownersIn (group : String) : Reads d (store (.ownersIn group)) (some (d.ownersIn group)) :=
  reads_store fun _ affords => by rw [← affords.ownersIn]; rfl

theorem reads_loads (group : String) (identity : Option String) :
    Reads d (store (.loads group identity)) (some (d.loads group identity)) :=
  reads_store fun _ affords => by rw [← affords.loads]; rfl

end Operation

namespace Broker

variable {α : Type} [Scalar α] {d : Basis α}

theorem reads_groupSettings {group : String} {settings : GroupShare α}
    (known : d.book[group]? = some settings) :
    Reads d (groupSettings group) (some settings) := by
  intro t affords
  have found := affords.settings group settings known
  refine Trial.ends_ask_bind fun booked t' met => ?_
  have calm := met.calm
  cases met with
  | refused out refused => cases refused
  | answered =>
    rw [World.settings] at found
    cases book : t.world.book[group]? with
    | some here =>
      have same : (t.world.reply (.booked group)).1 = some here := book
      obtain rfl : here = settings := by simpa [book] using found
      rw [same]
      refine Reads.Post.ok ?_ ?_ ?_ calm here <;> rfl
    | none =>
      have same : (t.world.reply (.booked group)).1 = none := book
      obtain rfl : t.world.shares.table.settings group = settings := by simpa [book] using found
      rw [same]
      refine Trial.ends_ask_bind fun answer t' met => ?_
      have calm' := met.calm
      cases met with
      | refused out refused =>
        cases refused
        refine ⟨rfl, rfl, rfl, fun c ended => ?_, fun now => (out (calm now)).elim⟩
        cases ended
      | answered => refine Reads.Post.ok ?_ ?_ ?_ (fun now => calm' (calm now)) _ <;> rfl

theorem reads_correct (settings : HistorySettings α) (grouping : Grouping) (expected : Shares α) :
    Reads d (correct settings grouping expected) (d.corrected? settings grouping expected) := by
  intro t affords
  refine Trial.ends_ask_bind fun held t' met => ?_
  have calm := met.calm
  cases met with
  | refused out refused => cases refused
  | answered =>
    have same : d.corrected? settings grouping expected =
        t.world.basis.corrected? settings grouping expected := by
      rw [Basis.corrected?, Basis.corrected?, affords.usage]
    rw [same, t.world.corrected?_basis]
    have basis : World.basis (t.world.reply (.held grouping)).2 = t.world.basis := by
      simp [World.reply, World.answer, World.basis]
    exact (reads_orAbort _ ⟨_, _⟩ (affords.congr basis rfl)).after basis rfl rfl calm

theorem reads_competingShares (group : String) (shares : Shares α) {others : List String}
    (known : ∀ other ∈ others, other ∈ d.book) :
    Reads d (competingShares group shares others) (d.competing? group shares others) := by
  induction others generalizing shares with
  | nil => exact reads_pure shares
  | cons other rest ih =>
    have later : ∀ next ∈ rest, next ∈ d.book := fun next mem => known next (.tail other mem)
    unfold competingShares Basis.competing?
    split
    · exact ih shares later
    · obtain ⟨settings, found⟩ := Option.isSome_iff_exists.1
        (Std.ExtTreeMap.isSome_getElem?_iff_mem.2 (known other List.mem_cons_self))
      rw [found]
      exact (reads_groupSettings found).bind fun settings _ => ih _ later

variable (b : Broker α)

theorem reads_groupShare (covers : d.Covers) (group : String)
    (configured : α) :
    Reads d (b.groupShare group configured) (d.groupShare? b group configured) := by
  unfold groupShare Basis.groupShare?
  cases b.correction? with
  | none => exact reads_pure configured
  | some settings =>
    refine Reads.next reads_groups ?_
    have known : ∀ other ∈ d.groups.toList, other ∈ d.book := fun other mem =>
      covers other (Std.ExtTreeSet.mem_toList.1 mem)
    refine (reads_competingShares group ∅ known).bind fun expected _ => ?_
    exact (reads_correct settings .groups _).bind fun corrected _ => reads_pure _

theorem reads_ownerShares (group : String) (share : α) (owners : TextSet) :
    Reads d (b.ownerShares group share owners) (d.ownerShares? b group share owners) := by
  unfold ownerShares Basis.ownerShares?
  rw [Option.map_eq_bind]
  cases b.correction? with
  | none => exact Reads.next (reads_pure _) (reads_pure _)
  | some settings =>
    exact (reads_correct settings (.identitiesIn group) _).bind fun corrected _ => reads_pure _

theorem reads_splitShares (group : String) (threshold : Option α)
    (entities : List (Option String × α)) :
    Reads d (b.splitShares group threshold entities) (some (d.slices b group threshold entities)) := by
  induction entities with
  | nil => exact reads_pure []
  | cons entity rest ih =>
    refine Reads.next (reads_loads group entity.1) ?_
    exact Reads.next ih (reads_pure _)

/-! ### Writing -/

/-- The operation writes the priorities and answers their number, if it has a result, and else
nothing; it has a result if nothing fails. -/
structure Writes.Post (t : Trial α) (priorities : Option (List (Int × α))) (t' : Trial α)
    (r : Ending Nat) : Prop where
  basis : t'.world.basis = t.world.basis
  shares : t'.world.shares = t.world.shares
  done : ∀ n, r = some (.ok n) → ∃ written, priorities = some written ∧
    t'.world.store = t.world.store.setPriorities written
  count : ∀ n written, r = some (.ok n) → priorities = some written → n = written.length
  failed : (∀ n, r ≠ some (.ok n)) → t'.world.store = t.world.store
  calm : t.outages = [] → ∀ written, priorities = some written → ∃ n, r = some (.ok n)

def Writes (d : Basis α) (x : Operation α Nat) (priorities : Option (List (Int × α))) : Prop :=
  ∀ t : Trial α, t.world.Affords d → t.Ends x (Writes.Post t priorities)

theorem writes_nothing : Writes d (pure 0 : Operation α Nat) (some []) := fun _ _ => by
  refine ⟨rfl, rfl, fun _ _ => ⟨[], rfl, rfl⟩, ?_, fun _ => rfl, fun _ _ _ => ⟨0, rfl⟩⟩
  rintro n written ⟨⟩ ⟨⟩
  rfl

theorem Writes.bind {γ : Type} {x : Operation α γ} {f : γ → Operation α Nat} {value : Option γ}
    {priorities : γ → Option (List (Int × α))} (h : Reads d x value)
    (rest : ∀ c, value = some c → Writes d (f c) (priorities c)) :
    Writes d (x >>= f) (value.bind priorities) := by
  intro t affords
  refine (h t affords).bind (fun t' r bad read r' bad' => ?_) fun t' c read => ?_
  · refine ⟨read.basis, read.shares, fun n ok => (bad' n ok).elim, fun n _ ok => (bad' n ok).elim,
      fun _ => read.store, fun calm _ found => ?_⟩
    obtain ⟨first, here, -⟩ := Option.bind_eq_some_iff.1 found
    exact (bad first ((read.calm calm).2 first here)).elim
  · have found := read.right c rfl
    have wrote := rest c found t' (affords.congr read.basis read.shares)
    refine wrote.mono fun t'' r wrote => ?_
    rw [found]
    refine ⟨wrote.basis.trans read.basis, wrote.shares.trans read.shares, fun n ok => ?_,
      wrote.count, fun bad => ?_, fun calm => ?_⟩
    · obtain ⟨written, known, store⟩ := wrote.done n ok
      exact ⟨written, known, by rw [store, read.store]⟩
    · exact (wrote.failed bad).trans read.store
    · exact wrote.calm (read.calm calm).1

theorem Writes.next {γ : Type} {x : Operation α γ} {f : γ → Operation α Nat} {c : γ}
    {priorities : Option (List (Int × α))} (h : Reads d x (some c))
    (rest : Writes d (f c) priorities) : Writes d (x >>= f) priorities := by
  change Writes d (x >>= f) ((some c).bind fun _ => priorities)
  refine Writes.bind h fun c' same => ?_
  cases same
  exact rest

theorem writes_finish (group : String) (threshold : Option α)
    (entities : List (Option String × α)) :
    Writes d (recalculate.finish b group threshold entities)
      (some (d.slices b group threshold entities)) := by
  refine Writes.next (b.reads_splitShares group threshold entities) fun t affords => ?_
  refine Trial.ends_store_bind rfl (fun e out => ?_) ?_
  · exact ⟨rfl, rfl, nofun, nofun, fun _ => rfl, fun calm => (out calm).elim⟩
  · refine Trial.ends_ask_bind fun answer t' met => ?_
    cases met with
    | refused out refused => cases refused
    | answered =>
      refine ⟨World.basis_setPriorities t.world _, rfl, fun n ok => ⟨_, rfl, rfl⟩, ?_,
        fun bad => (bad _ rfl).elim, fun _ _ _ => ⟨_, rfl⟩⟩
      rintro n written ⟨⟩ ⟨⟩
      rfl

theorem writes_recalculate (covers : d.Covers) {group : String} (known : group ∈ d.book) :
    Writes d (b.recalculate group) (d.priorities? b group) := by
  obtain ⟨settings, found⟩ := Option.isSome_iff_exists.1
    (Std.ExtTreeMap.isSome_getElem?_iff_mem.2 known)
  unfold recalculate Basis.priorities?
  rw [found]
  refine Writes.next (reads_groupSettings found) ?_
  refine Writes.bind (b.reads_groupShare covers group settings.share) fun share _ => ?_
  dsimp only
  split
  · exact b.writes_finish group _ _
  · refine Writes.next (reads_ownersIn group) ?_
    split
    · exact writes_nothing
    · exact Writes.bind (b.reads_ownerShares group share _) fun entities _ =>
        b.writes_finish group _ entities

end Broker

end Matchmaker
