import Matchmaker.Broker.Sweep
import Matchmaker.Proofs.Broker.Basis
import Matchmaker.Proofs.Broker.Trial
import Matchmaker.Proofs.Share.Book
import Matchmaker.Share.File

/-!
What reading the share settings again makes of the book. A refresh that fails leaves the book as it
is, whatever the source has answered; one that succeeds leaves the settings of all groups that are
listed or have queues, and says whether they differ from those before. Until the next one, lookups
go by the book.
-/
namespace Matchmaker

open Operation

def Request.rewrites {α : Type} : Request α → Bool
  | book _ => true
  | _ => false

/-! ### Tables and their files -/

namespace ShareTable

section

variable {α : Type}

theorem mem_listed {table : ShareTable α} {group : String} :
    group ∈ table.listed ↔ group ∈ table.groups := by
  rw [listed, TextSet.mem_ofList, Std.ExtTreeMap.mem_keys]

theorem settings_of_not_mem {table : ShareTable α} {group : String} (h : group ∉ table.groups) :
    table.settings group = ⟨table.defaultShare, false, false⟩ := by
  rw [settings, Std.ExtTreeMap.getElem?_eq_none h]

def bookOf (table : ShareTable α) (groups : TextSet) : ShareBook α :=
  .ofList (groups.toList.map fun group => (group, table.settings group))

theorem getElem?_bookOf (table : ShareTable α) (groups : TextSet) (group : String) :
    (table.bookOf groups)[group]? =
      if group ∈ groups then some (table.settings group) else none :=
  TextSet.getElem?_ofList groups table.settings group

theorem fault?_isSome_iff [Scalar α] {table : ShareTable α} : table.fault?.isSome ↔
    ∃ entry ∈ table.givenShares, Scalar.isFinite entry.2 = false ∨ entry.2 < Scalar.zero := by
  simp [fault?, isShare]

end

/-- Why a file gives no table: it is missing, it does not hold one, or one of the shares in it is
not finite or below zero. -/
inductive Unusable : Option String → Prop
  | missing : Unusable none
  | malformed {text : String} (h : (Yaml.Document.ofText? text).bind ofDocument? = none) :
      Unusable (some text)
  | share {text : String} {table : ShareTable Float} {entry : String × Float}
      (h : (Yaml.Document.ofText? text).bind ofDocument? = some table)
      (given : entry ∈ table.givenShares)
      (bad : Scalar.isFinite entry.2 = false ∨ entry.2 < Scalar.zero) : Unusable (some text)

theorem exists_read_eq_error_iff {text : Option String} :
    (∃ e, read text = .error e) ↔ Unusable text := by
  constructor
  · rintro ⟨e, failed⟩
    cases text with
    | none => exact .missing
    | some text =>
      cases parsed : (Yaml.Document.ofText? text).bind ofDocument? with
      | none => exact .malformed parsed
      | some table =>
        cases fault : table.fault? with
        | none => simp [read, parsed, checked, fault] at failed
        | some found =>
          obtain ⟨entry, given, bad⟩ := fault?_isSome_iff.1 (by rw [fault]; rfl)
          exact .share parsed given bad
  · intro unusable
    cases unusable with
    | missing => exact ⟨_, rfl⟩
    | malformed parsed => exact ⟨_, by rw [read, parsed]⟩
    | share parsed given bad =>
      obtain ⟨found, fault⟩ := Option.isSome_iff_exists.1 (fault?_isSome_iff.2 ⟨_, given, bad⟩)
      exact ⟨_, by rw [read, parsed]; simp only [checked, fault]; rfl⟩

end ShareTable

theorem ShareSource.error_of_reload {α : Type} {source : ShareSource α} {e : CollaboratorError}
    (h : source.reload.1 = .error e) : source.file = some (.error e) := by
  unfold reload at h
  split at h
  · cases h
  · cases h
  · rename_i held
    cases h
    exact held

namespace Broker

variable {α : Type}

/-! ### Any source -/

abbrev Exchange (α : Type) := (q : Request α) × q.Answer

def given (entry : String × GroupShare α) : Exchange α :=
  ⟨.groupSettings entry.1, Except.ok entry.2⟩

def groupsToRead (listed inUse : TextSet) : TextSet := listed.insertMany inUse.toList

theorem mem_groupsToRead {listed inUse : TextSet} {group : String} :
    group ∈ groupsToRead listed inUse ↔ group ∈ listed ∨ group ∈ inUse := by
  rw [groupsToRead, Std.ExtTreeSet.mem_insertMany_list, List.contains_iff_mem,
    Std.ExtTreeSet.mem_toList]

def Unwritten (exchanges : List (Exchange α)) : Prop := ∀ x ∈ exchanges, x.1.rewrites = false

/-- What has been asked when all settings have been read, or one could not be. -/
structure Fetched (groups : List String) (before exchanges : List (Exchange α))
    (r : Ending (ShareBook α)) : Prop where
  ended : r ≠ none
  unwritten : Unwritten before → Unwritten exchanges
  read : ∀ fresh, r = some (.ok fresh) → ∃ entries : List (String × GroupShare α),
    entries.map Prod.fst = groups ∧ exchanges = before ++ entries.map given ∧
      ∀ entry, fresh[entry.1]? = some entry.2 ↔ entry ∈ entries

theorem Unwritten.concat {exchanges : List (Exchange α)} (h : Unwritten exchanges)
    {x : Exchange α} (other : x.1.rewrites = false) : Unwritten (exchanges ++ [x]) := by
  intro y mem
  rcases List.mem_append.1 mem with mem | mem
  · exact h y mem
  · rw [List.mem_singleton.1 mem]
    exact other

theorem fetched_fetchSettings {groups : List String} (distinct : groups.Nodup)
    (before : List (Exchange α)) :
    (fetchSettings groups).Keeps .transcript (Fetched groups before) before := by
  induction groups generalizing before with
  | nil =>
    refine ⟨nofun, id, fun fresh read => ?_⟩
    cases read
    exact ⟨[], rfl, by simp, by simp⟩
  | cons group rest ih =>
    obtain ⟨new, distinct⟩ := List.nodup_cons.1 distinct
    refine (keeps_bind (ask (.groupSettings group)) _).2 ⟨trivial, fun answer => ?_⟩
    cases answer with
    | error e => exact ⟨nofun, fun h => h.concat rfl, nofun⟩
    | ok own =>
      change Keeps _ _ (fetchSettings rest >>= fun others => pure (others.insert group own)) _
      refine Keeps.bind (ih distinct (before ++ [given (group, own)]))
        (fun _ fetched => (fetched.ended rfl).elim) (fun exchanges e fetched => ?_)
        fun exchanges others fetched => ?_
      · exact ⟨nofun, fun h => fetched.unwritten (h.concat rfl), nofun⟩
      refine ⟨nofun, fun h => fetched.unwritten (h.concat rfl), fun fresh read => ?_⟩
      cases read
      obtain ⟨entries, rfl, shown, known⟩ := fetched.read others rfl
      refine ⟨(group, own) :: entries, rfl, by simp [shown, given], fun (other, settings) => ?_⟩
      rw [Std.ExtTreeMap.getElem?_insert, List.mem_cons]
      split
      · rename_i same
        obtain rfl := Std.LawfulEqCmp.eq_of_compare same
        have absent : (group, settings) ∉ entries := fun mem => new (List.mem_map_of_mem mem)
        simp [absent, eq_comm]
      · rename_i different
        have distinct : other ≠ group := by
          rintro rfl
          exact different Std.ReflCmp.compare_self
        rw [known]
        simp [distinct]

/-- What is asked first: for the groups with queues, to read the source again, and for the groups
that it lists. -/
def opening (inUse listed : TextSet) (reloaded : Bool) : List (Exchange α) :=
  [⟨.store .groups, Except.ok inUse⟩, ⟨.reloadShares, Except.ok reloaded⟩,
    ⟨.listedGroups, Except.ok listed⟩]

def replaced (fresh : ShareBook α) (changed : Bool) : Exchange α := ⟨.book fresh, changed⟩

structure Read (exchanges : List (Exchange α)) (r : Ending Bool) : Prop where
  ended : r ≠ none
  failed : ∀ e, r = some (.error e) → Unwritten exchanges
  /-- The book is the last to be asked. It is offered what the source has given for each group that
  it lists, and for each group with queues. -/
  done : ∀ changed, r = some (.ok changed) →
    ∃ (inUse listed : TextSet) (reloaded : Bool) (fresh : ShareBook α)
        (entries : List (String × GroupShare α)),
      entries.map Prod.fst = (groupsToRead listed inUse).toList ∧
        (∀ entry, fresh[entry.1]? = some entry.2 ↔ entry ∈ entries) ∧
          exchanges = opening inUse listed reloaded ++ entries.map given ++ [replaced fresh changed]

theorem read_refreshShares : (refreshShares (α := α)).Keeps .transcript Read [] := by
  have none : Unwritten ([] : List (Exchange α)) := List.forall_mem_nil _
  refine (keeps_bind (store .groups) _).2 ((keeps_store .groups _).2 ⟨trivial, fun inUse => ?_,
    fun e => ⟨nofun, fun _ _ => none.concat rfl, nofun⟩⟩)
  refine (keeps_bind (ask .reloadShares) _).2 ⟨trivial, fun reloaded => ?_⟩
  cases reloaded with
  | error e => exact ⟨nofun, fun _ _ => (none.concat rfl).concat rfl, nofun⟩
  | ok reloaded =>
    refine (keeps_bind (ask .listedGroups) _).2 ⟨trivial, fun listed => ?_⟩
    cases listed with
    | error e => exact ⟨nofun, fun _ _ => ((none.concat rfl).concat rfl).concat rfl, nofun⟩
    | ok listed =>
      have unwritten : Unwritten (opening (α := α) inUse listed reloaded) :=
        ((none.concat rfl).concat rfl).concat rfl
      change Keeps _ _ (fetchSettings (groupsToRead listed inUse).toList >>= fun fresh =>
        ask (.book fresh)) (opening inUse listed reloaded)
      refine Keeps.bind (fetched_fetchSettings (TextSet.nodup_toList _) _)
        (fun _ fetched => (fetched.ended rfl).elim) (fun exchanges e fetched => ?_)
        fun exchanges fresh fetched => ⟨trivial, fun changed => ⟨nofun, nofun, fun _ ok => ?_⟩⟩
      · exact ⟨nofun, fun _ _ => fetched.unwritten unwritten, nofun⟩
      cases ok
      obtain ⟨entries, listing, rfl, known⟩ := fetched.read fresh rfl
      exact ⟨inUse, listed, reloaded, fresh, entries, listing, known, rfl⟩

/-! ### The source of a world -/

variable [Scalar α]

structure FetchedFrom (groups : List String) (t t' : Trial α) (r : Ending (ShareBook α)) :
    Prop where
  world : t'.world = t.world
  read : ∀ fresh, r = some (.ok fresh) → ∀ group : String,
    fresh[group]? = if group ∈ groups then some (t.world.shares.table.settings group) else none
  calm : t.outages = [] → t'.outages = [] ∧ ∃ fresh, r = some (.ok fresh)

theorem fetchedFrom_fetchSettings (groups : List String) (t : Trial α) :
    t.Ends (fetchSettings groups) (FetchedFrom groups t) := by
  induction groups generalizing t with
  | nil =>
    refine ⟨rfl, fun fresh read group => ?_, fun calm => ⟨calm, ∅, rfl⟩⟩
    cases read
    simp
  | cons group rest ih =>
    refine Trial.ends_ask_bind fun answer t₁ met => ?_
    cases met with
    | refused out refusal =>
      cases refusal
      exact ⟨rfl, nofun, fun calm => (out calm).elim⟩
    | answered =>
      refine (ih _).bind (fun t₂ r bad fetched r' bad' => ?_) fun t₂ others fetched => ?_
      · refine ⟨fetched.world, fun fresh ok => (bad' fresh ok).elim, fun calm => ?_⟩
        obtain ⟨-, fresh, ok⟩ := fetched.calm (by rw [calm]; rfl)
        exact (bad fresh ok).elim
      · refine ⟨fetched.world, fun fresh read other => ?_, fun calm => ?_⟩
        · cases read
          have known : others[other]? = if other ∈ rest
              then some (t.world.shares.table.settings other) else none :=
            fetched.read others rfl other
          rw [Std.ExtTreeMap.getElem?_insert, known]
          simp only [Std.compare_eq_iff_eq, List.mem_cons]
          grind
        · exact ⟨(fetched.calm (by rw [calm]; rfl)).1, _, rfl⟩

/-- What reading the settings of groups and offering them to the book comes to. -/
structure Offered (groups : TextSet) (t t' : Trial α) (r : Ending Bool) : Prop where
  failed : (∀ changed, r ≠ some (.ok changed)) → t'.world = t.world
  done : ∀ changed, r = some (.ok changed) →
    changed = (!t.world.book.agrees (t.world.shares.table.bookOf groups)) ∧
      t'.world = { t.world with
        book := if changed then t.world.shares.table.bookOf groups else t.world.book }
  calm : t.outages = [] → ∃ changed, r = some (.ok changed)

theorem offered_fetchSettings (groups : TextSet) (t : Trial α) :
    t.Ends (fetchSettings groups.toList >>= fun fresh => ask (.book fresh)) (Offered groups t) := by
  refine (fetchedFrom_fetchSettings groups.toList t).bind (fun t₁ r bad fetched r' bad' => ?_)
    fun t₁ fresh fetched => Trial.ends_ask fun changed t₂ met => ?_
  · refine ⟨fun _ => fetched.world, fun changed ok => (bad' changed ok).elim, fun calm => ?_⟩
    obtain ⟨-, fresh, ok⟩ := fetched.calm calm
    exact (bad fresh ok).elim
  · obtain rfl : fresh = t.world.shares.table.bookOf groups := by
      refine Std.ExtTreeMap.ext_getElem? fun group => ?_
      rw [fetched.read fresh rfl, ShareTable.getElem?_bookOf]
      simp only [Std.ExtTreeSet.mem_toList]
    refine ⟨fun bad => (bad changed rfl).elim, fun _ ok => ?_, fun _ => ⟨changed, rfl⟩⟩
    cases ok
    cases met with
    | refused _ refusal => cases refusal
    | answered =>
      rw [fetched.world]
      simp only [World.reply, World.answer]
      split <;> rename_i agreed <;> simp [agreed]

end Broker

namespace World

variable {α : Type}

/-- The settings of all groups that are listed by the source, once it has been read again, or have
queues. -/
def resolved (w : World α (Store α)) : ShareBook α :=
  let table := w.shares.reload.2.table
  table.bookOf (Broker.groupsToRead table.listed w.store.groups)

theorem getElem?_resolved (w : World α (Store α)) (group : String) :
    w.resolved[group]? =
      if group ∈ w.shares.reload.2.table.groups ∨ group ∈ w.store.groups
      then some (w.shares.reload.2.table.settings group) else none := by
  rw [resolved, ShareTable.getElem?_bookOf]
  simp only [Broker.mem_groupsToRead, ShareTable.mem_listed]

end World

namespace Broker

variable {α : Type} [Scalar α]

structure Renewed (t t' : Trial α) (r : Ending Bool) : Prop where
  failed : (∀ changed, r ≠ some (.ok changed)) →
    t'.world = t.world ∨ t'.world = { t.world with shares := t.world.shares.reload.2 }
  done : ∀ changed, r = some (.ok changed) → (∃ found, t.world.shares.reload.1 = .ok found) ∧
    changed = !t.world.book.agrees t.world.resolved ∧
      t'.world = { t.world with
        shares := t.world.shares.reload.2
        book := if changed then t.world.resolved else t.world.book }
  calm : t.outages = [] → ∀ found, t.world.shares.reload.1 = .ok found →
    ∃ changed, r = some (.ok changed)

theorem renewed_refreshShares (t : Trial α) : t.Ends refreshShares (Renewed t) := by
  have calm {later : List (Option Outage)} (within : t.outages = [] → later = [])
      (failing : later ≠ []) {r : Ending Bool} : t.outages = [] →
        ∀ found, t.world.shares.reload.1 = .ok found → ∃ changed, r = some (.ok changed) :=
    fun calm => (failing (within calm)).elim
  refine Trial.ends_store_bind rfl (fun e failing => ⟨fun _ => .inl rfl, nofun, calm id failing⟩) ?_
  refine Trial.ends_ask_bind fun reloaded t₁ met => ?_
  cases met with
  | refused failing refusal =>
    cases refusal
    exact ⟨fun _ => .inl rfl, nofun, calm (fun none => by rw [none]; rfl) failing⟩
  | answered =>
    change Trial.Ends ⟨{ t.world with shares := t.world.shares.reload.2 }, t.outages.tail.tail⟩
      (ofCollaborator t.world.shares.reload.1 >>= _) _
    cases read : t.world.shares.reload.1 with
    | error e => exact ⟨fun _ => .inr rfl, nofun, fun _ found ok => by cases read.symm.trans ok⟩
    | ok found =>
      refine Trial.ends_ask_bind fun listing t₂ met => ?_
      cases met with
      | refused failing refusal =>
        cases refusal
        exact ⟨fun _ => .inr rfl, nofun, calm (fun none => by rw [none]; rfl) failing⟩
      | answered =>
        have offered := offered_fetchSettings
          (groupsToRead t.world.shares.reload.2.table.listed t.world.store.groups)
          ⟨{ t.world with shares := t.world.shares.reload.2 }, t.outages.tail.tail.tail⟩
        refine offered.mono fun t' r offered => ⟨fun bad => .inr (offered.failed bad),
          fun changed ok => ⟨⟨found, read⟩, offered.done changed ok⟩, fun none _ _ => ?_⟩
        exact offered.calm (by rw [none]; rfl)

end Broker

/-! ### Between refreshes -/

/-- What may happen while the book is offered nothing: any question of any call is answered or
refused, the sources change, and time passes. -/
inductive Happening (α : Type) where
  | question (q : Request α) (unwritten : q.rewrites = false)
  | outages (next : List (Option Outage))
  | edit (shares : ShareSource α) (usage : UsageSource α)
  | wait (seconds : Nat)

section

variable {α : Type} [Scalar α]

def Happening.play : Happening α → Trial α → Trial α
  | question q _, t => (t.answer q).2
  | outages next, t => { t with outages := next }
  | edit shares usage, t => { t with world := { t.world with shares := shares, usage := usage } }
  | wait seconds, t => { t with world := { t.world with now := t.world.now + seconds } }

def Trial.after (t : Trial α) (happenings : List (Happening α)) : Trial α :=
  happenings.foldl (fun t happening => happening.play t) t

theorem World.book_reply (w : World α (Store α)) {q : Request α} (unwritten : q.rewrites = false) :
    (w.reply q).2.book = w.book := by
  cases q <;> first | rfl | cases unwritten

theorem Trial.Met.book {t t' : Trial α} {q : Request α} {answer : q.Answer}
    (met : t.Met q answer t') (unwritten : q.rewrites = false) : t'.world.book = t.world.book := by
  cases met with
  | refused _ _ => rfl
  | answered => exact t.world.book_reply unwritten

theorem Happening.book_play (happening : Happening α) (t : Trial α) :
    (happening.play t).world.book = t.world.book := by
  cases happening with
  | question q unwritten => exact (t.met_answer q).book unwritten
  | outages next => rfl
  | edit shares usage => rfl
  | wait seconds => rfl

theorem Trial.book_after (t : Trial α) (happenings : List (Happening α)) :
    (t.after happenings).world.book = t.world.book := by
  induction happenings generalizing t with
  | nil => rfl
  | cons happening rest ih => exact (ih _).trans (happening.book_play t)

theorem Trial.ends_groupSettings {t : Trial α} {group : String} {settings : GroupShare α}
    (booked : t.world.book[group]? = some settings) :
    t.Ends (Broker.groupSettings group) fun _ r => r = some (.ok settings) := by
  refine Trial.ends_ask_bind fun answer t' met => ?_
  cases met with
  | refused _ refusal => cases refusal
  | answered =>
    simp only [World.reply, World.answer, booked]
    rfl

end

/-! ### Refreshes -/

namespace Broker

/-- What a refresh leaves and answers, with the settings of a world on doubles. -/
structure Rereads (t t' : Trial Float) (r : Ending Bool) : Prop where
  ended : r ≠ none
  failed : ∀ e, r = some (.error e) → t'.world.book = t.world.book
  /-- A file that gives no table leaves all as it was. -/
  unusable : ∀ text, t.world.shares.file = some (ShareTable.read text) → ShareTable.Unusable text →
    (∃ e, r = some (.error e)) ∧ t'.world = t.world
  answers : t.outages = [] → (∀ e, t.world.shares.file ≠ some (.error e)) →
    ∃ changed, r = some (.ok changed)
  /-- The book is that of the settings of all groups that are listed or have queues. -/
  book : ∀ changed, r = some (.ok changed) →
    t'.world.book = if changed then t.world.resolved else t.world.book
  changed : ∀ changed, r = some (.ok changed) →
    (changed = true ↔ ¬ t.world.book.Same t.world.resolved)
  /-- Another default share is noticed where a group with queues has no settings of its own. -/
  defaulted : ∀ changed, r = some (.ok changed) → ∀ group ∈ t.world.store.groups,
    group ∉ t.world.shares.reload.2.table.groups →
      ∀ before : GroupShare Float, t.world.book[group]? = some before →
        (before.share == t.world.shares.reload.2.table.defaultShare) = false → changed = true
  removed : ∀ changed, r = some (.ok changed) → ∀ group ∉ t.world.shares.reload.2.table.groups,
    group ∉ t.world.store.groups → group ∉ t'.world.book
  /-- Lookups give these settings, whatever happens before the book is offered others. -/
  lasting : ∀ changed, r = some (.ok changed) →
    ∀ (group : String) (settings : GroupShare Float), t.world.resolved[group]? = some settings →
      ∃ found, (found = settings ∨ found.agrees settings = true) ∧
        ∀ happenings : List (Happening Float),
          (t'.after happenings).Ends (groupSettings group) fun _ r => r = some (.ok found)

namespace Renewed

variable {t t' : Trial Float} {r : Ending Bool} (h : Renewed t t' r)
include h

theorem world_of_unread {e : CollaboratorError}
    (reloaded : t.world.shares.reload = (.error e, t.world.shares)) :
    (∀ changed, r ≠ some (.ok changed)) ∧ t'.world = t.world := by
  have bad : ∀ changed, r ≠ some (.ok changed) := by
    intro changed ok
    obtain ⟨found, read⟩ := (h.done changed ok).1
    rw [reloaded] at read
    cases read
  refine ⟨bad, ?_⟩
  rcases h.failed bad with same | same
  · exact same
  · rw [same, reloaded]

variable {changed : Bool} (ok : r = some (.ok changed))
include ok

theorem book_eq : t'.world.book = if changed then t.world.resolved else t.world.book := by
  rw [(h.done changed ok).2.2]

theorem changed_iff : changed = true ↔ ¬ t.world.book.Same t.world.resolved := by
  rw [(h.done changed ok).2.1, ← ShareBook.agrees_iff_same, Bool.not_eq_true, Bool.not_eq_true']

theorem exists_booked {group : String} {settings : GroupShare Float}
    (known : t.world.resolved[group]? = some settings) :
    ∃ found, (found = settings ∨ found.agrees settings = true) ∧
      t'.world.book[group]? = some found := by
  rw [h.book_eq ok]
  cases changed with
  | true => exact ⟨settings, .inl rfl, known⟩
  | false =>
    have here := not_not.1 (mt (h.changed_iff ok).2 Bool.false_ne_true) group
    rw [known] at here
    generalize booked : t.world.book[group]? = before at here
    cases here with
    | some agreed => exact ⟨_, .inr agreed, booked⟩

theorem mem_resolved {group : String} (mem : group ∈ t'.world.book) : group ∈ t.world.resolved := by
  rw [h.book_eq ok] at mem
  cases changed with
  | true => exact mem
  | false =>
    have same := not_not.1 (mt (h.changed_iff ok).2 Bool.false_ne_true)
    exact (same.mem group).1 mem

theorem changed_of_default {group : String} (used : group ∈ t.world.store.groups)
    (unlisted : group ∉ t.world.shares.reload.2.table.groups) {before : GroupShare Float}
    (known : t.world.book[group]? = some before)
    (other : (before.share == t.world.shares.reload.2.table.defaultShare) = false) :
    changed = true := by
  rw [h.changed_iff ok]
  intro same
  have here := same group
  rw [known, World.getElem?_resolved, if_pos (.inr used)] at here
  cases here with
  | some agreed =>
    rw [ShareTable.settings_of_not_mem unlisted, GroupShare.agrees, other] at agreed
    cases agreed

end Renewed

theorem rereads_refreshShares (t : Trial Float) :
    (refreshShares (α := Float)).Keeps .transcript Read [] ∧ t.Ends refreshShares (Rereads t) := by
  refine ⟨read_refreshShares, ?_⟩
  have ended := (t.ends_of_keeps read_refreshShares).mono fun _ r ⟨_, read⟩ => read.ended
  have renewed := renewed_refreshShares t
  unfold Trial.Ends at ended renewed ⊢
  generalize (t.run refreshShares).2 = t', (t.run refreshShares).1 = r at ended renewed
  constructor
  · exact ended
  · intro e error
    rcases renewed.failed (fun changed ok => by cases error.symm.trans ok) with same | same <;>
      rw [same]
  · intro text held unusable
    obtain ⟨e, unread⟩ := ShareTable.exists_read_eq_error_iff.2 unusable
    have reloaded : t.world.shares.reload = (.error e, t.world.shares) := by
      rw [ShareSource.reload, held, unread]
    obtain ⟨bad, same⟩ := renewed.world_of_unread reloaded
    refine ⟨?_, same⟩
    rcases r with _ | e | changed
    · exact (ended rfl).elim
    · exact ⟨e, rfl⟩
    · exact (bad changed rfl).elim
  · intro calm usable
    cases read : t.world.shares.reload.1 with
    | ok found => exact renewed.calm calm found read
    | error e => exact (usable e (ShareSource.error_of_reload read)).elim
  · exact fun changed ok => renewed.book_eq ok
  · exact fun changed ok => renewed.changed_iff ok
  · exact fun changed ok group used unlisted before known other =>
      renewed.changed_of_default ok used unlisted known other
  · intro changed ok group unlisted unused mem
    have known := renewed.mem_resolved ok mem
    rw [Std.ExtTreeMap.mem_iff_isSome_getElem?, World.getElem?_resolved, if_neg (by tauto)] at known
    cases known
  · intro changed ok group settings known
    obtain ⟨found, agreed, booked⟩ := renewed.exists_booked ok known
    refine ⟨found, agreed, fun happenings => Trial.ends_groupSettings ?_⟩
    rw [Trial.book_after, booked]

end Broker

end Matchmaker
