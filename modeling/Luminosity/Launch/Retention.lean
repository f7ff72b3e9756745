import Luminosity.Launch.DatedStores
import Luminosity.Launch.Deliveries
import Luminosity.Launch.RetainedBinaries

/-!
# What retention leaves of a resolved entry

After a binary is stored, the oldest binaries of its command are removed beyond
a cap, by their times of modification.  The binary which has just been stored
is not exempt: it is removed together with its signature when as many others as
the cap allows are dated no earlier than it.

A run is over every initial cache, links included, and every behaviour of the
server, and every call of it may fail.  What is told is of the caches in which
the scratch files of what can be stored share nothing with the names of the
command's entries.
-/

namespace Luminosity.Launch.Retention

open Luminosity.Foundation.TextSegments
open Luminosity.Foundation.EffectPrograms
open Luminosity.Foundation.Exceptions
open Luminosity.Foundation.OldestFirst
open Luminosity.Foundation.Chains
open Luminosity.Host.Paths
open Luminosity.Host.Calls
open Luminosity.Host.Volumes
open Luminosity.Host.ModifiedTimes
open Luminosity.Launch.Core
open Luminosity.Launch.Verifier
open Luminosity.Launch.Cache
open Luminosity.Launch.Requests
open Luminosity.Launch.Resolver
open Luminosity.Launch.Deliveries
open Luminosity.Launch.DatedStores
open Luminosity.Launch.RetainedBinaries

variable {libraries : Libraries}

section Property

variable (resolver : FetchVerifyCacheResolver libraries)
variable (network : Text → Except FetchError Bytes → Prop)
variable (process : UInt32) (name : Text)

/-- The path is the one of an entry, whose two files are found. -/
def InPlace (path : Path) (after : DatedVolume) : Prop :=
  ∃ cached,
    EntryOf resolver.config.cacheRoot name resolver.config.expectedVersion
        cached ∧
      cached.path = path ∧ after.volume.Leads cached.path ∧
        after.volume.Leads cached.signaturePath

/-- What is resolved is in place when the run ends. -/
def Survives (result : Except ResolutionError Path) (after : DatedVolume) :
    Prop :=
  ∀ path, result = .ok path → InPlace resolver name path after

/-- What the process stores of a release which the server can deliver. -/
structure Delivers (request : Request) : Prop where
  inCache : request.root = resolver.config.cacheRoot
  ofCommand : request.name = name
  ofVersion : request.version = resolver.config.expectedVersion
  byProcess : request.unique = process
  deliverable : Deliverable resolver network name
    { sha256 := request.sha256, signature := request.signature }
    request.bytes

/-- The file is listed as a binary of the command. -/
def Listed (file : Text) : Prop :=
  Plain file ∧
    retained (name ++ "-".toList) (.ok (.unicode file)) = some file

/-- A binary of the command as the cache directory lists it. -/
def InFamily (path : Path) : Prop :=
  ∃ file, Listed name file ∧ path = resolver.config.cacheRoot.child file

/-- The names which the resolver may remove. -/
def Tracked (path : Path) : Prop :=
  (∃ file, Listed name file ∧
    (path = resolver.config.cacheRoot.child file ∨
      path = resolver.config.cacheRoot.child (signatureName file))) ∨
    ∃ cached,
      EntryOf resolver.config.cacheRoot name resolver.config.expectedVersion
          cached ∧
        (path = cached.path ∨ path = cached.signaturePath)

/--
The scratch files of what can be delivered do not lead through other names of
the command's entries; and where they can be written, they share no file with
such a name.
-/
def Secluded (volume : Volume) : Prop :=
  ∀ request, Delivers resolver network process name request →
    Clear request (Tracked resolver name) volume ∧
      (Unobstructed request volume →
        Aloof request (Tracked resolver name) volume)

/-- As many others as are retained are dated no earlier than a time. -/
def Crowded (state : DatedVolume) (fresh : Path) (time : Int) : Prop :=
  ∃ others : List Path,
    others.Nodup ∧ others.length = resolver.config.retainedVersions ∧
      ∀ other ∈ others,
        other ≠ fresh ∧ InFamily resolver name other ∧
          state.volume.entry other ≠ none ∧ time ≤ state.seen other

/-- A binary is delivered which retention may remove again. -/
def Doomed (initial : DatedVolume) : Prop :=
  ∃ request,
    Delivers resolver network process name request ∧
      Unobstructed request initial.volume ∧
        InFamily resolver name (request.placed .binary) ∧
          Crowded resolver name initial (request.placed .binary)
            (initial.due (request.scratch .binary))

end Property

/-! ## The names of the entries -/

section Names

variable {network : Text → Except FetchError Bytes → Prop}
variable {process : UInt32} {resolver : FetchVerifyCacheResolver libraries}
variable {name file : Text} {path : Path} {request : Request}

theorem Listed.named (isListed : Listed name file) :
    BinaryNamed (resolver.config.cacheRoot.child file) ∧
      SignatureNamed
        (resolver.config.cacheRoot.child (signatureName file)) := by
  rcases isListed with ⟨plain, kept⟩
  rw [← join_plain _ plain, ← join_plain _ (plain_signatureName plain)]
  exact retained_named kept

theorem InFamily.tracked (family : InFamily resolver name path) :
    Tracked resolver name path := by
  rcases family with ⟨file, isListed, same⟩
  exact .inl ⟨file, isListed, .inl same⟩

/-- A tracked name is no scratch file. -/
theorem foreign_tracked : Foreign request (Tracked resolver name) := by
  rintro path item tracked rfl
  have scratch := @scratchOf_scratch request item
  rcases tracked with ⟨file, isListed, same⟩ | ⟨cached, entry, same⟩
  · rcases @Listed.named _ resolver _ _ isListed with ⟨binary, signature⟩
    rcases same with same | same
    · exact binary.not_scratchOf _ (same ▸ scratch)
    · exact signature.not_scratchOf _ (same ▸ scratch)
  · rcases same with same | same
    · exact entry.binaryNamed.not_scratchOf _ (same ▸ scratch)
    · exact entry.signatureNamed.not_scratchOf _ (same ▸ scratch)

/-- What is delivered is stored as an entry of the command. -/
theorem Delivers.entryOf
    (delivers : Delivers resolver network process name request) :
    EntryOf resolver.config.cacheRoot name resolver.config.expectedVersion
      request.stored := by
  rw [← delivers.inCache, ← delivers.ofCommand, ← delivers.ofVersion]
  exact entryOf_stored

theorem exists_delivers
    {entry : PlatformEntry} {bytes : Bytes}
    (deliverable : Deliverable resolver network name entry bytes) :
    ∃ request,
      Delivers resolver network process name request ∧
        request.sha256 = entry.sha256 ∧ request.bytes = bytes ∧
          request.signature = entry.signature :=
  ⟨{ root := resolver.config.cacheRoot
     name
     version := resolver.config.expectedVersion
     sha256 := entry.sha256
     hex := deliverable.hex
     bytes
     signature := entry.signature
     unique := process },
    ⟨rfl, rfl, rfl, rfl, deliverable⟩, rfl, rfl, rfl⟩

end Names

/-! ## Retention -/

section Sufficiency

variable {network : Text → Except FetchError Bytes → Prop}
variable {process : UInt32} {resolver : FetchVerifyCacheResolver libraries}
variable {name : Text} {request : Request} {initial state : DatedVolume}

/-- What is removed is not the entry, unless the entry is crowded out. -/
theorem outdated_ne
    {fresh : Path} {entries : List (Except IoError OsText)}
    (shows : Shows state.volume resolver.config.cacheRoot entries)
    (spared : InFamily resolver name fresh →
      ¬ Crowded resolver name state fresh (state.seen fresh))
    {removed : Cache.Candidate}
    (member : removed ∈ outdated resolver.config.retainedVersions
      (listed resolver.config.cacheRoot (name ++ "-".toList) state entries)) :
    ∃ file,
      Listed name file ∧ resolver.config.cacheRoot.child file ≠ fresh ∧
        removed.binary = resolver.config.cacheRoot.child file ∧
          removed.signature =
              resolver.config.cacheRoot.child (signatureName file) := by
  have isListed : removed ∈ listed resolver.config.cacheRoot
      (name ++ "-".toList) state entries :=
    List.mem_mergeSort.mp (List.mem_of_mem_take member)
  rcases mem_listed isListed with ⟨file, inListing, kept, rfl⟩
  have plain := (shows.1 file inListing).1
  have binary := join_plain resolver.config.cacheRoot plain
  have signature :=
    join_plain resolver.config.cacheRoot (plain_signatureName plain)
  refine ⟨file, ⟨plain, kept⟩, ?_, binary, signature⟩
  intro same
  have distinct :=
    @nodup_listed_binaries _ (name ++ "-".toList) _ _ shows
  rcases exists_kept_of_dropped modified_trans modified_total
      distinct.of_map member with ⟨others, nodup, length, later⟩
  apply spared ⟨file, ⟨plain, kept⟩, same.symm⟩
  refine ⟨others.map Cache.Candidate.binary, ?_, ?_, ?_⟩
  · apply nodup.map_on
    intro other otherMember another anotherMember
    exact List.inj_on_of_nodup_map distinct (later other otherMember).1
      (later another anotherMember).1
  · rw [List.length_map, length]
  · intro path inOthers
    rcases List.mem_map.mp inOthers with ⟨other, otherMember, rfl⟩
    rcases later other otherMember with ⟨otherListed, different, dated⟩
    rcases mem_listed otherListed with ⟨otherFile, otherIn, otherKept, rfl⟩
    have otherPlain := (shows.1 otherFile otherIn).1
    have otherBinary := join_plain resolver.config.cacheRoot otherPlain
    rw [candidateOf, otherBinary]
    refine ⟨?_, ⟨otherFile, ⟨otherPlain, otherKept⟩, rfl⟩,
      (shows.1 otherFile otherIn).2, ?_⟩
    · intro equal
      apply different
      apply List.inj_on_of_nodup_map distinct otherListed isListed
      rw [candidateOf, candidateOf, otherBinary, binary, equal, same]
    · rw [decide_eq_true_eq, candidateOf, candidateOf, otherBinary, binary,
        same] at dated
      exact dated

/-- An entry with its signature outlasts retention unless it is crowded out. -/
theorem ensures_enforceRetentionCap
    (delivers : Delivers resolver network process name request)
    (leads : ∀ item, state.volume.Leads (request.placed item))
    (avoids : ∀ item other, Tracked resolver name other →
      other ≠ request.placed item →
        ¬ Passes state.volume.target (request.placed item) other)
    (spared : InFamily resolver name (request.placed .binary) →
      ¬ Crowded resolver name state (request.placed .binary)
        (state.seen (request.placed .binary))) :
    Ensures (dated network process)
      (enforceRetentionCap resolver.config.cacheRoot name
        resolver.config.retainedVersions)
      (fun _ after => ∀ item, after.volume.Leads (request.placed item))
      state := by
  have entry := delivers.entryOf
  rw [enforceRetentionCap, ensures_bind, ensures_issue]
  intro answer read step
  have idles := @idles_of_reads _ _ (.readDir _) trivial _ _ _ step
  cases answer with
  | error error =>
      rw [ensures_pure, idles.volume]
      exact leads
  | ok entries =>
      have shows :
          Shows state.volume resolver.config.cacheRoot entries :=
        step.1.2
      simp only
      rw [ensures_bind]
      apply (ensures_binariesAmong entries read).mono
      rintro binaries middle ⟨later, rfl⟩
      rw [candidateOf_idles idles]
      have same := (idles.trans later).volume
      split_ifs
      · rw [ensures_pure, same]
        exact leads
      · have stays (item : Item) :
            Ensures (dated network process)
              (removeAll (outdated resolver.config.retainedVersions
                (listed resolver.config.cacheRoot (name ++ "-".toList)
                  state entries)))
              (fun _ after =>
                Volume.Agrees middle.volume after.volume
                  (request.placed item))
              middle := by
          apply ensures_agrees
          apply asks_removeAll
          intro removed member
          rcases outdated_ne shows spared member with
            ⟨file, isListed, different, binary, signature⟩
          have named := @Listed.named _ resolver _ _ isListed
          rw [same, binary, signature]
          constructor
          · apply avoids item _ (.inl ⟨file, isListed, .inl rfl⟩)
            cases item with
            | binary => exact different
            | signature =>
                intro equal
                exact named.1.not_signatureNamed
                  (equal ▸ entry.signatureNamed)
          · apply avoids item _ (.inl ⟨file, isListed, .inr rfl⟩)
            cases item with
            | binary =>
                intro equal
                exact entry.binaryNamed.not_signatureNamed
                  (show SignatureNamed (request.placed .binary) from
                    equal ▸ named.2)
            | signature => exact signature_ne entry different
        apply ((stays .binary).and (stays .signature)).mono
        rintro _ after ⟨binary, signature⟩ item
        cases item with
        | binary =>
            rw [binary.leads_iff, same]
            exact leads .binary
        | signature =>
            rw [signature.leads_iff, same]
            exact leads .signature

/-! ## Storing -/

/-- What is crowded later was crowded at first. -/
theorem Crowded.of_stores
    {after : DatedVolume}
    (thins : Thins (Tracked resolver name) initial state)
    (stores : Stores request state after)
    (aloof : Aloof request (Tracked resolver name) state.volume)
    {time : Int} (since : time ≤ after.seen (request.placed .binary))
    (binary : ∀ path, InFamily resolver name path →
      path ≠ request.placed .signature)
    (crowded : Crowded resolver name after (request.placed .binary)
      (after.seen (request.placed .binary))) :
    Crowded resolver name initial (request.placed .binary) time := by
  rcases crowded with ⟨others, nodup, length, each⟩
  refine ⟨others, nodup, length, ?_⟩
  intro other member
  rcases each other member with ⟨different, family, present, dated⟩
  have distinct (item : Item) : other ≠ request.placed item := by
    cases item with
    | binary => exact different
    | signature => exact binary other family
  have watched : Watched request (Tracked resolver name) other :=
    .inl family.tracked
  have foreign (item : Item) : other ≠ request.scratch item :=
    foreign_tracked other item family.tracked
  have entry := stores.entry aloof watched foreign distinct
  have still := stores.dated aloof watched foreign distinct
  rw [entry] at present
  rcases thins.kept present with ⟨first, seen⟩
  refine ⟨different, family, first, Int.le_trans since ?_⟩
  have unchanged : after.seen other = state.seen other := by
    rw [DatedVolume.seen, DatedVolume.seen, still]
  rw [← seen, ← unchanged]
  exact dated

theorem family_ne_signature
    (delivers : Delivers resolver network process name request)
    {path : Path} (family : InFamily resolver name path) :
    path ≠ request.placed .signature := by
  rcases family with ⟨file, isListed, rfl⟩
  intro same
  have named := (@Listed.named _ resolver _ _ isListed).1
  exact named.not_signatureNamed
    (same ▸ delivers.entryOf.signatureNamed)

/-- What is stored and resolved outlasts the retention which follows. -/
theorem ensures_storing_survives
    (secluded : Secluded resolver network process name initial.volume)
    (spared : ¬ Doomed resolver network process name initial)
    (thins : Thins (Tracked resolver name) initial state)
    {entry : PlatformEntry} {bytes : Bytes}
    (deliverable : Deliverable resolver network name entry bytes) :
    Ensures (dated network process)
      (Deliveries.storing resolver name entry bytes).run
      (WhenOk (InPlace resolver name)) state := by
  rcases @exists_delivers _ _ process _ _ _ _ deliverable with
    ⟨request, delivers, digest, rfl, signature⟩
  have stored := @ensures_storing network request state
  rw [delivers.byProcess, Request.storing, delivers.inCache,
    delivers.ofCommand, delivers.ofVersion, digest, signature] at stored
  rw [Deliveries.storing]
  apply Ensures.succeeds stored
  rintro cached after ⟨rfl, stores⟩
  rcases secluded request delivers with ⟨clear, aloofIf⟩
  have unobstructed :=
    unobstructed_of_thins thins foreign_tracked clear
      (stores.unobstructed (clear.of_thins thins foreign_tracked))
  have aloof := (aloofIf unobstructed).of_thins thins foreign_tracked
  have due :=
    Int.le_trans
      (thins.due fun _ => @clear.untracked _ _ .binary _ foreign_tracked _)
      (stores.due aloof).1
  rw [ensures_run_bind, ensures_run_lift]
  apply (ensures_enforceRetentionCap delivers (stores.leads aloof) _ _).mono
  · intro _ last leads
    exact ⟨request.stored, delivers.entryOf, rfl, leads .binary,
      leads .signature⟩
  · intro item other tracked different
    exact stores.avoids aloof (.inl tracked)
      (fun own => foreign_tracked other own tracked) different
  · intro family crowded
    exact spared ⟨request, delivers, unobstructed, family,
      crowded.of_stores thins stores aloof due
        fun _ => family_ne_signature delivers⟩

/-! ## Resolving -/

/-- An entry which verifies is found, with its signature. -/
theorem ensures_reverify_leads (cached : CachedBinary) (state : DatedVolume) :
    Ensures (dated network process) (resolver.reverify cached).run
      (fun result _ => result = .ok () →
        state.volume.Leads cached.path ∧
          state.volume.Leads cached.signaturePath)
      state := by
  have leads {path : Path} {bytes : Bytes}
      (holds : state.volume.Holds path bytes) : state.volume.Leads path := by
    rcases holds with ⟨inode, finds, _⟩
    exact ⟨inode, finds⟩
  rw [FetchVerifyCacheResolver.reverify, ensures_invoke_bind]
  rintro answer read ⟨⟨same, holds⟩, _⟩
  cases answer with
  | error error => rintro ⟨⟩
  | ok bytes =>
      rw [ensures_run_bind, ensures_run_lift, ensures_readToString]
      rintro text after ⟨⟨_, signed⟩, _⟩
      rw [same] at signed
      cases text with
      | error error => rintro ⟨⟩
      | ok signatureBytes =>
          have both :
              state.volume.Leads cached.path ∧
                state.volume.Leads cached.signaturePath :=
            ⟨leads holds, leads signed⟩
          rw [onOk_ok]
          cases textOf (.ok signatureBytes) with
          | error error => exact fun _ => both
          | ok signature =>
              rw [ensures_run_except]
              exact fun _ => both

theorem survives_of_whenOk
    {program : HostProgram (Except ResolutionError Path)}
    (ensured : Ensures (dated network process) program
      (WhenOk (InPlace resolver name)) state) :
    Ensures (dated network process) program (Survives resolver name)
      state := by
  apply ensured.mono
  rintro result after inPlace path rfl
  exact inPlace

theorem ensures_fetchVerifyStore_survives
    (secluded : Secluded resolver network process name initial.volume)
    (spared : ¬ Doomed resolver network process name initial)
    (thins : Thins (Tracked resolver name) initial state) :
    Ensures (dated network process) (resolver.fetchVerifyStore name).run
      (WhenOk (InPlace resolver name)) state := by
  apply Deliveries.ensures_fetchVerifyStore _ thins
  · intro entry bytes fetched deliverable thinned
    exact ensures_storing_survives secluded spared thinned deliverable
  · intro url before answer after thinned step
    exact ⟨thinned.idles (@idles_of_reads _ _ (.get url) trivial _ _ _ step),
      step.1.2⟩

/-- Whatever the cache holds, what is resolved survives. -/
theorem ensures_resolve_survives
    {args : List OsText}
    (secluded : Secluded resolver network process name initial.volume)
    (spared : ¬ Doomed resolver network process name initial) :
    Ensures (dated network process)
      (resolver.resolve { name := .unicode name, args }).run
      (Survives resolver name) initial := by
  apply survives_of_whenOk
  show Ensures _ (ExceptT.lift
    (find resolver.config.cacheRoot name resolver.config.expectedVersion) >>=
      _).run _ _
  rw [ensures_run_bind, ensures_run_lift]
  apply ((ensures_idles asks_find initial).and
    (returns_find.ensures initial)).mono
  rintro result found ⟨idles, entryOf⟩
  have thins : Thins (Tracked resolver name) initial found :=
    (Thins.refl initial).idles idles
  cases result with
  | none => exact ensures_fetchVerifyStore_survives secluded spared thins
  | some cached =>
      have entry := entryOf cached rfl
      rw [onOk_ok, ensures_run_bind, ensures_run_lift]
      apply ((ensures_idles (resolver.asks_reverify cached) found).and
        (ensures_reverify_leads cached found)).mono
      rintro verified checked ⟨later, leads⟩
      cases verified with
      | ok _ =>
          rcases leads rfl with ⟨binary, signature⟩
          rw [← later.volume] at binary signature
          exact ⟨cached, entry, rfl, binary, signature⟩
      | error error =>
          have evicts :
              Asks (Removes (Tracked resolver name)) (evict cached) :=
            (asks_evict_paths cached).mono fun _ =>
              Removes.mono fun _ same => .inr ⟨cached, entry, same⟩
          rw [onOk_ok, ensures_run_bind, ensures_run_lift]
          apply (ensures_thins evicts (thins.idles later)).mono
          intro _ evicted thinned
          exact ensures_fetchVerifyStore_survives secluded spared thinned

end Sufficiency

/-! ## The runs in which an entry is crowded out -/

section Necessity

variable {network : Text → Except FetchError Bytes → Prop}
variable {process : UInt32} {resolver : FetchVerifyCacheResolver libraries}
variable {name : Text} {request : Request} {initial state : DatedVolume}

/-! ### A listing of the fresh entry before the others -/

/-- The names of these paths, and then an error. -/
def listingOf (paths : List Path) : List (Except IoError OsText) :=
  paths.map (fun path => .ok (.unicode (fileName path))) ++
    [.error { kind := .other, detail := [] }]

theorem InFamily.fileName
    {path : Path} (family : InFamily resolver name path) :
    Listed name (Resolver.fileName path) ∧
      resolver.config.cacheRoot.join (Resolver.fileName path) = path := by
  rcases family with ⟨file, isListed, rfl⟩
  have same :
      Resolver.fileName (resolver.config.cacheRoot.child file) = file := by
    rw [Resolver.fileName, fileName_child]
    rfl
  rw [same]
  exact ⟨isListed, join_plain _ isListed.1⟩

theorem shows_listingOf
    {paths : List Path} (nodup : paths.Nodup) {volume : Volume}
    (each : ∀ path ∈ paths,
      InFamily resolver name path ∧ volume.entry path ≠ none) :
    Shows volume resolver.config.cacheRoot (listingOf paths) := by
  refine ⟨?_, ?_, .inl ⟨_, List.mem_append_right _ List.mem_cons_self⟩⟩
  · intro file member
    rcases List.mem_append.mp member with named | failed
    · rcases List.mem_map.mp named with ⟨path, inPaths, ⟨⟩⟩
      rcases each path inPaths with ⟨family, present⟩
      rcases family.fileName with ⟨⟨plain, _⟩, joined⟩
      rw [← join_plain _ plain, joined]
      exact ⟨plain, present⟩
    · rcases List.mem_singleton.mp failed with ⟨⟩
  · apply List.pairwise_append.mpr
    refine ⟨?_, List.pairwise_singleton _ _, ?_⟩
    · rw [List.pairwise_map]
      apply nodup.imp_of_mem
      intro path other member otherMember different file named otherNamed
      apply different
      rw [← (each path member).1.fileName.2,
        ← (each other otherMember).1.fileName.2]
      rw [← named, Except.ok.injEq, OsText.unicode.injEq] at otherNamed
      rw [otherNamed]
    · intro _ _ failed member file _ named
      rw [List.mem_singleton.mp member] at named
      cases named

theorem filterMap_listingOf
    {paths : List Path}
    (each : ∀ path ∈ paths, InFamily resolver name path) :
    (listingOf paths).filterMap (retained (name ++ "-".toList)) =
      paths.map Resolver.fileName := by
  induction paths with
  | nil => rfl
  | cons path rest induction =>
      have kept := (each path List.mem_cons_self).fileName.1.2
      have later := induction fun other member =>
        each other (List.mem_cons_of_mem path member)
      rw [listingOf, List.map_cons, List.cons_append,
        List.filterMap_cons_some kept, List.map_cons, ← later, listingOf]

/-- What retention counts of such a listing. -/
theorem listed_listingOf
    {paths : List Path}
    (each : ∀ path ∈ paths, InFamily resolver name path)
    (state : DatedVolume) :
    listed resolver.config.cacheRoot (name ++ "-".toList) state
        (listingOf paths) =
      paths.map fun path =>
        candidateOf resolver.config.cacheRoot state
          (Resolver.fileName path) := by
  rw [listed, filterMap_listingOf each, List.map_map]
  rfl

/-! ### Removing the fresh entry -/

/-- Retention removes a fresh entry which is crowded out. -/
theorem runs_enforceRetentionCap
    {fresh : Path} (family : InFamily resolver name fresh)
    (present : state.volume.entry fresh ≠ none)
    (isFile : ¬ state.volume.IsDirectory fresh)
    (crowded : Crowded resolver name state fresh (state.seen fresh)) :
    ∃ after,
      Runs (dated network process)
          (enforceRetentionCap resolver.config.cacheRoot name
            resolver.config.retainedVersions) state () after ∧
        after.volume.entry fresh = none := by
  rcases crowded with ⟨others, nodup, length, each⟩
  have nodupAll : (fresh :: others).Nodup := by
    apply List.nodup_cons.mpr
    refine ⟨?_, nodup⟩
    intro member
    exact (each fresh member).1 rfl
  have eachAll : ∀ path ∈ fresh :: others,
      InFamily resolver name path ∧ state.volume.entry path ≠ none := by
    intro path member
    rcases List.mem_cons.mp member with rfl | later
    · exact ⟨family, present⟩
    · exact ⟨(each path later).2.1, (each path later).2.2.1⟩
  have read :
      Runs (dated network process)
        (issue (.readDir resolver.config.cacheRoot)) state
        (.ok (listingOf (fresh :: others))) state :=
    Runs.perform ⟨⟨rfl, shows_listingOf nodupAll eachAll⟩, Int.le_refl _, rfl⟩
  have counted :=
    @runs_binariesAmong network process resolver.config.cacheRoot
      (name ++ "-".toList) (listingOf (fresh :: others)) state
  have binaries :=
    listed_listingOf (fun path member => (eachAll path member).1) state
  have candidateBinary (path : Path) (inFamily : InFamily resolver name path) :
      resolver.config.cacheRoot.join (Resolver.fileName path) = path :=
    inFamily.fileName.2
  have freshBinary :
      (candidateOf resolver.config.cacheRoot state
        (Resolver.fileName fresh)).binary = fresh :=
    candidateBinary fresh family
  rcases @runs_removeAll_one network process
      (candidateOf resolver.config.cacheRoot state (Resolver.fileName fresh))
      state (freshBinary.symm ▸ isFile) with ⟨after, removed, gone⟩
  rw [freshBinary] at gone
  refine ⟨after, read.bind (counted.bind ?_), gone⟩
  change Runs _
    (if (listed resolver.config.cacheRoot (name ++ "-".toList) state
        (listingOf (fresh :: others))).length ≤
        resolver.config.retainedVersions then pure ()
      else removeAll (outdated resolver.config.retainedVersions
        (listed resolver.config.cacheRoot (name ++ "-".toList) state
          (listingOf (fresh :: others))))) state () after
  rw [binaries, List.map_cons, if_neg, outdated_first]
  · exact removed
  · rw [List.length_map, length]
  · intro other member
    rcases List.mem_map.mp member with ⟨path, inOthers, rfl⟩
    rw [candidateOf, candidateOf, candidateBinary fresh family,
      candidateBinary path (each path inOthers).2.1]
    exact (each path inOthers).2.2.2
  · rw [List.length_cons, List.length_map, length]
    exact Nat.not_succ_le_self _

/-- Storing leaves an entry as crowded as it is found. -/
theorem Crowded.stored
    {after : DatedVolume}
    (delivers : Delivers resolver network process name request)
    (aloof : Aloof request (Tracked resolver name) initial.volume)
    (stores : Stores request initial after) {time : Int}
    (crowded : Crowded resolver name initial (request.placed .binary) time) :
    Crowded resolver name after (request.placed .binary) time := by
  rcases crowded with ⟨others, nodup, length, each⟩
  refine ⟨others, nodup, length, ?_⟩
  intro other member
  rcases each other member with ⟨different, family, there, since⟩
  have distinct (item : Item) : other ≠ request.placed item := by
    cases item with
    | binary => exact different
    | signature => exact family_ne_signature delivers family
  have watched : Watched request (Tracked resolver name) other :=
    .inl family.tracked
  have foreign (item : Item) : other ≠ request.scratch item :=
    foreign_tracked other item family.tracked
  refine ⟨different, family, ?_, ?_⟩
  · rw [stores.entry aloof watched foreign distinct]
    exact there
  · rw [DatedVolume.seen, stores.dated aloof watched foreign distinct]
    exact since

/-- A binary which is doomed can be stored, removed and resolved. -/
theorem exists_removed_run
    {args : List OsText}
    (secluded : Secluded resolver network process name initial.volume)
    (doomed : Doomed resolver network process name initial) :
    ∃ path after,
      Runs (dated network process)
          (resolver.resolve { name := .unicode name, args }).run initial
          (.ok path) after ∧
        after.volume.entry path = none := by
  rcases doomed with ⟨request, delivers, unobstructed, family, crowded⟩
  have aloof := (secluded request delivers).2 unobstructed
  rcases @exists_stored network request initial _ aloof unobstructed
    with ⟨stored, storing, still⟩
  rcases (ensures_storing request initial).of_run storing with ⟨_, stores⟩
  have later := crowded.stored delivers aloof stores
  rw [← (stores.due aloof).2 still] at later
  rcases stores.leads aloof .binary with ⟨inode, last, arrives, present⟩
  rcases @runs_enforceRetentionCap _ network process _ _ stored _ family
      (stores.present aloof) (stores.isFile aloof) later with
    ⟨after, retaining, gone⟩
  rw [delivers.byProcess, Request.storing, delivers.inCache,
    delivers.ofCommand, delivers.ofVersion] at storing
  have run :
      Runs (dated network process)
        (Deliveries.storing resolver name
          { sha256 := request.sha256, signature := request.signature }
          request.bytes).run
        initial (.ok (request.placed .binary)) after := by
    rw [Deliveries.storing]
    apply storing.run_bind
    exact retaining.run_lift.run_bind (.done _ _)
  have unlisted :
      dated network process (.readDir resolver.config.cacheRoot) initial
        (.error { kind := .other, detail := [] }) initial :=
    ⟨⟨rfl, trivial⟩, Int.le_refl _, rfl⟩
  exact ⟨_, after,
    runs_resolve_delivered unlisted
      (fun _ _ served => ⟨⟨rfl, served⟩, Int.le_refl _, rfl⟩)
      delivers.deliverable run, gone⟩

theorem not_ensures_resolve
    {args : List OsText}
    (secluded : Secluded resolver network process name initial.volume)
    (doomed : Doomed resolver network process name initial) :
    ¬ Ensures (dated network process)
      (resolver.resolve { name := .unicode name, args }).run
      (Survives resolver name) initial := by
  intro ensured
  rcases @exists_removed_run _ network process resolver name initial args
    secluded doomed with ⟨path, after, runs, gone⟩
  rcases ensured.of_run runs path rfl with ⟨cached, _, rfl, ⟨inode, leads⟩, _⟩
  exact Volume.not_finds_of_absent .refl gone leads

end Necessity

/-- Where there are no links, the scratch files share nothing. -/
theorem secluded_of_ordinary
    {resolver : FetchVerifyCacheResolver libraries}
    {network : Text → Except FetchError Bytes → Prop} {process : UInt32}
    {name : Text} {volume : Volume} (ordinary : volume.Ordinary) :
    Secluded resolver network process name volume := by
  intro request _
  have clear : Clear request (Tracked resolver name) volume :=
    ⟨fun _ _ _ different passes =>
      different (ordinary.passes passes).symm⟩
  exact ⟨clear, fun _ => ⟨clear, fun _ _ _ different meets =>
    different (ordinary.meets meets).symm⟩⟩

/-- A launcher of the later version, which keeps one binary of a command. -/
def thriftyResolver : FetchVerifyCacheResolver smallLibraries where
  config :=
    { smallResolver.config with
      retainedVersions := 1 }
  keys := smallKeys

def olderPath : Path :=
  thriftyResolver.config.cacheRoot.child
    (stem "foo".toList "1.0.0".toList olderSha256.toList)

def restoredEntry (path : Path) : Option Nat :=
  if path = olderPath then some 0 else none

theorem restoredEntry_some {path : Path} {inode : Nat}
    (present : restoredEntry path = some inode) :
    path = olderPath ∧ inode = 0 := by
  rcases Option.ite_none_right_eq_some.mp present with ⟨same, named⟩
  exact ⟨same, (Option.some.inj named).symm⟩

theorem restoredEntry_lt (path : Path) (inode : Nat)
    (present : restoredEntry path = some inode) : inode < 1 := by
  rw [(restoredEntry_some present).2]
  exact Nat.one_pos

/-- The binary of the older release, dated later than the clock. -/
def restored : DatedVolume where
  volume :=
    { entry := restoredEntry
      node := fun _ => .file olderBinary
      opened := fun _ => none
      counter := fun _ => 0
      roomy := roomy_of_lt restoredEntry_lt }
  modified _ := .ok 1
  now := 0

theorem restored_olderPath : restored.volume.entry olderPath = some 0 := by
  simp only [restored, restoredEntry, if_true]

theorem ordinary_restored : restored.volume.Ordinary where
  unlinked path := by
    cases present : restored.volume.entry path with
    | none => exact Volume.target_eq_none_of_absent present
    | some inode => exact Volume.target_eq_none_of_file present rfl
  single path other inode here there := by
    rw [(restoredEntry_some here).1, (restoredEntry_some there).1]

/-- What is stored of the later release. -/
def currentRequest : Request where
  root := thriftyResolver.config.cacheRoot
  name := "foo".toList
  version := "2.0.0".toList
  sha256 := currentSha256.toList
  hex := by decide +kernel
  bytes := currentBinary
  signature := "current".toList
  unique := 0

theorem delivers_current :
    Delivers thriftyResolver Published 0 "foo".toList currentRequest where
  inCache := rfl
  ofCommand := rfl
  ofVersion := rfl
  byProcess := rfl
  deliverable := deliverable_published

theorem doomed_restored :
    Doomed thriftyResolver Published 0 "foo".toList restored := by
  refine ⟨currentRequest, delivers_current, ?_, ?_,
    [olderPath], List.nodup_singleton _, rfl, ?_⟩
  · intro item
    constructor
    · refine ⟨_, arrives_self (ordinary_restored.unlinked _), ?_⟩
      rintro ⟨inode, _, ⟨⟩⟩
    · rintro ⟨inode, _, ⟨⟩⟩
  · exact ⟨stem "foo".toList "2.0.0".toList currentSha256.toList,
      ⟨by decide +kernel, by decide +kernel⟩, by decide +kernel⟩
  · intro other member
    rcases List.mem_singleton.mp member with rfl
    refine ⟨by decide +kernel, ?_, ?_, ?_⟩
    · exact ⟨_, ⟨by decide +kernel, by decide +kernel⟩, rfl⟩
    · rw [restored_olderPath]
      exact Option.some_ne_none 0
    · have due :
          restored.due (currentRequest.scratch .binary) = restored.now := by
        rw [DatedVolume.due, ordinary_restored.unlinked]
      rw [due, DatedVolume.seen, DatedVolume.dated, restored_olderPath]
      exact Int.zero_le_ofNat 1

end Luminosity.Launch.Retention
