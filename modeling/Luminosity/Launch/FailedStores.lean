import Luminosity.Launch.Lookup
import Luminosity.Launch.StoreFaults

/-!
# Stores which fail

A store which fails is meant to leave no trace.  But a scratch file is removed
only when its rename fails, and a binary stays in place when its signature
cannot be stored.  When the signature of an earlier entry is still there, such a
binary is found.

A scratch file is opened through its name, which may be a link.  What is told
here is of the caches where no other name which could tell of a trace leads to
the scratch files.
-/

namespace Luminosity.Launch.FailedStores

open Luminosity.Foundation.TextSegments
open Luminosity.Foundation.EffectPrograms
open Luminosity.Foundation.Chains
open Luminosity.Host.Paths
open Luminosity.Host.Calls
open Luminosity.Host.Volumes
open Luminosity.Launch.Core
open Luminosity.Launch.Cache
open Luminosity.Launch.Requests
open Luminosity.Launch.Lookup
open Luminosity.Launch.StoreFaults

/-! ## Traces -/

/-- The item is in the list, after skipped ones only. -/
def ComesFirst {α : Type} (item : α) (skipped : α → Prop) (items : List α) :
    Prop :=
  ∃ earlier later,
    items = earlier ++ item :: later ∧ ∀ other ∈ earlier, skipped other

/-- Whether a path leads to something. -/
noncomputable def present (volume : Volume) (path : Path) : Bool :=
  @decide (volume.Leads path) (Classical.propDecidable _)

theorem present_iff {volume : Volume} {path : Path} :
    present volume path = true ↔ volume.Leads path :=
  @decide_eq_true_iff _ (Classical.propDecidable _)

section Traces

variable (surroundings : Surroundings)
variable (request : Request) (order : List Listed) (fault : Fault)
variable (otherwise : Handler host Volume)

/-- What is listed when all names come in a fixed order. -/
def isListed (volume : Volume) : Listed → Bool
  | .ok (.unicode file) => (volume.entry (request.root.join file)).isSome
  | _ => true

noncomputable def directory (volume : Volume) : Directory where
  entries := order.filter (isListed request volume)
  present := present volume

noncomputable def lookup (volume : Volume) : Option CachedBinary :=
  found request.root request.name request.version
    (directory request order volume) otherwise volume

/-- A temporary name of the directory, which is not the entry's own. -/
def Temporary (path : Path) : Prop :=
  (∃ rest, path = request.root.join (".tmp-".toList ++ rest)) ∧
    ∀ item, path ≠ request.placed item

/-- There are no new scratch files, and lookups find what they found. -/
structure NoTrace (before after : Volume) : Prop where
  scratch : ∀ path, Temporary request path → before.entry path = none →
    after.entry path = none
  lookup :
    lookup request order otherwise after =
      lookup request order otherwise before

/-- A store which fails leaves no trace. -/
def LeavesNoTrace (before : Volume) : Prop :=
  ∀ error after,
    Attempts surroundings request fault before (.error error) after →
      NoTrace request order otherwise before after

/-- The binary and the signature of a digest are there. -/
structure Complete (volume : Volume) (sha256 : Text) : Prop where
  hex : isSha256Hex sha256 = true
  binary : volume.entry (request.binaryOf sha256) ≠ none
  signature : volume.Leads (request.signatureOf sha256)

/--
With the binary in place the entry of a digest is complete: its own signature is
there, or the links of a signature lead through the name of the binary.
-/
structure Completes (volume : Volume) (sha256 : Text) : Prop where
  hex : isSha256Hex sha256 = true
  binary : sha256 = request.sha256 ∨
    volume.entry (request.binaryOf sha256) ≠ none
  signature :
    volume.Leads (request.signatureOf sha256) ∨
      Passes volume.target (request.signatureOf sha256)
        (request.placed .binary)

/--
The binary completes an entry, which is listed before all complete entries and
before any name which is not Unicode text.
-/
def Reveals (volume : Volume) : Prop :=
  ∃ sha256, Completes request volume sha256 ∧
    ¬Complete request volume sha256 ∧
      ComesFirst (.ok (.unicode (stem request.name request.version sha256)))
        (fun listed => isOther listed = false ∧
          ∀ sha256,
            listed =
                .ok (.unicode (stem request.name request.version sha256)) →
              ¬Complete request volume sha256)
        order

/-- The step which fails is taken, since those before it can succeed. -/
def Taken (volume : Volume) : Prop :=
  fault.Strikes request ∧ fault.Starts request volume ∧
    (fault.item = .signature →
      volume.Openable (request.scratch .binary) ∧
        ¬ volume.IsDirectory (request.placed .binary))

/-- A name which tells of a trace. -/
def Watched (path : Path) : Prop :=
  Temporary request path ∨
    ∃ sha256, isSha256Hex sha256 = true ∧
      (path = request.binaryOf sha256 ∨ path = request.signatureOf sha256)

/-- The scratch file of the item is opened before a step fails. -/
def Opens : Item → Prop
  | .binary => fault.item = .signature ∨ fault.step ≠ .creating
  | .signature => fault.item = .signature ∧ fault.step ≠ .creating

/--
A scratch file which is opened is found by no other of these names, and that of
the signature not through the name of the binary.
-/
structure Secluded (volume : Volume) : Prop where
  scratch : ∀ item, Opens fault item → ∀ other, Watched request other →
    other ≠ request.scratch item →
      ¬ volume.Meets (request.scratch item) other
  binary : Opens fault .signature →
    ¬ Passes volume.target (request.scratch .signature)
      (request.placed .binary)

end Traces

/-! ## Looking up -/

section Searching

variable {α β : Type} {gained : α} {items : List α}

theorem comesFirst_self (skipped : α → Prop) :
    ComesFirst gained skipped (gained :: items) :=
  ⟨[], items, rfl, by simp⟩

theorem comesFirst_cons_iff
    {item : α} {skipped : α → Prop} (other : item ≠ gained) :
    ComesFirst gained skipped (item :: items) ↔
      skipped item ∧ ComesFirst gained skipped items := by
  constructor
  · rintro ⟨earlier, later, split, all⟩
    cases earlier with
    | nil =>
        cases split
        exact absurd rfl other
    | cons first earlier =>
        cases split
        rw [List.forall_mem_cons] at all
        exact ⟨all.1, earlier, later, rfl, all.2⟩
  · rintro ⟨first, earlier, later, rfl, all⟩
    exact ⟨item :: earlier, later, rfl,
      List.forall_mem_cons.mpr ⟨first, all⟩⟩

theorem comesFirst_congr
    {first second : α → Prop} (same : ∀ item, first item ↔ second item) :
    ComesFirst gained first items ↔ ComesFirst gained second items := by
  rw [show first = second from funext fun item => propext (same item)]

/--
A search which gains answers gives the same result unless it comes to a gain
first.
-/
theorem findSome?_takeWhile_gains
    {passes : α → Bool} {old new : α → Option β}
    (kept : ∀ item, old item ≠ none → new item = old item)
    (fresh : ∀ item other answer, old item = none → new item = some answer →
      old other ≠ some answer) :
    (items.takeWhile passes).findSome? new =
        (items.takeWhile passes).findSome? old ↔
      ∀ gained, passes gained = true → old gained = none →
        new gained ≠ none →
          ¬ComesFirst gained
            (fun item => passes item = true ∧ old item = none) items := by
  induction items with
  | nil =>
      constructor
      · rintro _ gained _ _ _ ⟨earlier, later, split, _⟩
        exact absurd split.symm (by simp)
      · intro _
        rfl
  | cons item rest induction =>
      -- What is skipped is passed, and had no answer.
      have skipped {gained : α} (first : ComesFirst gained
          (fun item => passes item = true ∧ old item = none) (item :: rest))
          (passed : passes gained = true) (without : old gained = none) :
          passes item = true ∧ old item = none := by
        by_cases same : item = gained
        · subst same
          exact ⟨passed, without⟩
        · exact ((comesFirst_cons_iff same).mp first).1
      cases passing : passes item with
      | false =>
          rw [List.takeWhile_cons_of_neg (by simp [passing])]
          constructor
          · intro _ gained passed without _ first
            rw [(skipped first passed without).1] at passing
            cases passing
          · intro _
            rfl
      | true =>
          rw [List.takeWhile_cons_of_pos passing, List.findSome?_cons,
            List.findSome?_cons]
          cases seen : old item with
          | some answer =>
              have same := kept item (by rw [seen]; exact Option.some_ne_none _)
              rw [same, seen]
              constructor
              · intro _ gained passed without _ first
                rw [(skipped first passed without).2] at seen
                cases seen
              · intro _
                rfl
          | none =>
              cases gain : new item with
              | none =>
                  rw [induction]
                  have elsewhere {gained : α} (gains : new gained ≠ none) :
                      item ≠ gained := by
                    rintro rfl
                    exact gains gain
                  constructor
                  · intro known gained passed without gains first
                    rw [comesFirst_cons_iff (elsewhere gains)] at first
                    exact known gained passed without gains first.2
                  · intro known gained passed without gains first
                    apply known gained passed without gains
                    rw [comesFirst_cons_iff (elsewhere gains)]
                    exact ⟨⟨passing, seen⟩, first⟩
              | some answer =>
                  constructor
                  · intro found
                    rcases List.exists_of_findSome?_eq_some found.symm with
                      ⟨other, _, known⟩
                    exact absurd known (fresh item other answer seen gain)
                  · intro known
                    apply absurd (comesFirst_self _)
                    apply known item passing seen
                    rw [gain]
                    exact Option.some_ne_none _

end Searching

section Visibility

variable {request : Request} {order : List Listed}
variable {otherwise : Handler host Volume} {volume before after : Volume}

/-- The entry of a listed name, when the name is listed and matches. -/
noncomputable def visible
    (request : Request) (volume : Volume) (listed : Listed) :
    Option CachedBinary :=
  if isListed request volume listed then
    matching request.root request.name request.version
      (present volume) listed
  else
    none

theorem lookup_eq :
    lookup request order otherwise volume =
      (order.takeWhile fun listed => !isOther listed).findSome?
        (visible request volume) := by
  rw [lookup, found_eq]
  show
    ((order.filter (isListed request volume)).takeWhile
        fun listed => !isOther listed).findSome? _ = _
  induction order with
  | nil => rfl
  | cons listed order induction =>
      cases readable : !isOther listed with
      | false =>
          -- A name which is not Unicode is listed in any case.
          have shown : isListed request volume listed = true := by
            rcases listed with error | file | bytes
            · rfl
            · cases readable
            · rfl
          rw [List.filter_cons_of_pos shown, List.takeWhile_cons, readable,
            List.takeWhile_cons, readable]
          rfl
      | true =>
          rw [@List.takeWhile_cons _ _ listed order, readable, if_pos rfl,
            List.findSome?_cons, ← induction, visible]
          cases shown : isListed request volume listed with
          | false =>
              rw [List.filter_cons_of_neg (by simp [shown])]
              rfl
          | true =>
              rw [List.filter_cons_of_pos shown, List.takeWhile_cons,
                readable, if_pos rfl, List.findSome?_cons]
              rfl

theorem visible_eq_some_iff {listed : Listed} {cached : CachedBinary} :
    visible request volume listed = some cached ↔
      ∃ sha256,
        listed = .ok (.unicode (stem request.name request.version sha256)) ∧
          Complete request volume sha256 ∧
          cached =
            entryOf request.root request.name request.version sha256 := by
  rw [visible, Option.ite_none_right_eq_some, matching_eq_some_iff]
  constructor
  · rintro ⟨shown, sha256, rfl, hex, signed, rfl⟩
    refine ⟨sha256, rfl, ⟨hex, ?_, ?_⟩, rfl⟩
    · exact Option.isSome_iff_ne_none.mp shown
    · exact present_iff.mp signed
  · rintro ⟨sha256, rfl, complete, rfl⟩
    refine ⟨?_, sha256, rfl, complete.hex, ?_, rfl⟩
    · exact Option.isSome_iff_ne_none.mpr complete.binary
    · exact present_iff.mpr complete.signature

theorem visible_eq_none_iff {listed : Listed} :
    visible request volume listed = none ↔
      ∀ sha256,
        listed = .ok (.unicode (stem request.name request.version sha256)) →
          ¬Complete request volume sha256 := by
  rw [Option.eq_none_iff_forall_ne_some]
  constructor
  · intro unseen sha256 isEntry complete
    exact unseen _ (visible_eq_some_iff.mpr ⟨sha256, isEntry, complete, rfl⟩)
  · intro incomplete cached seen
    rcases visible_eq_some_iff.mp seen with ⟨sha256, isEntry, complete, _⟩
    exact incomplete sha256 isEntry complete

/-- What is visible depends on which entries are complete. -/
theorem visible_congr
    {listed : Listed}
    (same : ∀ sha256,
      listed = .ok (.unicode (stem request.name request.version sha256)) →
        (Complete request after sha256 ↔ Complete request before sha256)) :
    visible request after listed = visible request before listed := by
  apply Option.ext
  intro cached
  rw [visible_eq_some_iff, visible_eq_some_iff]
  apply exists_congr
  intro sha256
  apply and_congr_right
  intro isEntry
  rw [same sha256 isEntry]

end Visibility

/-! ## The names of an entry -/

section Names

variable {request : Request} {volume : Volume}

theorem temporary_scratch (item : Item) :
    Temporary request (request.scratch item) := by
  constructor
  · cases item with
    | binary =>
        rcases exists_tempName request.entry request.unique with ⟨rest, same⟩
        exact ⟨rest, congrArg request.root.join same⟩
    | signature =>
        rcases exists_tempSignatureName request.entry request.unique with
          ⟨rest, same⟩
        exact ⟨rest, congrArg request.root.join same⟩
  · intro other
    exact (placed_ne_scratch other item).symm

theorem watched_scratch (item : Item) :
    Watched request (request.scratch item) :=
  .inl (temporary_scratch item)

theorem watched_binary {sha256 : Text} (hex : isSha256Hex sha256 = true) :
    Watched request (request.binaryOf sha256) :=
  .inr ⟨sha256, hex, .inl rfl⟩

theorem watched_signature {sha256 : Text} (hex : isSha256Hex sha256 = true) :
    Watched request (request.signatureOf sha256) :=
  .inr ⟨sha256, hex, .inr rfl⟩

/-- Where there are no links, every entry is secluded. -/
theorem secluded_of_ordinary
    {fault : Fault} (ordinary : volume.Ordinary) :
    Secluded request fault volume where
  scratch _ _ _ _ different meets :=
    different (ordinary.meets meets).symm
  binary _ passes :=
    placed_ne_scratch .binary .signature (ordinary.passes passes).symm

end Names

/-! ## What a failure leaves -/

section Remains

variable {request : Request} {order : List Listed} {fault : Fault}
variable {otherwise : Handler host Volume} {before after staged : Volume}
variable {item : Item} {other : Path}

/-- No name but its own tells of the scratch file. -/
structure Clear (request : Request) (item : Item) (volume : Volume) :
    Prop where
  meets : ∀ sha256, isSha256Hex sha256 = true →
    ¬ volume.Meets (request.scratch item) (request.signatureOf sha256)
  passes : ∀ other, Watched request other → other ≠ request.scratch item →
    volume.Openable (request.scratch item) →
      ¬ Passes volume.target (request.scratch item) other

theorem Secluded.not_passes
    (secluded : Secluded request fault before) (opens : Opens fault item)
    (watched : Watched request other)
    (different : other ≠ request.scratch item)
    (openable : before.Openable (request.scratch item)) :
    ¬ Passes before.target (request.scratch item) other :=
  (openable.avoids
    (secluded.scratch item opens other watched different)).1

theorem Secluded.clear
    (secluded : Secluded request fault before) (opens : Opens fault item) :
    Clear request item before where
  meets _ hex :=
    secluded.scratch item opens _ (watched_signature hex)
      (signatureOf_ne_scratch hex item)
  passes _ watched different openable :=
    secluded.not_passes opens watched different openable

/-! ### Placing the binary -/

section Placed

variable (secluded : Secluded request fault before)
variable (isItem : fault.item = .signature)
variable (places : Places request .binary before after)

include secluded isItem places

/-- The scratch file is on no way with the binary. -/
theorem binary_avoids :
    ¬ Passes before.target (request.scratch .binary)
      (request.placed .binary) := by
  have opens : Opens fault .binary := Or.inl isItem
  rcases places with ⟨bytes, places⟩
  exact secluded.not_passes opens (watched_binary request.hex)
    (placed_ne_scratch .binary .binary) places.openable

/-- A name which is neither of the two is left. -/
theorem entry_placed
    (watched : Watched request other)
    (notScratch : other ≠ request.scratch .binary)
    (notPlaced : other ≠ request.placed .binary) :
    after.entry other = before.entry other := by
  have opens : Opens fault .binary := Or.inl isItem
  rcases places with ⟨bytes, places⟩
  exact places.entry_of_ne
    (secluded.not_passes opens watched notScratch places.openable)
    notPlaced

/-- A signature is there as before, or when its links lead to the binary. -/
theorem leads_placed {sha256 : Text} (hex : isSha256Hex sha256 = true) :
    after.Leads (request.signatureOf sha256) ↔
      before.Leads (request.signatureOf sha256) ∨
        Passes before.target (request.signatureOf sha256)
          (request.placed .binary) := by
  have apart :=
    secluded.scratch .binary (Or.inl isItem) _ (watched_signature hex)
      (signatureOf_ne_scratch hex .binary)
  have avoids := binary_avoids secluded isItem places
  rcases places with ⟨bytes, places⟩
  by_cases passes :
      Passes before.target (request.signatureOf sha256)
        (request.placed .binary)
  · rcases places.finds_of_passes avoids apart passes with ⟨inode, finds, _⟩
    constructor
    · intro _
      exact .inr passes
    · intro _
      exact ⟨inode, finds⟩
  · rw [(places.agrees apart passes).leads_iff]
    constructor
    · exact .inl
    · intro either
      exact either.resolve_right passes

/-- The entries which are complete then are those the binary completes. -/
theorem complete_placed_iff {sha256 : Text} :
    Complete request after sha256 ↔ Completes request before sha256 := by
  have binary (hex : isSha256Hex sha256 = true) :
      after.entry (request.binaryOf sha256) ≠ none ↔
        sha256 = request.sha256 ∨
          before.entry (request.binaryOf sha256) ≠ none := by
    by_cases own : sha256 = request.sha256
    · subst own
      rcases places with ⟨bytes, places⟩
      constructor
      · intro _
        exact .inl rfl
      · intro _
        exact places.present
    · rw [entry_placed secluded isItem places (watched_binary hex)
        (binaryOf_ne_scratch hex .binary)
        (mt (binaryOf_injective hex request.hex) own)]
      simp [own]
  constructor
  · rintro ⟨hex, isPlaced, signed⟩
    exact ⟨hex, (binary hex).mp isPlaced,
      (leads_placed secluded isItem places hex).mp signed⟩
  · rintro ⟨hex, isPlaced, signed⟩
    exact ⟨hex, (binary hex).mpr isPlaced,
      (leads_placed secluded isItem places hex).mpr signed⟩

section Opened

variable (opens : Opens fault .signature)

include opens

theorem agrees_placed_scratch :
    Volume.Agrees before after (request.scratch .signature) := by
  rcases places with ⟨bytes, places⟩
  apply places.agrees
  · apply secluded.scratch .binary (Or.inl isItem) _
      (watched_scratch .signature)
    intro same
    cases scratch_inj.mp same
  · exact secluded.binary opens

/-- The scratch file of the signature is as clear as it was. -/
theorem clear_placed : Clear request .signature after where
  meets sha256 hex := by
    have avoids := binary_avoids secluded isItem places
    have apart {other : Path} (watched : Watched request other)
        (different : other ≠ request.scratch .binary) :
        ¬ before.Meets (request.scratch .binary) other :=
      secluded.scratch .binary (Or.inl isItem) other watched different
    rcases places with ⟨bytes, places⟩
    apply places.not_meets avoids _ (secluded.binary opens)
    · exact apart (watched_signature hex) (signatureOf_ne_scratch hex .binary)
    · exact (secluded.clear opens).meets sha256 hex
    · apply apart (watched_scratch .signature)
      intro same
      cases scratch_inj.mp same
  passes _ watched different openable := by
    have scratch := agrees_placed_scratch secluded isItem places opens
    rcases places with ⟨bytes, places⟩
    rw [scratch.passes_iff]
    rw [places.openable_iff scratch] at openable
    exact (secluded.clear opens).passes _ watched different openable

end Opened

end Placed

/-! ### The file whose step fails -/

/-- What no scratch file is told by is left. -/
theorem remains_frame
    (clear : fault.step ≠ .creating → Clear request fault.item before)
    (remains : fault.Remains request before after) :
    (∀ other, Watched request other → other ≠ request.scratch fault.item →
        after.entry other = before.entry other) ∧
      ∀ sha256, isSha256Hex sha256 = true →
        Volume.Agrees before after (request.signatureOf sha256) := by
  have of_stages {staged : Volume} (late : fault.step ≠ .creating)
      (stages : Stages request fault.item before staged) :
      (∀ other, Watched request other → other ≠ request.scratch fault.item →
          staged.entry other = before.entry other) ∧
        ∀ sha256, isSha256Hex sha256 = true →
          Volume.Agrees before staged (request.signatureOf sha256) := by
    rcases stages with ⟨bytes, stages⟩
    constructor
    · intro other watched different
      exact stages.entry_of_not_passes
        ((clear late).passes other watched different stages.openable)
    · intro sha256 hex
      exact stages.agrees ((clear late).meets sha256 hex)
  rw [Fault.Remains] at remains
  cases isStep : fault.step with
  | creating =>
      rw [isStep] at remains
      cases remains
      exact ⟨fun _ _ _ => rfl, fun _ _ _ _ => ⟨rfl, rfl⟩⟩
  | writing length =>
      rw [isStep] at remains
      exact of_stages (by rw [isStep]; rintro ⟨⟩) remains
  | marking =>
      rw [isStep] at remains
      exact of_stages (by rw [isStep]; rintro ⟨⟩) remains
  | moving =>
      have late : fault.step ≠ .creating := by
        rw [isStep]
        rintro ⟨⟩
      rw [isStep] at remains
      rcases remains with ⟨staged, stages, rfl⟩
      have frame := of_stages late stages
      rcases stages with ⟨bytes, stages⟩
      rcases stages.openable with ⟨last, arrives, _⟩
      constructor
      · intro other watched different
        rw [Volume.remove_entry_of_ne different]
        exact frame.1 other watched different
      · intro sha256 hex
        apply (frame.2 sha256 hex).trans
        apply Volume.agrees_remove
        rw [(frame.2 sha256 hex).passes_iff]
        intro passes
        exact (clear late).meets sha256 hex
          (Volume.meets_of_arrives arrives
            ⟨passes.trans arrives.passes, arrives.stops⟩)

/-- The scratch file stays when the failure leaves it. -/
theorem remains_scratch
    (leaves : fault.Leaves) (remains : fault.Remains request before after) :
    after.entry (request.scratch fault.item) ≠ none := by
  have of_stages (stages : Stages request fault.item before after) :
      after.entry (request.scratch fault.item) ≠ none := by
    rcases stages with ⟨bytes, stages⟩
    rcases stages.present with ⟨⟨found, present⟩, _⟩
    rw [present]
    exact Option.some_ne_none found
  rw [Fault.Leaves] at leaves
  rw [Fault.Remains] at remains
  cases isStep : fault.step with
  | creating =>
      rw [isStep] at leaves
      exact leaves.elim
  | writing length =>
      rw [isStep] at remains
      exact of_stages remains
  | marking =>
      rw [isStep] at remains
      exact of_stages remains
  | moving =>
      rw [isStep] at leaves
      exact leaves.elim

theorem remains_cleared
    (clears : ¬fault.Leaves) (remains : fault.Remains request before after)
    (absent : before.entry (request.scratch fault.item) = none) :
    after.entry (request.scratch fault.item) = none := by
  rw [Fault.Leaves] at clears
  rw [Fault.Remains] at remains
  cases isStep : fault.step with
  | creating =>
      rw [isStep] at remains
      exact remains ▸ absent
  | writing length =>
      rw [isStep] at clears
      exact absurd trivial clears
  | marking =>
      rw [isStep] at clears
      exact absurd trivial clears
  | moving =>
      rw [isStep] at remains
      rcases remains with ⟨staged, _, rfl⟩
      exact Volume.remove_entry_self

/-! ### Looking up what is left -/

/-- A lookup depends on the names of binaries, and where signatures lead. -/
theorem lookup_congr
    (binary : ∀ sha256, isSha256Hex sha256 = true →
      after.entry (request.binaryOf sha256) =
        before.entry (request.binaryOf sha256))
    (signature : ∀ sha256, isSha256Hex sha256 = true →
      (after.Leads (request.signatureOf sha256) ↔
        before.Leads (request.signatureOf sha256))) :
    lookup request order otherwise after =
      lookup request order otherwise before := by
  have same :
      visible request after = visible request before := by
    funext listed
    apply visible_congr
    intro sha256 _
    constructor
    · rintro ⟨hex, isPlaced, signed⟩
      exact ⟨hex, binary sha256 hex ▸ isPlaced,
        (signature sha256 hex).mp signed⟩
    · rintro ⟨hex, isPlaced, signed⟩
      exact ⟨hex, (binary sha256 hex).symm ▸ isPlaced,
        (signature sha256 hex).mpr signed⟩
  rw [lookup_eq, lookup_eq, same]

/-- Scratch files make no difference to a lookup. -/
theorem lookup_remains
    (clear : fault.step ≠ .creating → Clear request fault.item before)
    (remains : fault.Remains request before after) :
    lookup request order otherwise after =
      lookup request order otherwise before := by
  have frame := remains_frame clear remains
  apply lookup_congr
  · intro sha256 hex
    exact frame.1 _ (watched_binary hex) (binaryOf_ne_scratch hex _)
  · intro sha256 hex
    exact (frame.2 sha256 hex).leads_iff

/-- The binary without its signature changes a lookup when it is revealed. -/
theorem lookup_placed_iff
    (secluded : Secluded request fault before)
    (isItem : fault.item = .signature)
    (places : Places request .binary before after) :
    lookup request order otherwise after =
        lookup request order otherwise before ↔
      ¬Reveals request order before := by
  have completes {sha256 : Text} :=
    @complete_placed_iff request fault before after secluded isItem places
      sha256
  have distinct {first second : Text} (hex : isSha256Hex first = true)
      (otherHex : isSha256Hex second = true)
      (same : stem request.name request.version first =
        stem request.name request.version second) :
      first = second :=
    binaryOf_injective hex otherHex (congrArg request.root.join same)
  have skipped (listed : Listed) :
      (!isOther listed) = true ∧ visible request before listed = none ↔
        isOther listed = false ∧
          ∀ sha256,
            listed = .ok (.unicode
                (stem request.name request.version sha256)) →
              ¬Complete request before sha256 := by
    rw [visible_eq_none_iff, Bool.not_eq_true']
  rw [lookup_eq, lookup_eq, findSome?_takeWhile_gains]
  · constructor
    · rintro known ⟨sha256, complete, incomplete, first⟩
      refine known _ rfl ?_ ?_ ((comesFirst_congr skipped).mpr first)
      · rw [visible_eq_none_iff]
        intro other same others
        rw [Except.ok.injEq, OsText.unicode.injEq] at same
        cases distinct complete.hex others.hex same
        exact incomplete others
      · rw [visible_eq_some_iff.mpr
          ⟨sha256, rfl, completes.mpr complete, rfl⟩]
        exact Option.some_ne_none _
    · intro unseen gained _ old new first
      rcases Option.ne_none_iff_exists'.mp new with ⟨cached, seen⟩
      rcases visible_eq_some_iff.mp seen with
        ⟨sha256, rfl, complete, _⟩
      exact unseen ⟨sha256, completes.mp complete,
        visible_eq_none_iff.mp old sha256 rfl,
        (comesFirst_congr skipped).mp first⟩
  · intro listed seen
    rcases Option.ne_none_iff_exists'.mp seen with ⟨cached, known⟩
    rw [known]
    rcases visible_eq_some_iff.mp known with ⟨sha256, isEntry, complete, same⟩
    refine visible_eq_some_iff.mpr ⟨sha256, isEntry, completes.mpr ?_, same⟩
    exact ⟨complete.hex, .inr complete.binary, .inl complete.signature⟩
  · intro listed other cached old new known
    rcases visible_eq_some_iff.mp new with ⟨sha256, rfl, _, rfl⟩
    rcases visible_eq_some_iff.mp known with ⟨digest, rfl, complete, same⟩
    have shared : sha256 = digest := congrArg (·.sha256) same
    subst shared
    exact visible_eq_none_iff.mp old sha256 rfl complete

/-! ### The scratch files which are left -/

/-- Only its own scratch file can be new when a step fails. -/
theorem scratch_remains_iff
    (clear : fault.step ≠ .creating → Clear request fault.item before)
    (remains : fault.Remains request before after) :
    (∀ path, Temporary request path → before.entry path = none →
        after.entry path = none) ↔
      (fault.Leaves → before.entry (request.scratch fault.item) ≠ none) := by
  constructor
  · intro clean leaves absent
    exact remains_scratch leaves remains
      (clean _ (temporary_scratch fault.item) absent)
  · intro known path temporary absent
    by_cases same : path = request.scratch fault.item
    · subst same
      apply remains_cleared _ remains absent
      exact fun leaves => known leaves absent
    · rw [(remains_frame clear remains).1 path (.inl temporary) same]
      exact absent

/-- Placing the binary leaves no new scratch file. -/
theorem placed_temporary
    (secluded : Secluded request fault before)
    (isItem : fault.item = .signature)
    (places : Places request .binary before after)
    {path : Path} (temporary : Temporary request path)
    (absent : before.entry path = none) :
    after.entry path = none := by
  by_cases same : path = request.scratch .binary
  · subst same
    have avoids := binary_avoids secluded isItem places
    rcases places with ⟨bytes, places⟩
    exact places.gone (placed_ne_scratch .binary .binary).symm avoids absent
  · rw [entry_placed secluded isItem places (.inl temporary) same
      (temporary.2 .binary)]
    exact absent

end Remains

/-! ## When a failure leaves no trace -/

section Failing

variable {surroundings : Surroundings}
variable {request : Request} {order : List Listed} {fault : Fault}
variable {otherwise : Handler host Volume} {before after : Volume}

/-- What is left shows when a failure leaves no trace. -/
theorem noTrace_iff
    (secluded : Secluded request fault before)
    (failure : Failure request fault before after) :
    NoTrace request order otherwise before after ↔
      (fault.Leaves → before.entry (request.scratch fault.item) ≠ none) ∧
        (fault.item = .signature → ¬Reveals request order before) := by
  have parts :
      NoTrace request order otherwise before after ↔
        (∀ path, Temporary request path → before.entry path = none →
            after.entry path = none) ∧
          lookup request order otherwise after =
            lookup request order otherwise before := by
    constructor
    · rintro ⟨scratch, lookup⟩
      exact ⟨scratch, lookup⟩
    · rintro ⟨scratch, lookup⟩
      exact ⟨scratch, lookup⟩
  rw [parts]
  rw [Failure] at failure
  cases isItem : fault.item with
  | binary =>
      rw [isItem] at failure
      have clear (late : fault.step ≠ .creating) :
          Clear request fault.item before := by
        have opens : Opens fault .binary := Or.inr late
        rw [isItem]
        exact secluded.clear opens
      rw [scratch_remains_iff clear failure, isItem,
        lookup_remains clear failure]
      simp
  | signature =>
      rw [isItem] at failure
      rcases failure with ⟨placed, places, remains⟩
      have clear (late : fault.step ≠ .creating) :
          Clear request fault.item placed := by
        rw [isItem]
        exact clear_placed secluded isItem places ⟨isItem, late⟩
      have kept : placed.entry (request.scratch .signature) =
          before.entry (request.scratch .signature) := by
        apply entry_placed secluded isItem places (watched_scratch .signature)
        · intro same
          cases scratch_inj.mp same
        · exact (placed_ne_scratch .binary .signature).symm
      rw [lookup_remains clear remains,
        lookup_placed_iff secluded isItem places]
      apply and_congr
      · rw [← kept, ← isItem, ← scratch_remains_iff clear remains]
        constructor
        · intro clean path temporary absent
          by_cases same : path = request.scratch fault.item
          · subst same
            rw [isItem] at temporary absent ⊢
            exact clean _ temporary (kept ▸ absent)
          · rw [(remains_frame clear remains).1 path (.inl temporary) same]
            exact absent
        · intro clean path temporary absent
          exact clean path temporary
            (placed_temporary secluded isItem places temporary absent)
      · simp

theorem starts_of_remains (remains : fault.Remains request before after) :
    fault.Starts request before := by
  have of_stages {staged : Volume}
      (stages : Stages request fault.item before staged) :
      before.Openable (request.scratch fault.item) := by
    rcases stages with ⟨bytes, stages⟩
    exact stages.openable
  rw [Fault.Remains] at remains
  rw [Fault.Starts]
  cases isStep : fault.step with
  | creating => exact .inl rfl
  | writing length =>
      rw [isStep] at remains
      exact .inr (of_stages remains)
  | marking =>
      rw [isStep] at remains
      exact .inr (of_stages remains)
  | moving =>
      rw [isStep] at remains
      rcases remains with ⟨staged, stages, _⟩
      exact .inr (of_stages stages)

/-- The signature's steps can start after the binary is placed as before. -/
theorem starts_placed
    (secluded : Secluded request fault before)
    (isItem : fault.item = .signature)
    (places : Places request .binary before after) :
    fault.Starts request after ↔ fault.Starts request before := by
  rw [Fault.Starts, Fault.Starts, isItem]
  apply or_congr_right'
  intro late
  have agrees :=
    agrees_placed_scratch secluded isItem places ⟨isItem, late⟩
  rcases places with ⟨bytes, places⟩
  exact places.openable_iff agrees

/-- A store fails only when the step which fails is taken. -/
theorem taken_of_failure
    (secluded : Secluded request fault before)
    (strikes : fault.Strikes request)
    (failure : Failure request fault before after) :
    Taken request fault before := by
  refine ⟨strikes, ?_⟩
  rw [Failure] at failure
  cases isItem : fault.item with
  | binary =>
      rw [isItem] at failure
      refine ⟨starts_of_remains failure, ?_⟩
      rintro ⟨⟩
  | signature =>
      rw [isItem] at failure
      rcases failure with ⟨placed, places, remains⟩
      refine ⟨(starts_placed secluded isItem places).mp
        (starts_of_remains remains), fun _ => ?_⟩
      rcases places with ⟨bytes, places⟩
      exact ⟨places.openable, places.free⟩

/-- When it is taken, the store can fail. -/
theorem exists_failure
    (secluded : Secluded request fault before)
    (taken : Taken request fault before) :
    ∃ error after,
      Attempts surroundings request fault before (.error error) after := by
  rcases taken with ⟨strikes, starts, first⟩
  cases isItem : fault.item with
  | binary =>
      rcases @exists_placing_struck surroundings request fault before strikes
          starts with ⟨error, after, run⟩
      rw [isItem] at run
      exact ⟨error, after, runs_storing run.run_bind_error⟩
  | signature =>
      rcases first isItem with ⟨openable, free⟩
      have other : Item.binary ≠ fault.item := by
        rw [isItem]
        rintro ⟨⟩
      rcases @exists_placing surroundings request fault .binary before other
          openable free with ⟨placed, placing⟩
      have places :=
        ((ensures_placing request fault .binary before).of_run placing).1
      rcases @exists_placing_struck surroundings request fault placed strikes
          ((starts_placed secluded isItem places).mpr starts) with
        ⟨error, after, run⟩
      rw [isItem] at run
      exact ⟨error, after, runs_storing
        (placing.run_bind run.run_bind_error)⟩

end Failing

section Theorem

variable (surroundings : Surroundings)
variable (request : Request) (order : List Listed) (fault : Fault)
variable (otherwise : Handler host Volume) (before : Volume)

end Theorem

/-! ## A full disk -/

def sampleRequest : Request where
  root := ⟨true, [.normal "cache".toList]⟩
  name := "visualise".toList
  version := "1.0.0".toList
  sha256 := List.replicate 64 '0'
  hex := by decide
  bytes := [0x7F, 0x45]
  signature := []
  unique := 1

/-- The disk is full after the first byte. -/
def diskFull : Fault where
  item := .binary
  step := .writing 1
  error := { kind := .other, detail := "No space left on device".toList }

theorem lt_of_nameless (_ : Path) (inode : Nat)
    (present : none = some inode) : inode < 0 := by
  cases present

def emptyVolume : Volume where
  entry _ := none
  node _ := .directory
  opened _ := none
  counter _ := 0
  roomy := roomy_of_lt lt_of_nameless

theorem ordinary_empty : emptyVolume.Ordinary where
  unlinked _ := rfl
  single _ _ _ := by rintro ⟨⟩

theorem taken_sample : Taken sampleRequest diskFull emptyVolume := by
  refine ⟨?_, .inr ?_, ?_⟩
  · show 1 < [0x7F, 0x45].length
    decide
  · refine ⟨_, arrives_self rfl, ?_⟩
    rintro ⟨inode, ⟨⟩, _⟩
  · rintro ⟨⟩

end Luminosity.Launch.FailedStores
