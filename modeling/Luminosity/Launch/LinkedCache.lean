import Luminosity.Host.Volumes
import Luminosity.Launch.Cache

/-!
# The names of a cache on a volume with links

A process writes the contents of an entry through the name of a scratch file.
Where this name is a link, or another name of the same file, what it writes is
the file of other names as well.  Then a file which is being written is found
under the name of a binary, and is renamed to one while others write to it.

None of this happens where the file is found by no other name of the cache
when it is opened.
-/

namespace Luminosity.Launch.LinkedCache

open Luminosity.Foundation.TextSegments
open Luminosity.Foundation.EffectPrograms
open Luminosity.Foundation.Chains
open Luminosity.Host.Paths
open Luminosity.Host.Calls
open Luminosity.Host.Volumes
open Luminosity.Launch.Cache

/-- The name of a binary, a signature or a scratch file. -/
def CacheNamed (path : Path) : Prop :=
  BinaryNamed path ∨ SignatureNamed path ∨ ∃ unique, ScratchOf unique path

theorem cacheNamed_scratch
    {unique : UInt32} {path : Path} (scratch : ScratchOf unique path) :
    CacheNamed path :=
  .inr (.inr ⟨unique, scratch⟩)

/-! ## Calls which spare other names -/

/--
A file which is opened for writing is none that another of these names leads
to, and such a target of a rename is none that the links of another binary
lead to.
-/
def Spares (others targets : Path → Prop) : Call → Volume → Prop
  | .create path, before =>
      ∀ other, others other → other ≠ path → ¬ before.Meets path other
  | .rename _ target, before =>
      targets target → ∀ other, BinaryNamed other → other ≠ target →
        ¬ Passes before.target other target
  | _, _ => True

/-- The calls of one process which spare other names. -/
def sparing (others targets : Path → Prop) (surroundings : Surroundings)
    (process : UInt32) : Semantics host Volume :=
  fun call before answer after =>
    linked surroundings process call before answer after ∧
      Spares others targets call before

/-- All names of the cache are spared. -/
abbrev Careful : Call → Volume → Prop :=
  Spares CacheNamed fun _ => True

/-- The calls which spare all other names of the cache. -/
abbrev careful : Surroundings → UInt32 → Semantics host Volume :=
  sparing CacheNamed fun _ => True

/-! ## Files with one name -/

/-- The node is found by this name, and by no other one of these names. -/
structure Sole (others : Path → Prop) (volume : Volume) (path : Path)
    (inode : Nat) : Prop where
  finds : volume.Finds path inode
  only : ∀ other, others other → volume.Finds other inode → other = path

/-- What the process writes is found by no name of the cache. -/
def Aside (process : UInt32) (volume : Volume) : Prop :=
  ∀ inode position, volume.opened process = some (inode, position) →
    ∀ other, CacheNamed other → ¬ volume.Finds other inode

/-- The process has written these bytes to a file with one name. -/
def Writes (others : Path → Prop) (process : UInt32) (path : Path)
    (bytes : Bytes) (volume : Volume) : Prop :=
  ∃ inode, Sole others volume path inode ∧
    volume.opened process = some (inode, bytes.length) ∧
      volume.node inode = .file bytes

variable {others : Path → Prop}

theorem Writes.holds
    {process : UInt32} {path : Path} {bytes : Bytes} {volume : Volume}
    (writes : Writes others process path bytes volume) :
    volume.Holds path bytes := by
  rcases writes with ⟨inode, sole, _, isFile⟩
  exact ⟨inode, sole.finds, isFile⟩

theorem Writes.sole
    {process : UInt32} {path : Path} {bytes : Bytes} {volume : Volume}
    (writes : Writes others process path bytes volume) {inode position : Nat}
    (opened : volume.opened process = some (inode, position)) :
    Sole others volume path inode := by
  rcases writes with ⟨found, sole, here, _⟩
  rw [here, Option.some.injEq, Prod.mk.injEq] at opened
  exact opened.1 ▸ sole

/-- The links of a file with one name come by no other name. -/
theorem Sole.avoids
    {volume : Volume} {path other : Path} {inode : Nat}
    (sole : Sole others volume path inode) (named : others other)
    (different : other ≠ path) :
    ¬ Passes volume.target path other := by
  intro passes
  exact different (sole.only other named (sole.finds.of_passes passes))

/-! ## What a step leaves to another process -/

/--
What another process writes to is left alone, as long as it is found by one
name of its own, or by none.
-/
structure Leaves (process : UInt32) (before after : Volume) : Prop where
  opened : after.opened process = before.opened process
  sole : ∀ path inode, ScratchOf process path →
    Sole CacheNamed before path inode →
      Sole CacheNamed after path inode ∧ after.node inode = before.node inode
  aside : Aside process before → Aside process after

theorem Leaves.writes
    {process : UInt32} {before after : Volume}
    (leaves : Leaves process before after) {path : Path}
    (scratch : ScratchOf process path) {bytes : Bytes}
    (writes : Writes CacheNamed process path bytes before) :
    Writes CacheNamed process path bytes after := by
  rcases writes with ⟨inode, sole, opened, isFile⟩
  rcases leaves.sole path inode scratch sole with ⟨still, same⟩
  exact ⟨inode, still, leaves.opened.trans opened, same.trans isFile⟩

theorem leaves_refl (process : UInt32) (volume : Volume) :
    Leaves process volume volume :=
  ⟨rfl, fun _ _ _ sole => ⟨sole, rfl⟩, fun aside => aside⟩

section Opening

variable {targets : Path → Prop}
variable {process another : UInt32} {path last : Path} {inode : Nat}
variable {before after : Volume}

/-- A file which is opened with care is found by one name of the cache. -/
theorem sole_opens
    (spares : Spares others targets (.create path) before)
    (arrives : Arrives before.target path last)
    (opens : before.Opens process last inode after) :
    Sole others after path inode := by
  refine ⟨opens.finds_self arrives, ?_⟩
  intro other named finds
  by_contra different
  exact spares other named different (opens.meets arrives finds)

theorem writes_opens
    (spares : Spares others targets (.create path) before)
    (arrives : Arrives before.target path last)
    (opens : before.Opens process last inode after) :
    Writes others process path [] after :=
  ⟨inode, sole_opens spares arrives opens, opens.opened_self,
    opens.node_self⟩

/-- A file which has no name of the cache gets none by opening it. -/
theorem aside_opens
    (apart : ¬ CacheNamed path)
    (spares : Careful (.create path) before)
    (arrives : Arrives before.target path last)
    (opens : before.Opens process last inode after) :
    Aside process after := by
  intro found position opened other named finds
  rw [opens.opened_self, Option.some.injEq, Prod.mk.injEq] at opened
  rw [← opened.1] at finds
  apply spares other named _ (opens.meets arrives finds)
  rintro rfl
  exact apart named

theorem leaves_opens
    (different : another ≠ process)
    (foreign : ¬ ScratchOf another path)
    (spares : Careful (.create path) before)
    (arrives : Arrives before.target path last)
    (opens : before.Opens process last inode after) :
    Leaves another before after := by
  refine ⟨opens.opened_of_ne different, ?_, ?_⟩
  · intro other found scratch sole
    have named := cacheNamed_scratch scratch
    have elsewhere : found ≠ inode := by
      rintro rfl
      have notPath : other ≠ path := by
        rintro rfl
        exact foreign scratch
      exact spares other named notPath
        (opens.meets arrives (opens.finds_kept sole.finds))
    refine ⟨⟨opens.finds_kept sole.finds, ?_⟩, opens.node_of_ne elsewhere⟩
    intro third thirdNamed finds
    exact sole.only third thirdNamed (opens.finds_of_ne elsewhere finds)
  · intro aside found position opened other named finds
    rw [opens.opened_of_ne different] at opened
    apply aside found position opened other named
    apply opens.finds_of_used _ finds
    rintro rfl unused
    exact unused.2 another position opened

end Opening

section Changing

variable {process another : UInt32} {path source target : Path}
variable {inode position : Nat} {bytes : Bytes} {byte : UInt8}
variable {before : Volume}

theorem Writes.write
    (writes : Writes others process path bytes before)
    (opened : before.opened process = some (inode, position))
    {held : Bytes} (isFile : before.node inode = .file held) :
    Writes others process path (bytes ++ [byte])
      (before.write process inode position held byte) := by
  rcases writes with ⟨found, sole, here, isWritten⟩
  rw [here, Option.some.injEq, Prod.mk.injEq] at opened
  rcases opened with ⟨rfl, rfl⟩
  cases isWritten.symm.trans isFile
  refine ⟨found, ⟨(Volume.write_finds_iff isFile).mpr sole.finds, ?_⟩, ?_, ?_⟩
  · intro other named finds
    exact sole.only other named ((Volume.write_finds_iff isFile).mp finds)
  · rw [Volume.write_opened_self, List.length_append, List.length_singleton]
  · rw [Volume.write_node_self, splice_length]

/-- Writing leaves the files alone which other processes write to. -/
theorem leaves_write
    (different : another ≠ process)
    (isFile : before.node inode = .file bytes)
    (foreign : ∀ other, CacheNamed other → before.Finds other inode →
      ¬ ScratchOf another other) :
    Leaves another before
      (before.write process inode position bytes byte) := by
  refine ⟨Volume.write_opened_of_ne different, ?_, ?_⟩
  · intro other found scratch sole
    have elsewhere : found ≠ inode := by
      rintro rfl
      exact foreign other (cacheNamed_scratch scratch) sole.finds scratch
    refine ⟨⟨(Volume.write_finds_iff isFile).mpr sole.finds, ?_⟩,
      Volume.write_node_of_ne elsewhere⟩
    intro third named finds
    exact sole.only third named ((Volume.write_finds_iff isFile).mp finds)
  · intro aside found offset opened other named finds
    rw [Volume.write_opened_of_ne different] at opened
    exact aside found offset opened other named
      ((Volume.write_finds_iff isFile).mp finds)

/-- Removing a name does so when no file of theirs has links which use it. -/
theorem leaves_remove
    (avoids : ∀ other inode, ScratchOf another other →
      Sole CacheNamed before other inode → ¬ Passes before.target other path) :
    Leaves another before (before.remove path) := by
  refine ⟨rfl, ?_, ?_⟩
  · intro other found scratch sole
    refine ⟨⟨?_, ?_⟩, rfl⟩
    · exact Volume.finds_remove (avoids other found scratch sole) sole.finds
    · intro third named finds
      exact sole.only third named (Volume.finds_of_remove finds)
  · intro aside found offset opened other named finds
    exact aside found offset opened other named (Volume.finds_of_remove finds)

/-- So does renaming a file with one name. -/
theorem leaves_rename
    (sole : Sole CacheNamed before source inode)
    (scratch : ScratchOf process source)
    (different : another ≠ process)
    (named : CacheNamed target) (foreign : ¬ ScratchOf another target)
    (distinct : source ≠ target)
    (present : before.entry source = some found) :
    Leaves another before (before.rename source target found) := by
  have own : ¬ ScratchOf another source :=
    fun others => different (others.unique scratch)
  have moved :
      (before.rename source target found).Finds target inode :=
    Volume.finds_rename_target present
      (sole.avoids named (Ne.symm distinct)) sole.finds
  -- Nothing but the file itself is found through its new name.
  have before_of (other : Path) (node : Nat) (elsewhere : node ≠ inode)
      (finds : (before.rename source target found).Finds other node) :
      before.Finds other node := by
    rcases Volume.finds_of_rename distinct finds with earlier | ⟨_, through⟩
    · exact earlier
    · exact absurd (through.unique moved) elsewhere
  refine ⟨by rw [Volume.rename_opened], ?_, ?_⟩
  · intro other node otherScratch otherSole
    have otherNamed := cacheNamed_scratch otherScratch
    have notSource : other ≠ source := by
      rintro rfl
      exact own otherScratch
    have notTarget : other ≠ target := by
      rintro rfl
      exact foreign otherScratch
    have elsewhere : node ≠ inode := by
      rintro rfl
      exact notSource (sole.only other otherNamed otherSole.finds)
    refine ⟨⟨?_, ?_⟩, by rw [Volume.rename_node]⟩
    · apply Volume.finds_rename
      · exact otherSole.avoids (cacheNamed_scratch scratch)
          (Ne.symm notSource)
      · exact otherSole.avoids named (Ne.symm notTarget)
      · exact otherSole.finds
    · intro third thirdNamed finds
      exact otherSole.only third thirdNamed
        (before_of third node elsewhere finds)
  · intro aside node offset opened other otherNamed finds
    rw [Volume.rename_opened] at opened
    have elsewhere : node ≠ inode := by
      rintro rfl
      exact aside node offset opened source (cacheNamed_scratch scratch)
        sole.finds
    exact aside node offset opened other otherNamed
      (before_of other node elsewhere finds)

end Changing

/-! ## Calls which name nothing of the cache -/

/-- No other name of the cache has links which come by this name. -/
def Unlinked (volume : Volume) (path : Path) : Prop :=
  ∀ other, CacheNamed other → other ≠ path →
    ¬ Passes volume.target other path

/-- A name which is renamed, replaced or removed is not linked either. -/
def Cautious : Call → Volume → Prop
  | .create path, before => Careful (.create path) before
  | .rename source target, before =>
      Unlinked before source ∧ Unlinked before target
  | .removeFile path, before => Unlinked before path
  | _, _ => True

/-- The calls of one process which spare the links of the cache as well. -/
def cautious (surroundings : Surroundings) (process : UInt32) :
    Semantics host Volume :=
  fun call before answer after =>
    linked surroundings process call before answer after ∧
      Cautious call before

theorem careful_of_cautious
    {surroundings : Surroundings} {process : UInt32} (call : Call)
    (before : Volume) (answer : call.Answer) (after : Volume)
    (step : cautious surroundings process call before answer after) :
    careful surroundings process call before answer after := by
  refine ⟨step.1, ?_⟩
  rcases step with ⟨_, spares⟩
  cases call with
  | create path => exact spares
  | rename source target =>
      intro _ other binary
      exact spares.2 other (.inl binary)
  | _ => trivial

/-- The calls which change no file by a name of the cache. -/
def Foreign : Call → Prop
  | .create path | .append path _ | .removeFile path => ¬ CacheNamed path
  | .rename source target => ¬ CacheNamed source ∧ ¬ CacheNamed target
  | _ => True

/--
The names of the cache hold what they held, the process still writes to nothing
of the cache, and what the others write to is left alone.
-/
structure Distant (process : UInt32) (before after : Volume) : Prop where
  holds : ∀ path bytes, CacheNamed path → after.Holds path bytes →
    before.Holds path bytes
  aside : Aside process after
  leaves : ∀ another, another ≠ process → Leaves another before after

section Distance

variable {process : UInt32} {before : Volume}
variable (aside : Aside process before)

include aside

theorem distant_refl : Distant process before before :=
  ⟨fun _ _ _ holds => holds, aside, fun another _ => leaves_refl another _⟩

theorem distant_write
    {inode position : Nat} {bytes : Bytes}
    (opened : before.opened process = some (inode, position))
    (isFile : before.node inode = .file bytes) (byte : UInt8) :
    Distant process before
      (before.write process inode position bytes byte) := by
  have apart := aside inode position opened
  refine ⟨?_, ?_, ?_⟩
  · intro path held named holds
    exact Volume.holds_of_write isFile (apart path named) holds
  · intro found offset now other named finds
    rw [Volume.write_opened_self, Option.some.injEq, Prod.mk.injEq] at now
    rw [Volume.write_finds_iff isFile, ← now.1] at finds
    exact apart other named finds
  · intro another different
    apply leaves_write different isFile
    intro other named finds
    exact absurd finds (apart other named)

theorem distant_remove {path : Path} (unlinked : Unlinked before path)
    (foreign : ¬ CacheNamed path) :
    Distant process before (before.remove path) := by
  refine ⟨fun _ _ _ => Volume.holds_of_remove, ?_, ?_⟩
  · intro found offset now other named finds
    exact aside found offset now other named (Volume.finds_of_remove finds)
  · intro another _
    apply leaves_remove
    intro other inode scratch _
    have named := cacheNamed_scratch scratch
    exact unlinked other named fun same => foreign (same ▸ named)

theorem distant_rename
    {source target : Path} {inode : Nat}
    (avoidsSource : Unlinked before source)
    (avoidsTarget : Unlinked before target)
    (foreign : Foreign (.rename source target))
    (present : before.entry source = some inode) :
    Distant process before (before.rename source target inode) := by
  by_cases same : source = target
  · subst same
    rw [Volume.rename, if_pos present]
    exact distant_refl aside
  · have elsewhere (other : Path) (named : CacheNamed other) :
        ¬ Passes before.target other source ∧
          ¬ Passes before.target other target :=
      ⟨avoidsSource other named fun equal => foreign.1 (equal ▸ named),
        avoidsTarget other named fun equal => foreign.2 (equal ▸ named)⟩
    have before_of (other : Path) (named : CacheNamed other) (node : Nat)
        (finds : (before.rename source target inode).Finds other node) :
        before.Finds other node := by
      rcases Volume.finds_of_rename same finds with earlier | ⟨passes, _⟩
      · exact earlier
      · exact absurd passes (elsewhere other named).2
    refine ⟨?_, ?_, ?_⟩
    · intro path held named holds
      exact Volume.holds_of_rename same (elsewhere path named).2 holds
    · intro found offset now other named finds
      rw [Volume.rename_opened] at now
      exact aside found offset now other named
        (before_of other named found finds)
    · intro another _
      refine ⟨by rw [Volume.rename_opened], ?_, ?_⟩
      · intro other node scratch sole
        have avoids := elsewhere other (cacheNamed_scratch scratch)
        refine ⟨⟨?_, ?_⟩, by rw [Volume.rename_node]⟩
        · exact Volume.finds_rename avoids.1 avoids.2 sole.finds
        · intro third named finds
          exact sole.only third named (before_of third named node finds)
      · intro others found offset now other named finds
        rw [Volume.rename_opened] at now
        exact others found offset now other named
          (before_of other named found finds)

/-- A call of this kind leaves the cache alone, and what is written to it. -/
theorem distant_of_foreign
    {surroundings : Surroundings} {call : Call} (foreign : Foreign call)
    {after : Volume} {answer : call.Answer}
    (step : cautious surroundings process call before answer after) :
    Distant process before after := by
  rcases step with ⟨step, spares⟩
  cases linked_effect step with
  | idle call => exact distant_refl aside
  | append opened isFile => exact distant_write aside opened isFile _
  | removeFile path => exact distant_remove aside spares foreign
  | rename present =>
      exact distant_rename aside spares.1 spares.2 foreign present
  | fetchAdd =>
      exact ⟨fun _ _ _ holds => holds, aside, fun _ _ =>
        ⟨rfl, fun _ _ _ sole => ⟨⟨sole.finds, sole.only⟩, rfl⟩,
          fun others => others⟩⟩
  | @create path last inode _ arrives opens =>
      have different (other : Path) (named : CacheNamed other) :
          other ≠ path := by
        rintro rfl
        exact foreign named
      refine ⟨?_, aside_opens foreign spares arrives opens, ?_⟩
      · intro other bytes named holds
        exact opens.holds_of_not_meets arrives
          (spares other named (different other named)) holds
      · intro another apart
        apply leaves_opens apart _ spares arrives opens
        exact fun scratch => foreign (cacheNamed_scratch scratch)

end Distance

end Luminosity.Launch.LinkedCache
