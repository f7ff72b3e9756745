import Luminosity.Host.Volumes

/-!
# Files which are put in place

A file is written through one name, which is then renamed to another one.  A
path which shares no file with the first name, and does not come by the second,
finds what it found before.  One which comes by the second finds the new file.
-/

namespace Luminosity.Host.Placements

open Luminosity.Foundation.TextSegments
open Luminosity.Foundation.Chains
open Luminosity.Host.Paths
open Luminosity.Host.Volumes

/-- The process writes a file through one name, and renames it to the other. -/
def Places (process : UInt32) (temp target : Path) (bytes : Bytes)
    (before after : Volume) : Prop :=
  ∃ staged inode,
    Volume.Stages process temp bytes before staged ∧
      staged.entry temp = some inode ∧
        ¬ staged.IsDirectory target ∧
          after = staged.rename temp target inode

section Placing

variable {process : UInt32} {temp target other another : Path}
variable {bytes : Bytes} {before after : Volume}

section Frames

variable (places : Places process temp target bytes before after)

include places

theorem Places.openable : before.Openable temp := by
  rcases places with ⟨staged, inode, stages, _, _, rfl⟩
  exact stages.openable

theorem Places.free : ¬ before.IsDirectory target := by
  rcases places with ⟨staged, inode, stages, _, free, rfl⟩
  exact mt stages.isDirectory free

theorem Places.present : after.entry target ≠ none := by
  rcases places with ⟨staged, inode, stages, _, _, rfl⟩
  rw [Volume.rename_entry_target]
  exact Option.some_ne_none inode

theorem Places.isFile : ¬ after.IsDirectory target := by
  rcases places with ⟨staged, inode, stages, present, _, rfl⟩
  rintro ⟨found, here, isDirectory⟩
  cases Volume.rename_entry_target.symm.trans here
  rw [Volume.rename_node] at isDirectory
  exact stages.present.2 ⟨inode, present, isDirectory⟩

/-- A name which the first one does not come by is left. -/
theorem Places.entry_of_ne
    (avoids : ¬ Passes before.target temp other)
    (notTarget : other ≠ target) :
    after.entry other = before.entry other := by
  rcases places with ⟨staged, inode, stages, _, _, rfl⟩
  have notTemp : other ≠ temp := by
    rintro rfl
    exact avoids .refl
  rw [Volume.rename_entry_of_ne notTemp notTarget]
  exact stages.entry_of_not_passes avoids

/-- What shares nothing with the two names is found as before. -/
theorem Places.agrees
    (apart : ¬ before.Meets temp other)
    (avoids : ¬ Passes before.target other target) :
    Volume.Agrees before after other := by
  have notTemp := (places.openable.avoids apart).2
  rcases places with ⟨staged, inode, stages, _, _, rfl⟩
  have agrees := stages.agrees apart
  rw [← agrees.passes_iff] at avoids notTemp
  exact agrees.trans (Volume.agrees_rename notTemp avoids)

/-- The second name finds the file, which what found it before has met. -/
theorem Places.finds
    (avoids : ¬ Passes before.target temp target) :
    ∃ inode, after.Finds target inode ∧
      ∀ another, before.Finds another inode →
        before.Meets temp another := by
  rcases places with ⟨staged, inode, stages, present, _, rfl⟩
  rcases stages.finds with ⟨found, finds, met⟩
  refine ⟨found, Volume.finds_rename_target present ?_ finds, met⟩
  rw [stages.target]
  exact avoids

/-- So does a path which comes by the second name. -/
theorem Places.finds_of_passes
    (avoids : ¬ Passes before.target temp target)
    (apart : ¬ before.Meets temp other)
    (passes : Passes before.target other target) :
    ∃ inode, after.Finds other inode ∧
      ∀ another, before.Finds another inode →
        before.Meets temp another := by
  have notTemp := (places.openable.avoids apart).2
  rcases places.finds avoids with
    ⟨found, ⟨last, arrives, here⟩, met⟩
  refine ⟨found, ⟨last, ⟨?_, arrives.stops⟩, here⟩, met⟩
  rcases places with ⟨staged, inode, stages, present, _, rfl⟩
  have same (point : Path) (elsewhere : ¬ Volume.Among temp target point) :
      staged.target point = (staged.rename temp target inode).target point :=
    (Volume.rename_target_of_ne elsewhere).symm
  -- The first of the two names which the path comes by is the second one.
  rw [← stages.target] at passes notTemp
  rcases Passes.first same passes (.inr rfl) with
    ⟨point, rfl | rfl, now, earlier⟩
  · exact absurd earlier notTemp
  · exact now.trans arrives.passes

/-- What met neither the first name nor each other does not meet then. -/
theorem Places.not_meets
    (avoids : ¬ Passes before.target temp target)
    (apart : ¬ before.Meets temp other)
    (otherAvoids : ¬ Passes before.target other target)
    (anotherApart : ¬ before.Meets temp another)
    (distinct : ¬ before.Meets other another) :
    ¬ after.Meets other another := by
  have agrees := places.agrees apart otherAvoids
  by_cases passes : Passes before.target another target
  · rcases places.finds_of_passes avoids anotherApart passes with
      ⟨inode, ⟨stop, arrives, present⟩, met⟩
    rintro ⟨last, otherLast, otherArrives, anotherArrives, same⟩
    cases arrives.unique anotherArrives
    have finds : after.Finds other inode := by
      refine ⟨last, otherArrives, ?_⟩
      rcases same with rfl | ⟨found, here, there⟩
      · exact present
      · cases present.symm.trans there
        exact here
    exact apart (met other (agrees.finds_iff.mp finds))
  · intro meets
    exact distinct
      (agrees.symm.meets (places.agrees anotherApart passes).symm meets)

/-- Directories stay directories, and no others are made. -/
theorem Places.isDirectory_iff
    (same : after.entry other = before.entry other) :
    after.IsDirectory other ↔ before.IsDirectory other := by
  rcases places with ⟨staged, inode, stages, present, _, rfl⟩
  rw [Volume.IsDirectory, Volume.rename_node, same]
  constructor
  · rintro ⟨found, here, isDirectory⟩
    exact stages.of_isDirectory
      ⟨found, stages.entry_kept here, isDirectory⟩
  · intro directory
    rcases stages.isDirectory directory with ⟨found, here, isDirectory⟩
    rcases directory with ⟨earlier, there, _⟩
    cases here.symm.trans (stages.entry_kept there)
    exact ⟨found, there, isDirectory⟩

theorem Places.openable_iff (agrees : Volume.Agrees before after other) :
    after.Openable other ↔ before.Openable other := by
  constructor
  · rintro ⟨last, arrives, free⟩
    have earlier := agrees.symm.arrives arrives
    refine ⟨last, earlier, ?_⟩
    rwa [← places.isDirectory_iff (agrees last earlier.passes).1]
  · rintro ⟨last, arrives, free⟩
    refine ⟨last, agrees.arrives arrives, ?_⟩
    rwa [places.isDirectory_iff (agrees last arrives.passes).1]

/-- A path which comes by neither name is openable only if it was before. -/
theorem Places.openable_of
    (notTemp : ¬ Passes before.target other temp)
    (notTarget : ¬ Passes before.target other target)
    (openable : after.Openable other) :
    before.Openable other := by
  rcases places with ⟨staged, inode, stages, _, _, rfl⟩
  rw [← stages.target] at notTemp notTarget
  have agrees :=
    @Volume.agrees_rename staged other inode temp target notTemp notTarget
  rcases openable with ⟨last, arrives, free⟩
  have earlier := agrees.symm.arrives arrives
  refine ⟨last, stages.target ▸ earlier, ?_⟩
  intro directory
  apply free
  rw [Volume.IsDirectory, Volume.rename_node, (agrees last earlier.passes).1]
  exact stages.isDirectory directory

/-- The first name is gone when it was missing before. -/
theorem Places.gone
    (different : temp ≠ target)
    (avoids : ¬ Passes before.target temp target)
    (absent : before.entry temp = none) :
    after.entry temp = none := by
  rcases places with ⟨staged, inode, stages, present, _, rfl⟩
  rcases Volume.rename_entry_source different with gone | same
  · exact gone
  · rcases stages.fresh absent with ⟨fresh, here, unnamed⟩
    cases present.symm.trans here
    have shared : staged.entry target = some inode := by
      rw [← same]
      exact Volume.rename_entry_target
    rw [stages.entry_of_not_passes avoids] at shared
    exact absurd shared (unnamed target)

/-- The second name leads where the first one led. -/
theorem Places.target_target :
    after.target target = before.target temp := by
  rcases places with ⟨staged, inode, stages, present, _, rfl⟩
  rw [← stages.target, Volume.target, Volume.target,
    Volume.rename_entry_target, Volume.rename_node, present]

/-- What the second name then comes by, the first one came by. -/
theorem Places.passes_target
    (avoids : ¬ Passes before.target temp target)
    (passes : Passes after.target target other) :
    other = target ∨ Passes before.target temp other := by
  rcases Relation.ReflTransGen.cases_head passes with
    same | ⟨next, sends, onward⟩
  · exact .inl same.symm
  · right
    rw [Sends, places.target_target] at sends
    rcases places.openable with ⟨last, arrives, _⟩
    rcases places with ⟨staged, inode, stages, _, _, rfl⟩
    have first : Passes before.target temp next := .single sends
    have same (point : Path) (comes : Passes before.target next point) :
        (staged.rename temp target inode).target point =
          before.target point := by
      rw [← stages.target]
      apply Volume.rename_target_of_ne
      rintro (rfl | rfl)
      · exact arrives.not_back sends comes
      · exact avoids (first.trans comes)
    exact first.trans ((passes_congr_iff same).mp onward)

end Frames

end Placing

end Luminosity.Host.Placements
