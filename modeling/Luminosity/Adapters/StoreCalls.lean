import Luminosity.Adapters.Discovery

/-!
# The calls of the store

Which calls reading and writing a level asks for, whatever they answer: calls
which look around, and for a write also those on the scratch file it numbers
and the rename onto the file of the level.
-/

namespace Luminosity.Adapters.StoreCalls

open Luminosity.Foundation.TextSegments
open Luminosity.Foundation.EffectPrograms
open Luminosity.Host.Paths
open Luminosity.Host.Calls
open Luminosity.Config.Domain
open Luminosity.Config.Service
open Luminosity.Adapters.Document
open Luminosity.Adapters.Store
open Luminosity.Adapters.Store.FileConfigStore
open Luminosity.Adapters.Discovery

variable {allowed : Call → Prop}
variable (store : FileConfigStore) (saphyr : Saphyr)

/-- The calls which look at the file system or at the process. -/
def Looks : Call → Prop
  | .canonicalize _ | .symlinkMetadata _ | .isDir _ | .pathExists _
  | .read _ | .processId => True
  | _ => False

/-! ## Reading -/

section Reading

variable (looks : ∀ call : Call, Looks call → allowed call)
include looks

theorem asks_refuse (path : Path) :
    Asks allowed (store.refuseEscapingPath path).run :=
  store.asks_refuseEscapingPath (looks _ trivial)
    (fun _ _ => looks _ trivial) (looks _ trivial) (looks _ trivial)

theorem asks_read (level : Level) :
    Asks allowed (store.read saphyr level).run := by
  apply Asks.run_bind (asks_refuse store looks _)
  intro _
  apply Asks.run_bind (asks_readAndSplit (looks _ trivial))
  intro found
  cases found with
  | none => trivial
  | some found =>
      simp only
      cases parseFrontmatter saphyr found.2.frontmatter <;> trivial

theorem asks_readBody (source : FragmentSource) (level : Level) :
    Asks allowed (store.readBody saphyr source level).run := by
  apply Asks.run_bind
  · apply Asks.run_bind (asks_refuse store looks _)
    intro _
    apply Asks.run_bind (asks_readAndSplit (looks _ trivial))
    intro found
    cases found <;> trivial
  intro body
  trivial

theorem asks_readExisting (path : Path) :
    Asks allowed (readExisting path).run := by
  apply Asks.run_bind (asks_readToString (looks _ trivial)).run_lift
  intro answer
  cases answer with
  | ok content => trivial
  | error error =>
      simp only
      split_ifs <;> trivial

theorem asks_get (key : Key) (level : Option Level) :
    Asks allowed ((store.service saphyr).get key level).run := by
  cases level with
  | some level =>
      apply Asks.run_bind (asks_read store saphyr looks level)
      intro document
      trivial
  | none =>
      apply Asks.run_bind (asks_read store saphyr looks _)
      intro personal
      apply Asks.run_bind (asks_read store saphyr looks _)
      intro team
      cases resolve personal key <;> trivial

theorem asks_discover (start : Path) : Asks allowed (discover start) := by
  have marked (dir : Path) : Asks allowed (isMarked dir) := by
    apply Asks.bind ((asks_issue _).mpr (looks (.isDir _) trivial))
    intro found
    cases found with
    | true => trivial
    | false => exact (asks_issue _).mpr (looks (.pathExists _) trivial)
  have among (dirs : List Path) :
      Asks allowed (discoverAmong start dirs) := by
    induction dirs with
    | nil => trivial
    | cons dir rest induction =>
        apply (marked dir).bind
        intro found
        cases found with
        | true => trivial
        | false => exact induction
  apply (among _).bind
  intro root
  trivial

end Reading

/-! ## Writing -/

/-- The calls a write of the level may ask for. -/
structure AllowsWrite (store : FileConfigStore) (level : Level)
    (allowed : Call → Prop) : Prop where
  looks : ∀ call : Call, Looks call → allowed call
  makes : ∀ call : Call, call.Makes store.tempDir → allowed call
  counts : allowed .fetchAdd
  creates : ∀ process count, allowed (.create (store.tempPath process count))
  appends : ∀ process count byte,
    allowed (.append (store.tempPath process count) byte)
  removes : ∀ process count,
    allowed (.removeFile (store.tempPath process count))
  renames : ∀ process count,
    allowed
      (.rename (store.tempPath process count) (store.configPath level))

variable {level : Level} (allows : AllowsWrite store level allowed)
include allows

theorem asks_discard {α : Type} (process : UInt32) (count : UInt64)
    (error : ConfigError) :
    Asks allowed
      (discard (store.tempPath process count) error : StoreProgram α).run := by
  apply Asks.run_bind ((asks_invoke _).mpr (allows.removes process count))
  intro _
  trivial

theorem asks_replaceBy (contents : Text) (process : UInt32)
    (count : UInt64) :
    Asks allowed
      (replaceBy (store.configPath level) contents
        (store.tempPath process count)).run := by
  have written :
      Asks allowed
        (writeFile (store.tempPath process count) (encode contents)) :=
    asks_writeFile (allows.creates process count)
      (allows.appends process count) _
  apply Asks.run_bind written.run_lift
  intro answer
  cases answer with
  | error error => exact asks_discard store allows process count _
  | ok _ =>
      apply Asks.run_bind ((asks_invoke _).mpr (allows.renames process count))
      intro renamed
      cases renamed with
      | error error => exact asks_discard store allows process count _
      | ok _ => trivial

theorem asks_write (document : Node) :
    Asks allowed (store.write saphyr level document).run := by
  apply Asks.run_bind (asks_refuse store allows.looks _)
  intro _
  apply Asks.run_bind (asks_readExisting allows.looks _)
  intro existing
  cases render saphyr existing document with
  | error detail => trivial
  | ok rendered =>
      have made : Asks allowed (createDirAll store.tempDir) :=
        (asks_makes _).mono allows.makes
      apply Asks.run_bind made.run_lift
      intro answer
      cases answer with
      | error error => trivial
      | ok _ =>
          apply Asks.run_bind
            ((asks_invoke _).mpr (allows.looks .processId trivial))
          intro process
          apply Asks.run_bind ((asks_invoke _).mpr allows.counts)
          intro count
          exact asks_replaceBy store allows rendered process count

theorem asks_set (key : Key) (value : Text) :
    Asks allowed ((store.service saphyr).set key value level).run := by
  apply Asks.run_bind (asks_read store saphyr allows.looks level)
  intro document
  apply Asks.run_bind (asks_run_except _)
  intro root
  exact asks_write store saphyr allows _

end Luminosity.Adapters.StoreCalls
