import Mathlib.Logic.Function.Basic
import Luminosity.Foundation.Chains
import Luminosity.Host.Calls

/-!
# A volume with links

A name on a volume stands for a node, which is a file, a symbolic link or a
directory.  Several names may stand for one node.  A link holds the path which
its target is when the directories on the way are resolved, and the directories
above a name are not followed: two paths are two names.

Opening a path for writing follows its links, and makes the file where they
end at a missing name.  A process writes on in the file which it opened last,
whatever has become of its names.  Renaming and removing do not follow links.

Every call on the file system may fail; it may report a file as missing only
when the file is missing.
-/

namespace Luminosity.Host.Volumes

open Luminosity.Foundation.TextSegments
open Luminosity.Foundation.EffectPrograms
open Luminosity.Foundation.Chains
open Luminosity.Host.Paths
open Luminosity.Host.Calls

inductive Node where
  | file (bytes : Bytes)
  | link (target : Path)
  | directory
deriving DecidableEq

/-- Where a link leads. -/
def Node.target : Node → Option Path
  | .link target => some target
  | _ => none

/-- Beyond each bound there is a number of no name and of no open file. -/
def Roomy (entry : Path → Option Nat) (opened : UInt32 → Option (Nat × Nat)) :
    Prop :=
  ∀ bound, ∃ inode, bound ≤ inode ∧ (∀ path, entry path ≠ some inode) ∧
    ∀ process position, opened process ≠ some (inode, position)

namespace Roomy

variable {entry : Path → Option Nat} {opened : UInt32 → Option (Nat × Nat)}
  (roomy : Roomy entry opened)

include roomy

theorem enter (path : Path) (inode : Nat) :
    Roomy (Function.update entry path (some inode)) opened := by
  intro bound
  rcases roomy (max bound (inode + 1)) with ⟨free, above, names, handles⟩
  have different : free ≠ inode := by omega
  refine ⟨free, by omega, ?_, handles⟩
  intro name present
  by_cases same : name = path
  · rw [same, Function.update_self, Option.some.injEq] at present
    exact different present.symm
  · rw [Function.update_of_ne same] at present
    exact names name present

theorem opens (process : UInt32) (inode position : Nat) :
    Roomy entry (Function.update opened process (some (inode, position))) := by
  intro bound
  rcases roomy (max bound (inode + 1)) with ⟨free, above, names, handles⟩
  have different : free ≠ inode := by omega
  refine ⟨free, by omega, names, ?_⟩
  intro another reached present
  by_cases same : another = process
  · rw [same, Function.update_self, Option.some.injEq] at present
    exact different (congrArg Prod.fst present).symm
  · rw [Function.update_of_ne same] at present
    exact handles another reached present

theorem remove (path : Path) :
    Roomy (Function.update entry path none) opened := by
  intro bound
  rcases roomy bound with ⟨free, above, names, handles⟩
  refine ⟨free, above, ?_, handles⟩
  intro name present
  by_cases same : name = path
  · rw [same, Function.update_self] at present
    cases present
  · rw [Function.update_of_ne same] at present
    exact names name present

end Roomy

/-- Names of the first nodes only leave room. -/
theorem roomy_of_lt
    {entry : Path → Option Nat} {limit : Nat}
    (below : ∀ path inode, entry path = some inode → inode < limit) :
    Roomy entry fun _ => none := by
  intro bound
  refine ⟨max bound limit, Nat.le_max_left .., ?_, ?_⟩
  · intro path present
    exact Nat.not_lt.mpr (Nat.le_max_right bound limit) (below path _ present)
  · rintro process position ⟨⟩

/--
The nodes by their names, the file each process opened last with how far it
wrote there, and the counter of each process.  There is always room for one
more file.
-/
structure Volume where
  entry : Path → Option Nat
  node : Nat → Node
  opened : UInt32 → Option (Nat × Nat)
  counter : UInt32 → UInt64
  roomy : Roomy entry opened

namespace Volume

variable (volume : Volume)

/-- Where the link of a name leads. -/
def target (path : Path) : Option Path :=
  (volume.entry path).bind fun inode => (volume.node inode).target

/-- Following its links, a path finds this node. -/
def Finds (path : Path) (inode : Nat) : Prop :=
  ∃ last, Arrives volume.target path last ∧ volume.entry last = some inode

/-- Following its links, a path finds something. -/
def Leads (path : Path) : Prop :=
  ∃ inode, volume.Finds path inode

/-- Following its links, a path finds a file with these bytes. -/
def Holds (path : Path) (bytes : Bytes) : Prop :=
  ∃ inode, volume.Finds path inode ∧ volume.node inode = .file bytes

/-- Two paths find one node, or lead to one missing name. -/
def Meets (path other : Path) : Prop :=
  ∃ last otherLast,
    Arrives volume.target path last ∧
      Arrives volume.target other otherLast ∧
        (last = otherLast ∨
          ∃ inode, volume.entry last = some inode ∧
            volume.entry otherLast = some inode)

def IsDirectory (path : Path) : Prop :=
  ∃ inode, volume.entry path = some inode ∧ volume.node inode = .directory

/-- The node has no name, and no process writes to it. -/
def Unused (inode : Nat) : Prop :=
  (∀ path, volume.entry path ≠ some inode) ∧
    ∀ process position, volume.opened process ≠ some (inode, position)

def enter (path : Path) (inode : Nat) : Volume :=
  { volume with
    entry := Function.update volume.entry path (some inode)
    roomy := volume.roomy.enter path inode }

/-- The process opens a file, whose contents are discarded. -/
def truncate (process : UInt32) (inode : Nat) : Volume :=
  { volume with
    node := Function.update volume.node inode (.file [])
    opened := Function.update volume.opened process (some (inode, 0))
    roomy := volume.roomy.opens process inode 0 }

@[simp]
theorem truncate_entry (process : UInt32) (inode : Nat) :
    (volume.truncate process inode).entry = volume.entry := rfl

end Volume

/-- Put a byte at a position, after zeros where the bytes end before it. -/
def splice (bytes : Bytes) (position : Nat) (byte : UInt8) : Bytes :=
  bytes.take position ++ List.replicate (position - bytes.length) 0 ++
    byte :: bytes.drop (position + 1)

theorem splice_length (bytes : Bytes) (byte : UInt8) :
    splice bytes bytes.length byte = bytes ++ [byte] := by
  simp [splice]

namespace Volume

variable (volume : Volume)

/-- The process writes a byte to the file it opened. -/
def write (process : UInt32) (inode position : Nat) (bytes : Bytes)
    (byte : UInt8) : Volume :=
  { volume with
    node :=
      Function.update volume.node inode (.file (splice bytes position byte))
    opened :=
      Function.update volume.opened process (some (inode, position + 1))
    roomy := volume.roomy.opens process inode (position + 1) }

def remove (path : Path) : Volume :=
  { volume with
    entry := Function.update volume.entry path none
    roomy := volume.roomy.remove path }

/-- Two names of one node are left alone. -/
def rename (source target : Path) (inode : Nat) : Volume :=
  if volume.entry target = some inode then
    volume
  else
    (volume.remove source).enter target inode

def advance (process : UInt32) : Volume :=
  { volume with
    counter :=
      Function.update volume.counter process (volume.counter process + 1) }

/-- The process opens the file of a name which is no link, or makes it. -/
inductive Opens (process : UInt32) (last : Path) : Nat → Volume → Prop
  | existing
      (there : volume.entry last = some inode)
      (isFile : volume.node inode = .file bytes) :
      Opens process last inode (volume.truncate process inode)
  | fresh
      (absent : volume.entry last = none)
      (unused : volume.Unused inode) :
      Opens process last inode
        ((volume.enter last inode).truncate process inode)

end Volume

/-! ## The calls of one process -/

/-- What the volume does not decide: the network, and what a listing shows. -/
structure Surroundings where
  network : Text → Except FetchError Bytes → Prop
  listing : Volume → Path → List (Except IoError OsText) → Prop

/-- A failure which reports a file as missing is honest. -/
def Honest (absent : Prop) (error : IoError) : Prop :=
  error.kind = .notFound → absent

def linked (surroundings : Surroundings) (process : UInt32) :
    Semantics host Volume
  | .canonicalize _, before, _, after => after = before
  | .symlinkMetadata _, before, _, after => after = before
  | .isDir _, before, _, after => after = before
  | .pathExists path, before, answer, after =>
      after = before ∧ (answer = true → ∃ inode, before.Finds path inode)
  | .read path, before, answer, after =>
      after = before ∧
        match answer with
        | .ok bytes => before.Holds path bytes
        | .error error => Honest (∀ bytes, ¬ before.Holds path bytes) error
  | .readDir path, before, answer, after =>
      after = before ∧
        match answer with
        | .ok entries => surroundings.listing before path entries
        | .error _ => True
  | .modified _, before, _, after => after = before
  | .createDir _, before, _, after => after = before
  | .create path, before, answer, after =>
      match answer with
      | .ok _ =>
          ∃ last inode, Arrives before.target path last ∧
            before.Opens process last inode after
      | .error _ => after = before
  | .append _ byte, before, answer, after =>
      match answer with
      | .ok _ =>
          ∃ inode position bytes,
            before.opened process = some (inode, position) ∧
              before.node inode = .file bytes ∧
                after = before.write process inode position bytes byte
      | .error _ => after = before
  | .setPermissions _ _, before, _, after => after = before
  | .rename source target, before, answer, after =>
      match answer with
      | .ok _ =>
          ∃ inode, before.entry source = some inode ∧
            ¬ before.IsDirectory source ∧ ¬ before.IsDirectory target ∧
              after = before.rename source target inode
      | .error _ => after = before
  | .removeFile path, before, answer, after =>
      match answer with
      | .ok _ =>
          before.entry path ≠ none ∧ ¬ before.IsDirectory path ∧
            after = before.remove path
      | .error error =>
          after = before ∧ Honest (before.entry path = none) error
  | .processId, before, answer, after => after = before ∧ answer = process
  | .fetchAdd, before, answer, after =>
      answer = before.counter process ∧ after = before.advance process
  | .get url, before, answer, after =>
      after = before ∧ surroundings.network url answer

section Steps

variable {surroundings : Surroundings} {process : UInt32} {call : Call}
variable {before after : Volume} {answer : call.Answer}

/-- The calls which look at the volume leave it alone. -/
theorem linked_reads
    (reads : call.Reads)
    (step : linked surroundings process call before answer after) :
    after = before := by
  cases call with
  | canonicalize path => exact step
  | symlinkMetadata path => exact step
  | isDir path => exact step
  | pathExists path => exact step.1
  | read path => exact step.1
  | readDir path => exact step.1
  | modified path => exact step
  | processId => exact step.1
  | get url => exact step.1
  | createDir path => exact reads.elim
  | create path => exact reads.elim
  | append path byte => exact reads.elim
  | setPermissions path mode => exact reads.elim
  | rename source target => exact reads.elim
  | removeFile path => exact reads.elim
  | fetchAdd => exact reads.elim

theorem linked_scaffolds
    (scaffolds : call.Scaffolds)
    (step : linked surroundings process call before answer after) :
    after = before := by
  cases call with
  | isDir path => exact step
  | createDir path => exact step
  | _ => exact scaffolds.elim

end Steps

/-- What a call may do to the volume. -/
inductive Effect (process : UInt32) (before : Volume) : Call → Volume → Prop
  | idle (call : Call) :
      Effect process before call before
  | create
      (arrives : Arrives before.target path last)
      (opens : before.Opens process last inode after) :
      Effect process before (.create path) after
  | append
      (opened : before.opened process = some (inode, position))
      (isFile : before.node inode = .file bytes) :
      Effect process before (.append path byte)
        (before.write process inode position bytes byte)
  | rename
      (present : before.entry source = some inode) :
      Effect process before (.rename source target)
        (before.rename source target inode)
  | removeFile (path : Path) :
      Effect process before (.removeFile path) (before.remove path)
  | fetchAdd :
      Effect process before .fetchAdd (before.advance process)

theorem linked_effect
    {surroundings : Surroundings} {process : UInt32} {call : Call}
    {before after : Volume} {answer : call.Answer}
    (step : linked surroundings process call before answer after) :
    Effect process before call after := by
  cases call with
  | create path =>
      cases answer with
      | ok _ =>
          rcases step with ⟨last, inode, arrives, opens⟩
          exact .create arrives opens
      | error error => exact step ▸ .idle _
  | append path byte =>
      cases answer with
      | ok _ =>
          rcases step with ⟨inode, position, bytes, opened, isFile, rfl⟩
          exact .append opened isFile
      | error error => exact step ▸ .idle _
  | rename source target =>
      cases answer with
      | ok _ =>
          rcases step with ⟨inode, present, _, _, rfl⟩
          exact .rename present
      | error error => exact step ▸ .idle _
  | removeFile path =>
      cases answer with
      | ok _ => exact step.2.2 ▸ .removeFile path
      | error error => exact step.1 ▸ .idle _
  | fetchAdd => exact step.2 ▸ .fetchAdd
  | createDir path => exact step ▸ .idle _
  | setPermissions path mode => exact step ▸ .idle _
  | _ =>
      rw [linked_reads (by trivial) step]
      exact .idle _

/-! ## What the paths find -/

namespace Volume

variable {volume after : Volume} {process : UInt32} {path other last : Path}
variable {inode found : Nat}

theorem target_eq_some_iff {linkTarget : Path} :
    volume.target path = some linkTarget ↔
      ∃ inode, volume.entry path = some inode ∧
        volume.node inode = .link linkTarget := by
  rw [target, Option.bind_eq_some_iff]
  constructor
  · rintro ⟨inode, present, leads⟩
    refine ⟨inode, present, ?_⟩
    cases kind : volume.node inode with
    | link leading =>
        rw [kind] at leads
        rw [Option.some.inj leads]
    | file bytes => simp [kind, Node.target] at leads
    | directory => simp [kind, Node.target] at leads
  · rintro ⟨inode, present, isLink⟩
    exact ⟨inode, present, by rw [isLink, Node.target]⟩

theorem target_eq_none_of_absent (absent : volume.entry path = none) :
    volume.target path = none := by
  rw [target, absent, Option.bind_none]

theorem target_eq_none_of_file
    {bytes : Bytes} (present : volume.entry path = some inode)
    (isFile : volume.node inode = .file bytes) :
    volume.target path = none := by
  rw [target, present, Option.bind_some, isFile]
  rfl

/-- Other contents of a file leave the links. -/
theorem target_refilled {bytes held : Bytes}
    (entries : after.entry = volume.entry)
    (nodes : after.node = Function.update volume.node inode (.file held))
    (isFile : volume.node inode = .file bytes) :
    after.target = volume.target := by
  funext path
  rw [target, target, entries, nodes]
  cases present : volume.entry path with
  | none => rfl
  | some found =>
      by_cases same : found = inode
      · subst same
        simp [isFile, Node.target]
      · simp [Function.update_of_ne same]

theorem Finds.unique
    (finds : volume.Finds path inode) (others : volume.Finds path found) :
    inode = found := by
  rcases finds with ⟨last, arrives, present⟩
  rcases others with ⟨otherLast, otherArrives, otherPresent⟩
  cases arrives.unique otherArrives
  exact Option.some.inj (present.symm.trans otherPresent)

theorem Holds.unique
    {bytes others : Bytes} (holds : volume.Holds path bytes)
    (otherwise : volume.Holds path others) :
    bytes = others := by
  rcases holds with ⟨inode, finds, isFile⟩
  rcases otherwise with ⟨another, otherFinds, isOther⟩
  cases finds.unique otherFinds
  exact Node.file.inj (isFile.symm.trans isOther)

/-- What a path comes by finds what the path finds. -/
theorem Finds.of_passes
    (finds : volume.Finds path inode)
    (passes : Passes volume.target path other) :
    volume.Finds other inode := by
  rcases finds with ⟨last, arrives, present⟩
  exact ⟨last, arrives.of_passes passes, present⟩

/-- A path which comes by a missing name finds nothing. -/
theorem not_finds_of_absent
    (passes : Passes volume.target path other)
    (absent : volume.entry other = none) :
    ¬ volume.Finds path inode := by
  intro finds
  rcases finds.of_passes passes with ⟨last, arrives, present⟩
  cases arrives.unique (arrives_self (target_eq_none_of_absent absent))
  rw [absent] at present
  cases present

theorem enter_entry_of_ne (different : path ≠ other) :
    (volume.enter other inode).entry path = volume.entry path :=
  Function.update_of_ne different ..

theorem meets_of_arrives
    (arrives : Arrives volume.target path last)
    (others : Arrives volume.target other last) :
    volume.Meets path other :=
  ⟨last, last, arrives, others, .inl rfl⟩

/-! ### Volumes which agree on a path -/

/-- Following the links of the path, one comes by the same nodes. -/
def Agrees (before after : Volume) (path : Path) : Prop :=
  ∀ point, Passes before.target path point →
    after.entry point = before.entry point ∧
      after.target point = before.target point

section Agreement

variable {before : Volume} (agrees : Agrees before after path)

include agrees

theorem Agrees.passes_iff :
    Passes after.target path other ↔ Passes before.target path other :=
  passes_congr_iff fun point passes => (agrees point passes).2

theorem Agrees.symm : Agrees after before path := by
  intro point passes
  have same := agrees point (agrees.passes_iff.mp passes)
  exact ⟨same.1.symm, same.2.symm⟩

theorem Agrees.trans {later : Volume} (further : Agrees after later path) :
    Agrees before later path := by
  intro point passes
  have first := agrees point passes
  have second := further point (agrees.passes_iff.mpr passes)
  exact ⟨second.1.trans first.1, second.2.trans first.2⟩

theorem Agrees.arrives (arrives : Arrives before.target path last) :
    Arrives after.target path last :=
  arrives.congr fun point passes => (agrees point passes).2

theorem Agrees.finds (finds : before.Finds path inode) :
    after.Finds path inode := by
  rcases finds with ⟨last, arrives, present⟩
  refine ⟨last, agrees.arrives arrives, ?_⟩
  rw [(agrees last arrives.passes).1, present]

theorem Agrees.finds_iff :
    after.Finds path inode ↔ before.Finds path inode :=
  ⟨agrees.symm.finds, agrees.finds⟩

theorem Agrees.leads_iff : after.Leads path ↔ before.Leads path :=
  exists_congr fun _ => agrees.finds_iff

theorem Agrees.meets (others : Agrees before after other)
    (meets : before.Meets path other) :
    after.Meets path other := by
  rcases meets with ⟨last, otherLast, arrives, otherArrives, same⟩
  refine ⟨last, otherLast, agrees.arrives arrives,
    others.arrives otherArrives, ?_⟩
  rw [(agrees last arrives.passes).1,
    (others otherLast otherArrives.passes).1]
  exact same

end Agreement

/-! ### Opening -/

section Opening

variable (opens : volume.Opens process last inode after)

include opens

theorem Opens.target : after.target = volume.target := by
  cases opens with
  | existing there isFile => exact target_refilled rfl rfl isFile
  | fresh absent unused =>
      funext path
      rw [Volume.target, Volume.target, truncate_entry, enter]
      by_cases same : path = last
      · subst same
        simp [truncate, absent, Node.target]
      · simp only [Function.update_of_ne same]
        cases present : volume.entry path with
        | none => rfl
        | some found =>
            have different : found ≠ inode := by
              rintro rfl
              exact unused.1 path present
            simp [truncate, Function.update_of_ne different]

theorem Opens.entry_last : after.entry last = some inode := by
  cases opens with
  | existing there isFile => exact there
  | fresh absent unused => exact Function.update_self ..

theorem Opens.entry_of_ne (different : path ≠ last) :
    after.entry path = volume.entry path := by
  cases opens with
  | existing there isFile => rfl
  | fresh absent unused => exact Function.update_of_ne different ..

theorem Opens.node_self : after.node inode = .file [] := by
  cases opens with
  | existing there isFile => exact Function.update_self ..
  | fresh absent unused => exact Function.update_self ..

theorem Opens.node_of_ne (different : found ≠ inode) :
    after.node found = volume.node found := by
  cases opens with
  | existing there isFile => exact Function.update_of_ne different ..
  | fresh absent unused => exact Function.update_of_ne different ..

theorem Opens.opened_self : after.opened process = some (inode, 0) := by
  cases opens with
  | existing there isFile => exact Function.update_self ..
  | fresh absent unused => exact Function.update_self ..

theorem Opens.opened_of_ne {another : UInt32} (different : another ≠ process) :
    after.opened another = volume.opened another := by
  cases opens with
  | existing there isFile => exact Function.update_of_ne different ..
  | fresh absent unused => exact Function.update_of_ne different ..

theorem Opens.finds_self (arrives : Arrives volume.target path last) :
    after.Finds path inode := by
  rw [← opens.target] at arrives
  exact ⟨last, arrives, opens.entry_last⟩

theorem Opens.entry_kept (present : volume.entry path = some found) :
    after.entry path = some found := by
  by_cases same : path = last
  · subst same
    cases opens with
    | existing there isFile => exact present
    | fresh absent unused =>
        rw [absent] at present
        cases present
  · rw [opens.entry_of_ne same, present]

theorem Opens.finds_kept (finds : volume.Finds path found) :
    after.Finds path found := by
  rcases finds with ⟨stop, arrives, present⟩
  rw [← opens.target] at arrives
  exact ⟨stop, arrives, opens.entry_kept present⟩

/-- Another node is found as before. -/
theorem Opens.finds_of_ne
    (different : found ≠ inode) (finds : after.Finds path found) :
    volume.Finds path found := by
  rcases finds with ⟨stop, arrives, present⟩
  rw [opens.target] at arrives
  refine ⟨stop, arrives, ?_⟩
  rw [← present, opens.entry_of_ne]
  rintro rfl
  rw [opens.entry_last, Option.some.injEq] at present
  exact different present.symm

/-- So is one which had a name or was opened. -/
theorem Opens.finds_of_used
    (used : found = inode → ¬ volume.Unused inode)
    (finds : after.Finds path found) :
    volume.Finds path found := by
  by_cases different : found = inode
  · rcases finds with ⟨stop, arrives, present⟩
    rw [opens.target] at arrives
    cases opens with
    | existing there isFile => exact ⟨stop, arrives, present⟩
    | fresh absent unused => exact absurd unused (used different)
  · exact opens.finds_of_ne different finds

/-- What finds the opened file meets the path it was opened by. -/
theorem Opens.meets
    (arrives : Arrives volume.target path last)
    (finds : after.Finds other inode) :
    volume.Meets path other := by
  rcases finds with ⟨stop, otherArrives, present⟩
  rw [opens.target] at otherArrives
  refine ⟨last, stop, arrives, otherArrives, ?_⟩
  by_cases same : stop = last
  · exact .inl same.symm
  · rw [opens.entry_of_ne same] at present
    cases opens with
    | existing there isFile => exact .inr ⟨inode, there, present⟩
    | fresh absent unused => exact absurd present (unused.1 stop)

theorem Opens.agrees
    (arrives : Arrives volume.target path last)
    (apart : ¬ volume.Meets path other) :
    Agrees volume after other := by
  intro point passes
  rw [opens.target]
  refine ⟨opens.entry_of_ne ?_, rfl⟩
  rintro rfl
  exact apart (meets_of_arrives arrives ⟨passes, arrives.stops⟩)

/-- What another path holds afterwards, it held before. -/
theorem Opens.holds_of_not_meets
    (arrives : Arrives volume.target path last)
    (apart : ¬ volume.Meets path other)
    {bytes : Bytes} (holds : after.Holds other bytes) :
    volume.Holds other bytes := by
  rcases holds with ⟨found, finds, isFile⟩
  have different : found ≠ inode := by
    rintro rfl
    exact apart (opens.meets arrives finds)
  rw [opens.node_of_ne different] at isFile
  exact ⟨found, opens.finds_of_ne different finds, isFile⟩

end Opening

/-! ### Writing -/

section Writing

variable {position : Nat} {bytes : Bytes} {byte : UInt8}

theorem write_target (isFile : volume.node inode = .file bytes) :
    (volume.write process inode position bytes byte).target =
      volume.target :=
  target_refilled rfl rfl isFile

theorem write_finds_iff (isFile : volume.node inode = .file bytes) :
    (volume.write process inode position bytes byte).Finds path found ↔
      volume.Finds path found := by
  rw [Finds, Finds, write_target isFile]
  rfl

theorem write_node_self :
    (volume.write process inode position bytes byte).node inode =
      .file (splice bytes position byte) :=
  Function.update_self ..

theorem write_node_of_ne (different : found ≠ inode) :
    (volume.write process inode position bytes byte).node found =
      volume.node found :=
  Function.update_of_ne different ..

theorem write_opened_self :
    (volume.write process inode position bytes byte).opened process =
      some (inode, position + 1) :=
  Function.update_self ..

theorem write_opened_of_ne {another : UInt32} (different : another ≠ process) :
    (volume.write process inode position bytes byte).opened another =
      volume.opened another :=
  Function.update_of_ne different ..

/-- What does not find the file holds what it held. -/
theorem holds_of_write
    (isFile : volume.node inode = .file bytes)
    (apart : ¬ volume.Finds path inode) {held : Bytes}
    (holds : (volume.write process inode position bytes byte).Holds path
      held) :
    volume.Holds path held := by
  rcases holds with ⟨found, finds, isHeld⟩
  rw [write_finds_iff isFile] at finds
  have different : found ≠ inode := by
    rintro rfl
    exact apart finds
  rw [write_node_of_ne different] at isHeld
  exact ⟨found, finds, isHeld⟩

end Writing

/-! ### Files which are written without a failure -/

section Filling

/-- The process has written these bytes to the file. -/
def filled (volume : Volume) (process : UInt32) (inode : Nat)
    (bytes : Bytes) : Volume :=
  { volume with
    node := Function.update volume.node inode (.file bytes)
    opened :=
      Function.update volume.opened process (some (inode, bytes.length))
    roomy := volume.roomy.opens process inode bytes.length }

theorem truncate_eq_filled :
    volume.truncate process inode = volume.filled process inode [] := rfl

theorem filled_target {held : Bytes} (isFile : volume.node inode = .file held)
    (bytes : Bytes) :
    (volume.filled process inode bytes).target = volume.target :=
  target_refilled rfl rfl isFile

theorem filled_filled (bytes others : Bytes) :
    (volume.filled process inode bytes).filled process inode others =
      volume.filled process inode others := by
  simp only [filled, Function.update_idem]

theorem filled_node_self (bytes : Bytes) :
    (volume.filled process inode bytes).node inode = .file bytes :=
  Function.update_self ..

theorem filled_node_of_ne (different : found ≠ inode) (bytes : Bytes) :
    (volume.filled process inode bytes).node found = volume.node found :=
  Function.update_of_ne different ..

theorem filled_opened_self (bytes : Bytes) :
    (volume.filled process inode bytes).opened process =
      some (inode, bytes.length) :=
  Function.update_self ..

theorem write_filled (bytes : Bytes) (byte : UInt8) :
    (volume.filled process inode bytes).write process inode bytes.length
        bytes byte =
      volume.filled process inode (bytes ++ [byte]) := by
  simp only [write, filled, splice_length, Function.update_idem,
    List.length_append, List.length_singleton]

/-- A file which a process opened takes every byte. -/
theorem appends_filled
    {surroundings : Surroundings} (path : Path) (bytes : Bytes)
    (byte : UInt8) :
    linked surroundings process (.append path byte)
      (volume.filled process inode bytes) (.ok ())
      (volume.filled process inode (bytes ++ [byte])) :=
  ⟨inode, bytes.length, bytes, filled_opened_self bytes,
    filled_node_self bytes, (write_filled bytes byte).symm⟩

/-- A file which was opened is filled with nothing. -/
theorem Opens.filled (opens : volume.Opens process last inode after) :
    after.filled process inode [] = after := by
  cases opens with
  | existing there isFile => rw [truncate_eq_filled, filled_filled]
  | fresh absent unused => rw [truncate_eq_filled, filled_filled]

end Filling

/-! ### Files which are opened and written -/

/-- The process opens the file a path leads to, and writes these bytes. -/
def Stages (process : UInt32) (path : Path) (bytes : Bytes)
    (before after : Volume) : Prop :=
  ∃ last inode opened,
    Arrives before.target path last ∧
      before.Opens process last inode opened ∧
        after = opened.filled process inode bytes

/-- The path leads to a file, or to a missing name. -/
def Openable (volume : Volume) (path : Path) : Prop :=
  ∃ last, Arrives volume.target path last ∧ ¬ volume.IsDirectory last

/-- What meets a path in no file is on no way with it. -/
theorem Openable.avoids
    (openable : volume.Openable path) (apart : ¬ volume.Meets path other) :
    ¬ Passes volume.target path other ∧ ¬ Passes volume.target other path := by
  rcases openable with ⟨last, arrives, _⟩
  constructor
  · intro passes
    exact apart (meets_of_arrives arrives (arrives.of_passes passes))
  · intro passes
    exact apart (meets_of_arrives arrives
      ⟨passes.trans arrives.passes, arrives.stops⟩)

section Staging

variable {bytes : Bytes} {before : Volume}

theorem stages_opens
    (arrives : Arrives before.target path last)
    (opens : before.Opens process last inode after) :
    Stages process path [] before after :=
  ⟨last, inode, after, arrives, opens, opens.filled.symm⟩

/-- The next byte is written to the file which was opened. -/
theorem Stages.write
    {surroundings : Surroundings} {middle : Volume} {byte : UInt8}
    (stages : Stages process path bytes before middle)
    (step : linked surroundings process (.append path byte) middle (.ok ())
      after) :
    Stages process path (bytes ++ [byte]) before after := by
  rcases stages with ⟨last, inode, opened, arrives, opens, rfl⟩
  rcases step with ⟨found, position, held, here, isFile, rfl⟩
  cases (filled_opened_self bytes).symm.trans here
  cases (filled_node_self bytes).symm.trans isFile
  exact ⟨last, inode, opened, arrives, opens, write_filled bytes byte⟩

theorem Stages.opened (stages : Stages process path bytes before after) :
    ∃ inode, after.opened process = some (inode, bytes.length) := by
  rcases stages with ⟨last, inode, opened, _, _, rfl⟩
  exact ⟨inode, filled_opened_self bytes⟩

theorem Stages.target (stages : Stages process path bytes before after) :
    after.target = before.target := by
  rcases stages with ⟨last, inode, opened, _, opens, rfl⟩
  rw [filled_target opens.node_self, opens.target]

theorem Stages.openable (stages : Stages process path bytes before after) :
    before.Openable path := by
  rcases stages with ⟨last, inode, opened, arrives, opens, rfl⟩
  refine ⟨last, arrives, ?_⟩
  rintro ⟨found, present, isDirectory⟩
  cases opens with
  | existing there isFile =>
      cases there.symm.trans present
      cases isFile.symm.trans isDirectory
  | fresh absent unused => cases absent.symm.trans present

theorem Stages.agrees
    (stages : Stages process path bytes before after)
    (apart : ¬ before.Meets path other) :
    Agrees before after other := by
  have same := stages.target
  rcases stages with ⟨last, inode, opened, arrives, opens, rfl⟩
  intro point passes
  rw [same]
  exact ⟨(opens.agrees arrives apart point passes).1, rfl⟩

/-- A name which the path does not come by is left. -/
theorem Stages.entry_of_not_passes
    (stages : Stages process path bytes before after)
    (avoids : ¬ Passes before.target path other) :
    after.entry other = before.entry other := by
  rcases stages with ⟨last, inode, opened, arrives, opens, rfl⟩
  apply opens.entry_of_ne
  rintro rfl
  exact avoids arrives.passes

theorem Stages.entry_kept
    (stages : Stages process path bytes before after)
    (present : before.entry other = some found) :
    after.entry other = some found := by
  rcases stages with ⟨last, inode, opened, arrives, opens, rfl⟩
  exact opens.entry_kept present

/-- The path has a file, or a link to it. -/
theorem Stages.present
    (stages : Stages process path bytes before after) :
    (∃ found, after.entry path = some found) ∧ ¬ after.IsDirectory path := by
  have same := congrFun stages.target path
  rcases stages with ⟨last, inode, opened, arrives, opens, rfl⟩
  cases leads : before.target path with
  | none =>
      cases arrives.unique (arrives_self leads)
      refine ⟨⟨inode, opens.entry_last⟩, ?_⟩
      rintro ⟨found, present, isDirectory⟩
      cases opens.entry_last.symm.trans present
      cases (filled_node_self bytes).symm.trans isDirectory
  | some next =>
      rw [leads] at same
      rcases target_eq_some_iff.mp same with ⟨link, present, isLink⟩
      refine ⟨⟨link, present⟩, ?_⟩
      rintro ⟨found, otherPresent, isDirectory⟩
      cases present.symm.trans otherPresent
      cases isLink.symm.trans isDirectory

theorem Stages.of_isDirectory
    (stages : Stages process path bytes before after)
    (directory : after.IsDirectory other) :
    before.IsDirectory other := by
  rcases stages with ⟨last, inode, opened, arrives, opens, rfl⟩
  rcases directory with ⟨found, present, isDirectory⟩
  have different : found ≠ inode := by
    rintro rfl
    cases (filled_node_self bytes).symm.trans isDirectory
  have elsewhere : other ≠ last := by
    rintro rfl
    cases opens.entry_last.symm.trans present
    exact different rfl
  refine ⟨found, (opens.entry_of_ne elsewhere).symm.trans present, ?_⟩
  rw [← opens.node_of_ne different, ← isDirectory]
  exact (filled_node_of_ne different bytes).symm

theorem Stages.isDirectory
    (stages : Stages process path bytes before after)
    (directory : before.IsDirectory other) :
    after.IsDirectory other := by
  rcases directory with ⟨found, present, isDirectory⟩
  have kept := stages.entry_kept present
  rcases stages with ⟨last, inode, opened, arrives, opens, rfl⟩
  refine ⟨found, kept, ?_⟩
  have different : found ≠ inode := by
    rintro rfl
    cases opens with
    | existing there isFile => cases isFile.symm.trans isDirectory
    | fresh absent unused => exact unused.1 other present
  rw [← isDirectory, ← opens.node_of_ne different]
  exact filled_node_of_ne different bytes

/-- What found the file which is written met the path. -/
theorem Stages.finds
    (stages : Stages process path bytes before after) :
    ∃ inode, after.Finds path inode ∧
      ∀ other, before.Finds other inode → before.Meets path other := by
  rcases stages with ⟨last, inode, opened, arrives, opens, rfl⟩
  refine ⟨inode, ⟨last, ?_, opens.entry_last⟩, ?_⟩
  · rw [filled_target opens.node_self, opens.target]
    exact arrives
  · rintro other ⟨otherLast, others, present⟩
    refine ⟨last, otherLast, arrives, others, .inr ⟨inode, ?_, present⟩⟩
    cases opens with
    | existing there isFile => exact there
    | fresh absent unused => exact absurd present (unused.1 otherLast)

theorem Stages.node_opened
    (stages : Stages process path bytes before after) {position : Nat}
    (opened : after.opened process = some (inode, position)) :
    after.node inode = .file bytes := by
  rcases stages with ⟨last, found, volume, arrives, opens, rfl⟩
  cases (filled_opened_self bytes).symm.trans opened
  exact filled_node_self bytes

/-- Where the path ends is the file which was opened. -/
theorem Stages.entry_of_stops
    (stages : Stages process path bytes before after)
    (stops : Arrives before.target path last) {position : Nat}
    (opened : after.opened process = some (inode, position)) :
    after.entry last = some inode := by
  rcases stages with ⟨stop, found, volume, arrives, opens, rfl⟩
  cases (filled_opened_self bytes).symm.trans opened
  cases stops.unique arrives
  exact opens.entry_last

/-- A name which the path does not meet is none of the file's. -/
theorem Stages.entry_ne
    (stages : Stages process path bytes before after)
    (apart : ¬ before.Meets path other) {position : Nat}
    (opened : after.opened process = some (inode, position)) :
    before.entry other ≠ some inode := by
  rcases stages with ⟨last, found, volume, arrives, opens, rfl⟩
  cases (filled_opened_self bytes).symm.trans opened
  intro present
  cases opens with
  | existing there isFile =>
      exact apart ⟨last, other, arrives,
        arrives_self (target_eq_none_of_file present isFile),
        .inr ⟨_, there, present⟩⟩
  | fresh absent unused => exact unused.1 other present

/-- The file of a missing name is a new one. -/
theorem Stages.fresh
    (stages : Stages process path bytes before after)
    (absent : before.entry path = none) :
    ∃ inode, after.entry path = some inode ∧
      ∀ other, before.entry other ≠ some inode := by
  rcases stages with ⟨last, inode, opened, arrives, opens, rfl⟩
  cases arrives.unique (arrives_self (target_eq_none_of_absent absent))
  refine ⟨inode, opens.entry_last, ?_⟩
  cases opens with
  | existing there isFile => cases absent.symm.trans there
  | fresh _ unused => exact unused.1

theorem exists_opens
    (openable : before.Openable path) (process : UInt32) :
    ∃ last inode opened,
      Arrives before.target path last ∧
        before.Opens process last inode opened := by
  rcases openable with ⟨last, arrives, notDirectory⟩
  cases there : before.entry last with
  | none =>
      rcases before.roomy 0 with ⟨inode, _, unused⟩
      exact ⟨last, inode, _, arrives, .fresh there unused⟩
  | some inode =>
      cases kind : before.node inode with
      | file bytes => exact ⟨last, inode, _, arrives, .existing there kind⟩
      | link target =>
          have leads : before.target last = some target :=
            target_eq_some_iff.mpr ⟨inode, there, kind⟩
          cases arrives.stops.symm.trans leads
      | directory => exact absurd ⟨inode, there, kind⟩ notDirectory

end Staging

/-! ### Removing -/

section Removing

variable {removed : Path}

theorem remove_target_of_ne (different : path ≠ removed) :
    (volume.remove removed).target path = volume.target path := by
  rw [target, target, remove]
  simp only [Function.update_of_ne different]

theorem remove_entry_self : (volume.remove path).entry path = none :=
  Function.update_self ..

theorem remove_entry_of_ne (different : path ≠ removed) :
    (volume.remove removed).entry path = volume.entry path :=
  Function.update_of_ne different ..

/-- What is found without a name is found with it. -/
theorem finds_of_remove (finds : (volume.remove removed).Finds path found) :
    volume.Finds path found := by
  rcases finds with ⟨last, arrives, present⟩
  rcases Arrives.unchanged (fun _ => remove_target_of_ne) arrives with
    ⟨earlier, different⟩ | ⟨_, rfl, _, passes⟩
  · rw [remove_entry_of_ne different] at present
    exact ⟨last, earlier, present⟩
  · exact absurd ⟨last, arrives, present⟩
      (not_finds_of_absent passes remove_entry_self)

theorem holds_of_remove
    {bytes : Bytes} (holds : (volume.remove removed).Holds path bytes) :
    volume.Holds path bytes := by
  rcases holds with ⟨found, finds, isFile⟩
  exact ⟨found, finds_of_remove finds, isFile⟩

theorem agrees_remove (avoids : ¬ Passes volume.target path removed) :
    Agrees volume (volume.remove removed) path := by
  intro point passes
  have elsewhere : point ≠ removed := by
    rintro rfl
    exact avoids passes
  exact ⟨remove_entry_of_ne elsewhere, remove_target_of_ne elsewhere⟩

/-- What does not come by a name is found without it. -/
theorem finds_remove
    (avoids : ¬ Passes volume.target path removed)
    (finds : volume.Finds path found) :
    (volume.remove removed).Finds path found :=
  (agrees_remove avoids).finds finds

end Removing

/-! ### Losing names -/

/-- Nothing is lost but names among these. -/
structure Loses (among : Path → Prop) (before after : Volume) : Prop where
  node : after.node = before.node
  opened : after.opened = before.opened
  counter : after.counter = before.counter
  entry : ∀ path, after.entry path = before.entry path ∨
    among path ∧ after.entry path = none

theorem Loses.refl {among : Path → Prop} (volume : Volume) :
    Loses among volume volume :=
  ⟨rfl, rfl, rfl, fun _ => .inl rfl⟩

section Losing

variable {among : Path → Prop} {before : Volume}
variable (loses : Loses among before after)

include loses

theorem Loses.remove (named : among path) :
    Loses among before (after.remove path) := by
  refine ⟨loses.node, loses.opened, loses.counter, ?_⟩
  intro another
  by_cases same : another = path
  · rw [same]
    exact .inr ⟨named, remove_entry_self⟩
  · rw [remove_entry_of_ne same]
    exact loses.entry another

theorem Loses.target_of_entry
    (same : after.entry path = before.entry path) :
    after.target path = before.target path := by
  rw [target, target, same, loses.node]

variable (avoids : ∀ point, Passes before.target path point → ¬ among point)

include avoids

/-- A path which comes by none of them finds what it found. -/
theorem Loses.agrees : Agrees before after path := by
  intro point passes
  rcases loses.entry point with same | ⟨lost, _⟩
  · exact ⟨same, loses.target_of_entry same⟩
  · exact absurd lost (avoids point passes)

/-- What such a path meets then it met before. -/
theorem Loses.meets (meets : after.Meets path other) :
    before.Meets path other := by
  have agrees := loses.agrees avoids
  rcases meets with ⟨last, otherLast, arrives, others, same⟩
  have earlier := agrees.symm.arrives arrives
  have kept := (agrees last earlier.passes).1
  have unchanged (point : Path)
      (elsewhere : ¬ after.entry point ≠ before.entry point) :
      after.target point = before.target point :=
    loses.target_of_entry (not_not.mp elsewhere)
  rcases Arrives.unchanged unchanged others with
    ⟨otherEarlier, elsewhere⟩ | ⟨point, changed, _, passes⟩
  · rw [not_not.mp elsewhere, kept] at same
    exact ⟨last, otherLast, earlier, otherEarlier, same⟩
  · -- The other path ends at a lost name, which the path does not come by.
    rcases loses.entry point with same | ⟨lost, gone⟩
    · exact absurd same changed
    · cases (others.of_passes passes).unique
        (arrives_self (target_eq_none_of_absent gone))
      rcases same with rfl | ⟨inode, _, present⟩
      · exact absurd lost (avoids last earlier.passes)
      · cases gone.symm.trans present

theorem Loses.openable (openable : after.Openable path) :
    before.Openable path := by
  have agrees := loses.agrees avoids
  rcases openable with ⟨last, arrives, free⟩
  have earlier := agrees.symm.arrives arrives
  refine ⟨last, earlier, ?_⟩
  rw [IsDirectory, ← (agrees last earlier.passes).1, ← loses.node]
  exact free

end Losing

/-! ### Renaming -/

section Renaming

variable {source renamed : Path}

/-- The name is one of the two which a rename changes. -/
def Among (source renamed point : Path) : Prop :=
  point = source ∨ point = renamed

theorem rename_entry_of_ne
    (notSource : path ≠ source) (notTarget : path ≠ renamed) :
    (volume.rename source renamed inode).entry path = volume.entry path := by
  rw [rename]
  split_ifs
  · rfl
  · rw [enter_entry_of_ne notTarget, remove_entry_of_ne notSource]

theorem rename_node :
    (volume.rename source renamed inode).node = volume.node := by
  rw [rename]
  split_ifs <;> rfl

theorem rename_opened :
    (volume.rename source renamed inode).opened = volume.opened := by
  rw [rename]
  split_ifs <;> rfl

theorem rename_target_of_ne (elsewhere : ¬ Among source renamed path) :
    (volume.rename source renamed inode).target path = volume.target path := by
  rw [Among, not_or] at elsewhere
  rw [target, target, rename_entry_of_ne elsewhere.1 elsewhere.2, rename_node]

theorem rename_entry_target :
    (volume.rename source renamed inode).entry renamed = some inode := by
  rw [rename]
  split_ifs with shared
  · exact shared
  · exact Function.update_self ..

/-- The source is gone, or the target was another name of its node. -/
theorem rename_entry_source (different : source ≠ renamed) :
    (volume.rename source renamed inode).entry source = none ∨
      volume.rename source renamed inode = volume := by
  rw [rename]
  split_ifs
  · exact .inr rfl
  · left
    rw [enter_entry_of_ne different, remove_entry_self]

theorem agrees_rename
    (avoidsSource : ¬ Passes volume.target path source)
    (avoidsTarget : ¬ Passes volume.target path renamed) :
    Agrees volume (volume.rename source renamed inode) path := by
  intro point passes
  have notSource : point ≠ source := by
    rintro rfl
    exact avoidsSource passes
  have notTarget : point ≠ renamed := by
    rintro rfl
    exact avoidsTarget passes
  refine ⟨rename_entry_of_ne notSource notTarget, rename_target_of_ne ?_⟩
  rintro (same | same)
  · exact notSource same
  · exact notTarget same

/-- What comes by neither name is found as before. -/
theorem finds_rename
    (avoidsSource : ¬ Passes volume.target path source)
    (avoidsTarget : ¬ Passes volume.target path renamed)
    (finds : volume.Finds path found) :
    (volume.rename source renamed inode).Finds path found :=
  (agrees_rename avoidsSource avoidsTarget).finds finds

/-- What is found afterwards was found before, or comes by the target. -/
theorem finds_of_rename
    (different : source ≠ renamed)
    (finds : (volume.rename source renamed inode).Finds path found) :
    volume.Finds path found ∨
      Passes volume.target path renamed ∧
        (volume.rename source renamed inode).Finds renamed found := by
  rcases finds with ⟨last, arrives, present⟩
  rcases Arrives.unchanged (fun _ => rename_target_of_ne) arrives with
    ⟨earlier, elsewhere⟩ | ⟨point, rfl | rfl, before, after⟩
  · rw [rename_entry_of_ne (fun same => elsewhere (.inl same))
      (fun same => elsewhere (.inr same))] at present
    exact .inl ⟨last, earlier, present⟩
  · rcases rename_entry_source different with absent | same
    · exact absurd ⟨last, arrives, present⟩
        (not_finds_of_absent after absent)
    · rw [same] at arrives present
      exact .inl ⟨last, arrives, present⟩
  · exact .inr ⟨before,
      Finds.of_passes ⟨last, arrives, present⟩ after⟩

theorem holds_of_rename
    (different : source ≠ renamed)
    (avoids : ¬ Passes volume.target path renamed) {bytes : Bytes}
    (holds : (volume.rename source renamed inode).Holds path bytes) :
    volume.Holds path bytes := by
  rcases holds with ⟨found, finds, isFile⟩
  rw [rename_node] at isFile
  rcases finds_of_rename different finds with before | ⟨passes, _⟩
  · exact ⟨found, before, isFile⟩
  · exact absurd passes avoids

/-- The target finds what the source found, unless its links lead there. -/
theorem finds_rename_target
    (named : volume.entry source = some inode)
    (avoids : ¬ Passes volume.target source renamed)
    (finds : volume.Finds source found) :
    (volume.rename source renamed inode).Finds renamed found := by
  have sameTarget :
      (volume.rename source renamed inode).target renamed =
        volume.target source := by
    rw [target, target, rename_entry_target, rename_node, named]
  rcases finds with ⟨last, arrives, present⟩
  cases leads : volume.target source with
  | none =>
      cases arrives.unique (arrives_self leads)
      rw [present, Option.some.injEq] at named
      refine ⟨renamed, arrives_self (sameTarget.trans leads), ?_⟩
      rw [rename_entry_target, named]
  | some next =>
      have onward : Passes volume.target source next := .single leads
      have rest : (volume.rename source renamed inode).Finds next found := by
        apply finds_rename
        · exact arrives.not_back leads
        · exact fun passes => avoids (onward.trans passes)
        · exact ⟨last, arrives.of_passes onward, present⟩
      rcases rest with ⟨stop, arrivesNow, presentNow⟩
      exact ⟨stop, Arrives.head (sameTarget.trans leads) arrivesNow,
        presentNow⟩

end Renaming

/-! ### Volumes without links -/

/-- No name is a link, and no two names stand for one node. -/
structure Ordinary (volume : Volume) : Prop where
  unlinked : ∀ path, volume.target path = none
  single : ∀ path other inode, volume.entry path = some inode →
    volume.entry other = some inode → path = other

theorem Ordinary.passes
    (ordinary : volume.Ordinary) (passes : Passes volume.target path other) :
    path = other := by
  rcases Relation.ReflTransGen.cases_head passes with same | ⟨_, sends, _⟩
  · exact same
  · cases (ordinary.unlinked path).symm.trans sends

theorem Ordinary.meets
    (ordinary : volume.Ordinary) (meets : volume.Meets path other) :
    path = other := by
  rcases meets with ⟨last, otherLast, arrives, others, same⟩
  cases ordinary.passes arrives.passes
  cases ordinary.passes others.passes
  rcases same with same | ⟨inode, here, there⟩
  · exact same
  · exact ordinary.single path other inode here there

end Volume

end Luminosity.Host.Volumes
