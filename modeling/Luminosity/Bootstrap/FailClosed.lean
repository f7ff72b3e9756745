import Luminosity.Bootstrap.Outcomes

/-!
# Only verified bytes are executed

The launcher is executed where the staged shim has verified, in this run, the
bytes of the regular file which is at its path then.

This fails for two kinds of entries at the path of the launcher.  A directory
is not removed by `rm -f`, whose status nobody asks for, and what is fetched is
moved to the inside of it.  And a special file can be verified as a file can.
It also fails where a link leads from one file of the script to another, as
from the temporary file of the launcher to the staged shim.
-/

namespace Luminosity.Bootstrap.FailClosed

open Luminosity.Foundation.Chains
open Luminosity.Foundation.TextSegments
open Luminosity.Foundation.EffectPrograms
open Luminosity.Foundation.Interleaving
open Luminosity.Bootstrap.VerifyShim
open Luminosity.Bootstrap.Entrypoint
open Luminosity.Bootstrap.Entries
open Luminosity.Bootstrap.Outcomes

/-- A state of the entries, with what the commands have done so far. -/
abbrev Log := World × List (Event bash Unit World)

section Property

variable (script : Script) (surroundings : Surroundings)

/-- A file has these bytes, and the staged shim has succeeded on them. -/
def Vouched (log : Log) (path : Text) : Prop :=
  ∃ contents executable,
    log.1.found path = some (.file contents executable) ∧
      ∃ event ∈ log.2, ∃ signature target mode,
        event.op =
            Command.verify script.shim [script.publicKey, signature, target] ∧
          event.answer = true ∧
            event.before.found script.shim =
                some (.file surroundings.shimProgram true) ∧
              event.before.found target = some (.file contents mode)

/-- What is executed has been verified. -/
def ExecutesVerified (ending : Ending) (log : Log) : Prop :=
  ∀ path, ending = .exec path →
    path = script.launcher ∧ Vouched script surroundings log script.launcher

/-- The release serves a launcher which the public key verifies. -/
def Deliverable (world : World) : Prop :=
  ∃ publicKey signature launcher,
    world.readFile script.publicKey = .ok publicKey ∧
      Receives surroundings world script.signatureUrl script.tmpSig
          signature ∧
        Receives surroundings world script.binaryUrl script.tmpBin
            launcher ∧
          Signs surroundings.minisign publicKey signature launcher

/--
The launcher is a directory, to the inside of which another one is moved, or
it is fetched to a special file.
-/
def Displaced (world : World) : Prop :=
  (world.isDirectory script.launcher ∨ world.isSpecial script.tmpBin) ∧
    Deliverable script surroundings world

/-- The launcher is a special file which the cached signature signs. -/
def SignedSpecial (world : World) : Prop :=
  ∃ publicKey signature contents,
    world.readFile script.publicKey = .ok publicKey ∧
      world.isFile script.launcherSig ∧
        world.readFile script.launcherSig = .ok signature ∧
          world.found script.launcher =
              some (.special (some contents) true) ∧
            Signs surroundings.minisign publicKey signature contents

/-- The world with the bytes of the shim at its path. -/
def withShim (world : World) : World :=
  world.write script.shim surroundings.shimProgram false

/-- The shim can be staged, and something is verified which is no file. -/
def Trapped (world : World) : Prop :=
  world.Writable script.shim ∧
    (Displaced script surroundings (withShim script surroundings world) ∨
      SignedSpecial script surroundings (withShim script surroundings world))

/--
No link, and no second name of a file, leads from what is fetched to another
file which the script relies on.
-/
structure Apart (world : World) : Prop where
  files : ¬ world.Meets script.tmpBin script.tmpSig
  others : ∀ path ∈ [script.tmpBin, script.tmpSig],
    ∀ other ∈ [script.shim, script.publicKey], ¬ world.Meets path other
  aside : ∀ path ∈ [script.tmpBin, script.tmpSig],
    ∀ other ∈ [script.launcher, script.launcherSig], ¬ world.Passes path other

/-- What the release can have the script write is apart. -/
def Secluded (world : World) : Prop :=
  (surroundings.served script.binaryUrl).isSome →
    (surroundings.served script.signatureUrl).isSome → Apart script world

end Property

variable {script : Script} {surroundings : Surroundings}

namespace Apart

variable {world : World}

theorem mono
    {before after : World} (apart : Apart script before)
    (separates : World.Separates before after) :
    Apart script after where
  files := fun meets => apart.files (separates.meets _ _ meets)
  others := fun path isPath other isOther meets =>
    apart.others path isPath other isOther (separates.meets path other meets)
  aside := fun path isPath other isOther passes =>
    apart.aside path isPath other isOther (separates.passes path other passes)

theorem tmpBin_others
    (apart : Apart script world) {other : Text}
    (isOther : other ∈ [script.shim, script.publicKey]) :
    ¬ world.Meets script.tmpBin other :=
  apart.others _ List.mem_cons_self other isOther

theorem tmpSig_others
    (apart : Apart script world) {other : Text}
    (isOther : other ∈ [script.shim, script.publicKey]) :
    ¬ world.Meets script.tmpSig other :=
  apart.others _ (List.mem_cons_of_mem _ List.mem_cons_self) other isOther

theorem tmpBin_aside
    (apart : Apart script world) {other : Text}
    (isOther : other ∈ [script.launcher, script.launcherSig]) :
    ¬ world.Passes script.tmpBin other :=
  apart.aside _ List.mem_cons_self other isOther

theorem tmpSig_aside
    (apart : Apart script world) {other : Text}
    (isOther : other ∈ [script.launcher, script.launcherSig]) :
    ¬ world.Passes script.tmpSig other :=
  apart.aside _ (List.mem_cons_of_mem _ List.mem_cons_self) other isOther

end Apart

namespace Secluded

variable {world : World}

theorem mono
    {before after : World} (secluded : Secluded script surroundings before)
    (separates : World.Separates before after) :
    Secluded script surroundings after :=
  fun isBin isSig => (secluded isBin isSig).mono separates

theorem apart
    (secluded : Secluded script surroundings world)
    {signature launcher : Bytes}
    (servedSig : surroundings.served script.signatureUrl = some signature)
    (servedBin : surroundings.served script.binaryUrl = some launcher) :
    Apart script world := by
  apply secluded
  · rw [servedBin]
    rfl
  · rw [servedSig]
    rfl

end Secluded

/-- A fetch sees the shim and the public key as before. -/
theorem kept_others
    {before withBin withSig : World}
    (apart : Apart script before)
    (writesBin : World.Overwrites script.tmpBin before withBin)
    (writesSig : World.Overwrites script.tmpSig withBin withSig)
    {other : Text} (isOther : other ∈ [script.shim, script.publicKey]) :
    withSig.found other = before.found other :=
  (writesSig.apart _ ((apart.mono writesBin.separates).tmpSig_others
    isOther)).trans (writesBin.apart _ (apart.tmpBin_others isOther))

/-! ## Staging the shim -/

theorem receives_iff
    {before after : World} {written url path : Text} {contents : Bytes}
    (overwrites : World.Overwrites written before after) :
    Receives surroundings after url path contents ↔
      Receives surroundings before url path contents := by
  simp only [Receives, overwrites.writable, overwrites.special]

theorem isSpecial_iff
    {before after : World} {written path : Text}
    (overwrites : World.Overwrites written before after) :
    after.isSpecial path ↔ before.isSpecial path := by
  rw [World.isSpecial_iff, World.isSpecial_iff]
  simp only [overwrites.special]

theorem displaced_iff
    {world other : World} (resembles : World.Resembles world other) :
    Displaced script surroundings other ↔
      Displaced script surroundings world := by
  simp only [Displaced, Deliverable, Receives, World.isSpecial_iff,
    resembles.directory, resembles.special, resembles.writable,
    resembles.readFile]

theorem signedSpecial_iff
    {world other : World} (resembles : World.Resembles world other) :
    SignedSpecial script surroundings other ↔
      SignedSpecial script surroundings world := by
  simp only [SignedSpecial, resembles.special, resembles.isFile,
    resembles.readFile]

/-- A shim which is staged as a file was staged at a writable path. -/
theorem staged
    {initial copied ready : World}
    (copy : Outcome surroundings (.cp script.shimSource script.shim) initial
      true copied)
    (chmod : Outcome surroundings (.chmod script.shim) copied true ready) :
    Genuine surroundings ready script.shim ∧
      World.Separates initial ready ∧
        (ready.isFile script.shim →
          initial.Writable script.shim ∧
            World.Resembles (withShim script surroundings initial) ready) := by
  have remodes := chmodded chmod script.shim
  have separates := chmod_separates chmod
  rcases copy.2 rfl with written | ⟨noFile, rfl⟩
  · rcases written.found with ⟨mode, isShim⟩
    have isFile : copied.isFile script.shim := by
      rw [World.isFile, isShim]
      rfl
    refine ⟨Genuine.remodes ?_ remodes,
      written.overwrites.separates.trans separates, fun _ => ⟨written.1, ?_⟩⟩
    · intro contents executable finds
      rw [isShim, Option.some.injEq, Node.file.injEq] at finds
      exact finds.1.symm
    · rcases chmod with ⟨impossible, _⟩ | ⟨_, _, rfl⟩
      · cases impossible
      · apply World.Resembles.trans _ (World.resembles_makeExecutable isFile)
        rcases written with ⟨writable, executable, rfl⟩
        exact writable.resembles surroundings.shimProgram false executable
  · have isNone : ready.isFile script.shim = false := by
      rw [World.isFile, remodes.any Node.isFile_makeExecutable]
      rcases noFile with isDirectory | isSpecial
      · exact World.not_isFile_of_isDirectory isDirectory
      · exact World.not_isFile_of_isSpecial isSpecial
    refine ⟨?_, separates, ?_⟩
    · intro contents executable finds
      rw [World.isFile, finds] at isNone
      cases isNone
    · intro isFile
      rw [isNone] at isFile
      cases isFile

/-! ## From the fetched files on -/

theorem returns_giveUp (paths : List Text) :
    Returns (fun moved => moved = false) (giveUp paths) := by
  intro answer
  rfl

theorem ensures_giveUp (paths : List Text) (log : Log) :
    Ensures (calls surroundings) (giveUp paths)
      (fun moved after =>
        moved → Vouched script surroundings after script.launcher)
      log := by
  apply ((returns_giveUp paths).ensures log).mono
  rintro moved after rfl impossible
  cases impossible

/-- The launcher is as free as before once its signature is in place. -/
theorem moved_signature
    {ready withSig : World} (apart : Apart script ready)
    {signature : Node} (isSig : ready.found script.tmpSig = some signature)
    (plain : signature.isDirectory = false)
    (move : Outcome surroundings (.mv script.tmpSig script.launcherSig) ready
      true withSig) :
    withSig.isDirectory script.launcher = ready.isDirectory script.launcher ∧
      withSig.found script.tmpBin = ready.found script.tmpBin ∧
        ¬ withSig.Passes script.tmpBin script.launcher := by
  have isLauncherSig : script.launcherSig ∈
      [script.launcher, script.launcherSig] :=
    List.mem_cons_of_mem _ List.mem_cons_self
  have kept := moved_of_aside move
    (fun passes => apart.files (World.meets_of_passes passes))
    (apart.tmpBin_aside isLauncherSig)
  refine ⟨?_, kept.1, ?_⟩
  · exact moved_isDirectory move script.launcherSig_ne_tmpSig
      (apart.tmpSig_aside isLauncherSig) isSig plain script.launcher
  · intro passes
    exact apart.tmpBin_aside List.mem_cons_self (kept.2 _ passes)

/-- What is verified and moved into place is vouched for. -/
theorem ensures_verifyAndMove
    {log : Log} (fetchedApart : Apart script log.1)
    (genuine : Genuine surroundings log.1 script.shim)
    (free : ∀ publicKey signature contents,
      log.1.isFile script.shim →
        log.1.readFile script.publicKey = .ok publicKey →
          log.1.readFile script.tmpSig = .ok signature →
            log.1.readFile script.tmpBin = .ok contents →
              Signs surroundings.minisign publicKey signature contents →
                log.1.isDirectory script.launcher = false ∧
                  log.1.isSpecial script.tmpBin = false) :
    Ensures (calls surroundings) (verifyAndMove script)
      (fun moved after =>
        moved → Vouched script surroundings after script.launcher)
      log := by
  rw [verifyAndMove, ensures_bind, ensures_succeeds]
  intro executable ready chmod
  have remodes := chmodded chmod
  have apart := fetchedApart.mono (chmod_separates chmod)
  rw [ensures_bind, ensures_succeeds]
  intro accepted judged verify
  cases accepted with
  | false => exact ensures_giveUp _ _
  | true =>
      rcases verified verify (genuine.remodes (remodes _)) with
        ⟨rfl, isShim, publicKey, signature, contents, publicKeyRead,
          signatureRead, targetRead, signs⟩
      have noTrap := free publicKey signature contents
        (by
          rw [World.isFile,
            ← (remodes script.shim).any Node.isFile_makeExecutable, isShim]
          rfl)
        ((remodes _).readFile.symm.trans publicKeyRead)
        ((remodes _).readFile.symm.trans signatureRead)
        ((remodes _).readFile.symm.trans targetRead) signs
      have noDirectory : judged.isDirectory script.launcher = false :=
        ((remodes _).any Node.isDirectory_makeExecutable).trans noTrap.1
      have noSpecial : judged.isSpecial script.tmpBin = false :=
        ((remodes _).any Node.isSpecial_makeExecutable).trans noTrap.2
      have isBin : ∃ mode,
          judged.found script.tmpBin = some (.file contents mode) := by
        rcases World.readFile_ok targetRead with ⟨mode, isFile | isSpecial⟩
        · exact ⟨mode, isFile⟩
        · rw [World.isSpecial, isSpecial] at noSpecial
          cases noSpecial
      rcases isBin with ⟨mode, isBin⟩
      rcases World.found_of_readFile signatureRead with ⟨node, isSig, plain⟩
      rw [if_pos rfl, ensures_bind, ensures_succeeds]
      intro movedSig withSig moveSig
      cases movedSig with
      | false =>
          intro impossible
          cases impossible
      | true =>
          rcases moved_signature apart isSig plain moveSig with
            ⟨stays, kept, aside⟩
          rw [if_pos rfl, ensures_succeeds]
          intro moved after move
          cases moved with
          | false =>
              intro impossible
              cases impossible
          | true =>
              intro _
              have inPlace := moved_target move script.launcher_ne_tmpBin
                aside (kept.trans isBin) (stays.trans noDirectory)
              exact ⟨contents, mode, inPlace, _,
                List.mem_cons_of_mem _
                  (List.mem_cons_of_mem _ List.mem_cons_self),
                script.tmpSig, script.tmpBin, mode, rfl, rfl, isShim, isBin⟩

/-- What is fetched is moved into place unless something else is there. -/
theorem ensures_fetchAndVerify
    {log : Log} (secluded : Secluded script surroundings log.1)
    (genuine : Genuine surroundings log.1 script.shim)
    (free : log.1.isFile script.shim →
      ¬ Displaced script surroundings log.1) :
    Ensures (calls surroundings) (fetchAndVerify script)
      (fun moved after =>
        moved → Vouched script surroundings after script.launcher)
      log := by
  rw [fetchAndVerify, ensures_bind, ensures_succeeds]
  intro fetchedBin withBin fetchBin
  cases fetchedBin with
  | false => exact ensures_giveUp _ _
  | true =>
      rcases fetched fetchBin with ⟨writesBin, receivesBin⟩
      rw [if_pos rfl, ensures_bind, ensures_succeeds]
      intro fetchedSig withSig fetchSig
      cases fetchedSig with
      | false => exact ensures_giveUp _ _
      | true =>
          rcases fetched fetchSig with ⟨writesSig, receivesSig⟩
          rcases fetchBin.2 rfl with ⟨_, servedBin, _⟩
          rcases fetchSig.2 rfl with ⟨_, servedSig, _⟩
          have before := secluded.apart servedSig servedBin
          have apart := before.mono writesBin.separates
          have sameShim := kept_others before writesBin writesSig
            List.mem_cons_self
          have sameKey := kept_others before writesBin writesSig
            (List.mem_cons_of_mem _ List.mem_cons_self)
          have sameBin := writesSig.apart _ fun meets =>
            apart.files meets.symm
          rw [if_pos rfl]
          apply ensures_verifyAndMove (apart.mono writesSig.separates)
          · apply genuine.congr
            intro node finds
            exact sameShim.symm.trans finds
          · intro publicKey signature contents isShim keyRead sigRead binRead
              signs
            have deliverable : Deliverable script surroundings log.1 := by
              refine ⟨publicKey, signature, contents, ?_, ?_, ?_, signs⟩
              · exact (World.readFile_congr sameKey).symm.trans keyRead
              · exact (receives_iff writesBin).mp (receivesSig _ sigRead)
              · apply receivesBin
                exact (World.readFile_congr sameBin).symm.trans binRead
            have noTrap := free ((World.isFile_congr sameShim).symm.trans
              isShim)
            constructor
            · rw [writesSig.directory, writesBin.directory,
                ← Bool.not_eq_true]
              exact fun isDirectory => noTrap ⟨.inl isDirectory, deliverable⟩
            · rw [← Bool.not_eq_true, isSpecial_iff writesSig,
                isSpecial_iff writesBin]
              exact fun isSpecial => noTrap ⟨.inr isSpecial, deliverable⟩

/-! ## From the cached files on -/

/-- A hit is vouched for, unless the launcher is a special file. -/
theorem ensures_cached
    {log : Log} (genuine : Genuine surroundings log.1 script.shim)
    (free : log.1.isFile script.shim →
      ¬ SignedSpecial script surroundings log.1) :
    Ensures (calls surroundings) (cached script)
      (fun hit after =>
        after.1 = log.1 ∧
          (hit → Vouched script surroundings after script.launcher))
      log := by
  rw [cached, ensures_bind, ensures_succeeds]
  rintro executable tested ⟨isExecutable, rfl⟩
  cases executable with
  | false => exact ⟨rfl, nofun⟩
  | true =>
      rw [if_pos rfl, ensures_bind, ensures_succeeds]
      rintro signed same ⟨isSigned, rfl⟩
      cases signed with
      | false => exact ⟨rfl, nofun⟩
      | true =>
          rw [if_pos rfl, verifyLauncher, ensures_succeeds]
          intro accepted judged verify
          cases accepted with
          | false => exact ⟨(verify genuine).1, nofun⟩
          | true =>
              rcases verified verify genuine with
                ⟨rfl, isShim, publicKey, signature, contents, publicKeyRead,
                  signatureRead, targetRead, signs⟩
              refine ⟨rfl, fun _ => ?_⟩
              rcases World.readFile_ok targetRead with ⟨mode, isFile | special⟩
              · exact ⟨contents, mode, isFile, _, List.mem_cons_self, _, _,
                  mode, rfl, rfl, isShim, isFile⟩
              · exfalso
                rw [World.isExecutable, special] at isExecutable
                cases isExecutable
                apply free
                · exact (World.isFile_iff _).mpr ⟨_, _, isShim⟩
                · exact ⟨publicKey, signature, contents, publicKeyRead,
                    isSigned.symm, signatureRead, special, signs⟩

/-- Removing what is cached sets no trap. -/
theorem displaced_of_loses
    {before after : World} {lost : Text → Prop}
    (loses : World.Loses lost before after)
    (among : ∀ path, lost path →
      path ∈ [script.launcher, script.launcherSig])
    (secluded : Secluded script surroundings before)
    (displaced : Displaced script surroundings after) :
    Displaced script surroundings before := by
  rcases displaced with
    ⟨inPlace, publicKey, signature, launcher, keyRead, receivesSig,
      receivesBin, signs⟩
  rcases receivesSig with ⟨servedSig, isServedSig, fromSig⟩
  rcases receivesBin with ⟨servedBin, isServedBin, fromBin⟩
  have apart := secluded.apart isServedSig isServedBin
  have kept {url path : Text} {contents : Bytes}
      (aside : ∀ other, lost other → ¬ before.Passes path other)
      (receives : Receives surroundings after url path contents) :
      Receives surroundings before url path contents := by
    have same := loses.found_of_aside aside
    rw [Receives, World.Writable, loses.last_of_aside aside, same,
      World.isFile_congr same] at receives
    exact receives
  refine ⟨?_, publicKey, signature, launcher, ?_,
    kept ?_ ⟨servedSig, isServedSig, fromSig⟩,
    kept ?_ ⟨servedBin, isServedBin, fromBin⟩, signs⟩
  · rcases inPlace with isDirectory | isSpecial
    · left
      rcases (World.isDirectory_iff _).mp isDirectory with ⟨mode, finds⟩
      exact (World.isDirectory_iff _).mpr ⟨mode, loses.found finds⟩
    · right
      rcases (World.isSpecial_iff _).mp isSpecial with ⟨bytes, mode, finds⟩
      exact (World.isSpecial_iff _).mpr ⟨bytes, mode, loses.found finds⟩
  · rcases World.readFile_ok keyRead with ⟨mode, finds | finds⟩
    · exact World.readFile_of_found (loses.found finds)
    · exact World.readFile_of_found (loses.found finds)
  · exact fun other isLost => apart.tmpSig_aside (among other isLost)
  · exact fun other isLost => apart.tmpBin_aside (among other isLost)

/-- Whatever the cache holds, what is obtained is vouched for. -/
theorem ensures_obtain
    {log : Log} (secluded : Secluded script surroundings log.1)
    (genuine : Genuine surroundings log.1 script.shim)
    (free : log.1.isFile script.shim →
      ¬ (Displaced script surroundings log.1 ∨
        SignedSpecial script surroundings log.1)) :
    Ensures (calls surroundings) (obtain script)
      (fun obtained after =>
        obtained → Vouched script surroundings after script.launcher)
      log := by
  rw [obtain, ensures_bind]
  apply (ensures_cached genuine fun isShim special =>
    free isShim (.inr special)).mono
  rintro hit ⟨_, history⟩ ⟨rfl, vouched⟩
  cases hit with
  | true => exact vouched
  | false =>
      rw [if_neg nofun, ensures_bind, ensures_succeeds]
      rintro removed after ⟨loses, _⟩
      apply ensures_fetchAndVerify (secluded.mono loses.separates)
        (genuine.congr fun _ => loses.found)
      intro isShim displaced
      apply free
      · rcases (World.isFile_iff _).mp isShim with ⟨bytes, mode, finds⟩
        exact (World.isFile_iff _).mpr ⟨bytes, mode, loses.found finds⟩
      · left
        exact displaced_of_loses loses (fun _ lost => lost.1) secluded
          displaced

/-- No run executes what has not been verified, unless it is trapped. -/
theorem ensures_bootstrap
    {initial : World} (secluded : Secluded script surroundings initial)
    (free : ¬ Trapped script surroundings initial) :
    Ensures (calls surroundings) (bootstrap script)
      (ExecutesVerified script surroundings) (initial, []) := by
  rw [bootstrap, ensures_bind, ensures_succeeds]
  intro copied withShim copy
  cases copied with
  | false => nofun
  | true =>
      rw [if_pos rfl, ensures_bind, ensures_succeeds]
      intro executable ready chmod
      cases executable with
      | false => nofun
      | true =>
          rw [if_pos rfl, ensures_bind]
          rcases staged copy chmod with ⟨genuine, separates, onto⟩
          refine (ensures_obtain (secluded.mono separates) genuine ?_).mono ?_
          · intro isFile trap
            rcases onto isFile with ⟨writable, resembles⟩
            refine free ⟨writable, ?_⟩
            rw [← displaced_iff resembles, ← signedSpecial_iff resembles]
            exact trap
          · intro obtained after vouched
            cases obtained with
            | false => nofun
            | true =>
                rintro path ⟨rfl⟩
                exact ⟨rfl, vouched rfl⟩

/-! ## The runs which are trapped -/

/-- Nothing has to be a hit. -/
theorem runs_miss (log : Log) :
    ∃ history, Runs (calls surroundings) (cached script) log false
      (log.1, history) := by
  cases executable : log.1.isExecutable script.launcher with
  | false =>
      exact ⟨_, .bind (runs_succeeds ⟨executable.symm, rfl⟩) (.done _ _)⟩
  | true =>
      cases signed : log.1.isFile script.launcherSig with
      | false =>
          exact ⟨_, .bind (runs_succeeds ⟨executable.symm, rfl⟩)
            (.bind (runs_succeeds ⟨signed.symm, rfl⟩) (.done _ _))⟩
      | true =>
          exact ⟨_, .bind (runs_succeeds ⟨executable.symm, rfl⟩)
            (.bind (runs_succeeds ⟨signed.symm, rfl⟩)
              (runs_succeeds (verifies_not _ _ _)))⟩

/-- What is moved ends up in a directory, or is a special file itself. -/
theorem exists_moved
    {ready : World} (apart : Apart script ready) {signature launcher : Node}
    (isSig : ready.found script.tmpSig = some signature)
    (plainSig : signature.isDirectory = false)
    (isBin : ready.found script.tmpBin = some launcher)
    (plainBin : launcher.isDirectory = false)
    (inPlace : ready.isDirectory script.launcher ∨
      ready.isSpecial script.tmpBin) :
    ∃ withSig after,
      Outcome surroundings (.mv script.tmpSig script.launcherSig) ready true
          withSig ∧
        Outcome surroundings (.mv script.tmpBin script.launcher) withSig true
            after ∧
          after.isFile script.launcher = false := by
  have moveSig :
      Outcome surroundings (.mv script.tmpSig script.launcherSig) ready true
        (ready.move script.tmpSig script.launcherSig) :=
    .inr ⟨rfl, World.entry_of_found isSig, .inl rfl⟩
  rcases moved_signature apart isSig plainSig moveSig with
    ⟨stays, kept, aside⟩
  generalize ready.move script.tmpSig script.launcherSig = withSig at *
  have moveBin :
      Outcome surroundings (.mv script.tmpBin script.launcher) withSig true
        (withSig.move script.tmpBin script.launcher) :=
    .inr ⟨rfl, World.entry_of_found (kept.trans isBin), .inl rfl⟩
  refine ⟨withSig, _, moveSig, moveBin, ?_⟩
  by_cases isDirectory : withSig.isDirectory script.launcher
  · apply World.not_isFile_of_isDirectory
    rw [moved_isDirectory moveBin script.launcher_ne_tmpBin aside
      (kept.trans isBin) plainBin]
    exact isDirectory
  · rw [Bool.not_eq_true] at isDirectory
    have placed := moved_target moveBin script.launcher_ne_tmpBin aside
      (kept.trans isBin) isDirectory
    rcases inPlace with wasDirectory | wasSpecial
    · rw [stays, wasDirectory] at isDirectory
      cases isDirectory
    · apply World.not_isFile_of_isSpecial
      rw [World.isSpecial_congr (placed.trans isBin.symm)]
      exact wasSpecial

/-- What is fetched can be verified while something else is in place. -/
theorem runs_verifyAndMove
    {log : Log} {publicKey signature launcher : Bytes}
    (fetchedApart : Apart script log.1)
    (isShim : log.1.found script.shim =
      some (.file surroundings.shimProgram true))
    (inPlace : log.1.isDirectory script.launcher ∨
      log.1.isSpecial script.tmpBin)
    (publicKeyRead : log.1.readFile script.publicKey = .ok publicKey)
    (signatureRead : log.1.readFile script.tmpSig = .ok signature)
    (launcherRead : log.1.readFile script.tmpBin = .ok launcher)
    (signs : Signs surroundings.minisign publicKey signature launcher) :
    ∃ after, Runs (calls surroundings) (verifyAndMove script) log true
        after ∧
      after.1.isFile script.launcher = false := by
  have chmod :
      Outcome surroundings (.chmod script.tmpBin) log.1 true
        (log.1.makeExecutable script.tmpBin) := by
    rcases World.found_of_readFile launcherRead with ⟨node, finds, _⟩
    exact .inr ⟨rfl, Option.isSome_iff_exists.mpr ⟨node, finds⟩, rfl⟩
  have remodes := chmodded chmod
  have apart := fetchedApart.mono (chmod_separates chmod)
  generalize log.1.makeExecutable script.tmpBin = ready at *
  have stillShim : ready.found script.shim =
      some (.file surroundings.shimProgram true) := by
    rcases remodes script.shim with same | changed
    · exact same.trans isShim
    · rw [changed, isShim]
      rfl
  have readySig := (remodes script.tmpSig).readFile.trans signatureRead
  have readyBin := (remodes script.tmpBin).readFile.trans launcherRead
  have verify := verifies stillShim
    ((remodes script.publicKey).readFile.trans publicKeyRead) readySig
    readyBin signs
  have stillInPlace : ready.isDirectory script.launcher ∨
      ready.isSpecial script.tmpBin := by
    rw [World.isDirectory, World.isSpecial,
      (remodes _).any Node.isDirectory_makeExecutable,
      (remodes _).any Node.isSpecial_makeExecutable]
    exact inPlace
  rcases World.found_of_readFile readySig with ⟨_, isSig, plainSig⟩
  rcases World.found_of_readFile readyBin with ⟨_, isBin, plainBin⟩
  rcases exists_moved apart isSig plainSig isBin plainBin stillInPlace with
    ⟨withSig, after, moveSig, moveBin, notFile⟩
  exact ⟨_, .bind (runs_succeeds chmod) (.bind (runs_succeeds verify)
    (.bind (runs_succeeds moveSig) (runs_succeeds moveBin))), notFile⟩

/-- What is in place of the launcher stays when it is fetched. -/
theorem runs_fetchAndVerify
    {log : Log} (secluded : Secluded script surroundings log.1)
    (isShim : log.1.found script.shim =
      some (.file surroundings.shimProgram true))
    (displaced : Displaced script surroundings log.1) :
    ∃ after, Runs (calls surroundings) (fetchAndVerify script) log true
        after ∧
      after.1.isFile script.launcher = false := by
  rcases displaced with
    ⟨inPlace, publicKey, signature, launcher, publicKeyRead, receivesSig,
      receivesBin, signs⟩
  rcases fetches receivesBin with ⟨withBin, fetchBin, launcherRead⟩
  have writesBin := (fetched fetchBin).1
  have before : Apart script log.1 := by
    rcases receivesSig with ⟨_, servedSig, _⟩
    rcases receivesBin with ⟨_, servedBin, _⟩
    exact secluded.apart servedSig servedBin
  have apart := before.mono writesBin.separates
  rcases fetches ((receives_iff writesBin).mpr receivesSig) with
    ⟨withSig, fetchSig, signatureRead⟩
  have writesSig := (fetched fetchSig).1
  have moved (history : List (Event bash Unit World)) :=
    @runs_verifyAndMove script surroundings (withSig, history)
      publicKey signature launcher (apart.mono writesSig.separates)
      ((kept_others before writesBin writesSig List.mem_cons_self).trans
        isShim)
      (by
        rw [writesSig.directory, writesBin.directory,
          isSpecial_iff writesSig, isSpecial_iff writesBin]
        exact inPlace)
      ((World.readFile_congr (kept_others before writesBin writesSig
        (List.mem_cons_of_mem _ List.mem_cons_self))).trans publicKeyRead)
      signatureRead
      ((World.readFile_congr (writesSig.apart _ fun meets =>
        apart.files meets.symm)).trans launcherRead)
      signs
  rcases moved _ with ⟨after, runs, notFile⟩
  exact ⟨after, .bind (runs_succeeds fetchBin)
    (.bind (runs_succeeds fetchSig) runs), notFile⟩

/-- Nothing has to be a hit, and nothing has to be removed. -/
theorem runs_obtain
    {log : Log}
    (fetches : ∀ history, ∃ after,
      Runs (calls surroundings) (fetchAndVerify script) (log.1, history) true
          after ∧
        after.1.isFile script.launcher = false) :
    ∃ after, Runs (calls surroundings) (obtain script) log true after ∧
      after.1.isFile script.launcher = false := by
  rcases @runs_miss script surroundings log with ⟨history, missed⟩
  have remove :
      Outcome surroundings (.rm [script.launcher, script.launcherSig]) log.1
        false log.1 :=
    ⟨⟨rfl, rfl, fun _ => .inl rfl⟩, nofun⟩
  rcases fetches _ with ⟨after, runs, notFile⟩
  exact ⟨after, .bind missed (.bind (runs_succeeds remove) runs), notFile⟩

/-- A special file is a hit. -/
theorem runs_obtain_special
    {log : Log}
    (isShim : log.1.found script.shim =
      some (.file surroundings.shimProgram true))
    (special : SignedSpecial script surroundings log.1) :
    ∃ after, Runs (calls surroundings) (obtain script) log true after ∧
      after.1.isFile script.launcher = false := by
  rcases special with
    ⟨publicKey, signature, contents, publicKeyRead, signed, signatureRead,
      isLauncher, signs⟩
  have executable : log.1.isExecutable script.launcher = true := by
    rw [World.isExecutable, isLauncher]
    rfl
  have verify := verifies isShim publicKeyRead signatureRead
    (World.readFile_of_found isLauncher) signs
  refine ⟨_, .bind (.bind (runs_succeeds ⟨executable.symm, rfl⟩)
    (.bind (runs_succeeds ⟨signed.symm, rfl⟩) (runs_succeeds verify)))
    (.done _ _), ?_⟩
  rw [World.isFile, isLauncher]
  rfl

/-- What is obtained after the staging is executed. -/
theorem runs_bootstrap
    {initial : World} (writable : initial.Writable script.shim)
    (rest : ∀ ready history,
      World.Overwrites script.shim initial ready →
        World.Resembles (withShim script surroundings initial) ready →
          (∀ path other, initial.Together path other →
            ready.Together path other) →
            ready.found script.shim =
                some (.file surroundings.shimProgram true) →
              ∃ after,
                Runs (calls surroundings) (obtain script) (ready, history)
                    true after ∧
                  after.1.isFile script.launcher = false) :
    ∃ after,
      Runs (calls surroundings) (bootstrap script) (initial, [])
          (.exec script.launcher) after ∧
        after.1.isFile script.launcher = false := by
  have written :
      Written script.shim surroundings.shimProgram initial
        (initial.write script.shim surroundings.shimProgram false) :=
    ⟨writable, false, rfl⟩
  have copy :
      Outcome surroundings (.cp script.shimSource script.shim) initial true
        (initial.write script.shim surroundings.shimProgram false) :=
    ⟨.inr ⟨_, written⟩, fun _ => .inl written⟩
  have isShim := writable.found_write surroundings.shimProgram false
  have together {path other : Text} :=
    @World.Writable.together_write _ _ writable surroundings.shimProgram false
      path other
  have resembles : World.Resembles (withShim script surroundings initial)
      (initial.write script.shim surroundings.shimProgram false) :=
    writable.resembles _ _ _
  generalize initial.write script.shim surroundings.shimProgram false =
    copied at written copy isShim together resembles
  have chmod :
      Outcome surroundings (.chmod script.shim) copied true
        (copied.makeExecutable script.shim) := by
    refine .inr ⟨rfl, ?_, rfl⟩
    rw [isShim]
    rfl
  have isFile : copied.isFile script.shim := by
    rw [World.isFile, isShim]
    rfl
  rcases rest _ _ (written.overwrites.trans
      (World.overwrites_makeExecutable isFile))
    (resembles.trans (World.resembles_makeExecutable isFile))
    (fun _ _ before =>
      World.together_makeExecutable isShim (together before))
    (World.found_makeExecutable isShim) with ⟨after, obtained, notFile⟩
  exact ⟨after, .bind (runs_succeeds copy) (.bind (runs_succeeds chmod)
    (.bind obtained (.done _ _))), notFile⟩

/-- What is executed in a trapped run is no file. -/
theorem exists_trapped_run
    {initial : World} (secluded : Secluded script surroundings initial)
    (trapped : Trapped script surroundings initial) :
    ∃ after,
      Runs (calls surroundings) (bootstrap script) (initial, [])
          (.exec script.launcher) after ∧
        after.1.isFile script.launcher = false := by
  rcases trapped with ⟨writable, trap⟩
  apply runs_bootstrap writable
  intro ready history overwrites resembles _ isShim
  rcases trap with displaced | special
  · apply runs_obtain
    intro earlier
    exact @runs_fetchAndVerify _ _ (ready, earlier)
      (secluded.mono overwrites.separates) isShim
      ((displaced_iff resembles).mpr displaced)
  · exact @runs_obtain_special _ _ (ready, history) isShim
      ((signedSpecial_iff resembles).mpr special)

theorem not_ensures_of_run
    {initial : World} {after : Log}
    (runs : Runs (calls surroundings) (bootstrap script) (initial, [])
      (.exec script.launcher) after)
    (notFile : after.1.isFile script.launcher = false) :
    ¬ Ensures (calls surroundings) (bootstrap script)
      (ExecutesVerified script surroundings) (initial, []) := by
  intro ensured
  rcases ensured.of_run runs _ rfl with ⟨_, contents, mode, isFile, _⟩
  rw [World.isFile, isFile] at notFile
  cases notFile

theorem not_ensures_bootstrap
    {initial : World} (secluded : Secluded script surroundings initial)
    (trapped : Trapped script surroundings initial) :
    ¬ Ensures (calls surroundings) (bootstrap script)
      (ExecutesVerified script surroundings) (initial, []) := by
  rcases exists_trapped_run secluded trapped with ⟨after, runs, notFile⟩
  exact not_ensures_of_run runs notFile

section Plain

variable {world : World} (plain : ∀ path, world.target path = none)
  (single : ∀ path other inode, world.entry path = some inode →
    world.entry other = some inode → path = other)

include plain

theorem eq_of_passes {path other : Text} (passes : world.Passes path other) :
    path = other := by
  rcases Relation.ReflTransGen.cases_head passes with same | ⟨_, sends, _⟩
  · exact same
  · rw [Sends, plain] at sends
    cases sends

include single

theorem eq_of_meets {path other : Text} (meets : world.Meets path other) :
    path = other := by
  rcases meets with ⟨here, there, first, second, same⟩
  rw [eq_of_passes plain first, eq_of_passes plain second]
  rcases same with same | ⟨inode, isHere, isThere⟩
  · exact same
  · exact single here there inode isHere isThere

theorem apart_of_plain : Apart script world := by
  have own {path other : Text} (meets : world.Meets path other) :=
    eq_of_meets plain single meets
  have stays {path other : Text} (passes : world.Passes path other) :=
    eq_of_passes plain passes
  refine ⟨fun meets => script.tmpSig_ne_tmpBin (own meets).symm, ?_, ?_⟩
  · simp only [List.mem_cons, List.not_mem_nil, or_false, forall_eq_or_imp,
      forall_eq]
    exact ⟨⟨fun meets => script.tmpBin_ne_shim (own meets),
        fun meets => script.publicKey_ne_tmpBin (own meets).symm⟩,
      fun meets => script.tmpSig_ne_shim (own meets),
      fun meets => script.publicKey_ne_tmpSig (own meets).symm⟩
  · simp only [List.mem_cons, List.not_mem_nil, or_false, forall_eq_or_imp,
      forall_eq]
    exact ⟨⟨fun passes => script.launcher_ne_tmpBin (stays passes).symm,
        fun passes => script.launcherSig_ne_tmpBin (stays passes).symm⟩,
      fun passes => script.launcher_ne_tmpSig (stays passes).symm,
      fun passes => script.launcherSig_ne_tmpSig (stays passes).symm⟩

/-- Files which no link leads to and which have one name are secluded. -/
theorem secluded_of_plain : Secluded script surroundings world :=
  fun _ _ => apart_of_plain plain single

end Plain

/-- A plugin which runs for the first time. -/
def firstScript : Script where
  claudePluginRoot := "/plugin".toList
  cacheDir := "/plugin/bin".toList
  version := "0.1.0".toList
  osAlias := .linux
  archAlias := .x64
  process := 7
  luminosityReleaseBaseUrl := none

/-- The signature of a text is the text itself. -/
def firstSurroundings : Surroundings where
  minisign :=
    { PublicKey := Text
      Signature := Text
      fromBase64 := .ok
      decode := .ok
      verify := fun _ target signature _ =>
        if decode target = some signature then
          .ok ()
        else
          .error "The signature verification failed".toList }
  shimProgram := encode "shim".toList
  served := fun _ => some (encode "launcher".toList)

/-- The key of the plugin, and one entry at the path of the launcher. -/
def withLauncher (node : Node) : World where
  entry path :=
    if path = firstScript.launcher then
      some 0
    else if path = firstScript.publicKey then
      some 1
    else
      none
  node inode :=
    if inode = 0 then node else .file (encode "key".toList) false
  size := 2
  within := by
    intro path inode isEntry
    split at isEntry
    · cases isEntry
      exact Nat.zero_lt_succ 1
    · split at isEntry
      · cases isEntry
        exact Nat.lt_succ_self 1
      · cases isEntry
  limit := 40

theorem secluded_withLauncher
    {node : Node} (plain : node.target = none) :
    Secluded firstScript firstSurroundings (withLauncher node) := by
  apply secluded_of_plain
  · intro path
    rw [World.target, World.own]
    simp only [withLauncher]
    split
    · exact plain
    · split
      · rfl
      · rfl
  · intro path other inode isEntry isOther
    simp only [withLauncher] at isEntry isOther
    split at isEntry
    next isLauncher =>
      cases isEntry
      split at isOther
      next alsoLauncher => exact isLauncher.trans alsoLauncher.symm
      next => split at isOther <;> cases isOther
    next =>
      split at isEntry
      next isKey =>
        cases isEntry
        split at isOther
        next => cases isOther
        next =>
          split at isOther
          next alsoKey => exact isKey.trans alsoKey.symm
          next => cases isOther
      next => cases isEntry

end Luminosity.Bootstrap.FailClosed
