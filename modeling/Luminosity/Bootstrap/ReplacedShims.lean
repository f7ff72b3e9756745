import Luminosity.Bootstrap.FailClosed

/-!
# A shim which is replaced

Where the temporary file of the launcher is the staged shim, the shim is
overwritten with what is fetched before it is asked to verify it.  Nothing is
known of what it does then, and the script goes on as if it were the shim.
-/

namespace Luminosity.Bootstrap.ReplacedShims

open Luminosity.Foundation.Chains
open Luminosity.Foundation.TextSegments
open Luminosity.Foundation.EffectPrograms
open Luminosity.Foundation.Interleaving
open Luminosity.Bootstrap.VerifyShim
open Luminosity.Bootstrap.Entrypoint
open Luminosity.Bootstrap.Entries
open Luminosity.Bootstrap.Outcomes
open Luminosity.Bootstrap.FailClosed

variable {script : Script} {surroundings : Surroundings}

/-- What another program may leave: a directory in place of the launcher. -/
def ruined (script : Script) : World where
  entry path :=
    if path = script.launcher then
      some 0
    else if path = script.tmpBin then
      some 1
    else if path = script.tmpSig then
      some 2
    else
      none
  node inode := if inode = 0 then .directory true else .file [] true
  size := 3
  within := by
    intro path inode isEntry
    split_ifs at isEntry <;> cases isEntry <;> decide
  limit := 0

theorem ruined_target (path : Text) : (ruined script).target path = none := by
  rw [World.target, World.own]
  simp only [ruined]
  split_ifs <;> rfl

theorem ruined_single
    (path other : Text) (inode : Nat)
    (isEntry : (ruined script).entry path = some inode)
    (isOther : (ruined script).entry other = some inode) :
    path = other := by
  simp only [ruined] at isEntry isOther
  split_ifs at isEntry isOther
  all_goals cases isEntry
  all_goals cases isOther
  all_goals simp_all

theorem ruined_found (path : Text) :
    (ruined script).found path = (ruined script).own path :=
  World.found_of_last (follow_self _ (ruined_target path))

theorem ruined_isDirectory :
    (ruined script).isDirectory script.launcher := by
  rw [World.isDirectory, ruined_found]
  simp [World.own, ruined, Node.isDirectory]

theorem ruined_tmpBin :
    (ruined script).found script.tmpBin = some (.file [] true) := by
  rw [ruined_found]
  simp [World.own, ruined, script.launcher_ne_tmpBin.symm]

theorem ruined_tmpSig :
    (ruined script).found script.tmpSig = some (.file [] true) := by
  rw [ruined_found]
  simp [World.own, ruined, script.launcher_ne_tmpSig.symm,
    script.tmpSig_ne_tmpBin]

/-- Whatever is in the way of the launcher, another shim succeeds. -/
theorem runs_verifyAndMove
    {log : Log} (replaced : ¬ Genuine surroundings log.1 script.shim) :
    ∃ after, Runs (calls surroundings) (verifyAndMove script) log true
        after ∧
      after.1.isFile script.launcher = false := by
  have chmod :
      Outcome surroundings (.chmod script.tmpBin) log.1 false log.1 :=
    .inl ⟨rfl, rfl⟩
  have verify :
      Outcome surroundings
        (.verify script.shim [script.publicKey, script.tmpSig, script.tmpBin])
        log.1 true (ruined script) :=
    fun genuine => (replaced genuine).elim
  rcases @exists_moved _ surroundings _
      (apart_of_plain ruined_target ruined_single) _ _ ruined_tmpSig rfl
      ruined_tmpBin rfl (.inl ruined_isDirectory) with
    ⟨withSig, after, moveSig, moveBin, notFile⟩
  exact ⟨_, .bind (runs_succeeds chmod) (.bind (runs_succeeds verify)
    (.bind (runs_succeeds moveSig) (runs_succeeds moveBin))), notFile⟩

/-- The launcher is fetched to the file of the staged shim. -/
structure Replaces (script : Script) (surroundings : Surroundings)
    (world : World) : Prop where
  writable : world.Writable script.shim
  together : world.Together script.tmpBin script.shim
  other : ∃ launcher, surroundings.served script.binaryUrl = some launcher ∧
    launcher ≠ surroundings.shimProgram
  signature : ∃ signature,
    Receives surroundings world script.signatureUrl script.tmpSig signature
  apart : ¬ world.Meets script.tmpSig script.shim

/-- What is fetched replaces the shim which is to verify it. -/
theorem runs_fetchAndVerify
    {log : Log} (replaces : Replaces script surroundings log.1) :
    ∃ after, Runs (calls surroundings) (fetchAndVerify script) log true
        after ∧
      after.1.isFile script.launcher = false := by
  rcases replaces with
    ⟨writable, together, ⟨launcher, servedBin, different⟩,
      ⟨signature, receivesSig⟩, apart⟩
  have writableBin := together.writable writable
  have written :
      Written script.tmpBin launcher log.1
        (log.1.write script.tmpBin launcher false) :=
    ⟨writableBin, false, rfl⟩
  have fetchBin :
      Outcome surroundings (.fetch script.binaryUrl script.tmpBin) log.1 true
        (log.1.write script.tmpBin launcher false) :=
    ⟨.inr ⟨_, written⟩, fun _ => ⟨launcher, servedBin, .inl written⟩⟩
  have isShim := (writableBin.together_write launcher false together).found
  rw [writableBin.found_write] at isShim
  have writesBin := written.overwrites
  generalize log.1.write script.tmpBin launcher false = withBin at *
  rcases fetches ((receives_iff writesBin).mpr receivesSig) with
    ⟨withSig, fetchSig, _⟩
  have writesSig := (fetched fetchSig).1
  have stillShim := (writesSig.apart _ fun meets =>
    apart (writesBin.separates.meets _ _ meets)).trans isShim.symm
  have replaced : ¬ Genuine surroundings withSig script.shim := by
    intro genuine
    exact different (genuine launcher false stillShim)
  have moved (history : List (Event bash Unit World)) :=
    @runs_verifyAndMove script surroundings (withSig, history) replaced
  rcases moved _ with ⟨after, runs, notFile⟩
  exact ⟨after, .bind (runs_succeeds fetchBin)
    (.bind (runs_succeeds fetchSig) runs), notFile⟩

/-- The shim is replaced in some run, and something unverified is executed. -/
theorem not_ensures_of_replaces
    {initial : World} (replaces : Replaces script surroundings initial) :
    ¬ Ensures (calls surroundings) (bootstrap script)
      (ExecutesVerified script surroundings) (initial, []) := by
  have run :
      ∃ after,
        Runs (calls surroundings) (bootstrap script) (initial, [])
            (.exec script.launcher) after ∧
          after.1.isFile script.launcher = false := by
    apply runs_bootstrap replaces.writable
    intro ready history overwrites _ together _
    apply runs_obtain
    intro earlier
    apply @runs_fetchAndVerify _ _ (ready, earlier)
    rcases replaces.signature with ⟨signature, receives⟩
    exact {
      writable := (overwrites.writable _).mpr replaces.writable
      together := together _ _ replaces.together
      other := replaces.other
      signature := ⟨signature, (receives_iff overwrites).mpr receives⟩
      apart := fun meets =>
        replaces.apart (overwrites.separates.meets _ _ meets) }
  rcases run with ⟨after, runs, notFile⟩
  exact not_ensures_of_run runs notFile

/-- A link leads from the temporary file of the launcher to the shim. -/
def planted : World where
  entry path := if path = firstScript.tmpBin then some 0 else none
  node _ := .link firstScript.shim
  size := 1
  within := by
    intro path inode isEntry
    split at isEntry
    · cases isEntry
      exact Nat.lt_succ_self 0
    · cases isEntry
  limit := 40

theorem planted_entry {path : Text} (different : path ≠ firstScript.tmpBin) :
    planted.entry path = none :=
  if_neg different

theorem planted_link_executed :
    ¬ Ensures (calls firstSurroundings) (bootstrap firstScript)
      (ExecutesVerified firstScript firstSurroundings) (planted, []) := by
  have stays {path other : Text} (different : path ≠ firstScript.tmpBin)
      (passes : planted.Passes path other) : path = other := by
    rcases Relation.ReflTransGen.cases_head passes with same | ⟨_, sends, _⟩
    · exact same
    · rw [Sends, World.target, World.own, planted_entry different] at sends
      cases sends
  apply not_ensures_of_replaces
  refine ⟨by decide +kernel, ⟨firstScript.shim, firstScript.shim, ?_, ?_,
    .inl rfl⟩, ⟨encode "launcher".toList, rfl, ?_⟩,
    ⟨encode "launcher".toList, encode "launcher".toList, rfl,
      .inl ⟨?_, rfl⟩⟩, ?_⟩
  · decide +kernel
  · decide +kernel
  · decide +kernel
  · decide +kernel
  · rintro ⟨here, there, first, second, same⟩
    have isSig := stays firstScript.tmpSig_ne_tmpBin first
    have isShim := stays firstScript.tmpBin_ne_shim.symm second
    subst isSig isShim
    rcases same with same | ⟨inode, isEntry, _⟩
    · exact firstScript.tmpSig_ne_shim same
    · rw [planted_entry firstScript.tmpSig_ne_tmpBin] at isEntry
      cases isEntry

end Luminosity.Bootstrap.ReplacedShims
