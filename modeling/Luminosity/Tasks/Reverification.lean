import Luminosity.Foundation.LineBreaks
import Luminosity.Tasks.Publication

/-!
# Signatures verified again

Before a release is made public, its signatures are downloaded and verified
again.  Every way in which a subprocess of this step ends is meant to end in a
failed verification, which preserves the draft and its tag.  A download which
does not start at all raises another error, and so does any subprocess which
prints what is no text; the handler of these deletes the tag.
-/

namespace Luminosity.Tasks.Reverification

open Luminosity.Foundation.TextSegments
open Luminosity.Foundation.EffectPrograms
open Luminosity.Foundation.Exceptions
open Luminosity.Foundation.Interleaving
open Luminosity.Foundation.LineBreaks (universalNewlines)
open Luminosity.Host.Paths
open Luminosity.Tasks.Github
open Luminosity.Tasks.Publication

/-! ## The environment -/

/-- A subprocess exits, takes too long, or does not start. -/
inductive Ending
  | exits (returncode : Int) (stdout stderr : Bytes)
  | timesOut
  | doesNotStart
deriving DecidableEq, Repr

/-- What the subprocess printed is no text. -/
def Ending.Illegible : Ending → Prop
  | .exits _ stdout stderr => decode stdout = none ∨ decode stderr = none
  | _ => False

/--
What `subprocess.run` makes of an ending: `text=True` decodes both outputs,
and raises where one is no text, whatever the status.
-/
def Ending.Gives : Ending → Except Failure Completed → Prop
  | .exits returncode stdout stderr, answer =>
      (∃ output printed,
        decode stdout = some output ∧ decode stderr = some printed ∧
          answer =
            .ok { returncode, stderr := universalNewlines printed }) ∨
      ((decode stdout = none ∨ decode stderr = none) ∧
        ∃ detail, answer = .error (.exception detail))
  | .timesOut, answer => ∃ detail, answer = .error (.timeoutExpired detail)
  | .doesNotStart, answer => ∃ detail, answer = .error (.osError detail)

/-- A subprocess ends in one of these ways. -/
def EndsSomehow (answer : Except Failure Completed) : Prop :=
  ∃ ending : Ending, ending.Gives answer

theorem Ending.Illegible.raises
    {ending : Ending} {answer : Except Failure Completed}
    (illegible : ending.Illegible) (gives : ending.Gives answer) :
    ∃ detail, answer = .error (.exception detail) := by
  cases ending with
  | exits returncode stdout stderr =>
      rcases gives with ⟨output, printed, some_, other, _⟩ | ⟨_, raises⟩
      · rcases illegible with none_ | none_
        · rw [some_] at none_
          cases none_
        · rw [other] at none_
          cases none_
      · exact raises
  | timesOut => exact illegible.elim
  | doesNotStart => exact illegible.elim

/-- Only what is no text raises this exception. -/
theorem Ending.Gives.illegible
    {ending : Ending} {detail : Text}
    (gives : ending.Gives (.error (.exception detail))) :
    ending.Illegible := by
  cases ending with
  | exits returncode stdout stderr =>
      simpa [Ending.Gives, Ending.Illegible] using gives
  | timesOut => simp [Ending.Gives] at gives
  | doesNotStart => simp [Ending.Gives] at gives

/-- Only what does not start raises this error. -/
theorem Ending.Gives.missing
    {ending : Ending} {detail : Text}
    (gives : ending.Gives (.error (.osError detail))) :
    ending = .doesNotStart := by
  cases ending with
  | exits returncode stdout stderr => simp [Ending.Gives] at gives
  | timesOut => simp [Ending.Gives] at gives
  | doesNotStart => rfl

theorem Ending.Gives.not_interrupt
    {ending : Ending} (gives : ending.Gives (.error .interrupt)) : False := by
  cases ending with
  | exits returncode stdout stderr => simp [Ending.Gives] at gives
  | timesOut => simp [Ending.Gives] at gives
  | doesNotStart => simp [Ending.Gives] at gives

/-- Subprocesses end in any of these ways, and temporary files do their job. -/
def tooling (tools : Tools) : Semantics github World :=
  fun call before answer after =>
    answers tools call before answer after ∧
      match call with
      | .temporaryFile => ∃ path, (answer : Except Failure Path) = .ok path
      | .unlink path =>
          (answer : Except Failure Unit) = .ok () ∧
            after = before.place path none
      | .ghDownload _ _ _ => EndsSomehow answer
      | .minisignVerify _ _ _ => EndsSomehow answer
      | _ => True

/-- The operations, recorded. -/
abbrev toolCalls (tools : Tools) : Semantics github Log :=
  recorded (fun _ => tooling tools) ()

/--
The event is a download which did not start, or a subprocess which printed
what is no text.
-/
def Escapes : Step → Prop
  | ⟨_, .ghDownload _ _ _, answer, _, _⟩ =>
      ∃ ending : Ending, ending.Gives answer ∧
        (ending = .doesNotStart ∨ ending.Illegible)
  | ⟨_, .minisignVerify _ _ _, answer, _, _⟩ =>
      ∃ ending : Ending, ending.Gives answer ∧ ending.Illegible
  | _ => False

/-- There was such an event. -/
def Escaped (history : History) : Prop :=
  ∃ event ∈ history, Escapes event

/-- The step ends verified or refused, and its error deletes no tag. -/
structure KeepsTag
    (tools : Tools) (tag assetName signatureName : Text) (publicKey : Path)
    (result : Except Raised Unit) (history : History) : Prop where
  settled :
    (result = .ok () ∧
        SignatureChecked tools tag assetName signatureName publicKey
          history) ∨
      ∃ message, result = .error (.assetVerification message)
  handled :
    ∀ raised, result = .error raised →
      Asks Call.Quiet (onRaised tag raised).run

/-! ## What each part raises -/

section Parts

variable {tools : Tools}

/-- What every environment establishes, this one does. -/
theorem ensures_of_calls
    {α : Type} {program : Program github α} {post : α → Log → Prop}
    {log : Log}
    (ensured : Ensures (calls tools) program post log) :
    Ensures (toolCalls tools) program post log := by
  rw [ensures_iff_runs]
  intro value final runs
  exact ensured.of_run
    (runs.mono fun _ _ _ _ step => ⟨step.1.1, step.2⟩)

/-- The files are the ones of a world, except at some paths. -/
def FilesOf (world : World) (except : List Path) (log : Log) : Prop :=
  ∀ path ∉ except, log.1.files path = world.files path

/-- How a download can end; what it cannot handle is passed on. -/
def Downloads : Except Raised Unit → Log → Prop
  | .ok _, log => ¬Escaped log.2
  | .error (.assetVerification _), log => ¬Escaped log.2
  | .error (.external (.timeoutExpired _)), log => ¬Escaped log.2
  | .error (.external (.osError _)), log => Escaped log.2
  | .error (.external (.exception _)), log => Escaped log.2
  | .error _, _ => False

/-- How the step can end; what it cannot handle is passed on. -/
def Settles : Except Raised Unit → Log → Prop
  | .ok _, log => ¬Escaped log.2
  | .error (.assetVerification _), log => ¬Escaped log.2
  | .error (.external (.osError _)), log => Escaped log.2
  | .error (.external (.exception _)), log => Escaped log.2
  | .error _, _ => False

theorem escaped_cons_iff
    {event : Step} {history : History}
    (calm : ¬Escaped history) :
    Escaped (event :: history) ↔ Escapes event := by
  constructor
  · rintro ⟨other, member, fails⟩
    rcases List.mem_cons.mp member with rfl | earlier
    · exact fails
    · exact absurd ⟨other, earlier, fails⟩ calm
  · intro fails
    exact ⟨event, List.mem_cons_self, fails⟩

/-- A download changes its output alone. -/
theorem ensures_download
    (tag assetName : Text) (output : Path)
    {world : World} {except : List Path} {log : Log}
    (among : output ∈ except)
    (calm : ¬Escaped log.2)
    (kept : FilesOf world except log) :
    Ensures (toolCalls tools) (downloadReleaseAsset tag assetName output).run
      (fun result after =>
        Downloads result after ∧ FilesOf world except after)
      log := by
  rw [downloadReleaseAsset, ensures_run_bind, ensures_issue]
  rintro answer ⟨after, history⟩ ⟨⟨⟨contents, placed, _⟩, ends⟩, grows⟩
  dsimp only at placed grows
  subst placed grows
  have keeps : ∀ path ∉ except,
      (log.1.place output contents).files path = world.files path := by
    intro path outside
    rw [World.place_files_of_ne]
    · exact kept path outside
    · rintro rfl
      exact outside among
  rcases ends with ⟨ending, gives⟩
  cases answer with
  | error failure =>
      cases failure with
      | timeoutExpired detail =>
          refine ⟨?_, keeps⟩
          show ¬Escaped _
          rw [escaped_cons_iff calm]
          rintro ⟨other, again, rfl | illegible⟩
          · simp [Ending.Gives] at again
          · simpa using illegible.raises again
      | osError detail =>
          refine ⟨?_, keeps⟩
          exact (escaped_cons_iff calm).mpr
            ⟨ending, gives, Or.inl gives.missing⟩
      | exception detail =>
          refine ⟨?_, keeps⟩
          exact (escaped_cons_iff calm).mpr
            ⟨ending, gives, Or.inr gives.illegible⟩
      | interrupt => exact gives.not_interrupt.elim
  | ok finished =>
      have contained :
          ¬Escaped
            (⟨(), .ghDownload tag assetName output, .ok finished, log.1,
              log.1.place output contents⟩ :: log.2) := by
        rw [escaped_cons_iff calm]
        rintro ⟨other, again, rfl | illegible⟩
        · simp [Ending.Gives] at again
        · simpa using illegible.raises again
      change Ensures _ (ite _ _ _ : ReleaseTask Unit).run _ _
      split_ifs
      · exact ⟨contained, keeps⟩
      · exact ⟨contained, keeps⟩

/-- Downloads of which a timeout is a failed verification. -/
theorem ensures_timely
    (assetName : Text) {body : ReleaseTask Unit}
    {world : World} {except : List Path} {log : Log}
    (downloads :
      Ensures (toolCalls tools) body.run
        (fun result after =>
          Downloads result after ∧ FilesOf world except after)
        log) :
    Ensures (toolCalls tools) (onTimeout assetName body).run
      (fun result after =>
        Settles result after ∧ FilesOf world except after)
      log := by
  rw [onTimeout, ensures_attempt]
  apply downloads.mono
  intro result after ends
  rcases result with raised | _
  · rcases raised with message | message | missing | key | failure
    · exact ends
    · exact ends.1.elim
    · exact ends.1.elim
    · exact ends.1.elim
    · cases failure with
      | timeoutExpired detail => exact ends
      | osError detail => exact ends
      | exception detail => exact ends
      | interrupt => exact ends.1.elim
  · exact ends

theorem ensures_downloads
    (tag assetName signatureName : Text) {targetPath sigPath : Path}
    {world : World} {log : Log}
    (calm : ¬Escaped log.2)
    (kept : FilesOf world [targetPath, sigPath] log) :
    Ensures (toolCalls tools)
      (onTimeout assetName (do
        downloadReleaseAsset tag assetName targetPath
        downloadReleaseAsset tag signatureName sigPath)).run
      (fun result after =>
        Settles result after ∧ FilesOf world [targetPath, sigPath] after)
      log := by
  apply ensures_timely
  rw [ensures_run_bind]
  apply (ensures_download tag assetName targetPath List.mem_cons_self
    calm kept).mono
  intro result middle ends
  cases result with
  | error raised => exact ends
  | ok _ =>
      exact ensures_download tag signatureName sigPath
        (List.mem_cons_of_mem _ List.mem_cons_self) ends.1 ends.2

/-- A verification which cannot run or fails is a failed verification. -/
theorem ensures_verification
    (targetPath sigPath publicKey : Path)
    {world : World} {except : List Path} {log : Log}
    (calm : ¬Escaped log.2)
    (kept : FilesOf world except log) :
    Ensures (toolCalls tools)
      (attempt (minisignVerify targetPath sigPath publicKey) fun raised =>
        match raised with
        | .minisign message => throw (.assetVerification message)
        | other => throw other).run
      (fun result after => Settles result after ∧ FilesOf world except after)
      log := by
  rw [ensures_attempt, minisignVerify, ensures_run_bind, ensures_attempt,
    ensures_issue]
  rintro answer ⟨after, history⟩ ⟨⟨⟨same, _⟩, ends⟩, grows⟩
  dsimp only at same grows
  subst same grows
  rcases ends with ⟨ending, gives⟩
  have contained
      (quiet : ¬∃ detail, answer = .error (.exception detail)) :
      ¬Escaped
        (⟨(), .minisignVerify targetPath sigPath publicKey, answer, log.1,
          log.1⟩ :: log.2) := by
    rw [escaped_cons_iff calm]
    rintro ⟨other, again, illegible⟩
    exact quiet (illegible.raises again)
  cases answer with
  | error failure =>
      cases failure with
      | timeoutExpired detail =>
          refine ⟨contained ?_, kept⟩
          rintro ⟨_, ⟨⟩⟩
      | osError detail =>
          refine ⟨contained ?_, kept⟩
          rintro ⟨_, ⟨⟩⟩
      | exception detail =>
          refine ⟨?_, kept⟩
          exact (escaped_cons_iff calm).mpr ⟨ending, gives, gives.illegible⟩
      | interrupt => exact gives.not_interrupt.elim
  | ok finished =>
      have exited := contained (by rintro ⟨_, ⟨⟩⟩)
      change Ensures _ (ite _ _ _ : ReleaseTask Unit).run _ _
      split_ifs
      · exact ⟨exited, kept⟩
      · exact ⟨exited, kept⟩

/-- A file which is removed is one of those of which nothing is left. -/
theorem ensures_unlink
    {world : World} {path : Path} {except : List Path} {log : Log}
    (fresh : world.files path = none)
    (kept : FilesOf world (path :: except) log) :
    Ensures (toolCalls tools) (issue (.unlink path)).run
      (fun result after =>
        result = .ok () ∧ FilesOf world except after ∧
          (Escaped after.2 ↔ Escaped log.2))
      log := by
  rw [ensures_issue]
  rintro answer ⟨after, history⟩ ⟨⟨_, removed, placed⟩, grows⟩
  dsimp only at removed placed grows
  subst removed placed grows
  refine ⟨rfl, ?_, ?_⟩
  · intro other outside
    by_cases same : other = path
    · subst same
      rw [World.place_files_self, fresh]
    · rw [World.place_files_of_ne _ _ same]
      exact kept other (by simp [same, outside])
  · constructor
    · rintro ⟨event, member, fails⟩
      rcases List.mem_cons.mp member with rfl | earlier
      · exact fails.elim
      · exact ⟨event, earlier, fails⟩
    · rintro ⟨event, member, fails⟩
      exact ⟨event, List.mem_cons_of_mem _ member, fails⟩

/-- A new temporary file is the only one which changes. -/
theorem ensures_newFile
    {world : World} {except : List Path} {log : Log}
    (calm : ¬Escaped log.2)
    (kept : FilesOf world except log) :
    Ensures (toolCalls tools) (issue .temporaryFile).run
      (fun result after =>
        ∃ path, result = .ok path ∧ log.1.files path = none ∧
          after.1.files path = some [] ∧
          ¬Escaped after.2 ∧ FilesOf world (path :: except) after)
      log := by
  rw [ensures_issue]
  rintro answer ⟨after, history⟩ ⟨⟨created, path, rfl⟩, grows⟩
  rcases created with ⟨fresh, placed⟩
  dsimp only at placed grows
  subst placed grows
  refine ⟨path, rfl, fresh, World.place_files_self _ _ _, ?_, ?_⟩
  · rw [escaped_cons_iff calm]
    exact id
  · intro other outside
    rw [List.mem_cons, not_or] at outside
    show (log.1.place path (some [])).files other = world.files other
    rw [World.place_files_of_ne _ _ outside.1]
    exact kept other outside.2

/-- Whether something escaped is all that an end depends on. -/
theorem Settles.of_iff
    {result : Except Raised Unit} {before after : Log}
    (settles : Settles result before)
    (same : Escaped after.2 ↔ Escaped before.2) :
    Settles result after := by
  rcases result with raised | _
  · rcases raised with message | message | missing | key | failure
    · exact mt same.mp settles
    · exact settles
    · exact settles
    · exact settles
    · cases failure with
      | timeoutExpired detail => exact settles
      | osError detail => exact same.mpr settles
      | exception detail => exact same.mpr settles
      | interrupt => exact settles
  · exact mt same.mp settles

/-- However the step ends, both temporary files are removed after it. -/
theorem ensures_cleaned
    {world : World} {targetPath sigPath : Path}
    (freshTarget : world.files targetPath = none)
    (freshSig : world.files sigPath = none)
    {result : Except Raised Unit} {middle : Log}
    (settles : Settles result middle)
    (kept : FilesOf world [targetPath, sigPath] middle) :
    Ensures (toolCalls tools)
      (do
        let _ ← issue (.unlink targetPath)
        issue (.unlink sigPath) : ReleaseTask Unit).run
      (fun ended after =>
        Settles (cleaned result ended) after ∧ after.1.files = world.files)
      middle := by
  rw [ensures_run_bind]
  apply (ensures_unlink freshTarget kept).mono
  rintro _ third ⟨rfl, keptTarget, sameTarget⟩
  apply (ensures_unlink freshSig keptTarget).mono
  rintro _ after ⟨rfl, keptSig, sameSig⟩
  constructor
  · exact settles.of_iff (sameSig.trans sameTarget)
  · funext path
    exact keptSig path (List.not_mem_nil)

/-- The step settles, and leaves the files as they were. -/
theorem ensures_settles
    (world : World) (tag assetName signatureName : Text) (publicKey : Path) :
    Ensures (toolCalls tools)
      (downloadAndVerifySignature tag assetName signatureName publicKey).run
      (fun result after =>
        Settles result after ∧ after.1.files = world.files)
      (world, []) := by
  have calm : ¬Escaped ([] : History) := by
    rintro ⟨_, none, _⟩
    cases none
  have kept : FilesOf world [] (world, []) := fun _ _ => rfl
  rw [downloadAndVerifySignature, ensures_run_bind]
  apply (ensures_newFile calm kept).mono
  rintro _ first ⟨targetPath, rfl, freshTarget, created, calm, kept⟩
  change Ensures _ (issue .temporaryFile >>= _ : ReleaseTask Unit).run _ _
  rw [ensures_run_bind]
  apply (ensures_newFile calm kept).mono
  rintro _ second ⟨sigPath, rfl, freshSig, _, calm, kept⟩
  change Ensures _ (ensuring _ _ : ReleaseTask Unit).run _ _
  -- The first temporary file is there when the second one is created.
  have different : sigPath ≠ targetPath := by
    rintro rfl
    rw [created] at freshSig
    cases freshSig
  have unused : world.files sigPath = none := by
    rw [← ‹FilesOf world [targetPath] first› sigPath (by simp [different])]
    exact freshSig
  have keptBoth : FilesOf world [targetPath, sigPath] second := by
    intro path outside
    exact kept path (by simpa [or_comm] using outside)
  rw [ensures_ensuring, ensures_run_bind]
  apply (ensures_downloads tag assetName signatureName calm
    keptBoth).mono
  intro result middle ends
  cases result with
  | error raised => exact ensures_cleaned freshTarget unused ends.1 ends.2
  | ok _ =>
      apply (ensures_verification targetPath sigPath publicKey ends.1
        ends.2).mono
      intro result after ends
      exact ensures_cleaned freshTarget unused ends.1 ends.2

end Parts

/-! ## When the tag is kept -/

/--
The step ends verified or refused, with an error which deletes no tag, exactly
when no download fails to start and no subprocess prints what is no text.  Its
temporary files, which are new ones, are gone in any case.
-/
theorem reverification_keeps_tag_iff
    (tools : Tools) (world : World)
    (tag assetName signatureName : Text) (publicKey : Path) :
    Ensures (toolCalls tools)
      (downloadAndVerifySignature tag assetName signatureName publicKey).run
      (fun result after =>
        (KeepsTag tools tag assetName signatureName publicKey result
            after.2 ↔
          ¬Escaped after.2) ∧
          after.1.files = world.files)
      (world, []) := by
  have checked :=
    ensures_of_calls (@ensures_downloadAndVerifySignature tools tag assetName
      signatureName publicKey (world, []))
  apply ((ensures_settles world tag assetName signatureName publicKey).and
    checked).mono
  rintro result after ⟨⟨settles, files⟩, onSuccess⟩
  refine ⟨⟨?_, ?_⟩, files⟩
  · rintro ⟨settled, _⟩ escaped
    rcases settled with ⟨rfl, _⟩ | ⟨message, rfl⟩
    · exact settles escaped
    · exact settles escaped
  · intro calm
    rcases result with raised | _
    · rcases raised with message | message | missing | key | failure
      · refine ⟨.inr ⟨message, rfl⟩, ?_⟩
        rintro _ ⟨⟩
        apply Asks.run_bind (asks_emitForensicAlert tag _)
        intro _
        trivial
      · exact settles.elim
      · exact settles.elim
      · exact settles.elim
      · cases failure with
        | timeoutExpired detail => exact settles.elim
        | osError detail => exact absurd settles calm
        | exception detail => exact absurd settles calm
        | interrupt => exact settles.elim
    · refine ⟨.inl ⟨rfl, onSuccess⟩, ?_⟩
      rintro _ ⟨⟩

/-- Where the tool is missing, the first download deletes the tag. -/
theorem missing_tool_deletes_tag :
    ∃ (tools : Tools) (world : World) (tag assetName signatureName : Text)
      (publicKey : Path) (result : Except Raised Unit) (after : Log),
      Runs (toolCalls tools)
          (downloadAndVerifySignature tag assetName signatureName
            publicKey).run
          (world, []) result after ∧
        ¬KeepsTag tools tag assetName signatureName publicKey result
          after.2 := by
  let world : World :=
    { files := fun _ => none, release := .draft, tagged := true }
  let first := world.place (tmp 0) (some [])
  let second := first.place (tmp 1) (some [])
  let failure : Failure := .osError "No such file: 'gh'".toList
  have fresh : first.files (tmp 1) = none := by
    rw [World.place_files_of_ne]
    decide +kernel
  have one : tooling smallTools .temporaryFile world (.ok (tmp 0)) first :=
    ⟨⟨rfl, rfl⟩, tmp 0, rfl⟩
  have other : tooling smallTools .temporaryFile first (.ok (tmp 1)) second :=
    ⟨⟨fresh, rfl⟩, tmp 1, rfl⟩
  have missing :
      tooling smallTools
        (.ghDownload "v0.1.0".toList "manifest.json".toList (tmp 0))
        second (.error failure) (second.place (tmp 0) (some [])) := by
    refine ⟨⟨some [], rfl, ?_⟩, .doesNotStart, _, rfl⟩
    rintro _ ⟨⟩
  have unlinked (world : World) (path : Path) :
      tooling smallTools (.unlink path) world (.ok ())
        (world.place path none) :=
    ⟨.inr rfl, rfl, rfl⟩
  have logged {call : Call} {answer : Except Failure call.Value}
      {before after : World}
      (step : tooling smallTools call before answer after)
      (history : History) :
      toolCalls smallTools call (before, history) answer
        (after, ⟨(), call, answer, before, after⟩ :: history) :=
    ⟨step, rfl⟩
  refine ⟨smallTools, world, "v0.1.0".toList, "manifest.json".toList,
    "manifest.minisig".toList, smallRoot, .error (.external failure), _,
    .ask (logged one []) (.ask (logged other _) (.ask (logged missing _)
      (.ask (logged (unlinked _ _) _) (.ask (logged (unlinked _ _) _)
        (.done _ _))))), ?_⟩
  intro keeps
  exact (keeps.handled _ rfl).1.elim

end Luminosity.Tasks.Reverification
