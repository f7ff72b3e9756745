import Luminosity.Foundation.TextSlices

/-!
# Prompt fragments

A fragment is combined from the bodies of the two levels of a document.  Each
body is trimmed of the blank lines around it by a scan over its lines, which
keeps the byte offsets of the slice to return; the empty bodies are dropped and
the others joined by one blank line.

The offsets the scan keeps always bound a slice.  What is sliced starts and
ends with a line which is not blank, and only blank lines and line endings are
left out around it.
-/

namespace Luminosity.Config.Fragment

open Luminosity.Foundation.TextSegments
open Luminosity.Foundation.TextSlices

/-- The state of the scan: the offsets of the segment and of the slice. -/
structure Scan where
  offset : Nat
  first : Option Nat
  lastEnd : Nat
deriving DecidableEq

/-- A segment without its line ending. -/
def content (segment : Text) : Text :=
  stripLast '\r' (stripLast '\n' segment)

def scanSegment (scan : Scan) (segment : Text) : Scan :=
  let content := content segment
  if isBlank content then
    { scan with offset := scan.offset + byteLength segment }
  else
    { offset := scan.offset + byteLength segment
      first := some (scan.first.getD scan.offset)
      lastEnd := scan.offset + byteLength content }

def scanBody (body : Text) : Scan :=
  (splitInclusive '\n' body).foldl scanSegment
    { offset := 0, first := none, lastEnd := 0 }

/-- The text around which there are only blank lines, if slicing succeeds. -/
def trimSlice (body : Text) : Option Text :=
  match (scanBody body).first with
  | none => some []
  | some start => slice body start (scanBody body).lastEnd

-- The source panics where the slice does not exist; `trimSlice_eq` shows that
-- it always does.
def trimBlankLines (body : Text) : Text :=
  (trimSlice body).getD []

/-- Join the bodies which are left, in the order of the levels. -/
def combine (team personal : Text) : Option Text :=
  let parts :=
    ([team, personal].map trimBlankLines).filter fun part => !part.isEmpty
  if parts.isEmpty then
    none
  else
    some ("\n\n".toList.intercalate parts)

/-! ## The ending of a line -/

/-- What may follow the content of a line. -/
def LineEnding (ending : Text) : Prop :=
  ending = [] ∨ ending = "\n".toList ∨ ending = "\r\n".toList ∨
    ending = "\r".toList

theorem LineEnding.blank {ending : Text} (isEnding : LineEnding ending) :
    isBlank ending = true := by
  rcases isEnding with rfl | rfl | rfl | rfl
  · rfl
  · rfl
  · rfl
  · rfl

theorem stripLast_append
    (last : Char) (text : Text) :
    ∃ ending, (ending = [] ∨ ending = [last]) ∧
      text = stripLast last text ++ ending := by
  rcases (stripLast_eq_iff last text _).mp rfl with stripped | ⟨kept, _⟩
  · exact ⟨[last], Or.inr rfl, stripped⟩
  · refine ⟨[], Or.inl rfl, ?_⟩
    rw [List.append_nil]
    exact kept

theorem content_append (segment : Text) :
    ∃ ending, LineEnding ending ∧ segment = content segment ++ ending := by
  rcases stripLast_append '\n' segment with ⟨feed, isFeed, whole⟩
  rcases stripLast_append '\r' (stripLast '\n' segment) with
    ⟨carriage, isCarriage, line⟩
  refine ⟨carriage ++ feed, ?_, ?_⟩
  · rcases isCarriage with rfl | rfl
    · rcases isFeed with rfl | rfl
      · exact Or.inl rfl
      · exact Or.inr (Or.inl rfl)
    · rcases isFeed with rfl | rfl
      · exact Or.inr (Or.inr (Or.inr rfl))
      · exact Or.inr (Or.inr (Or.inl rfl))
  · rw [content, ← List.append_assoc, ← line]
    exact whole

theorem isBlank_content (segment : Text) :
    isBlank (content segment) = isBlank segment := by
  rcases content_append segment with ⟨ending, isEnding, whole⟩
  have blank := isEnding.blank
  rw [isBlank] at blank
  rw [whole, isBlank, isBlank, List.all_append, blank, Bool.and_true, ← whole]

/-- The content of a segment which is in a canonical presentation. -/
theorem notMem_content
    {segments : List Text} (segmented : Segmented '\n' segments)
    {segment : Text} (member : segment ∈ segments) :
    '\n' ∉ content segment := by
  have unseparated : '\n' ∉ stripLast '\n' segment := by
    induction segmented with
    | nil => cases member
    | unterminated line nonempty fresh =>
        rw [List.mem_singleton.mp member, stripLast, if_neg]
        · exact fresh
        · intro last
          exact fresh (List.mem_of_getLast? last)
    | cons line fresh tail induction =>
        rcases List.mem_cons.mp member with rfl | later
        · rw [stripLast_concat]
          exact fresh
        · exact induction later
  rcases stripLast_append '\r' (stripLast '\n' segment) with
    ⟨carriage, _, line⟩
  intro inside
  apply unseparated
  rw [line]
  exact List.mem_append_left carriage inside

/-! ## What the scan finds -/

/--
A body with its slice: blank lines before it, and after it a line ending and
blank lines.
-/
structure Trimmed (before text after : Text) : Prop where
  starts : StartsVisible text
  ends : EndsVisible text
  before_blank : isBlank before = true
  before_terminated : Terminated '\n' before
  after_blank : isBlank after = true
  after_ending :
    ∃ ending rest, after = ending ++ rest ∧ LineEnding ending

/-- What is known after the segments of a text were scanned. -/
def Scanned (text : Text) (scan : Scan) : Prop :=
  scan.offset = byteLength text ∧
    match scan.first with
    | none => isBlank text = true
    | some start =>
        ∃ before middle after,
          text = before ++ middle ++ after ∧ Trimmed before middle after ∧
            start = byteLength before ∧
              scan.lastEnd = byteLength before + byteLength middle

theorem isBlank_append (front back : Text) :
    isBlank (front ++ back) = (isBlank front && isBlank back) := by
  simp [isBlank]

theorem scanned_blank
    {text segment : Text} {scan : Scan}
    (scanned : Scanned text scan) (blank : isBlank segment = true) :
    Scanned (text ++ segment)
      { scan with offset := scan.offset + byteLength segment } := by
  rcases scanned with ⟨offset, found⟩
  refine ⟨by rw [byteLength_append, offset], ?_⟩
  cases first : scan.first with
  | none =>
      simp only [first] at found ⊢
      rw [isBlank_append, found, blank]
      rfl
  | some start =>
      simp only [first] at found ⊢
      rcases found with
        ⟨before, middle, after, rfl, trimmed, startAt, endAt⟩
      refine ⟨before, middle, after ++ segment, by simp, ?_, startAt, endAt⟩
      rcases trimmed.after_ending with ⟨ending, rest, rfl, isEnding⟩
      constructor
      · exact trimmed.starts
      · exact trimmed.ends
      · exact trimmed.before_blank
      · exact trimmed.before_terminated
      · rw [isBlank_append, trimmed.after_blank, blank]
        rfl
      · exact ⟨ending, rest ++ segment, List.append_assoc _ _ _, isEnding⟩

theorem scanned_visible
    {text segment : Text} {scan : Scan}
    (scanned : Scanned text scan) (terminated : Terminated '\n' text)
    (unseparated : '\n' ∉ content segment)
    (visible : Visible (content segment)) :
    Scanned (text ++ segment)
      { offset := scan.offset + byteLength segment
        first := some (scan.first.getD scan.offset)
        lastEnd := scan.offset + byteLength (content segment) } := by
  rcases scanned with ⟨offset, found⟩
  rcases content_append segment with ⟨ending, isEnding, whole⟩
  have ending_after :
      ∃ first rest, ending = first ++ rest ∧ LineEnding first :=
    ⟨ending, [], (List.append_nil ending).symm, isEnding⟩
  refine ⟨by rw [byteLength_append, offset], ?_⟩
  cases first : scan.first with
  | none =>
      simp only [first, Option.getD_none] at found ⊢
      refine ⟨text, content segment, ending, ?_, ?_, offset, by rw [offset]⟩
      · rw [List.append_assoc, ← whole]
      · constructor
        · exact ⟨_, [], (List.append_nil _).symm, unseparated, visible⟩
        · exact ⟨[], _, rfl, unseparated, visible⟩
        · exact found
        · exact terminated
        · exact isEnding.blank
        · exact ending_after
  | some start =>
      simp only [first, Option.getD_some] at found ⊢
      rcases found with
        ⟨before, middle, after, rfl, trimmed, startAt, endAt⟩
      refine ⟨before, middle ++ (after ++ content segment), ending,
        ?_, ?_, startAt, ?_⟩
      · rw [whole]
        simp [← whole]
      · constructor
        · exact trimmed.starts.append _
        · rw [← List.append_assoc]
          exact EndsVisible.append ⟨[], _, rfl, unseparated, visible⟩ _
        · exact trimmed.before_blank
        · exact trimmed.before_terminated
        · exact isEnding.blank
        · exact ending_after
      · rw [offset]
        simp only [byteLength_append]
        omega

/-- One segment is scanned. -/
theorem scanned_segment
    {text segment : Text} {scan : Scan}
    (scanned : Scanned text scan) (terminated : Terminated '\n' text)
    (unseparated : '\n' ∉ content segment) :
    Scanned (text ++ segment) (scanSegment scan segment) := by
  rw [scanSegment]
  split_ifs with blank
  · rw [isBlank_content] at blank
    exact scanned_blank scanned blank
  · exact scanned_visible scanned terminated unseparated
      (Bool.eq_false_iff.mpr blank)

theorem scanned_segments
    {front back : List Text} {scan : Scan}
    (segmented : Segmented '\n' (front ++ back))
    (scanned : Scanned front.flatten scan) :
    Scanned (front ++ back).flatten (back.foldl scanSegment scan) := by
  induction back generalizing front scan with
  | nil =>
      rw [List.append_nil]
      exact scanned
  | cons segment rest induction =>
      have terminated :=
        segmented.terminated_of_append (List.cons_ne_nil segment rest)
      have unseparated :=
        notMem_content segmented
          (List.mem_append_right front List.mem_cons_self)
      have next := scanned_segment scanned terminated unseparated
      rw [List.append_cons] at segmented ⊢
      apply induction segmented
      rw [List.flatten_append, List.flatten_singleton]
      exact next

theorem scanned_body (body : Text) : Scanned body (scanBody body) := by
  have segmented := segmented_splitInclusive '\n' body
  have start :
      Scanned (List.flatten []) { offset := 0, first := none, lastEnd := 0 } :=
    ⟨rfl, rfl⟩
  have whole := @scanned_segments [] _ _ segmented start
  rw [List.nil_append, splitInclusive_flatten] at whole
  exact whole

/-! ## What trimming yields -/

/-- A blank body is trimmed to nothing, any other to what is around visible. -/
theorem trimSlice_eq (body : Text) :
    (isBlank body = true ∧ trimSlice body = some []) ∨
      ∃ before text after,
        body = before ++ text ++ after ∧ Trimmed before text after ∧
          trimSlice body = some text := by
  have scanned := (scanned_body body).2
  rw [trimSlice]
  cases first : (scanBody body).first with
  | none =>
      simp only [first] at scanned
      exact Or.inl ⟨scanned, rfl⟩
  | some start =>
      simp only [first] at scanned
      rcases scanned with
        ⟨before, middle, after, whole, trimmed, startAt, endAt⟩
      refine Or.inr ⟨before, middle, after, whole, trimmed, ?_⟩
      rw [startAt, endAt]
      calc
        slice body (byteLength before)
            (byteLength before + byteLength middle) =
            slice (before ++ middle ++ after) (byteLength before)
              (byteLength before + byteLength middle) := by rw [← whole]
        _ = some middle := slice_middle before middle after

theorem trimBlankLines_eq (body : Text) :
    (isBlank body = true ∧ trimBlankLines body = []) ∨
      ∃ before after,
        body = before ++ trimBlankLines body ++ after ∧
          Trimmed before (trimBlankLines body) after := by
  rw [trimBlankLines]
  rcases trimSlice_eq body with
    ⟨blank, sliced⟩ | ⟨before, text, after, whole, trimmed, sliced⟩
  · rw [sliced]
    exact Or.inl ⟨blank, rfl⟩
  · rw [sliced]
    exact Or.inr ⟨before, after, whole, trimmed⟩

/-- Nothing is left exactly of a blank body. -/
theorem trimBlankLines_eq_nil_iff (body : Text) :
    trimBlankLines body = [] ↔ isBlank body = true := by
  rcases trimBlankLines_eq body with
    ⟨blank, empty⟩ | ⟨before, after, whole, trimmed⟩
  · exact ⟨fun _ => blank, fun _ => empty⟩
  · constructor
    · intro empty
      exact absurd empty trimmed.starts.ne_nil
    · intro blank
      rw [whole, isBlank_append, isBlank_append, Bool.and_eq_true,
        Bool.and_eq_true] at blank
      rcases trimmed.starts with ⟨line, rest, same, _, visible⟩
      have seen := visible.append_right rest
      rw [← same, Visible, blank.1.2] at seen
      cases seen

theorem starts_trimBlankLines
    {body : Text} (kept : trimBlankLines body ≠ []) :
    StartsVisible (trimBlankLines body) := by
  rcases trimBlankLines_eq body with ⟨_, empty⟩ | ⟨_, _, _, trimmed⟩
  · exact absurd empty kept
  · exact trimmed.starts

theorem ends_trimBlankLines
    {body : Text} (kept : trimBlankLines body ≠ []) :
    EndsVisible (trimBlankLines body) := by
  rcases trimBlankLines_eq body with ⟨_, empty⟩ | ⟨_, _, _, trimmed⟩
  · exact absurd empty kept
  · exact trimmed.ends

/-! ## What combining yields -/

theorem combine_eq (team personal : Text) :
    combine team personal =
      if trimBlankLines team = [] then
        if trimBlankLines personal = [] then
          none
        else
          some (trimBlankLines personal)
      else if trimBlankLines personal = [] then
        some (trimBlankLines team)
      else
        some (trimBlankLines team ++ "\n\n".toList ++
          trimBlankLines personal) := by
  simp only [combine, List.map_cons, List.map_nil]
  generalize trimBlankLines team = front
  generalize trimBlankLines personal = back
  cases front with
  | nil =>
      cases back with
      | nil => rfl
      | cons head tail => simp [List.intercalate]
  | cons first rest =>
      cases back with
      | nil => simp [List.intercalate]
      | cons head tail => simp [List.intercalate]

end Luminosity.Config.Fragment
