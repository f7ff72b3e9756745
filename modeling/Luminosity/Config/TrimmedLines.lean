import Mathlib.Data.List.Induction
import Luminosity.Config.Fragment

/-!
# The lines which trimming keeps

The scan of a body is followed line by line.  A list of lines is either blank
throughout, or parted in one way into blank lines, lines of which the first
and the last are not blank, and blank lines again.  The offsets of the scan
are computed for every such parting: they bound the lines between, less the
terminator of the last one.

What is left out of a text is therefore made of whole blank lines and of that
one terminator.
-/

namespace Luminosity.Config.TrimmedLines

open Luminosity.Foundation.TextSegments
open Luminosity.Foundation.TextSlices
open Luminosity.Config.Fragment

/-! ## Partings -/

/--
Lines parted into the blank ones before the first line which is not blank, the
lines from there to the last which is not blank, and the blank ones after it.
-/
structure Parted
    (segments front inner : List Text)
    (line : Text)
    (back : List Text) : Prop where
  whole : segments = front ++ inner ++ line :: back
  front_blank : ∀ segment ∈ front, isBlank segment = true
  starts : ∀ segment ∈ (inner ++ [line]).head?, Visible segment
  ends : Visible line
  back_blank : ∀ segment ∈ back, isBlank segment = true

theorem Parted.flatten
    {segments front inner back : List Text}
    {line : Text}
    (parted : Parted segments front inner line back) :
    segments.flatten =
      front.flatten ++ inner.flatten ++ (line ++ back.flatten) := by
  rw [parted.whole]
  simp only [List.flatten_append, List.flatten_cons]

/-- Lines which are not all blank are parted. -/
theorem blank_or_parted (segments : List Text) :
    (∀ segment ∈ segments, isBlank segment = true) ∨
      ∃ front inner line back, Parted segments front inner line back := by
  induction segments using List.reverseRecOn with
  | nil => exact Or.inl (fun _ member => nomatch member)
  | append_singleton segments next induction =>
      cases blank : isBlank next with
      | true =>
          rcases induction with
            allBlank | ⟨front, inner, line, back, parted⟩
          · left
            intro segment member
            rcases List.mem_append.mp member with earlier | last
            · exact allBlank segment earlier
            · rw [List.mem_singleton.mp last]
              exact blank
          · right
            refine ⟨front, inner, line, back ++ [next], ?_⟩
            constructor
            · rw [parted.whole, List.append_assoc _ (line :: back)]
              rfl
            · exact parted.front_blank
            · exact parted.starts
            · exact parted.ends
            · intro segment member
              rcases List.mem_append.mp member with earlier | last
              · exact parted.back_blank segment earlier
              · rw [List.mem_singleton.mp last]
                exact blank
      | false =>
          right
          rcases induction with
            allBlank | ⟨front, inner, line, back, parted⟩
          · refine ⟨segments, [], next, [], ?_⟩
            constructor
            · rw [List.append_nil]
            · exact allBlank
            · rintro segment ⟨⟩
              exact blank
            · exact blank
            · exact fun _ member => nomatch member
          · refine ⟨front, inner ++ line :: back, next, [], ?_⟩
            constructor
            · rw [parted.whole, ← List.append_assoc]
            · exact parted.front_blank
            · intro segment member
              have regrouped :
                  inner ++ line :: back ++ [next] =
                    (inner ++ [line]) ++ (back ++ [next]) := by
                simp only [List.append_assoc, List.cons_append,
                  List.nil_append]
              apply parted.starts segment
              rw [regrouped, List.head?_append_of_ne_nil _ (by simp)] at member
              exact member
            · exact blank
            · exact fun _ member => nomatch member

/-! ## The scan of a parting -/

theorem foldl_blank
    {segments : List Text}
    (blank : ∀ segment ∈ segments, isBlank segment = true)
    (scan : Scan) :
    segments.foldl scanSegment scan =
      { scan with
        offset := scan.offset + byteLength segments.flatten } := by
  induction segments generalizing scan with
  | nil => rfl
  | cons segment rest induction =>
      rw [List.forall_mem_cons] at blank
      rw [List.foldl_cons, induction blank.2, scanSegment,
        isBlank_content, blank.1, if_pos rfl, List.flatten_cons,
        byteLength_append, ← Nat.add_assoc]

theorem scanSegment_visible
    {segment : Text}
    (visible : Visible segment)
    (scan : Scan) :
    scanSegment scan segment =
      { offset := scan.offset + byteLength segment
        first := some (scan.first.getD scan.offset)
        lastEnd := scan.offset + byteLength (content segment) } := by
  rw [scanSegment, isBlank_content, visible, if_neg Bool.false_ne_true]

/-- Every segment advances the offset by its length. -/
theorem foldl_offset
    (segments : List Text)
    (scan : Scan) :
    (segments.foldl scanSegment scan).offset =
      scan.offset + byteLength segments.flatten := by
  induction segments generalizing scan with
  | nil => rfl
  | cons segment rest induction =>
      have advanced :
          (scanSegment scan segment).offset =
            scan.offset + byteLength segment := by
        rw [scanSegment]
        split <;> rfl
      rw [List.foldl_cons, induction, advanced,
        List.flatten_cons, byteLength_append, Nat.add_assoc]

/-- The start which was found first stays. -/
theorem foldl_first
    (segments : List Text)
    {scan : Scan}
    {start : Nat}
    (found : scan.first = some start) :
    (segments.foldl scanSegment scan).first = some start := by
  induction segments generalizing scan with
  | nil => exact found
  | cons segment rest induction =>
      apply induction
      rw [scanSegment]
      split
      · exact found
      · rw [found]
        rfl

theorem scan_parted
    {segments front inner back : List Text}
    {line : Text}
    (parted : Parted segments front inner line back) :
    segments.foldl scanSegment { offset := 0, first := none, lastEnd := 0 } =
      { offset := byteLength segments.flatten
        first := some (byteLength front.flatten)
        lastEnd :=
          byteLength front.flatten +
            byteLength (inner.flatten ++ content line) } := by
  rw [parted.flatten, parted.whole, List.append_assoc, List.foldl_append,
    foldl_blank parted.front_blank, Nat.zero_add, List.foldl_append,
    List.foldl_cons, foldl_blank parted.back_blank,
    scanSegment_visible parted.ends, foldl_offset]
  have first :
      (inner.foldl scanSegment
        { offset := byteLength front.flatten
          first := none, lastEnd := 0 }).first.getD
          (byteLength front.flatten + byteLength inner.flatten) =
        byteLength front.flatten := by
    have starts := parted.starts
    cases inner with
    | nil => rfl
    | cons head tail =>
        have visible : Visible head := starts head rfl
        rw [List.foldl_cons, scanSegment_visible visible,
          foldl_first tail rfl]
        rfl
  simp only [first, byteLength_append, Nat.add_assoc]

/-! ## The text of a parting -/

section Text

variable {text line : Text}
variable {front inner back : List Text}

/-- Of parted lines, the ones between are kept, less the last terminator. -/
theorem trimSlice_parted
    (parted : Parted (splitInclusive '\n' text) front inner line back) :
    trimSlice text = some (inner.flatten ++ content line) := by
  rcases content_append line with ⟨ending, _, ended⟩
  have whole :
      text =
        front.flatten ++ (inner.flatten ++ content line) ++
          (ending ++ back.flatten) := by
    calc
      text = (splitInclusive '\n' text).flatten :=
        (splitInclusive_flatten '\n' text).symm
      _ = front.flatten ++ inner.flatten ++ (line ++ back.flatten) :=
        parted.flatten
      _ = front.flatten ++ inner.flatten ++
            ((content line ++ ending) ++ back.flatten) := by rw [← ended]
      _ = _ := by simp only [List.append_assoc]
  rw [trimSlice, scanBody, scan_parted parted]
  change
    slice text (byteLength front.flatten)
        (byteLength front.flatten +
          byteLength (inner.flatten ++ content line)) =
      some (inner.flatten ++ content line)
  rw [whole]
  exact slice_middle _ _ _

theorem trimBlankLines_parted
    (parted : Parted (splitInclusive '\n' text) front inner line back) :
    trimBlankLines text = inner.flatten ++ content line := by
  rw [trimBlankLines, trimSlice_parted parted]
  rfl

theorem trimSlice_blank
    (blank :
      ∀ segment ∈ splitInclusive '\n' text, isBlank segment = true) :
    trimSlice text = some [] := by
  rw [trimSlice, scanBody, foldl_blank blank]

end Text

/-! ## The terminator of the last line -/

/--
What a line, with the lines after it, has after its content: a line feed, a
carriage return and a line feed, or at the end of the text a carriage return
or nothing.
-/
structure TerminatedBy
    (line : Text)
    (back : List Text)
    (ending : Text) : Prop where
  whole : line = content line ++ ending
  unseparated : '\n' ∉ content line
  kind :
    (ending = "\n".toList ∧ (content line).getLast? ≠ some '\r') ∨
      ending = "\r\n".toList ∨
        (ending = "\r".toList ∧ back = []) ∨
          (ending = [] ∧ back = [] ∧ (content line).getLast? ≠ some '\r')

/-- The content of an unterminated line lacks one carriage return at most. -/
theorem content_unterminated
    {line : Text}
    (fresh : '\n' ∉ line) :
    content line = stripLast '\r' line := by
  have kept : stripLast '\n' line = line := by
    rw [stripLast_eq_iff]
    exact Or.inr ⟨rfl, fun last => fresh (List.mem_of_getLast? last)⟩
  rw [content, kept]

theorem content_terminated (line : Text) :
    content (line ++ ['\n']) = stripLast '\r' line := by
  rw [content, stripLast_concat]

theorem terminatedBy_of_segmented
    {line : Text}
    {back : List Text}
    (segmented : Segmented '\n' (line :: back)) :
    ∃ ending, TerminatedBy line back ending := by
  have unseparated := notMem_content segmented List.mem_cons_self
  generalize whole : line :: back = segments at segmented
  cases segmented with
  | nil => cases whole
  | unterminated only nonempty fresh =>
      cases whole
      have stripped := content_unterminated fresh
      rcases (stripLast_eq_iff '\r' line _).mp rfl with
        returned | ⟨kept, last⟩
      · refine ⟨"\r".toList, ?_, unseparated, ?_⟩
        · rw [stripped]
          exact returned
        · exact Or.inr (Or.inr (Or.inl ⟨rfl, rfl⟩))
      · rw [← stripped] at kept
        refine ⟨[], ?_, unseparated, ?_⟩
        · rw [List.append_nil]
          exact kept
        · rw [← kept]
          exact Or.inr (Or.inr (Or.inr ⟨rfl, rfl, last⟩))
  | cons first fresh tail =>
      cases whole
      have stripped := content_terminated first
      rcases (stripLast_eq_iff '\r' first _).mp rfl with
        returned | ⟨kept, last⟩
      · refine ⟨"\r\n".toList, ?_, unseparated, Or.inr (Or.inl rfl)⟩
        rw [stripped]
        calc
          first ++ ['\n'] =
              (stripLast '\r' first ++ ['\r']) ++ ['\n'] := by
            rw [← returned]
          _ = stripLast '\r' first ++ "\r\n".toList :=
            List.append_assoc _ _ _
      · rw [← stripped] at kept
        refine ⟨"\n".toList, ?_, unseparated, ?_⟩
        · rw [← kept]
          rfl
        · rw [← kept]
          exact Or.inl ⟨rfl, last⟩

/-- Lines which are followed by others are closed by a line feed. -/
theorem closed_of_segmented
    {front back : List Text}
    (segmented : Segmented '\n' (front ++ back))
    (continued : back ≠ []) :
    ∀ segment ∈ front, ∃ line, segment = line ++ ['\n'] ∧ '\n' ∉ line := by
  induction front with
  | nil => exact fun _ member => nomatch member
  | cons head tail induction =>
      rw [List.cons_append] at segmented
      generalize whole : tail ++ back = segments at segmented
      cases segmented with
      | unterminated only nonempty fresh =>
          exact absurd (List.append_eq_nil_iff.mp whole).2 continued
      | cons line fresh rest =>
          rw [← whole] at rest
          rw [List.forall_mem_cons]
          exact ⟨⟨line, rfl, fresh⟩, induction rest⟩

/-! ## What trimming leaves out -/

/-- A character of the text starts at the offset, or the text ends there. -/
def Boundary (text : Text) (offset : Nat) : Prop :=
  ∃ front back, text = front ++ back ∧ byteLength front = offset

/-- Two offsets between which a text can be sliced. -/
structure Bounds (text : Text) (start stop : Nat) : Prop where
  ordered : start ≤ stop
  in_range : stop ≤ byteLength text
  start_boundary : Boundary text start
  stop_boundary : Boundary text stop

/-- A text whose lines are parted, with what is kept of it. -/
structure Kept
    (text result : Text)
    (front inner : List Text)
    (line : Text)
    (back : List Text)
    (ending : Text) : Prop where
  parted : Parted (splitInclusive '\n' text) front inner line back
  front_closed :
    ∀ segment ∈ front, ∃ closed, segment = closed ++ ['\n'] ∧ '\n' ∉ closed
  terminated : TerminatedBy line back ending
  kept : result = inner.flatten ++ content line
  whole : text = front.flatten ++ result ++ (ending ++ back.flatten)

theorem kept_of_parted
    {text line : Text}
    {front inner back : List Text}
    (parted : Parted (splitInclusive '\n' text) front inner line back) :
    ∃ ending,
      Kept text (trimBlankLines text) front inner line back ending := by
  have segmented := segmented_splitInclusive '\n' text
  rw [parted.whole] at segmented
  have later := segmented.of_append.2
  rw [List.append_assoc] at segmented
  rcases terminatedBy_of_segmented later with ⟨ending, terminated⟩
  refine ⟨ending, parted, ?_, terminated, trimBlankLines_parted parted, ?_⟩
  · apply closed_of_segmented segmented
    exact List.append_ne_nil_of_right_ne_nil _ (List.cons_ne_nil _ _)
  · rw [trimBlankLines_parted parted]
    calc
      text = (splitInclusive '\n' text).flatten :=
        (splitInclusive_flatten '\n' text).symm
      _ = front.flatten ++ inner.flatten ++ (line ++ back.flatten) :=
        parted.flatten
      _ = front.flatten ++ inner.flatten ++
            ((content line ++ ending) ++ back.flatten) := by
        rw [← terminated.whole]
      _ = _ := by simp only [List.append_assoc]

theorem bounds_of_scan
    {text : Text}
    {start : Nat}
    (first : (scanBody text).first = some start) :
    Bounds text start (scanBody text).lastEnd := by
  rcases blank_or_parted (splitInclusive '\n' text) with
    blank | ⟨front, inner, line, back, parted⟩
  · rw [scanBody, foldl_blank blank] at first
    cases first
  · rcases kept_of_parted parted with ⟨ending, keeps⟩
    have whole := keeps.whole
    rw [keeps.kept] at whole
    rw [scanBody, scan_parted parted] at first ⊢
    cases first
    change
      Bounds text (byteLength front.flatten)
        (byteLength front.flatten +
          byteLength (inner.flatten ++ content line))
    constructor
    · exact Nat.le_add_right _ _
    · rw [whole, ← byteLength_append, byteLength_append (_ ++ _)]
      exact Nat.le_add_right _ _
    · exact ⟨_, _, whole.trans (List.append_assoc _ _ _), rfl⟩
    · exact ⟨_, _, whole, byteLength_append _ _⟩

/-- Trimming leaves nothing exactly of the texts with blank lines only. -/
theorem trimBlankLines_eq_nil_iff_lines (text : Text) :
    trimBlankLines text = [] ↔
      ∀ segment ∈ splitInclusive '\n' text, isBlank segment = true := by
  rw [trimBlankLines_eq_nil_iff]
  have whole := splitInclusive_flatten '\n' text
  constructor
  · intro blank segment member
    rw [← whole, isBlank, List.all_eq_true] at blank
    rw [isBlank, List.all_eq_true]
    intro character inside
    exact blank character (List.mem_flatten_of_mem member inside)
  · intro blank
    rw [← whole, isBlank, List.all_eq_true]
    intro character inside
    rcases List.mem_flatten.mp inside with ⟨segment, member, within⟩
    exact List.all_eq_true.mp (blank segment member) character within

theorem trimSlice_eq_some (text : Text) :
    trimSlice text = some (trimBlankLines text) := by
  rcases blank_or_parted (splitInclusive '\n' text) with
    blank | ⟨front, inner, line, back, parted⟩
  · rw [trimBlankLines, trimSlice_blank blank]
    rfl
  · rw [trimBlankLines_parted parted, trimSlice_parted parted]

/--
Trimming slices between two offsets of the text and so always succeeds.  It
leaves nothing exactly of the blank lines; of any other text it leaves out
whole blank lines before the first line which is not blank, and after the last
one its own terminator and blank lines.
-/
theorem trimBlankLines_exact (text : Text) :
    trimSlice text = some (trimBlankLines text) ∧
    (∀ start, (scanBody text).first = some start →
      Bounds text start (scanBody text).lastEnd) ∧
    (trimBlankLines text = [] ↔
      ∀ segment ∈ splitInclusive '\n' text, isBlank segment = true) ∧
    (trimBlankLines text ≠ [] →
      ∃ front inner line back ending,
        Kept text (trimBlankLines text) front inner line back ending) := by
  constructor
  · exact trimSlice_eq_some text
  constructor
  · intro start first
    exact bounds_of_scan first
  constructor
  · exact trimBlankLines_eq_nil_iff_lines text
  · intro nonempty
    rcases blank_or_parted (splitInclusive '\n' text) with
      blank | ⟨front, inner, line, back, parted⟩
    · exact
        absurd ((trimBlankLines_eq_nil_iff_lines text).mpr blank) nonempty
    · rcases kept_of_parted parted with ⟨ending, keeps⟩
      exact ⟨front, inner, line, back, ending, keeps⟩

end Luminosity.Config.TrimmedLines
