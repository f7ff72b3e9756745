import Luminosity.Config.TrimmedLines

/-!
# When an assembled fragment is in normal form

What is combined from two levels is joined from trimmed texts.  A trimmed text
ends with the content of its last line, so trimming it again can only take a
carriage return from that line.  One is left there exactly where the line had
two of them before its line feed, or two without one at the end of the text:
trimming takes a single carriage return away.

Only the last level with a line which is not blank decides, for what is joined
before it stays in the interior.
-/

namespace Luminosity.Config.FragmentNormalForm

open Luminosity.Foundation.TextSegments
open Luminosity.Foundation.TextSlices
open Luminosity.Config.Fragment
open Luminosity.Config.TrimmedLines

/-! ## Texts without blank lines around them -/

/-- A text by its lines, of which the first and the last are not blank. -/
structure Cut
    (text : Text)
    (inner : List Text)
    (line : Text) : Prop where
  whole : text = inner.flatten ++ line
  segmented : Segmented '\n' (inner ++ [line])
  starts : ∀ segment ∈ (inner ++ [line]).head?, Visible segment
  unseparated : '\n' ∉ line
  ends : Visible line

section Cut

variable {text line : Text}
variable {inner : List Text}

theorem Cut.split (cut : Cut text inner line) :
    splitInclusive '\n' text = inner ++ [line] := by
  have flattened : (inner ++ [line]).flatten = text := by
    rw [cut.whole, List.flatten_append, List.flatten_singleton]
  rw [← flattened]
  exact cut.segmented.splitInclusive_flatten

theorem Cut.parted (cut : Cut text inner line) :
    Parted (splitInclusive '\n' text) [] inner line [] := by
  constructor
  · rw [cut.split]
    rfl
  · exact fun _ member => nomatch member
  · exact cut.starts
  · exact cut.ends
  · exact fun _ member => nomatch member

/-- Trimming can only take a carriage return from the last line. -/
theorem Cut.trimmed (cut : Cut text inner line) :
    trimBlankLines text = inner.flatten ++ stripLast '\r' line := by
  rw [trimBlankLines_parted cut.parted, content_unterminated cut.unseparated]

theorem Cut.getLast?_eq (cut : Cut text inner line) :
    text.getLast? = line.getLast? := by
  rw [cut.whole, List.getLast?_append_of_ne_nil _ cut.ends.ne_nil]

theorem Cut.not_ends_feed (cut : Cut text inner line) :
    text.getLast? ≠ some '\n' := by
  rw [cut.getLast?_eq]
  exact fun last => cut.unseparated (List.mem_of_getLast? last)

theorem Cut.trimmed_eq_self_iff (cut : Cut text inner line) :
    trimBlankLines text = text ↔ text.getLast? ≠ some '\r' := by
  rw [cut.getLast?_eq, cut.trimmed]
  constructor
  · intro same last
    have shorter : stripLast '\r' line = line := by
      apply List.append_cancel_left
      rw [same]
      exact cut.whole
    rw [stripLast, if_pos last] at shorter
    have lengths := congrArg List.length shorter
    have positive := List.length_pos_of_ne_nil cut.ends.ne_nil
    rw [List.length_dropLast] at lengths
    omega
  · intro last
    rw [stripLast, if_neg last]
    exact cut.whole.symm

end Cut

theorem segmented_of_closed
    {front back : List Text}
    (closed : ∀ segment ∈ front, ∃ line, segment = line ++ ['\n'] ∧ '\n' ∉ line)
    (segmented : Segmented '\n' back) :
    Segmented '\n' (front ++ back) := by
  induction front with
  | nil => exact segmented
  | cons head tail induction =>
      rw [List.forall_mem_cons] at closed
      rcases closed.1 with ⟨line, rfl, fresh⟩
      exact .cons line fresh (induction closed.2)

theorem Cut.closed
    {text line : Text}
    {inner : List Text}
    (cut : Cut text inner line) :
    ∀ segment ∈ inner, ∃ line, segment = line ++ ['\n'] ∧ '\n' ∉ line :=
  closed_of_segmented cut.segmented (List.cons_ne_nil line [])

/-- What trimming leaves has no blank lines around it. -/
theorem cut_of_parted
    {text line : Text}
    {front inner back : List Text}
    (parted : Parted (splitInclusive '\n' text) front inner line back) :
    Cut (trimBlankLines text) inner (content line) := by
  have segmented := segmented_splitInclusive '\n' text
  rw [parted.whole, List.append_assoc] at segmented
  have later := segmented.of_append.2
  have unseparated : '\n' ∉ content line :=
    notMem_content later (List.mem_append_right inner List.mem_cons_self)
  have visible : Visible (content line) := by
    rw [Visible, isBlank_content]
    exact parted.ends
  constructor
  · exact trimBlankLines_parted parted
  · apply segmented_of_closed
    · exact closed_of_segmented later (List.cons_ne_nil line back)
    · exact .unterminated _ visible.ne_nil unseparated
  · have starts := parted.starts
    cases inner with
    | nil =>
        rintro segment ⟨⟩
        exact visible
    | cons head tail => exact starts
  · exact unseparated
  · exact visible

/-- Two texts joined by a blank line have none around them. -/
theorem Cut.join
    {left right leftLine rightLine : Text}
    {leftInner rightInner : List Text}
    (leftCut : Cut left leftInner leftLine)
    (rightCut : Cut right rightInner rightLine) :
    Cut (left ++ "\n\n".toList ++ right)
      (leftInner ++ (leftLine ++ ['\n']) :: ['\n'] :: rightInner)
      rightLine := by
  constructor
  · rw [leftCut.whole, rightCut.whole]
    simp [List.append_assoc]
  · apply segmented_of_closed
    · intro segment member
      rcases List.mem_append.mp member with earlier | later
      · exact leftCut.closed segment earlier
      · rcases List.mem_cons.mp later with rfl | later
        · exact ⟨leftLine, rfl, leftCut.unseparated⟩
        · rcases List.mem_cons.mp later with rfl | later
          · exact ⟨[], rfl, List.not_mem_nil⟩
          · exact rightCut.closed segment later
    · exact .unterminated _ rightCut.ends.ne_nil rightCut.unseparated
  · have starts := leftCut.starts
    have ends := leftCut.ends
    cases leftInner with
    | nil =>
        rintro segment ⟨⟩
        exact ends.append_right ['\n']
    | cons head tail => exact starts
  · exact rightCut.unseparated
  · exact rightCut.ends

/-! ## The last line which is not blank -/

def lastVisible (text : Text) : Option Text :=
  ((splitInclusive '\n' text).filter fun line => !isBlank line).getLast?

/--
The last line which is not blank has two carriage returns before its line feed
or the end of the text.
-/
def DoublyReturned (text : Text) : Prop :=
  ∃ line, lastVisible text = some line ∧
    "\r\r".toList <:+ stripLast '\n' line

theorem lastVisible_parted
    {text line : Text}
    {front inner back : List Text}
    (parted : Parted (splitInclusive '\n' text) front inner line back) :
    lastVisible text = some line := by
  have visible : (!isBlank line) = true := by
    rw [parted.ends]
    rfl
  have later : (back.filter fun line => !isBlank line) = [] := by
    rw [List.filter_eq_nil_iff]
    intro segment member
    rw [parted.back_blank segment member]
    exact Bool.false_ne_true
  rw [lastVisible, parted.whole, List.filter_append,
    @List.filter_cons_of_pos _ _ line back visible, later]
  exact List.getLast?_concat

theorem lastVisible_blank
    {text : Text}
    (blank : isBlank text = true) :
    lastVisible text = none := by
  rw [← trimBlankLines_eq_nil_iff, trimBlankLines_eq_nil_iff_lines] at blank
  rw [lastVisible, List.getLast?_eq_none_iff, List.filter_eq_nil_iff]
  intro segment member
  rw [blank segment member]
  exact Bool.false_ne_true

/-- A text which is not blank is trimmed to its lines up to the last visible. -/
theorem trimmed_cut
    {text : Text}
    (visible : Visible text) :
    ∃ inner line,
      lastVisible text = some line ∧
        Cut (trimBlankLines text) inner (content line) := by
  rcases blank_or_parted (splitInclusive '\n' text) with
    blank | ⟨front, inner, line, back, parted⟩
  · rw [← trimBlankLines_eq_nil_iff_lines, trimBlankLines_eq_nil_iff,
      visible] at blank
    cases blank
  · exact ⟨inner, line, lastVisible_parted parted, cut_of_parted parted⟩

/-- A second carriage return stays in the content of a line. -/
theorem content_returned_iff (line : Text) :
    (content line).getLast? = some '\r' ↔
      "\r\r".toList <:+ stripLast '\n' line := by
  rw [content]
  generalize stripLast '\n' line = unterminated
  constructor
  · intro last
    rcases (stripLast_eq_iff '\r' unterminated _).mp rfl with
      returned | ⟨kept, fresh⟩
    · have again := (List.dropLast_append_getLast? '\r' last).symm
      refine ⟨(stripLast '\r' unterminated).dropLast, ?_⟩
      calc
        (stripLast '\r' unterminated).dropLast ++ "\r\r".toList =
            ((stripLast '\r' unterminated).dropLast ++ ['\r']) ++ ['\r'] :=
          (List.append_assoc _ ['\r'] ['\r']).symm
        _ = stripLast '\r' unterminated ++ ['\r'] := by rw [← again]
        _ = unterminated := returned.symm
    · rw [← kept] at last
      exact absurd last fresh
  · rintro ⟨rest, rfl⟩
    have whole :
        rest ++ "\r\r".toList = (rest ++ ['\r']) ++ ['\r'] :=
      (List.append_assoc rest ['\r'] ['\r']).symm
    rw [whole, stripLast_concat]
    exact List.getLast?_concat

/-! ## The combined body -/

/-- A body which trimming and combining leave as it is. -/
structure NormalForm (body : Text) : Prop where
  not_feed : body.getLast? ≠ some '\n'
  not_return : body.getLast? ≠ some '\r'
  trimmed : trimBlankLines body = body
  combined_team : combine body [] = some body
  combined_personal : combine [] body = some body

/-- The last of the levels which are not blank. -/
def lastLevel (team personal : Text) : Text :=
  if isBlank personal then team else personal

theorem normalForm_iff_of_cut
    {body line : Text}
    {inner : List Text}
    (cut : Cut body inner line) :
    NormalForm body ↔ line.getLast? ≠ some '\r' := by
  rw [← cut.getLast?_eq]
  constructor
  · exact fun normal => normal.not_return
  · intro last
    have trimmed := cut.trimmed_eq_self_iff.mpr last
    have nonempty : body ≠ [] := by
      rw [cut.whole]
      exact List.append_ne_nil_of_right_ne_nil _ cut.ends.ne_nil
    have nothing : trimBlankLines [] = [] := rfl
    constructor
    · exact cut.not_ends_feed
    · exact last
    · exact trimmed
    · rw [combine_eq, trimmed, if_neg nonempty, nothing, if_pos rfl]
    · rw [combine_eq, trimmed, if_neg nonempty, nothing, if_pos rfl]

/-- What is combined ends with the last visible line of the last level. -/
theorem combine_cut
    {team personal body : Text}
    (combined : combine team personal = some body) :
    ∃ inner line,
      lastVisible (lastLevel team personal) = some line ∧
        Cut body inner (content line) := by
  rw [combine_eq] at combined
  simp only [trimBlankLines_eq_nil_iff] at combined
  rw [lastLevel]
  cases personalBlank : isBlank personal with
  | true =>
      rw [personalBlank] at combined
      simp only [if_true] at combined ⊢
      split_ifs at combined with teamBlank
      cases combined
      exact trimmed_cut (Bool.eq_false_iff.mpr teamBlank)
  | false =>
      rcases trimmed_cut personalBlank with ⟨inner, line, last, cut⟩
      rw [personalBlank] at combined
      simp only [Bool.false_eq_true, if_false] at combined ⊢
      split_ifs at combined with teamBlank
      · cases combined
        exact ⟨inner, line, last, cut⟩
      · cases combined
        rcases trimmed_cut (Bool.eq_false_iff.mpr teamBlank) with
          ⟨teamInner, teamLine, _, teamCut⟩
        exact ⟨_, line, last, teamCut.join cut⟩

/-- Something is combined where a level has a line which is not blank. -/
theorem combine_isSome
    {team personal line : Text}
    (last : lastVisible (lastLevel team personal) = some line) :
    ∃ body, combine team personal = some body := by
  rw [combine_eq]
  simp only [trimBlankLines_eq_nil_iff]
  split_ifs with teamBlank personalBlank personalBlank
  · rw [lastLevel, if_pos personalBlank, lastVisible_blank teamBlank] at last
    cases last
  · exact ⟨_, rfl⟩
  · exact ⟨_, rfl⟩
  · exact ⟨_, rfl⟩

/--
Every combined body is in normal form exactly where the last visible line of
the last level has no second carriage return.
-/
theorem combine_normalForm_iff (team personal : Text) :
    (∀ body, combine team personal = some body → NormalForm body) ↔
      ¬ DoublyReturned (lastLevel team personal) := by
  constructor
  · rintro normal ⟨line, last, returned⟩
    rcases combine_isSome last with ⟨body, combined⟩
    rcases combine_cut combined with ⟨inner, other, same, cut⟩
    rw [last, Option.some.injEq] at same
    rw [← same] at cut
    exact
      (normalForm_iff_of_cut cut).mp (normal body combined)
        ((content_returned_iff line).mpr returned)
  · intro single body combined
    rcases combine_cut combined with ⟨inner, line, last, cut⟩
    rw [normalForm_iff_of_cut cut, ne_eq, content_returned_iff]
    exact fun returned => single ⟨line, last, returned⟩

/-- A line which ends with two carriage returns keeps one of them. -/
theorem combine_keeps_return :
    ¬ ∀ team personal body,
      combine team personal = some body → NormalForm body := by
  intro normal
  have combined :
      combine "abc\r\r\n".toList [] = some "abc\r".toList := by
    decide
  have again : trimBlankLines "abc\r".toList = "abc".toList := by
    decide
  have trimmed := (normal _ _ _ combined).trimmed
  rw [again] at trimmed
  exact absurd trimmed (by decide)

end Luminosity.Config.FragmentNormalForm
