import Luminosity.Foundation.TextSegments

/-!
# Slices and lines of a text

A text is sliced by byte offsets into its UTF-8 encoding, as the languages do
which hold their texts in that encoding.  A slice exists exactly between two
offsets at which a character starts or the text ends.

The lines of a text are its fields between line feeds.  A text starts, or
ends, with a line which is not blank exactly when it has a prefix, or a
suffix, without a line feed which is not blank.
-/

namespace Luminosity.Foundation.TextSlices

open Luminosity.Foundation.TextSegments

/-! ## Byte offsets -/

/-- The number of bytes of a text. -/
def byteLength (text : Text) : Nat :=
  (encode text).length

@[simp]
theorem byteLength_nil : byteLength [] = 0 := rfl

@[simp]
theorem byteLength_append (front back : Text) :
    byteLength (front ++ back) = byteLength front + byteLength back := by
  simp [byteLength, encode]

theorem byteLength_cons (character : Char) (rest : Text) :
    byteLength (character :: rest) =
      byteLength [character] + byteLength rest :=
  byteLength_append [character] rest

theorem byteLength_singleton_pos (character : Char) :
    0 < byteLength [character] := by
  rw [byteLength, encode, List.flatMap_singleton,
    String.length_utf8EncodeChar]
  exact character.utf8Size_pos

/-- What follows the first bytes of a text, if they end with a character. -/
def dropBytes : Text → Nat → Option Text
  | [], count => if count = 0 then some [] else none
  | character :: rest, count =>
      if count = 0 then
        some (character :: rest)
      else if byteLength [character] ≤ count then
        dropBytes rest (count - byteLength [character])
      else
        none

/-- The first bytes of a text, if they end with a character. -/
def takeBytes : Text → Nat → Option Text
  | [], count => if count = 0 then some [] else none
  | character :: rest, count =>
      if count = 0 then
        some []
      else if byteLength [character] ≤ count then
        (takeBytes rest (count - byteLength [character])).map
          (character :: ·)
      else
        none

/-- The slice between two byte offsets, if it exists. -/
def slice (text : Text) (start stop : Nat) : Option Text :=
  if start ≤ stop then
    (dropBytes text start).bind (takeBytes · (stop - start))
  else
    none

theorem dropBytes_append (front back : Text) :
    dropBytes (front ++ back) (byteLength front) = some back := by
  induction front with
  | nil => cases back <;> rfl
  | cons character rest induction =>
      have positive := byteLength_singleton_pos character
      rw [List.cons_append, dropBytes, byteLength_cons,
        if_neg (by omega), if_pos (by omega), Nat.add_sub_cancel_left]
      exact induction

theorem takeBytes_append (front back : Text) :
    takeBytes (front ++ back) (byteLength front) = some front := by
  induction front with
  | nil => cases back <;> rfl
  | cons character rest induction =>
      have positive := byteLength_singleton_pos character
      rw [List.cons_append, takeBytes, byteLength_cons,
        if_neg (by omega), if_pos (by omega), Nat.add_sub_cancel_left,
        induction]
      rfl

/-- The slice at the offsets of a part is that part. -/
theorem slice_middle (front middle back : Text) :
    slice (front ++ middle ++ back) (byteLength front)
        (byteLength front + byteLength middle) =
      some middle := by
  rw [slice, if_pos (Nat.le_add_right _ _), List.append_assoc,
    dropBytes_append, Option.bind_some, Nat.add_sub_cancel_left]
  exact takeBytes_append middle back

/-! ## Lines -/

/-- The fields between line feeds, carriage returns included. -/
def lines (text : Text) : List Text :=
  text.splitOn '\n'

/-- A line feed parts the lines before it from the lines after it. -/
theorem lines_append_newline (front back : Text) :
    lines (front ++ '\n' :: back) = lines front ++ lines back :=
  List.splitOn_append_cons_self front back

theorem lines_unseparated {line : Text} (unseparated : '\n' ∉ line) :
    lines line = [line] :=
  List.splitOn_eq_singleton unseparated

/-- Some line of the text has a character which is not white space. -/
def Visible (text : Text) : Prop :=
  isBlank text = false

theorem Visible.append_right
    {text : Text} (visible : Visible text) (more : Text) :
    Visible (text ++ more) := by
  simp only [Visible, isBlank] at *
  simp [List.all_append, visible]

theorem Visible.append_left
    {text : Text} (visible : Visible text) (more : Text) :
    Visible (more ++ text) := by
  simp only [Visible, isBlank] at *
  simp [List.all_append, visible]

theorem Visible.ne_nil {text : Text} (visible : Visible text) :
    text ≠ [] := by
  rintro rfl
  cases visible

/-- The first line is not blank. -/
def StartsVisible (text : Text) : Prop :=
  ∃ line rest, text = line ++ rest ∧ '\n' ∉ line ∧ Visible line

/-- The last line is not blank. -/
def EndsVisible (text : Text) : Prop :=
  ∃ rest line, text = rest ++ line ∧ '\n' ∉ line ∧ Visible line

theorem StartsVisible.append
    {text : Text} (starts : StartsVisible text) (more : Text) :
    StartsVisible (text ++ more) := by
  rcases starts with ⟨line, rest, rfl, unseparated, visible⟩
  exact ⟨line, rest ++ more, List.append_assoc line rest more, unseparated,
    visible⟩

theorem EndsVisible.append
    {text : Text} (ends : EndsVisible text) (more : Text) :
    EndsVisible (more ++ text) := by
  rcases ends with ⟨rest, line, rfl, unseparated, visible⟩
  exact ⟨more ++ rest, line, (List.append_assoc more rest line).symm,
    unseparated, visible⟩

theorem StartsVisible.ne_nil {text : Text} (starts : StartsVisible text) :
    text ≠ [] := by
  rcases starts with ⟨line, rest, rfl, _, visible⟩
  intro empty
  exact visible.ne_nil (List.append_eq_nil_iff.mp empty).1

/-- A prefix without a line feed is a prefix of the first line. -/
theorem head_lines_append
    {line : Text} (unseparated : '\n' ∉ line) (rest : Text) :
    ∃ more, (lines (line ++ rest)).head? = some (line ++ more) := by
  by_cases separated : '\n' ∈ rest
  · rcases List.eq_append_cons_of_mem separated with
      ⟨front, back, rfl, fresh⟩
    have whole : '\n' ∉ line ++ front := by
      rw [List.mem_append]
      exact not_or.mpr ⟨unseparated, fresh⟩
    refine ⟨front, ?_⟩
    rw [← List.append_assoc, lines_append_newline, lines_unseparated whole]
    rfl
  · have whole : '\n' ∉ line ++ rest := by
      rw [List.mem_append]
      exact not_or.mpr ⟨unseparated, separated⟩
    refine ⟨rest, ?_⟩
    rw [lines_unseparated whole]
    rfl

/-- A suffix without a line feed is a suffix of the last line. -/
theorem getLast_lines_append
    {line : Text} (unseparated : '\n' ∉ line) (rest : Text) :
    ∃ more, (lines (rest ++ line)).getLast? = some (more ++ line) := by
  cases divided : rsplitOnce '\n' rest with
  | none =>
      have whole : '\n' ∉ rest ++ line := by
        rw [List.mem_append]
        exact not_or.mpr ⟨rsplitOnce_none divided, unseparated⟩
      refine ⟨rest, ?_⟩
      rw [lines_unseparated whole]
      rfl
  | some parts =>
      have known := rsplitOnce_some divided
      have whole : '\n' ∉ parts.2 ++ line := by
        rw [List.mem_append]
        exact not_or.mpr ⟨known.2, unseparated⟩
      refine ⟨parts.2, ?_⟩
      rw [known.1, List.append_assoc, List.cons_append,
        lines_append_newline, lines_unseparated whole,
        List.getLast?_append]
      rfl

theorem StartsVisible.head_lines
    {text : Text} (starts : StartsVisible text) :
    ∃ first, (lines text).head? = some first ∧ Visible first := by
  rcases starts with ⟨line, rest, rfl, unseparated, visible⟩
  rcases head_lines_append unseparated rest with ⟨more, first⟩
  exact ⟨line ++ more, first, visible.append_right more⟩

theorem EndsVisible.getLast_lines
    {text : Text} (ends : EndsVisible text) :
    ∃ last, (lines text).getLast? = some last ∧ Visible last := by
  rcases ends with ⟨rest, line, rfl, unseparated, visible⟩
  rcases getLast_lines_append unseparated rest with ⟨more, last⟩
  exact ⟨more ++ line, last, visible.append_left more⟩

end Luminosity.Foundation.TextSlices
