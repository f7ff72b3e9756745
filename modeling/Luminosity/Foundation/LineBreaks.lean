import Luminosity.Foundation.TextSegments

/-!
# Lines and what occurs in them

A text is split at every line break, of which there are more than the newline.
A text without line breaks which occurs in the whole occurs in one of the
lines.
-/

namespace Luminosity.Foundation.LineBreaks

open Luminosity.Foundation.TextSegments

/-! ## Lines which end alike -/

/-- The text Python reads, in which every line ends alike. -/
def universalNewlines : Text → Text
  | '\r' :: '\n' :: rest => '\n' :: universalNewlines rest
  | '\r' :: rest => '\n' :: universalNewlines rest
  | character :: rest => character :: universalNewlines rest
  | [] => []

theorem universalNewlines_cons
    {head : Char} (other : head ≠ '\r') (tail : Text) :
    universalNewlines (head :: tail) = head :: universalNewlines tail := by
  rw [universalNewlines]
  · exact fun _ returned _ => other returned
  · exact other

/-- A text without carriage returns is read as it is. -/
theorem universalNewlines_unreturned
    {text : Text} (unreturned : '\r' ∉ text) :
    universalNewlines text = text := by
  induction text with
  | nil => rfl
  | cons head tail induction =>
      rw [List.mem_cons, not_or] at unreturned
      rw [universalNewlines_cons (Ne.symm unreturned.1),
        induction unreturned.2]

/-- No carriage return is read. -/
theorem unreturned_universalNewlines (text : Text) :
    '\r' ∉ universalNewlines text := by
  induction text using universalNewlines.induct with
  | case1 rest induction => simp [universalNewlines, induction]
  | case2 rest unpaired induction =>
      simp [universalNewlines, induction]
  | case3 character rest _ other induction =>
      rw [universalNewlines_cons other]
      simp [Ne.symm other, induction]
  | case4 => simp [universalNewlines]

/-! ## Occurrences -/

/-- `marker in text`. -/
def occursIn (marker : Text) : Text → Bool
  | [] => marker.isEmpty
  | character :: rest =>
      marker.isPrefixOf (character :: rest) || occursIn marker rest

theorem occursIn_iff {marker text : Text} :
    occursIn marker text = true ↔ marker <:+: text := by
  induction text with
  | nil => rw [occursIn, List.isEmpty_iff, List.infix_nil]
  | cons character rest induction =>
      rw [occursIn, Bool.or_eq_true, List.isPrefixOf_iff_prefix,
        induction, List.infix_cons_iff]

/-- What does not contain a separator does not reach across it. -/
theorem infix_separated
    {marker : Text} {separator : Char}
    (absent : separator ∉ marker)
    (before after : Text) :
    marker <:+: before ++ separator :: after ↔
      marker <:+: before ∨ marker <:+: after := by
  constructor
  · intro occurs
    rcases List.infix_append_iff_ne_nil.mp occurs with
      inside | inside | ⟨front, back, _, nonempty, rfl, _, starts⟩
    · exact .inl inside
    · rcases List.infix_cons_iff.mp inside with starts | inside
      · rcases List.prefix_cons_iff.mp starts with rfl | ⟨_, rfl, _⟩
        · exact .inl List.nil_infix
        · exact absurd List.mem_cons_self absent
      · exact .inr inside
    · rcases List.prefix_cons_iff.mp starts with rfl | ⟨_, rfl, _⟩
      · exact absurd rfl nonempty
      · exact absurd (List.mem_append_right _ List.mem_cons_self) absent
  · rintro (inside | inside)
    · exact List.infix_append_of_infix_left inside
    · exact List.infix_append_of_infix_right (List.infix_cons inside)

section Escapes

/--
A character stands for itself, or is replaced by a backslash and characters of
the alphabet of escapes.
-/
def Escaping (escape : Char → Text) (alphabet : Char → Prop) : Prop :=
  ∀ character,
    (escape character = [character] ∧ character ≠ '\\') ∨
      ∃ code, escape character = '\\' :: code ∧ ∀ part ∈ code, alphabet part

variable {escape : Char → Text} {alphabet : Char → Prop}

/-- An unescaped start of an escaped text was there before. -/
theorem prefix_of_prefix_flatMap
    (escaping : Escaping escape alphabet)
    {marker text : Text}
    (plain : '\\' ∉ marker)
    (starts : marker <+: text.flatMap escape) :
    marker <+: text := by
  induction marker generalizing text with
  | nil => exact List.nil_prefix
  | cons first marker induction =>
      cases text with
      | nil => cases List.prefix_nil.mp starts
      | cons character text =>
          rw [List.flatMap_cons] at starts
          rcases escaping character with
            ⟨verbatim, _⟩ | ⟨code, escaped, _⟩
          · rw [verbatim, List.singleton_append, List.cons_prefix_cons]
              at starts
            rw [List.cons_prefix_cons]
            exact ⟨starts.1, induction
              (fun member => plain (List.mem_cons_of_mem _ member)) starts.2⟩
          · rw [escaped, List.cons_append, List.cons_prefix_cons] at starts
            rw [starts.1] at plain
            exact absurd List.mem_cons_self plain

/--
Escaping neither hides nor makes up an occurrence of what needs no escapes and
starts with none of their characters.
-/
theorem infix_flatMap_iff
    (escaping : Escaping escape alphabet)
    {first : Char} {marker : Text}
    (plain : '\\' ∉ first :: marker)
    (verbatim : ∀ character ∈ first :: marker,
      escape character = [character])
    (outside : ¬alphabet first)
    (text : Text) :
    first :: marker <:+: text.flatMap escape ↔ first :: marker <:+: text := by
  constructor
  · intro occurs
    induction text with
    | nil => exact occurs
    | cons character text induction =>
        have starts_or_inside :
            first :: marker <+: (character :: text).flatMap escape ∨
              first :: marker <:+: text.flatMap escape := by
          rw [List.flatMap_cons] at occurs ⊢
          rcases escaping character with
            ⟨unescaped, _⟩ | ⟨code, escaped, within⟩
          · rw [unescaped] at occurs ⊢
            exact List.infix_cons_iff.mp occurs
          · -- No occurrence starts within an escape.
            have apart : first ∉ '\\' :: code := by
              intro member
              rcases List.mem_cons.mp member with rfl | inCode
              · exact plain List.mem_cons_self
              · exact outside (within first inCode)
            rw [escaped] at occurs
            rcases List.infix_append_iff_ne_nil.mp occurs with
              inside | inside | ⟨front, back, nonempty, _, split, ends, _⟩
            · exact absurd (inside.subset List.mem_cons_self) apart
            · exact .inr inside
            · cases front with
              | nil => exact absurd rfl nonempty
              | cons head front =>
                  cases split
                  exact absurd (ends.subset List.mem_cons_self) apart
        rcases starts_or_inside with starts | inside
        · exact (prefix_of_prefix_flatMap escaping plain starts).isInfix
        · exact List.infix_cons (induction inside)
  · rintro ⟨before, after, rfl⟩
    have unchanged :
        (first :: marker).flatMap escape = first :: marker := by
      rw [List.flatMap_congr verbatim, List.flatMap_singleton']
    rw [List.flatMap_append, List.flatMap_append, unchanged]
    exact List.infix_append _ _ _

end Escapes

/-! ## Lines -/

/-- The characters at which `str.splitlines` breaks a text. -/
def isLineBreak (character : Char) : Bool :=
  let code := character.toNat
  (10 ≤ code && code ≤ 13) || (28 ≤ code && code ≤ 30) || code = 0x85 ||
    code = 0x2028 || code = 0x2029

/-- A character before the first of the lines after it. -/
def prepend (character : Char) : List Text → List Text
  | [] => [[character]]
  | line :: lines => (character :: line) :: lines

/-- `str.splitlines`. -/
def splitlines : Text → List Text
  | [] => []
  | '\r' :: '\n' :: rest => [] :: splitlines rest
  | character :: rest =>
      if isLineBreak character then
        [] :: splitlines rest
      else
        prepend character (splitlines rest)

/-- A text which holds no line break. -/
def Unbroken (text : Text) : Prop :=
  ∀ character ∈ text, isLineBreak character = false

/-- What no test of the whole text finds is true of no character. -/
theorem forall_eq_false_of_any
    {text : Text} {test : Char → Bool} (found : text.any test = false) :
    ∀ character ∈ text, test character = false := by
  intro character member
  exact Bool.eq_false_iff.mpr (List.any_eq_false.mp found character member)

theorem splitlines_cons_of_unbroken
    {character : Char}
    (unbroken : isLineBreak character = false)
    (rest : Text) :
    splitlines (character :: rest) = prepend character (splitlines rest) := by
  rw [splitlines.eq_3]
  · rw [if_neg (by simp [unbroken])]
  · rintro _ rfl _
    cases unbroken

/-- The first line ends where the first line break is. -/
theorem splitlines_line
    {line : Text}
    (unbroken : Unbroken line)
    (rest : Text) :
    splitlines (line ++ '\n' :: rest) = line :: splitlines rest := by
  induction line with
  | nil =>
      rw [List.nil_append, splitlines.eq_3]
      · rfl
      · intro _ isReturn _
        exact absurd isReturn (by decide)
  | cons character line induction =>
      rw [List.cons_append, splitlines_cons_of_unbroken
        (unbroken character List.mem_cons_self), induction
          fun other member => unbroken other (List.mem_cons_of_mem _ member)]
      rfl

/-- Lines which are each ended by a newline. -/
theorem splitlines_flatMap
    {lines : List Text}
    (unbroken : ∀ line ∈ lines, Unbroken line) :
    splitlines (lines.flatMap fun line => line ++ ['\n']) = lines := by
  induction lines with
  | nil => rfl
  | cons line lines induction =>
      rw [List.flatMap_cons, List.append_assoc, List.singleton_append,
        splitlines_line (unbroken line List.mem_cons_self),
        induction fun other member =>
          unbroken other (List.mem_cons_of_mem _ member)]

/-- What holds no newline lies within one of the lines which newlines end. -/
theorem infix_flatMap_newline
    {marker : Text}
    (absent : '\n' ∉ marker)
    (nonempty : marker ≠ [])
    (lines : List Text) :
    marker <:+: lines.flatMap (fun line => line ++ ['\n']) ↔
      ∃ line ∈ lines, marker <:+: line := by
  induction lines with
  | nil =>
      rw [List.flatMap_nil, List.infix_nil]
      constructor
      · exact fun isEmpty => absurd isEmpty nonempty
      · rintro ⟨_, none, _⟩
        cases none
  | cons line lines induction =>
      rw [List.flatMap_cons, List.append_assoc, List.singleton_append,
        infix_separated absent, induction, List.exists_mem_cons_iff]

/-- The first line is a beginning of the text, and all lie within it. -/
theorem splitlines_occurs (text : Text) :
    (∀ line ∈ (splitlines text).head?, line <+: text) ∧
      ∀ line ∈ splitlines text, line <:+: text := by
  induction text using splitlines.induct with
  | case1 =>
      rw [splitlines]
      constructor
      · intro _ none
        cases none
      · intro _ none
        cases none
  | case2 rest induction =>
      rw [splitlines]
      constructor
      · rintro _ ⟨⟩
        exact List.nil_prefix
      · intro line member
        rcases List.mem_cons.mp member with rfl | later
        · exact List.nil_infix
        · exact List.infix_cons
            (List.infix_cons (induction.2 line later))
  | case3 character rest notReturn isBreak induction =>
      rw [splitlines.eq_3 _ _ notReturn, if_pos isBreak]
      constructor
      · rintro _ ⟨⟩
        exact List.nil_prefix
      · intro line member
        rcases List.mem_cons.mp member with rfl | later
        · exact List.nil_infix
        · exact List.infix_cons (induction.2 line later)
  | case4 character rest notReturn isBreak induction =>
      rw [splitlines_cons_of_unbroken (Bool.not_eq_true _ ▸ isBreak)]
      cases lines : splitlines rest with
      | nil =>
          have single : [character] <+: character :: rest :=
            List.cons_prefix_cons.mpr ⟨rfl, List.nil_prefix⟩
          constructor
          · rintro _ ⟨⟩
            exact single
          · intro line member
            rw [List.mem_singleton.mp member]
            exact single.isInfix
      | cons first later =>
          rw [lines] at induction
          have starts : character :: first <+: character :: rest :=
            List.cons_prefix_cons.mpr
              ⟨rfl, induction.1 first rfl⟩
          constructor
          · rintro _ ⟨⟩
            exact starts
          · intro line member
            rcases List.mem_cons.mp member with rfl | isLater
            · exact starts.isInfix
            · exact List.infix_cons (induction.2 line
                (List.mem_cons_of_mem _ isLater))

/-- The first line goes on for as long as there is no line break. -/
theorem prefix_head_splitlines
    {marker : Text}
    (unbroken : Unbroken marker)
    (nonempty : marker ≠ [])
    {text : Text}
    (starts : marker <+: text) :
    ∃ line ∈ (splitlines text).head?, marker <+: line := by
  induction marker generalizing text with
  | nil => exact absurd rfl nonempty
  | cons character marker induction =>
      rcases starts with ⟨rest, rfl⟩
      rw [List.cons_append, splitlines_cons_of_unbroken
        (unbroken character List.mem_cons_self)]
      cases lines : splitlines (marker ++ rest) with
      | nil =>
          refine ⟨[character], rfl, ?_⟩
          cases marker with
          | nil => exact List.prefix_refl _
          | cons next marker =>
              have found := induction
                (fun other member => unbroken other
                  (List.mem_cons_of_mem _ member))
                (List.cons_ne_nil next marker) (List.prefix_append _ rest)
              rw [lines] at found
              rcases found with ⟨_, isFirst, _⟩
              cases isFirst
      | cons first later =>
          refine ⟨character :: first, rfl,
            List.cons_prefix_cons.mpr ⟨rfl, ?_⟩⟩
          by_cases last : marker = []
          · rw [last]
            exact List.nil_prefix
          · rcases induction
                (fun other member => unbroken other
                  (List.mem_cons_of_mem _ member))
                last (List.prefix_append _ rest) with ⟨line, isFirst, within⟩
            rw [lines] at isFirst
            cases isFirst
            exact within

/-- What holds no line break occurs in a line when it occurs at all. -/
theorem infix_splitlines
    {marker : Text}
    (unbroken : Unbroken marker)
    (nonempty : marker ≠ [])
    (text : Text) :
    (∃ line ∈ splitlines text, marker <:+: line) ↔ marker <:+: text := by
  constructor
  · rintro ⟨line, member, occurs⟩
    exact occurs.trans ((splitlines_occurs text).2 line member)
  · intro occurs
    have of_start {text : Text} (starts : marker <+: text) :
        ∃ line ∈ splitlines text, marker <:+: line := by
      rcases prefix_head_splitlines unbroken nonempty starts with
        ⟨line, isFirst, within⟩
      exact ⟨line, List.mem_of_head? isFirst, within.isInfix⟩
    induction text using splitlines.induct with
    | case1 => exact absurd (List.infix_nil.mp occurs) nonempty
    | case2 rest induction =>
        rcases List.infix_cons_iff.mp occurs with starts | inside
        · exact of_start starts
        rcases List.infix_cons_iff.mp inside with starts | inside
        · rcases List.prefix_cons_iff.mp starts with none | ⟨_, rfl, _⟩
          · exact absurd none nonempty
          · exact absurd (unbroken '\n' List.mem_cons_self) (by decide)
        rcases induction inside with ⟨line, member, within⟩
        exact ⟨line, List.mem_cons_of_mem _ member, within⟩
    | case3 character rest notReturn isBreak induction =>
        rcases List.infix_cons_iff.mp occurs with starts | inside
        · exact of_start starts
        rcases induction inside with ⟨line, member, within⟩
        rw [splitlines.eq_3 _ _ notReturn, if_pos isBreak]
        exact ⟨line, List.mem_cons_of_mem _ member, within⟩
    | case4 character rest notReturn isBreak induction =>
        rcases List.infix_cons_iff.mp occurs with starts | inside
        · exact of_start starts
        rcases induction inside with ⟨line, member, within⟩
        rw [splitlines_cons_of_unbroken (Bool.not_eq_true _ ▸ isBreak)]
        cases lines : splitlines rest with
        | nil =>
            rw [lines] at member
            cases member
        | cons first later =>
            rw [lines] at member
            rcases List.mem_cons.mp member with rfl | isLater
            · exact ⟨character :: line, List.mem_cons_self,
                List.infix_cons within⟩
            · exact ⟨line, List.mem_cons_of_mem _ isLater, within⟩

end Luminosity.Foundation.LineBreaks
