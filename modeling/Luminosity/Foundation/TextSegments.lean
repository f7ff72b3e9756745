import Mathlib.Algebra.Group.Nat.Defs
import Mathlib.Data.List.Basic
import Mathlib.Data.List.Forall2

/-!
# Texts, bytes and separator-terminated segments

A text is the list of its Unicode scalar values, and a file is a list of
bytes.  This module supplies the UTF-8 codec between the two, with and without
replacement of what is not text, and the decomposition of a list into segments
which keep their separator.

The segments of a list are exactly its canonical `Segmented` presentation:
they concatenate to the list, every segment but an unterminated last one ends
with the separator, and no other presentation of the same list exists.
Splitting therefore commutes with concatenation after a separator.
-/

namespace Luminosity.Foundation.TextSegments

/-- A text, as the list of its Unicode scalar values. -/
abbrev Text := List Char

/-- The contents of a file. -/
abbrev Bytes := List UInt8

/-! ## UTF-8 -/

/-- The UTF-8 encoding of a text. -/
def encode (text : Text) : Bytes :=
  text.flatMap String.utf8EncodeChar

/-- The text encoded by the given bytes, when they are valid UTF-8. -/
def decode (bytes : Bytes) : Option Text :=
  bytes.toByteArray.utf8Decode?.map Array.toList

@[simp]
theorem decode_encode (text : Text) :
    decode (encode text) = some text := by
  have decoded := @List.utf8Decode?_utf8Encode text
  rw [List.utf8Encode] at decoded
  simp [decode, encode, decoded]

/-! ## UTF-8 with replacement -/

/-- What stands for bytes which encode no character. -/
def replacement : Char :=
  Char.ofNat 0xFFFD

/-- The bounds of the bytes which continue a sequence, by its first byte. -/
def continuations (lead : UInt8) : Option (List (Nat × Nat)) :=
  let code := lead.toNat
  if code < 0x80 then some []
  else if code < 0xC2 then none
  else if code < 0xE0 then some [(0x80, 0xBF)]
  else if code = 0xE0 then some [(0xA0, 0xBF), (0x80, 0xBF)]
  else if code = 0xED then some [(0x80, 0x9F), (0x80, 0xBF)]
  else if code < 0xF0 then some [(0x80, 0xBF), (0x80, 0xBF)]
  else if code = 0xF0 then some [(0x90, 0xBF), (0x80, 0xBF), (0x80, 0xBF)]
  else if code < 0xF4 then some [(0x80, 0xBF), (0x80, 0xBF), (0x80, 0xBF)]
  else if code = 0xF4 then some [(0x80, 0x8F), (0x80, 0xBF), (0x80, 0xBF)]
  else none

/-- The text of one whole sequence. -/
def sequenceText (bytes : Bytes) : Text :=
  (decode bytes).getD [replacement]

/--
Decode from within a sequence: the bytes of it which are read, and the bounds
of those to come.  A byte out of bounds replaces what is read of its sequence,
and starts the next one.
-/
def decodeLossyFrom (pending : Bytes) (expected : List (Nat × Nat)) :
    Bytes → Text
  | [] => if pending = [] then [] else [replacement]
  | byte :: rest =>
      let start :=
        match continuations byte with
        | none => replacement :: decodeLossyFrom [] [] rest
        | some [] => sequenceText [byte] ++ decodeLossyFrom [] [] rest
        | some bounds => decodeLossyFrom [byte] bounds rest
      match expected with
      | [] => start
      | (low, high) :: more =>
          if low ≤ byte.toNat ∧ byte.toNat ≤ high then
            if more = [] then
              sequenceText (pending ++ [byte]) ++ decodeLossyFrom [] [] rest
            else
              decodeLossyFrom (pending ++ [byte]) more rest
          else
            replacement :: start

/-- Decode UTF-8, replacing each maximal part which is not a character. -/
def decodeLossy (bytes : Bytes) : Text :=
  decodeLossyFrom [] [] bytes

/-- The byte continues a sequence within the bounds. -/
def Continues (bounds : Nat × Nat) (byte : UInt8) : Prop :=
  bounds.1 ≤ byte.toNat ∧ byte.toNat ≤ bounds.2

/-- The rest of a sequence completes it. -/
theorem decodeLossyFrom_continues
    {expected : List (Nat × Nat)} {tail : Bytes}
    (continues : List.Forall₂ Continues expected tail)
    (nonempty : expected ≠ []) (pending rest : Bytes) :
    decodeLossyFrom pending expected (tail ++ rest) =
      sequenceText (pending ++ tail) ++ decodeLossy rest := by
  induction continues generalizing pending with
  | nil => exact absurd rfl nonempty
  | @cons bounds byte more others within further induction =>
      rw [List.cons_append, decodeLossyFrom]
      simp only [Continues] at within
      simp only [if_pos within]
      cases further with
      | nil => rfl
      | cons next later =>
          rw [if_neg (List.cons_ne_nil _ _),
            induction (List.cons_ne_nil _ _), List.append_assoc]
          rfl

theorem decodeLossy_sequence
    {lead : UInt8} {tail : Bytes} {expected : List (Nat × Nat)}
    (leads : continuations lead = some expected)
    (continues : List.Forall₂ Continues expected tail) (rest : Bytes) :
    decodeLossy (lead :: tail ++ rest) =
      sequenceText (lead :: tail) ++ decodeLossy rest := by
  rw [decodeLossy, List.cons_append, decodeLossyFrom]
  simp only [leads]
  cases continues with
  | nil => rfl
  | cons within further =>
      exact decodeLossyFrom_continues (.cons within further)
        (List.cons_ne_nil _ _) [lead] rest

theorem continues_tail (value : Nat) :
    Continues (0x80, 0xBF) (UInt8.ofNat (value % 0x40 + 0x80)) := by
  simp only [Continues, UInt8.toNat_ofNat']
  omega

/-- The encoding of a character is one whole sequence. -/
theorem encodeChar_sequence (character : Char) :
    ∃ lead tail expected,
      String.utf8EncodeChar character = lead :: tail ∧
        continuations lead = some expected ∧
          List.Forall₂ Continues expected tail := by
  have scalar : character.toNat < 0xD800 ∨
      0xDFFF < character.toNat ∧ character.toNat < 0x110000 :=
    character.valid
  have code : character.val.toNat = character.toNat := rfl
  unfold String.utf8EncodeChar
  simp only [code]
  generalize character.toNat = value at scalar
  split_ifs with one two three
  · refine ⟨_, _, [], rfl, ?_, .nil⟩
    have lead : (UInt8.ofNat value).toNat = value := by
      rw [UInt8.toNat_ofNat']
      omega
    simp only [continuations, lead]
    rw [if_pos (by omega)]
  · refine ⟨_, _, [(0x80, 0xBF)], rfl, ?_, .cons (continues_tail _) .nil⟩
    have lead : (UInt8.ofNat (value / 64 % 32 + 0xC0)).toNat =
        value / 64 + 0xC0 := by
      rw [UInt8.toNat_ofNat']
      omega
    simp only [continuations, lead]
    rw [if_neg (by omega), if_neg (by omega), if_pos (by omega)]
  · have lead : (UInt8.ofNat (value / 4096 % 16 + 0xE0)).toNat =
        value / 4096 + 0xE0 := by
      rw [UInt8.toNat_ofNat']
      omega
    by_cases low : value < 0x1000
    · refine ⟨_, _, [(0xA0, 0xBF), (0x80, 0xBF)], rfl, ?_,
        .cons ?_ (.cons (continues_tail _) .nil)⟩
      · simp only [continuations, lead]
        simp (disch := omega) only [if_neg, if_pos]
      · simp only [Continues, UInt8.toNat_ofNat']
        omega
    · by_cases high : 0xD000 ≤ value ∧ value < 0xE000
      · refine ⟨_, _, [(0x80, 0x9F), (0x80, 0xBF)], rfl, ?_,
          .cons ?_ (.cons (continues_tail _) .nil)⟩
        · simp only [continuations, lead]
          simp (disch := omega) only [if_neg, if_pos]
        · simp only [Continues, UInt8.toNat_ofNat']
          omega
      · refine ⟨_, _, [(0x80, 0xBF), (0x80, 0xBF)], rfl, ?_,
          .cons (continues_tail _) (.cons (continues_tail _) .nil)⟩
        simp only [continuations, lead]
        simp (disch := omega) only [if_neg, if_pos]
  · have lead : (UInt8.ofNat (value / 262144 % 8 + 0xF0)).toNat =
        value / 262144 + 0xF0 := by
      rw [UInt8.toNat_ofNat']
      omega
    by_cases low : value < 0x40000
    · refine ⟨_, _, [(0x90, 0xBF), (0x80, 0xBF), (0x80, 0xBF)], rfl, ?_,
        .cons ?_ (.cons (continues_tail _) (.cons (continues_tail _) .nil))⟩
      · simp only [continuations, lead]
        simp (disch := omega) only [if_neg, if_pos]
      · simp only [Continues, UInt8.toNat_ofNat']
        omega
    · by_cases high : 0x100000 ≤ value
      · refine ⟨_, _, [(0x80, 0x8F), (0x80, 0xBF), (0x80, 0xBF)], rfl, ?_,
          .cons ?_ (.cons (continues_tail _) (.cons (continues_tail _) .nil))⟩
        · simp only [continuations, lead]
          simp (disch := omega) only [if_neg, if_pos]
        · simp only [Continues, UInt8.toNat_ofNat']
          omega
      · refine ⟨_, _, [(0x80, 0xBF), (0x80, 0xBF), (0x80, 0xBF)], rfl, ?_,
          .cons (continues_tail _)
            (.cons (continues_tail _) (.cons (continues_tail _) .nil))⟩
        simp only [continuations, lead]
        simp (disch := omega) only [if_neg, if_pos]

/-- Nothing is replaced in valid text. -/
theorem decodeLossy_encode (text : Text) :
    decodeLossy (encode text) = text := by
  induction text with
  | nil => rfl
  | cons character rest induction =>
      rcases encodeChar_sequence character with
        ⟨lead, tail, expected, encoded, leads, continues⟩
      have whole : sequenceText (lead :: tail) = [character] := by
        rw [← encoded, sequenceText]
        have single := decode_encode [character]
        rw [encode, List.flatMap_singleton] at single
        rw [single, Option.getD_some]
      rw [encode, List.flatMap_cons, encoded,
        decodeLossy_sequence leads continues, whole]
      exact congrArg (character :: ·) induction

example :
    decodeLossy [0xF0, 0x90, 0x41, 0xC3, 0xA9, 0x80] =
      [replacement, 'A', 'é', replacement] := by
  decide

/-! ## White space -/

/-- The characters with the Unicode property `White_Space`. -/
def isWhitespace (character : Char) : Bool :=
  let code := character.toNat
  (9 ≤ code && code ≤ 13) || code = 0x20 || code = 0x85 || code = 0xA0 ||
    code = 0x1680 || (0x2000 ≤ code && code ≤ 0x200A) || code = 0x2028 ||
    code = 0x2029 || code = 0x202F || code = 0x205F || code = 0x3000

/-- Nothing remains of the text once it is trimmed. -/
def isBlank (text : Text) : Bool :=
  text.all isWhitespace

@[simp]
theorem isBlank_nil : isBlank [] = true := rfl

/-! ## Canonical presentations by segments -/

variable {α : Type}

/-- A list which is empty or ends with the separator. -/
def Terminated (separator : α) (list : List α) : Prop :=
  ∀ last ∈ list.getLast?, last = separator

theorem Terminated.tail
    {separator head : α} {tail : List α}
    (terminated : Terminated separator (head :: tail)) :
    Terminated separator tail := by
  intro last member
  apply terminated
  cases tail with
  | nil => simp at member
  | cons next rest => simpa [List.getLast?_cons_cons] using member

/-- A canonical presentation of a list by its segments. -/
inductive Segmented (separator : α) : List (List α) → Prop where
  | nil : Segmented separator []
  | unterminated
      (line : List α) (nonempty : line ≠ [])
      (unseparated : separator ∉ line) :
      Segmented separator [line]
  | cons
      (line : List α) (unseparated : separator ∉ line)
      (tail : Segmented separator segments) :
      Segmented separator ((line ++ [separator]) :: segments)

theorem Segmented.of_append
    {separator : α} {front back : List (List α)}
    (segmented : Segmented separator (front ++ back)) :
    Segmented separator front ∧ Segmented separator back := by
  induction front with
  | nil => exact ⟨.nil, segmented⟩
  | cons segment rest induction =>
      generalize whole : segment :: rest ++ back = segments at segmented
      cases segmented with
      | nil => simp at whole
      | unterminated line nonempty unseparated =>
          simp only [List.cons_append, List.cons.injEq,
            List.append_eq_nil_iff] at whole
          rcases whole with ⟨rfl, rfl, rfl⟩
          exact ⟨.unterminated _ nonempty unseparated, .nil⟩
      | cons line unseparated tail =>
          simp only [List.cons_append, List.cons.injEq] at whole
          rcases whole with ⟨rfl, rfl⟩
          have parts := induction tail
          exact ⟨.cons line unseparated parts.1, parts.2⟩

/-- Only the last segment of a presentation can lack its separator. -/
theorem Segmented.terminated_of_append
    {separator : α} {front back : List (List α)}
    (segmented : Segmented separator (front ++ back))
    (continued : back ≠ []) :
    Terminated separator front.flatten := by
  induction front with
  | nil => simp [Terminated]
  | cons segment rest induction =>
      generalize whole : segment :: rest ++ back = segments at segmented
      cases segmented with
      | nil => simp at whole
      | unterminated line nonempty unseparated =>
          simp [continued] at whole
      | cons line unseparated tail =>
          simp only [List.cons_append, List.cons.injEq] at whole
          rcases whole with ⟨rfl, rfl⟩
          have tailTerminated := induction tail
          intro last member
          by_cases empty : rest.flatten = []
          · simp only [List.flatten_cons, empty, List.append_nil,
              List.getLast?_append, List.getLast?_singleton,
              Option.some_or, Option.mem_some_iff] at member
            exact member.symm
          · apply tailTerminated
            rw [List.flatten_cons, List.getLast?_append] at member
            rw [Option.mem_def, Option.or_eq_some_iff] at member
            rcases member with found | ⟨absent, _⟩
            · exact found
            · exact absurd (List.getLast?_eq_none_iff.mp absent) empty

/-! ## One optional final element -/

variable [DecidableEq α]

/-- Drop one final occurrence of `last`, when there is one. -/
def stripLast (last : α) (list : List α) : List α :=
  if list.getLast? = some last then list.dropLast else list

theorem stripLast_concat (last : α) (list : List α) :
    stripLast last (list ++ [last]) = list := by
  simp [stripLast]

theorem stripLast_eq_iff (last : α) (list front : List α) :
    stripLast last list = front ↔
      list = front ++ [last] ∨
        (list = front ∧ list.getLast? ≠ some last) := by
  constructor
  · intro stripped
    rw [stripLast] at stripped
    split_ifs at stripped with ends
    · refine Or.inl ?_
      rw [← stripped]
      exact (List.dropLast_append_getLast? last ends).symm
    · exact Or.inr ⟨stripped, ends⟩
  · rintro (rfl | ⟨rfl, ends⟩)
    · exact stripLast_concat last front
    · rw [stripLast, if_neg ends]

/-! ## Segments which keep their separator -/

/-- The segments of a list, each closed by the separator it ends with. -/
def splitInclusive (separator : α) : List α → List (List α)
  | [] => []
  | head :: tail =>
      if head = separator then
        [head] :: splitInclusive separator tail
      else
        match splitInclusive separator tail with
        | [] => [[head]]
        | segment :: segments => (head :: segment) :: segments

@[simp]
theorem splitInclusive_nil (separator : α) :
    splitInclusive separator [] = [] := rfl

theorem splitInclusive_ne_nil
    (separator : α) {list : List α} (nonempty : list ≠ []) :
    splitInclusive separator list ≠ [] := by
  cases list with
  | nil => exact absurd rfl nonempty
  | cons head tail =>
      rw [splitInclusive]
      split_ifs
      · simp
      · cases splitInclusive separator tail <;> simp

theorem splitInclusive_flatten (separator : α) (list : List α) :
    (splitInclusive separator list).flatten = list := by
  induction list with
  | nil => rfl
  | cons head tail induction =>
      rw [splitInclusive]
      split_ifs with separates
      · simp [induction]
      · cases segments : splitInclusive separator tail with
        | nil =>
            have empty : tail = [] := by simpa [segments] using induction.symm
            simp [empty]
        | cons segment rest =>
            rw [segments] at induction
            simp [← induction]

theorem segmented_splitInclusive (separator : α) (list : List α) :
    Segmented separator (splitInclusive separator list) := by
  induction list with
  | nil => exact .nil
  | cons head tail induction =>
      rw [splitInclusive]
      split_ifs with separates
      · subst separates
        exact Segmented.cons [] (by simp) induction
      · cases segments : splitInclusive separator tail with
        | nil =>
            exact Segmented.unterminated [head] (by simp)
              (by simpa using Ne.symm separates)
        | cons segment rest =>
            rw [segments] at induction
            have headUnseparated (line : List α) (fresh : separator ∉ line) :
                separator ∉ head :: line := by
              simp [fresh, Ne.symm separates]
            cases induction with
            | unterminated line nonempty unseparated =>
                exact Segmented.unterminated _ (by simp)
                  (headUnseparated _ unseparated)
            | cons line unseparated rest =>
                exact Segmented.cons (head :: line)
                  (headUnseparated _ unseparated) rest

theorem splitInclusive_unseparated
    (separator : α) {line : List α}
    (nonempty : line ≠ []) (unseparated : separator ∉ line) :
    splitInclusive separator line = [line] := by
  induction line with
  | nil => exact absurd rfl nonempty
  | cons head tail induction =>
      simp only [List.mem_cons, not_or] at unseparated
      rw [splitInclusive, if_neg (Ne.symm unseparated.1)]
      cases tail with
      | nil => rfl
      | cons next rest => rw [induction (by simp) unseparated.2]

theorem splitInclusive_line
    (separator : α) {line : List α} (rest : List α)
    (unseparated : separator ∉ line) :
    splitInclusive separator (line ++ separator :: rest) =
      (line ++ [separator]) :: splitInclusive separator rest := by
  induction line with
  | nil => simp [splitInclusive]
  | cons head tail induction =>
      simp only [List.mem_cons, not_or] at unseparated
      rw [List.cons_append, splitInclusive,
        if_neg (Ne.symm unseparated.1), induction unseparated.2]
      rfl

/-- A list has exactly one canonical presentation. -/
theorem Segmented.splitInclusive_flatten
    {separator : α} {segments : List (List α)}
    (segmented : Segmented separator segments) :
    splitInclusive separator segments.flatten = segments := by
  induction segmented with
  | nil => rfl
  | unterminated line nonempty unseparated =>
      simpa using splitInclusive_unseparated separator nonempty unseparated
  | cons line unseparated tail induction =>
      simp only [List.flatten_cons, List.append_assoc, List.singleton_append]
      rw [splitInclusive_line separator _ unseparated, induction]

/-- Splitting commutes with concatenation after a separator. -/
theorem splitInclusive_append
    {separator : α} {front : List α}
    (terminated : Terminated separator front) (back : List α) :
    splitInclusive separator (front ++ back) =
      splitInclusive separator front ++ splitInclusive separator back := by
  induction front with
  | nil => rfl
  | cons head tail induction =>
      have tailSplit := induction terminated.tail
      rw [List.cons_append, splitInclusive, splitInclusive, tailSplit]
      split_ifs with separates
      · rfl
      · have continued : tail ≠ [] := by
          rintro rfl
          exact separates (terminated head (by simp))
        cases segments : splitInclusive separator tail with
        | nil =>
            exact absurd segments (splitInclusive_ne_nil separator continued)
        | cons segment rest => rfl

/-- A final separator closes the last segment or opens an empty one. -/
theorem mem_splitInclusive_concat
    {separator : α} {list line : List α}
    (member : line ∈ splitInclusive separator (list ++ [separator])) :
    line ∈ splitInclusive separator list ∨ line = [separator] ∨
      ∃ last ∈ splitInclusive separator list, line = last ++ [separator] := by
  have segmented := segmented_splitInclusive separator list
  have flattened := splitInclusive_flatten separator list
  generalize splitInclusive separator list = segments at segmented flattened ⊢
  induction segmented generalizing list with
  | nil =>
      subst flattened
      exact Or.inr (Or.inl (by simpa [splitInclusive] using member))
  | unterminated last nonempty unseparated =>
      have whole : list = last := by simpa using flattened.symm
      rw [whole, splitInclusive_line separator [] unseparated] at member
      exact Or.inr (Or.inr ⟨last, by simp, by simpa using member⟩)
  | @cons segments first unseparated tail induction =>
      have whole : list = first ++ separator :: segments.flatten := by
        simpa using flattened.symm
      rw [whole, List.append_assoc, List.cons_append,
        splitInclusive_line separator _ unseparated] at member
      rcases List.mem_cons.mp member with rfl | later
      · exact Or.inl List.mem_cons_self
      · rcases induction later rfl with found | alone | ⟨last, found, equal⟩
        · exact Or.inl (List.mem_cons_of_mem _ found)
        · exact Or.inr (Or.inl alone)
        · exact Or.inr (Or.inr ⟨last, List.mem_cons_of_mem _ found, equal⟩)

/-! ## Fields between separators -/

theorem notMem_of_mem_splitOn
    (separator : α) (list field : List α)
    (member : field ∈ list.splitOn separator) :
    separator ∉ field := by
  induction list generalizing field with
  | nil =>
      have empty : field = [] := by simpa using member
      simp [empty]
  | cons head tail induction =>
      rw [List.splitOn_cons_eq_if_modifyHead] at member
      split_ifs at member with separates
      · rcases List.mem_cons.mp member with rfl | tailMember
        · simp
        · exact induction field tailMember
      · cases fields : tail.splitOn separator with
        | nil => exact absurd fields (List.splitOn_ne_nil separator tail)
        | cons first rest =>
            rw [fields] at induction member
            rcases List.mem_cons.mp member with rfl | restMember
            · have headNe : separator ≠ head := by
                intro same
                exact separates (by simp [same])
              simp [headNe, induction first (by simp)]
            · exact induction field (List.mem_cons_of_mem first restMember)

omit [DecidableEq α] in
/-- The first separator of a list divides it in one way. -/
theorem append_cons_inj_first
    {separator : α} {left right front back : List α}
    (leftFresh : separator ∉ left) (frontFresh : separator ∉ front)
    (equal : left ++ separator :: right = front ++ separator :: back) :
    left = front ∧ right = back := by
  induction left generalizing front with
  | nil =>
      cases front with
      | nil => exact ⟨rfl, (List.cons.inj equal).2⟩
      | cons head tail =>
          rw [List.nil_append, List.cons_append, List.cons.injEq] at equal
          exact absurd (equal.1 ▸ List.mem_cons_self) frontFresh
  | cons first rest induction =>
      cases front with
      | nil =>
          rw [List.nil_append, List.cons_append, List.cons.injEq] at equal
          exact absurd (equal.1 ▸ List.mem_cons_self) leftFresh
      | cons head tail =>
          rw [List.cons_append, List.cons_append, List.cons.injEq] at equal
          simp only [List.mem_cons, not_or] at leftFresh frontFresh
          have parts := induction leftFresh.2 frontFresh.2 equal.2
          exact ⟨by rw [equal.1, parts.1], parts.2⟩

omit [DecidableEq α] in
/-- The last separator of a list divides it in one way. -/
theorem append_cons_inj_last
    {separator : α} {left right front back : List α}
    (rightFresh : separator ∉ right) (backFresh : separator ∉ back)
    (equal : left ++ separator :: right = front ++ separator :: back) :
    left = front ∧ right = back := by
  have reversed :
      right.reverse ++ separator :: left.reverse =
        back.reverse ++ separator :: front.reverse := by
    simpa using congrArg List.reverse equal
  have parts :=
    append_cons_inj_first (by simpa using rightFresh)
      (by simpa using backFresh) reversed
  exact ⟨List.reverse_injective parts.2, List.reverse_injective parts.1⟩

/-- Divide a list at its last separator. -/
def rsplitOnce (separator : α) : List α → Option (List α × List α)
  | [] => none
  | head :: tail =>
      match rsplitOnce separator tail with
      | some (front, back) => some (head :: front, back)
      | none => if head = separator then some ([], tail) else none

theorem rsplitOnce_none
    {separator : α} {list : List α}
    (undivided : rsplitOnce separator list = none) :
    separator ∉ list := by
  induction list with
  | nil => exact List.not_mem_nil
  | cons head tail induction =>
      rw [rsplitOnce] at undivided
      split at undivided
      · cases undivided
      · rename_i absent
        split_ifs at undivided with same
        intro member
        rcases List.mem_cons.mp member with equal | later
        · exact same equal.symm
        · exact induction absent later

theorem rsplitOnce_some
    {separator : α} {list front back : List α}
    (divided : rsplitOnce separator list = some (front, back)) :
    list = front ++ separator :: back ∧ separator ∉ back := by
  induction list generalizing front with
  | nil => cases divided
  | cons head tail induction =>
      rw [rsplitOnce] at divided
      split at divided
      · rename_i first last later
        cases divided
        have parts := induction later
        exact ⟨congrArg (head :: ·) parts.1, parts.2⟩
      · rename_i absent
        split_ifs at divided with same
        cases divided
        exact ⟨by rw [same]; rfl, rsplitOnce_none absent⟩

/-! ## Decimal numerals -/

/-- The decimal numeral of a number. -/
def decimal (number : Nat) : Text :=
  Nat.toDigits 10 number

theorem isDigit_of_mem_decimal
    {number : Nat} {character : Char}
    (member : character ∈ decimal number) :
    character.isDigit = true :=
  Nat.isDigit_of_mem_toDigits (by decide) (by decide) member

theorem notMem_decimal
    {character : Char} (notDigit : character.isDigit = false)
    (number : Nat) :
    character ∉ decimal number := by
  intro member
  rw [isDigit_of_mem_decimal member] at notDigit
  cases notDigit

theorem decimal_injective : Function.Injective decimal := by
  intro left right equal
  have values := congrArg (Nat.ofDigitChars 10 · 0) equal
  simpa [decimal] using values

theorem length_decimal_le
    {number width : Nat} (positive : 0 < width)
    (below : number < 10 ^ width) :
    (decimal number).length ≤ width :=
  (Nat.length_toDigits_le_iff (by decide) positive).mpr below

end Luminosity.Foundation.TextSegments
