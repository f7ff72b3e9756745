import Luminosity.Foundation.TextSegments

/-!
# Splitting frontmatter from the body

The scanner visits the newline-terminated segments of a file.  It recognises
a fence on the first segment and the next fence after it, and never looks for
a third.

`Fenced` is the lexical decomposition the scanner finds: an opening fence
line, whole lines none of which is a fence, a closing fence line, and any
body.  The scanner accepts exactly the fenced files, with this decomposition,
and the files whose first line is not a fence.
-/

namespace Luminosity.Adapters.Frontmatter

open Luminosity.Foundation.TextSegments

structure Split where
  frontmatter : Text
  body : Text
deriving DecidableEq

def isFence (segment : Text) : Bool :=
  stripLast '\r' (stripLast '\n' segment) = "---".toList

/-- The accumulators of the scanning loop. -/
structure Scan where
  frontmatter : Text
  body : Text
  closed : Bool

/-- The body of the scanning loop. -/
def Scan.visit (scan : Scan) (segment : Text) : Scan :=
  if !scan.closed && isFence segment then
    { scan with closed := true }
  else if scan.closed then
    { scan with body := scan.body ++ segment }
  else
    { scan with frontmatter := scan.frontmatter ++ segment }

def unterminated : Text := "unterminated frontmatter block".toList

/-- Split a file at its frontmatter fences. -/
def split (content : Text) : Except Text Split :=
  match splitInclusive '\n' content with
  | [] => .ok { frontmatter := [], body := content }
  | first :: segments =>
      if isFence first then
        let scan :=
          segments.foldl Scan.visit
            { frontmatter := [], body := [], closed := false }
        if scan.closed then
          .ok { frontmatter := scan.frontmatter, body := scan.body }
        else
          .error unterminated
      else
        .ok { frontmatter := [], body := content }

/-! ## Fence lines -/

/--
The four forms of a fence line.  The last two are not terminated, so they
occur only at the end of a file.
-/
def FenceLine (line : Text) : Prop :=
  line = "---\n".toList ∨ line = "---\r\n".toList ∨
    line = "---".toList ∨ line = "---\r".toList

instance (line : Text) : Decidable (FenceLine line) :=
  inferInstanceAs (Decidable (_ ∨ _))

theorem isFence_iff (segment : Text) :
    isFence segment = true ↔ FenceLine segment := by
  rw [isFence, decide_eq_true_iff, stripLast_eq_iff]
  constructor
  · rintro (carriage | ⟨plain, _⟩)
    · rcases (stripLast_eq_iff _ _ _).mp carriage with ended | ⟨whole, _⟩
      · exact Or.inr (Or.inl ended)
      · exact Or.inr (Or.inr (Or.inr whole))
    · rcases (stripLast_eq_iff _ _ _).mp plain with ended | ⟨whole, _⟩
      · exact Or.inl ended
      · exact Or.inr (Or.inr (Or.inl whole))
  · rintro (rfl | rfl | rfl | rfl) <;> decide

theorem FenceLine.ne_nil {line : Text} (fence : FenceLine line) :
    line ≠ [] := by
  rintro rfl
  rcases fence with equal | equal | equal | equal <;> cases equal

/-- A fence line is one segment. -/
theorem FenceLine.splitInclusive {line : Text} (fence : FenceLine line) :
    splitInclusive '\n' line = [line] := by
  rcases fence with rfl | rfl | rfl | rfl <;> decide

/-! ## The scanning loop -/

theorem foldl_visit_closed
    (segments : List Text) (frontmatter body : Text) :
    segments.foldl Scan.visit { frontmatter, body, closed := true } =
      { frontmatter, body := body ++ segments.flatten, closed := true } := by
  induction segments generalizing body with
  | nil => simp
  | cons segment rest induction =>
      rw [List.foldl_cons]
      have visited :
          Scan.visit { frontmatter, body, closed := true } segment =
            { frontmatter, body := body ++ segment, closed := true } := by
        simp [Scan.visit]
      rw [visited, induction]
      simp

theorem foldl_visit_unfenced
    {segments : List Text}
    (unfenced : ∀ segment ∈ segments, ¬ FenceLine segment)
    (frontmatter : Text) :
    segments.foldl Scan.visit { frontmatter, body := [], closed := false } =
      { frontmatter := frontmatter ++ segments.flatten
        body := []
        closed := false } := by
  induction segments generalizing frontmatter with
  | nil => simp
  | cons segment rest induction =>
      have notFence : isFence segment = false := by
        rw [Bool.eq_false_iff, Ne, isFence_iff]
        exact unfenced segment List.mem_cons_self
      have visited :
          Scan.visit { frontmatter, body := [], closed := false } segment =
            { frontmatter := frontmatter ++ segment
              body := []
              closed := false } := by
        simp [Scan.visit, notFence]
      rw [List.foldl_cons, visited, induction]
      · simp
      · intro other member
        exact unfenced other (List.mem_cons_of_mem segment member)

theorem foldl_visit_fenced
    {front back : List Text} {closing : Text}
    (unfenced : ∀ segment ∈ front, ¬ FenceLine segment)
    (closes : FenceLine closing) :
    (front ++ closing :: back).foldl Scan.visit
        { frontmatter := [], body := [], closed := false } =
      { frontmatter := front.flatten
        body := back.flatten
        closed := true } := by
  have visited :
      Scan.visit
          { frontmatter := front.flatten, body := [], closed := false }
          closing =
        { frontmatter := front.flatten, body := [], closed := true } := by
    simp [Scan.visit, (isFence_iff closing).mpr closes]
  rw [List.foldl_append, foldl_visit_unfenced unfenced, List.nil_append,
    List.foldl_cons, visited, foldl_visit_closed, List.nil_append]

/-- A list of segments has a first fence or none. -/
theorem exists_first_fence (segments : List Text) :
    (∀ segment ∈ segments, ¬ FenceLine segment) ∨
      ∃ front closing back,
        segments = front ++ closing :: back ∧ FenceLine closing ∧
          ∀ segment ∈ front, ¬ FenceLine segment := by
  induction segments with
  | nil => exact Or.inl (by simp)
  | cons head tail induction =>
      by_cases fence : FenceLine head
      · exact Or.inr ⟨[], head, tail, rfl, fence, by simp⟩
      · rcases induction with clean | ⟨front, closing, back, rfl, rest⟩
        · exact Or.inl (by simpa [fence] using clean)
        · refine Or.inr ⟨head :: front, closing, back, rfl, rest.1, ?_⟩
          simpa [fence] using rest.2

/-! ## The lexical decomposition -/

/-- A file as its two fence lines with the lines between and after them. -/
structure Fenced
    (content opening frontmatter closing body : Text) : Prop where
  whole : content = opening ++ frontmatter ++ closing ++ body
  opens : FenceLine opening
  openingEnds : Terminated '\n' opening
  wholeLines : Terminated '\n' frontmatter
  unfenced : ∀ line ∈ splitInclusive '\n' frontmatter, ¬ FenceLine line
  closes : FenceLine closing
  closingEnds : Terminated '\n' closing ∨ body = []

theorem Fenced.segments
    {content opening frontmatter closing body : Text}
    (fenced : Fenced content opening frontmatter closing body) :
    splitInclusive '\n' content =
      opening ::
        (splitInclusive '\n' frontmatter ++
          closing :: splitInclusive '\n' body) := by
  have ending :
      splitInclusive '\n' (closing ++ body) =
        closing :: splitInclusive '\n' body := by
    rcases fenced.closingEnds with terminated | rfl
    · rw [splitInclusive_append terminated, fenced.closes.splitInclusive]
      rfl
    · rw [List.append_nil, fenced.closes.splitInclusive]
      rfl
  rw [fenced.whole, List.append_assoc, List.append_assoc,
    splitInclusive_append fenced.openingEnds,
    fenced.opens.splitInclusive,
    splitInclusive_append fenced.wholeLines, ending]
  rfl

/-- The scanner returns the decomposition of a fenced file. -/
theorem Fenced.split
    {content opening frontmatter closing body : Text}
    (fenced : Fenced content opening frontmatter closing body) :
    split content = .ok { frontmatter, body } := by
  rw [Frontmatter.split, fenced.segments]
  simp only [(isFence_iff opening).mpr fenced.opens, if_true]
  rw [foldl_visit_fenced fenced.unfenced fenced.closes]
  simp [splitInclusive_flatten]

/-- The first line of a file is not a fence. -/
def Unopened (content : Text) : Prop :=
  ∀ line ∈ (splitInclusive '\n' content).head?, ¬ FenceLine line

theorem Unopened.split {content : Text} (unopened : Unopened content) :
    split content = .ok { frontmatter := [], body := content } := by
  rw [Frontmatter.split]
  cases segments : splitInclusive '\n' content with
  | nil => rfl
  | cons first rest =>
      have notFence : isFence first = false := by
        rw [Bool.eq_false_iff, Ne, isFence_iff]
        exact unopened first (by simp [segments])
      simp [notFence]

/-- The first line of a file is a fence, and no later line is. -/
def Unterminated (content : Text) : Prop :=
  ∃ first rest, splitInclusive '\n' content = first :: rest ∧
    FenceLine first ∧ ∀ line ∈ rest, ¬ FenceLine line

theorem Unterminated.split
    {content : Text} (open_ : Unterminated content) :
    split content = .error unterminated := by
  rcases open_ with ⟨first, rest, segments, fence, unfenced⟩
  rw [Frontmatter.split, segments]
  simp only [(isFence_iff first).mpr fence, if_true]
  rw [foldl_visit_unfenced unfenced]
  simp

/-- Every file has exactly one of the three shapes. -/
theorem shapes (content : Text) :
    Unopened content ∨ Unterminated content ∨
      ∃ opening frontmatter closing body,
        Fenced content opening frontmatter closing body := by
  have segmented := segmented_splitInclusive '\n' content
  have flattened := splitInclusive_flatten '\n' content
  cases segments : splitInclusive '\n' content with
  | nil => exact Or.inl (by simp [Unopened, segments])
  | cons first rest =>
      by_cases opens : FenceLine first
      swap
      · exact Or.inl (by simpa [Unopened, segments] using opens)
      refine Or.inr ?_
      rcases exists_first_fence rest with
        clean | ⟨front, closing, back, rfl, closes, clean⟩
      · exact Or.inl ⟨first, rest, segments, opens, clean⟩
      · refine Or.inr
          ⟨first, front.flatten, closing, back.flatten, ?_⟩
        rw [segments] at segmented flattened
        have afterFirst :
            Segmented '\n' ([first] ++ (front ++ closing :: back)) :=
          segmented
        have afterFront :
            Segmented '\n' (front ++ closing :: back) :=
          afterFirst.of_append.2
        have afterClosing : Segmented '\n' ([closing] ++ back) :=
          afterFront.of_append.2
        constructor
        · rw [← flattened]
          simp
        · exact opens
        · simpa using afterFirst.terminated_of_append (by simp)
        · exact afterFront.terminated_of_append (by simp)
        · rwa [afterFront.of_append.1.splitInclusive_flatten]
        · exact closes
        · by_cases last : back = []
          · exact Or.inr (by simp [last])
          · exact Or.inl
              (by simpa using afterClosing.terminated_of_append last)

theorem split_error_iff (content : Text) (detail : Text) :
    split content = .error detail ↔
      detail = unterminated ∧ Unterminated content := by
  constructor
  · intro failed
    rcases shapes content with unopened | open_ | ⟨_, _, _, _, fenced⟩
    · rw [unopened.split] at failed
      cases failed
    · rw [open_.split] at failed
      cases failed
      exact ⟨rfl, open_⟩
    · rw [fenced.split] at failed
      cases failed
  · rintro ⟨rfl, open_⟩
    exact open_.split

theorem split_ok
    {content : Text} {parts : Split} (done : split content = .ok parts) :
    (Unopened content ∧ parts = { frontmatter := [], body := content }) ∨
      ∃ opening closing,
        Fenced content opening parts.frontmatter closing parts.body := by
  rcases shapes content with
    unopened | open_ | ⟨opening, frontmatter, closing, body, fenced⟩
  · rw [unopened.split] at done
    cases done
    exact Or.inl ⟨unopened, rfl⟩
  · rw [open_.split] at done
    cases done
  · rw [fenced.split] at done
    cases done
    exact Or.inr ⟨opening, closing, fenced⟩

example :
    split "---\r\nkey: value\r\n---\r\nbody\r\n".toList =
      .ok
        { frontmatter := "key: value\r\n".toList
          body := "body\r\n".toList } := by
  decide

end Luminosity.Adapters.Frontmatter
