import Luminosity.Adapters.StoreDocuments

/-!
# Round trips and injected prose

A file holds a document and prose.  What is injected into a prompt is the
prose: the text after a fenced mapping, or else the whole file.  What a write
keeps is the text after the fences, mapping or not.

The two agree on every file whose frontmatter is blank or a mapping, so a
`set` keeps the injected prose of those files, and of no other file which it
accepts.
-/

namespace Luminosity.Adapters.StoreProse

open Luminosity.Foundation.TextSegments
open Luminosity.Foundation.EffectPrograms
open Luminosity.Config.Domain
open Luminosity.Config.Service
open Luminosity.Host.Paths
open Luminosity.Host.Calls
open Luminosity.Host.FlatDisk
open Luminosity.Adapters.Frontmatter
open Luminosity.Adapters.Document
open Luminosity.Adapters.Store
open Luminosity.Adapters.Store.FileConfigStore
open Luminosity.Adapters.StoreDocuments

/-! ## A small instance -/

/-- A library which knows one mapping and one title. -/
def smallSaphyr : Saphyr where
  toString
    | .map [(['a'], .str ['v'])] => .ok "a: v\n".toList
    | _ => .error "unsupported".toList
  fromStr text :=
    if text = "a: v\n".toList then
      .ok (.map [(['a'], .str ['v'])])
    else if text = "Title\n".toList then
      .ok (.str "Title".toList)
    else
      .error "unsupported".toList

theorem smallSaphyr_toString
    {parsed : Parsed} {text : Text}
    (emitted : smallSaphyr.toString parsed = .ok text) :
    parsed = .map [(['a'], .str ['v'])] ∧ text = "a: v\n".toList := by
  unfold smallSaphyr at emitted
  simp only at emitted
  split at emitted
  · cases emitted
    exact ⟨rfl, rfl⟩
  · cases emitted

theorem smallSaphyr_lawful : smallSaphyr.Lawful where
  inverts parsed text emitted := by
    rcases smallSaphyr_toString emitted with ⟨rfl, rfl⟩
    rfl
  unfenced parsed text emitted := by
    rcases smallSaphyr_toString emitted with ⟨_, rfl⟩
    intro line member fence
    have only : line = "a: v\n".toList := by
      simpa [splitInclusive] using member
    rw [only] at fence
    rcases fence with equal | equal | equal | equal <;> cases equal
  lineBreak parsed text emitted open_ := by
    rcases smallSaphyr_toString emitted with ⟨_, rfl⟩
    exact absurd rfl open_
  blank text entries blank parsed := by
    unfold smallSaphyr at parsed
    simp only at parsed
    split_ifs at parsed with mapping title
    · rw [mapping] at blank
      cases blank
    · cases parsed

/-- A project directory. -/
def smallStore : FileConfigStore :=
  { root := { absolute := true, components := [.normal "project".toList] } }

/-- A disk with one level's file. -/
def smallDisk (content : Text) : Disk :=
  { file := fun path =>
      if path = smallStore.configPath .team then
        some (encode content)
      else
        none
    counter := fun _ => 0 }

theorem smallDisk_stores (content : Text) :
    Stores (smallDisk content) (smallStore.configPath .team)
      (some content) := by
  simp [Stores, smallDisk]

/-- No release is published, and no directory has an entry. -/
def quiet : Surroundings where
  network _ answer := answer = .error .notFound
  listing _ _ entries := entries = []
  responds _ := ⟨_, rfl⟩
  lists _ _ := ⟨_, rfl⟩

/-! ## The shape of an injected body -/

/-- A frontmatter block which is blank or parses as a YAML mapping. -/
def MappingText (saphyr : Saphyr) (frontmatter : Text) : Prop :=
  isBlank frontmatter = true ∨
    ∃ entries, saphyr.fromStr frontmatter = .ok (.map entries)

theorem fragmentBody_mapping
    {saphyr : Saphyr} {content : Text} {parts : Split}
    (mapping : MappingText saphyr parts.frontmatter) :
    fragmentBody saphyr content parts = parts.body := by
  rcases (parseFrontmatter_mapping_iff _).mpr mapping with ⟨entries, parsed⟩
  rw [fragmentBody, parsed]

theorem fragmentBody_other
    {saphyr : Saphyr} {content : Text} {parts : Split}
    (other : ¬ MappingText saphyr parts.frontmatter) :
    fragmentBody saphyr content parts = content := by
  rw [fragmentBody]
  split
  · rename_i entries parsed
    exact absurd ((parseFrontmatter_mapping_iff _).mp ⟨entries, parsed⟩) other
  · rfl

/-- A fragment is refused exactly when its frontmatter is never closed. -/
theorem fragmentOf_error_iff
    (saphyr : Saphyr) (path : Path) (content : Text) (error : ConfigError) :
    fragmentOf saphyr path (some content) = .error error ↔
      error = malformed path unterminated ∧ Unterminated content := by
  rw [fragmentOf_some]
  cases divided : split content with
  | error detail =>
      rcases (split_error_iff content detail).mp divided with ⟨rfl, open_⟩
      simp [open_, eq_comm]
  | ok parts =>
      have closed : ¬ Unterminated content := by
        intro open_
        rw [open_.split] at divided
        cases divided
      simp [closed]

/-- The body of a fenced file whose frontmatter is a mapping. -/
theorem fragmentOf_fenced
    {saphyr : Saphyr} {content opening frontmatter closing body : Text}
    (path : Path)
    (fenced : Fenced content opening frontmatter closing body)
    (mapping : MappingText saphyr frontmatter) :
    fragmentOf saphyr path (some content) = .ok (some body) := by
  rw [fragmentOf_some, fenced.split]
  simp only
  rw [fragmentBody_mapping mapping]

/-- A returned body is the file, or what follows a fenced mapping. -/
theorem fragmentOf_ok
    {saphyr : Saphyr} {path : Path} {content : Text} {found : Option Text}
    (done : fragmentOf saphyr path (some content) = .ok found) :
    found = some content ∨
      ∃ opening frontmatter closing body,
        Fenced content opening frontmatter closing body ∧
          MappingText saphyr frontmatter ∧ found = some body := by
  rw [fragmentOf_some] at done
  cases divided : split content with
  | error detail =>
      rw [divided] at done
      cases done
  | ok parts =>
      rw [divided] at done
      cases done
      by_cases mapping : MappingText saphyr parts.frontmatter
      · rw [fragmentBody_mapping mapping]
        rcases split_ok divided with ⟨_, rfl⟩ | ⟨opening, closing, fenced⟩
        · exact Or.inl rfl
        · exact Or.inr
            ⟨opening, parts.frontmatter, closing, parts.body, fenced,
              mapping, rfl⟩
      · rw [fragmentBody_other mapping]
        exact Or.inl rfl

/--
Whenever the host lets a file be read, an injected body is refused exactly for
an unclosed fence, and is otherwise the file or what follows its fenced
mapping, whatever the body itself contains.
-/
theorem injected_body_exact
    (surroundings : Surroundings) (process : UInt32)
    (store : FileConfigStore) (saphyr : Saphyr) (path : Path)
    (content : Text) (disk after : Disk)
    (result : Except ConfigError (Option Text))
    (stores : Stores disk path (some content))
    (runs : Runs (flat surroundings process)
      (store.readFragmentBody saphyr path).run disk result after)
    (granted : ¬ HostFails result) :
    ((∃ error, result = .error error) ↔ Unterminated content) ∧
      (∀ found, result = .ok found →
        found = some content ∨
          ∃ opening frontmatter closing body,
            Fenced content opening frontmatter closing body ∧
              MappingText saphyr frontmatter ∧ found = some body) ∧
      ∀ opening frontmatter closing body,
        Fenced content opening frontmatter closing body →
          MappingText saphyr frontmatter →
            result = .ok (some body) := by
  rcases (gives_readFragmentBody store saphyr stores).of_run runs granted with
    ⟨_, rfl⟩
  refine ⟨?_, ?_, ?_⟩
  · constructor
    · rintro ⟨error, failed⟩
      exact ((fragmentOf_error_iff saphyr path content error).mp failed).2
    · intro open_
      exact ⟨_, (fragmentOf_error_iff saphyr path content _).mpr
        ⟨rfl, open_⟩⟩
  · intro found done
    exact fragmentOf_ok done
  · intro opening frontmatter closing body fenced mapping
    exact fragmentOf_fenced path fenced mapping

/-- A file with a fenced mapping whose body holds a fence line. -/
def fencedSample : Text := "---\na: v\n---\nbody\n---\n".toList

theorem fencedSample_fenced :
    Fenced fencedSample "---\n".toList "a: v\n".toList "---\n".toList
      "body\n---\n".toList where
  whole := rfl
  opens := by decide
  openingEnds := by simp [Terminated]
  wholeLines := by simp [Terminated]
  unfenced := by decide
  closes := by decide
  closingEnds := Or.inl (by simp [Terminated])

theorem injected_body_exact_sample :
    fragmentOf smallSaphyr (smallStore.configPath .team)
        (some fencedSample) =
      .ok (some "body\n---\n".toList) := by
  have exact_ :=
    injected_body_exact quiet 0 smallStore smallSaphyr
      (smallStore.configPath .team) fencedSample (smallDisk fencedSample)
      (smallDisk fencedSample) _ (smallDisk_stores fencedSample)
      (runs_readFragmentBody quiet 0 smallStore smallSaphyr
        (smallDisk_stores fencedSample))
      (fun failed => failed)
  exact exact_.2.2 _ _ _ _ fencedSample_fenced (Or.inr ⟨_, rfl⟩)

/--
A file which is one fence ended by a carriage return is refused, although
neither a newline nor the end of the file follows the dashes.
-/
theorem lone_carriage_return_refused :
    ∃ disk result after,
      Stores disk (smallStore.configPath .team) (some "---\r".toList) ∧
        Runs (flat quiet 0)
          (smallStore.readFragmentBody smallSaphyr
            (smallStore.configPath .team)).run disk result after ∧
          ¬ HostFails result ∧
            ¬ ((∃ error, result = .error error) ↔
              ∃ first rest,
                splitInclusive '\n' "---\r".toList = first :: rest ∧
                  (first = "---\n".toList ∨ first = "---\r\n".toList ∨
                    first = "---".toList) ∧
                  ∀ line ∈ rest,
                    ¬ (line = "---\n".toList ∨ line = "---\r\n".toList ∨
                      line = "---".toList)) := by
  have stores := smallDisk_stores "---\r".toList
  refine ⟨smallDisk "---\r".toList, _, _, stores,
    runs_readFragmentBody quiet 0 smallStore smallSaphyr stores,
    fun failed => failed, ?_⟩
  intro equivalent
  rcases equivalent.mp ⟨_, rfl⟩ with ⟨first, rest, segments, fence, _⟩
  have whole : first = "---\r".toList := by
    cases segments
    rfl
  rw [whole] at fence
  rcases fence with equal | equal | equal <;> cases equal

/-! ## The round trip of a document -/

/-- The text below the fences of a file, nothing when there is no file. -/
def LexicalBody (existing : Option Text) (body : Text) : Prop :=
  match existing with
  | none => body = []
  | some content => ∃ parts, split content = .ok parts ∧ body = parts.body

theorem KeepsBody.lexical
    {saphyr : Saphyr} {existing : Option Text} {body : Text}
    (keeps : KeepsBody saphyr existing body) :
    LexicalBody existing body := by
  cases existing with
  | none => exact keeps
  | some content =>
      rcases keeps with ⟨parts, _, parses, whole⟩
      exact ⟨parts, parses.1, whole⟩

/--
A rendered mapping splits into the emitted document and the lexical body of
the file it replaces, parses back, and renders to itself; a read after the
write returns it.
-/
theorem write_read_round_trip
    {saphyr : Saphyr} (lawful : saphyr.Lawful)
    {existing : Option Text} {entries : Mapping} {rendered : Text}
    (done : render saphyr existing (.mapping entries) = .ok rendered) :
    (∃ yaml body, emit saphyr (.mapping entries) = .ok yaml ∧
      LexicalBody existing body ∧
        split rendered = .ok { frontmatter := yaml, body } ∧
          parseFrontmatter saphyr yaml = .ok (.mapping entries)) ∧
      render saphyr (some rendered) (.mapping entries) = .ok rendered ∧
        ∀ (surroundings : Surroundings) (process : UInt32)
          (store : FileConfigStore) (level : Level) (disk after : Disk),
          Stores disk (store.configPath level) existing →
            Runs (flat surroundings process)
              (store.write saphyr level (.mapping entries)).run
              disk (.ok ()) after →
                Stores after (store.configPath level) (some rendered) ∧
                  ∀ result last,
                    Runs (flat surroundings process)
                      (store.read saphyr level).run after result last →
                        HostFails result ∨
                          result = .ok (some (.mapping entries)) := by
  rcases render_ok.mp done with ⟨yaml, body, emitted, keeps, whole⟩
  have parses : Parses saphyr rendered { frontmatter := yaml, body }
      (.mapping entries) := by
    rw [whole]
    exact lawful.parses_rendered emitted body
  refine ⟨?_, lawful.render_again done, ?_⟩
  · exact ⟨yaml, body, emitted, KeepsBody.lexical keeps, parses⟩
  · intro surroundings process store level disk after stores runs
    obtain ⟨again, rendering, stored⟩ :=
      (ensures_write store saphyr level (.mapping entries) stores).of_run runs
    have same : rendered = again := by
      rw [done] at rendering
      exact Except.ok.inj rendering
    subst same
    refine ⟨stored, ?_⟩
    intro result last reading
    by_cases failed : HostFails result
    · exact Or.inl failed
    · refine Or.inr ?_
      rw [((gives_read store saphyr level stored).of_run reading failed).2]
      exact documentOf_parses _ parses

theorem write_read_round_trip_sample :
    render smallSaphyr (some fencedSample)
        (.mapping [(['a'], .scalar (.string ['v']))]) = .ok fencedSample :=
  have rendered :
      render smallSaphyr (some "---\n---\nbody\n---\n".toList)
        (.mapping [(['a'], .scalar (.string ['v']))]) = .ok fencedSample :=
    rfl
  (write_read_round_trip smallSaphyr_lawful rendered).2.1

/-! ## The prose a `set` leaves -/

/-- Whenever the host lets the file be read, this prose is injected. -/
def Injects (saphyr : Saphyr) (surroundings : Surroundings)
    (process : UInt32) (store : FileConfigStore) (path : Path)
    (disk : Disk) (prose : Text) : Prop :=
  ∀ result after,
    Runs (flat surroundings process)
      (store.readFragmentBody saphyr path).run disk result after →
        HostFails result ∨
          ∃ found, result = .ok found ∧ found.getD [] = prose

/-- The content of a file is never a failure of the host. -/
theorem fragmentOf_not_hostFails
    (saphyr : Saphyr) (path : Path) (existing : Option Text) :
    ¬ HostFails (fragmentOf saphyr path existing) := by
  cases existing with
  | none => exact fun failed => failed
  | some content =>
      rw [fragmentOf_some]
      cases split content with
      | ok parts => exact fun failed => failed
      | error detail => exact fun failed => failed

theorem injects_iff
    {saphyr : Saphyr} {surroundings : Surroundings} {process : UInt32}
    {store : FileConfigStore} {path : Path} {disk : Disk}
    {existing : Option Text} (stores : Stores disk path existing)
    (prose : Text) :
    Injects saphyr surroundings process store path disk prose ↔
      ∃ found, fragmentOf saphyr path existing = .ok found ∧
        found.getD [] = prose := by
  constructor
  · intro injects
    have runs :=
      runs_readFragmentBody surroundings process store saphyr stores
    rcases injects _ _ runs with failed | found
    · exact (fragmentOf_not_hostFails saphyr path existing failed).elim
    · exact found
  · intro found result after runs
    by_cases failed : HostFails result
    · exact Or.inl failed
    · refine Or.inr ?_
      obtain ⟨_, rfl⟩ :=
        (gives_readFragmentBody store saphyr stores).of_run runs failed
      exact found

/-- A `set` which succeeds has rendered a mapping over the file it found. -/
theorem ensures_set
    {saphyr : Saphyr} {surroundings : Surroundings} {process : UInt32}
    {store : FileConfigStore} {level : Level} {disk : Disk}
    {existing : Option Text}
    (stores : Stores disk (store.configPath level) existing)
    (key : Key) (value : Text) :
    Ensures (flat surroundings process)
      ((store.service saphyr).set key value level).run
      (fun result after => result = .ok () →
        ∃ entries rendered,
          render saphyr existing (.mapping entries) = .ok rendered ∧
            Stores after (store.configPath level) (some rendered))
      disk := by
  apply (gives_read store saphyr level stores).ensures
  · intro document _
    rw [ensures_run_bind, ensures_run_except]
    generalize insert _ key.segments value key = inserted
    cases inserted with
    | error error =>
        intro done
        cases done
    | ok entries =>
        refine Ensures.mono
          (ensures_write store saphyr level (.mapping entries) stores) ?_
        rintro result after outcome rfl
        exact ⟨entries, outcome⟩
  · intro error _ done
    cases done

/-- The prose injected from a file and from its rendering. -/
theorem injected_rendered
    {saphyr : Saphyr} (lawful : saphyr.Lawful) (path : Path)
    {existing : Option Text} {entries : Mapping} {rendered : Text}
    (done : render saphyr existing (.mapping entries) = .ok rendered) :
    ∃ body, KeepsBody saphyr existing body ∧
      fragmentOf saphyr path (some rendered) = .ok (some body) := by
  rcases render_ok.mp done with ⟨yaml, body, emitted, keeps, rfl⟩
  refine ⟨body, keeps, ?_⟩
  apply fragmentOf_fenced path (lawful.fenced emitted body)
  exact (parseFrontmatter_mapping_iff yaml).mp
    ⟨entries, lawful.parse_emit emitted⟩

/-- What a file injects is what a rendering keeps, or the whole file. -/
theorem fragmentOf_keeps
    {saphyr : Saphyr} {existing : Option Text} {body : Text} (path : Path)
    (keeps : KeepsBody saphyr existing body) :
    (∃ found, fragmentOf saphyr path existing = .ok found ∧
      found.getD [] = body) ↔
        ∀ content parts, existing = some content →
          split content = .ok parts →
            MappingText saphyr parts.frontmatter := by
  cases existing with
  | none =>
      constructor
      · intro _ content parts absent
        cases absent
      · intro _
        exact ⟨none, rfl, keeps.symm⟩
  | some content =>
      rcases keeps with ⟨parts, node, ⟨divided, _⟩, rfl⟩
      rw [fragmentOf_some, divided]
      constructor
      · rintro ⟨found, whole, same⟩ other otherParts equal again
        cases equal
        rw [divided] at again
        cases again
        cases whole
        by_contra notMapping
        rw [fragmentBody_other notMapping] at same
        rcases split_ok divided with ⟨_, rfl⟩ | ⟨opening, closing, fenced⟩
        · exact notMapping (Or.inl isBlank_nil)
        · -- The whole file is longer than the body its fences leave.
          have whole := fenced.whole
          have present := List.length_pos_iff.mpr fenced.opens.ne_nil
          have lengths := congrArg List.length (whole.symm.trans same)
          simp only [List.length_append] at lengths
          omega
      · intro mappings
        refine ⟨_, rfl, ?_⟩
        rw [fragmentBody_mapping (mappings content parts rfl divided)]
        rfl

/-- A `set` which succeeds leaves a file injecting the body it kept. -/
theorem set_injects
    {saphyr : Saphyr} (lawful : saphyr.Lawful)
    {surroundings : Surroundings} {process : UInt32}
    {store : FileConfigStore} {level : Level} {key : Key} {value : Text}
    {disk after : Disk} {existing : Option Text}
    (stores : Stores disk (store.configPath level) existing)
    (runs : Runs (flat surroundings process)
      ((store.service saphyr).set key value level).run disk (.ok ()) after) :
    ∃ body, KeepsBody saphyr existing body ∧
      ∀ prose,
        Injects saphyr surroundings process store (store.configPath level)
          after prose ↔ body = prose := by
  rcases (ensures_set stores key value).of_run runs rfl with
    ⟨entries, rendered, done, stored⟩
  rcases injected_rendered lawful _ done with ⟨body, keeps, injected⟩
  refine ⟨body, keeps, ?_⟩
  intro prose
  rw [injects_iff stored, injected]
  constructor
  · rintro ⟨found, whole, same⟩
    cases whole
    exact same
  · intro same
    exact ⟨some body, rfl, same⟩

/--
A `set` which succeeds keeps the injected prose exactly when the frontmatter
of the file it found, if there was a file, is blank or a YAML mapping.
-/
theorem set_keeps_prose_iff
    {saphyr : Saphyr} (lawful : saphyr.Lawful)
    {surroundings : Surroundings} {process : UInt32}
    {store : FileConfigStore} {level : Level} {key : Key} {value : Text}
    {disk after : Disk} {existing : Option Text}
    (stores : Stores disk (store.configPath level) existing)
    (runs : Runs (flat surroundings process)
      ((store.service saphyr).set key value level).run disk (.ok ()) after) :
    (∃ prose,
      Injects saphyr surroundings process store (store.configPath level)
        disk prose ∧
      Injects saphyr surroundings process store (store.configPath level)
        after prose) ↔
      ∀ content parts, existing = some content →
        split content = .ok parts →
          MappingText saphyr parts.frontmatter := by
  rcases set_injects lawful stores runs with ⟨body, keeps, injected⟩
  rw [← fragmentOf_keeps (store.configPath level) keeps]
  constructor
  · rintro ⟨prose, before, later⟩
    rw [(injected prose).mp later]
    exact (injects_iff stores prose).mp before
  · intro unchanged
    exact ⟨body, (injects_iff stores body).mpr unchanged,
      (injected body).mpr rfl⟩

/-- A `set` whose parts succeed has a successful run. -/
theorem exists_runs_set
    {saphyr : Saphyr} (surroundings : Surroundings) (process : UInt32)
    {store : FileConfigStore} {level : Level} {key : Key} {value : Text}
    {disk : Disk} {existing : Option Text} {document : Option Node}
    {entries : Mapping} {rendered : Text}
    (stores : Stores disk (store.configPath level) existing)
    (found :
      documentOf saphyr (store.configPath level) existing = .ok document)
    (inserted :
      insert (rootMapping document) key.segments value key = .ok entries)
    (rendering : render saphyr existing (.mapping entries) = .ok rendered) :
    ∃ after,
      Runs (flat surroundings process)
        ((store.service saphyr).set key value level).run disk
        (.ok ()) after := by
  let handler := faultless surroundings process
  have reading :
      ((store.service saphyr).reader.read level).run.execute handler disk =
        (.ok document, disk) := by
    rw [← found]
    exact faultless_read surroundings process store saphyr level stores
  have lifted :
      (liftM (insert (rootMapping document) key.segments value key) :
          StoreProgram Mapping).run.execute handler disk =
        (.ok entries, disk) := by
    rw [inserted]
    rfl
  have done :
      (((store.service saphyr).set key value level).run.execute
        handler disk).1 = .ok () := by
    rw [ConfigService.set, execute_run_bind_ok reading,
      execute_run_bind_ok lifted]
    exact faultless_write surroundings process store saphyr level stores
      rendering
  have runs :=
    runs_execute (faultless_admissible surroundings process)
      ((store.service saphyr).set key value level).run disk
  rw [done] at runs
  exact ⟨_, runs⟩

/-- The mapping the small library knows. -/
def smallMapping : Mapping := [(['a'], .scalar (.string ['v']))]

/-- The key of the small library's mapping. -/
def smallKey : Key :=
  { segments := [['a']]
    nonempty := by decide
    wellFormed := by decide }

theorem set_keeps_prose_iff_sample :
    ∃ after,
      Runs (flat quiet 0)
        ((smallStore.service smallSaphyr).set smallKey ['v'] .team).run
        (smallDisk fencedSample) (.ok ()) after ∧
      ∃ prose,
        Injects smallSaphyr quiet 0 smallStore (smallStore.configPath .team)
          (smallDisk fencedSample) prose ∧
        Injects smallSaphyr quiet 0 smallStore (smallStore.configPath .team)
          after prose := by
  have stores := smallDisk_stores fencedSample
  have found :
      documentOf smallSaphyr (smallStore.configPath .team)
        (some fencedSample) = .ok (some (.mapping smallMapping)) := rfl
  have inserted :
      insert (rootMapping (some (.mapping smallMapping)))
        smallKey.segments ['v'] smallKey = .ok smallMapping := rfl
  have rendering :
      render smallSaphyr (some fencedSample) (.mapping smallMapping) =
        .ok fencedSample := rfl
  rcases exists_runs_set quiet 0 stores found inserted rendering with
    ⟨after, runs⟩
  refine ⟨after, runs, ?_⟩
  apply (set_keeps_prose_iff smallSaphyr_lawful stores runs).mpr
  intro content parts equal divided
  cases equal
  rw [fencedSample_fenced.split] at divided
  cases divided
  exact Or.inr ⟨_, rfl⟩

/-- Prose which opens with a title between two thematic breaks. -/
def titledSample : Text := "---\nTitle\n---\nbody\n".toList

/-- A `set` on such a file deletes the title from the injected prose. -/
theorem titled_prose_changed :
    ∃ after,
      Runs (flat quiet 0)
        ((smallStore.service smallSaphyr).set smallKey ['v'] .team).run
        (smallDisk titledSample) (.ok ()) after ∧
      ¬ ∃ prose,
        Injects smallSaphyr quiet 0 smallStore (smallStore.configPath .team)
          (smallDisk titledSample) prose ∧
        Injects smallSaphyr quiet 0 smallStore (smallStore.configPath .team)
          after prose := by
  have stores := smallDisk_stores titledSample
  have found :
      documentOf smallSaphyr (smallStore.configPath .team)
        (some titledSample) =
          .ok (some (.scalar (.string "Title".toList))) := rfl
  have inserted :
      insert (rootMapping (some (.scalar (.string "Title".toList))))
        smallKey.segments ['v'] smallKey = .ok smallMapping := rfl
  have rendering :
      render smallSaphyr (some titledSample) (.mapping smallMapping) =
        .ok "---\na: v\n---\nbody\n".toList := rfl
  rcases exists_runs_set quiet 0 stores found inserted rendering with
    ⟨after, runs⟩
  refine ⟨after, runs, ?_⟩
  rintro ⟨prose, before, later⟩
  rcases set_injects smallSaphyr_lawful stores runs with
    ⟨body, ⟨parts, node, ⟨divided, _⟩, kept⟩, injected⟩
  have short : body = "body\n".toList := by
    rw [kept]
    cases divided
    rfl
  rcases (injects_iff stores prose).mp before with ⟨found, whole, same⟩
  have long : found = some titledSample := by
    cases whole
    rfl
  rw [long, ← (injected prose).mp later, short] at same
  cases same

end Luminosity.Adapters.StoreProse
