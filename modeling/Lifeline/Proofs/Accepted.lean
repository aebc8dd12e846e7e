import Mathlib.Logic.Basic
import Lifeline.Document.Reader
import Lifeline.Proofs.Keywords
/-!
# Statements that are read

What is read from a line names participants by ids that are not empty, marks no end
of a message twice, gives a note as many targets as it may have and opens a branch
only by a branch keyword. A draft that takes in such a statement fails only where a
branch or an end does not fit the frames that are open.
-/

namespace Lifeline

open Text Text.Pattern

/-- What holds of a statement that was read from a line. -/
def Statement.Sound : Statement → Prop
  | .message m => m.fault? = none ∧ m.source.id ≠ "" ∧ m.target.id ≠ ""
  | .note n => n.fault? = none ∧ ∀ id ∈ n.targets, id ≠ ""
  | .directive x => x.id ≠ ""
  | .declaration p => p.id ≠ ""
  | .links l => l.id ≠ ""
  | .blockBranch b => (BlockKind.ofBranchKeyword? b.keyword).isSome = true
  | _ => True

/-! ## What the readers read -/

/-- A reading that is mapped worked before it was mapped. -/
theorem map_ok {α β : Type} {f : α → β} {r : Reading α} {y : β} (h : r.map f = .ok y) :
    ∃ x, r = .ok x ∧ f x = y := by
  cases r with
  | error e => cases h
  | ok x => exact ⟨x, rfl, Except.ok.inj h⟩

section Readers

variable {line : List Char} {s : Statement}

theorem readId_ok {cs : List Char} {id : String} (h : readId line cs = .ok id) :
    id.toList = trim cs ∧ trim cs ≠ [] ∧ (trim cs).any isReserved = false ∧ Arrow.find? (trim cs) = none := by
  unfold readId at h
  dsimp only at h
  split at h
  · cases h
  · rename_i hne
    split at h
    · cases h
    · rename_i hbad
      simp only [Bool.or_eq_true, not_or, Bool.not_eq_true] at hbad
      obtain rfl := Except.ok.inj h
      exact ⟨String.toList_ofList, by simpa using hne, hbad.1, by simpa using hbad.2⟩

/-- Several ids are read one by one. -/
theorem readIds_ok {pieces : List (List Char)} {ids : List String} (h : readIds line pieces = .ok ids) :
    ids.length = pieces.length ∧ ∀ id ∈ ids, ∃ piece ∈ pieces, readId line piece = .ok id := by
  induction pieces generalizing ids with
  | nil =>
    cases h
    simp
  | cons piece pieces ih =>
    unfold readIds at h
    split at h
    · cases h
    · rename_i id hid
      obtain ⟨rest, hrest, rfl⟩ := map_ok h
      obtain ⟨hlength, hread⟩ := ih hrest
      refine ⟨by simp [hlength], fun i hi => ?_⟩
      rcases List.mem_cons.1 hi with rfl | hi
      · exact ⟨piece, List.mem_cons_self, hid⟩
      · obtain ⟨p, hp, hi⟩ := hread i hi
        exact ⟨p, List.mem_cons_of_mem piece hp, hi⟩

theorem readDeclaration_ok (h : readDeclaration line = .ok s) : ∃ kind cs label id,
    (literal "create".toList (someBlanks declared) line).or (declared line) = some (kind, cs, label) ∧
      readId line cs = .ok id ∧
      s = .declaration { id, kind, label := label.map fun cs => String.ofList (trim cs)
                         created := "create".toList.isPrefixOf line } := by
  unfold readDeclaration at h
  split at h
  · cases h
  · rename_i kind cs label hd
    obtain ⟨id, hid, rfl⟩ := map_ok h
    exact ⟨kind, cs, label, id, hd, hid, rfl⟩

theorem readNote_ok (h : readNote line = .ok s) : ∃ word targets text placement ids,
    noted line = some (word, targets, text) ∧ placementOf word = .ok placement ∧
      readIds line (if placement == .over then splitCommas targets else [targets]) = .ok ids ∧
      s = .note { placement, targets := ids, text := textAfterColon text } := by
  unfold readNote at h
  split at h
  · cases h
  · rename_i word targets text hnoted
    split at h
    · cases h
    · rename_i placement hplacement
      obtain ⟨ids, hids, rfl⟩ := map_ok h
      exact ⟨word, targets, text, placement, ids, hnoted, hplacement, hids, rfl⟩

/-- Links are a single one, or the members of a payload. -/
theorem readLink_ok (h : readLink line = .ok s) : ∃ cs id links, readId line cs = .ok id ∧ s = .links { id, links } ∧
    ((∃ label url, linked line = some (cs, label, url) ∧ links = [⟨label.map .char, url.map .char⟩]) ∨
      ∃ payload, linked line = none ∧ linkedAll line = some (cs, payload) ∧ readPayload line payload = .ok links) := by
  unfold readLink at h
  split at h
  · rename_i cs label url hlinked
    obtain ⟨id, hid, rfl⟩ := map_ok h
    exact ⟨cs, id, _, hid, rfl, .inl ⟨label, url, hlinked, rfl⟩⟩
  · rename_i hlinked
    split at h
    · cases h
    · rename_i cs payload hall
      split at h
      · cases h
      · rename_i links hlinks
        obtain ⟨id, hid, rfl⟩ := map_ok h
        exact ⟨cs, id, links, hid, rfl, .inr ⟨payload, hlinked, hall, hlinks⟩⟩

/-- What follows the keyword of a block is the colour of a rectangle, and the label of any other
block. -/
theorem readBlockStart_ok (h : readBlockStart line = .ok s) : ∃ kind,
    BlockKind.ofKeyword? (String.ofList (splitWord line).1) = some kind ∧
      ((kind = .rect ∧ s = .blockStart { block := { kind, color := Color.label? (splitWord line).2 } }) ∨
        (kind ≠ .rect ∧ s = .blockStart { block := { kind, label := Color.label? (splitWord line).2 } })) := by
  unfold readBlockStart at h
  dsimp only at h
  split at h
  · cases h
  · rename_i hk
    exact ⟨.rect, hk, .inl ⟨rfl, (Except.ok.inj h).symm⟩⟩
  · rename_i kind hne hk
    exact ⟨kind, hk, .inr ⟨fun hr => hne hr, (Except.ok.inj h).symm⟩⟩

theorem readEndpoint_ok {marked : List Char × Bool × Bool} {e : Endpoint} (h : readEndpoint line marked = .ok e) :
    readId line marked.1 = .ok e.id ∧ e.activates = marked.2.1 ∧ e.deactivates = marked.2.2 := by
  obtain ⟨cs, a, d⟩ := marked
  obtain ⟨id, hid, rfl⟩ := map_ok h
  exact ⟨hid, rfl, rfl⟩

/-- The ends of a message stand before and after its first arrow; what follows its head is the
text. -/
theorem readMessage_ok (h : readMessage line = .ok s) : ∃ sighting source target,
    Arrow.find? (messageHead line) = some sighting ∧ readEndpoint line (readSource sighting.before) = .ok source ∧
      readEndpoint line (readTarget sighting.after) = .ok target ∧
      s = .message { source, target, arrow := sighting.arrow
                     text := if (line.drop (messageHead line).length).isEmpty then none
                       else some (textAfterColon ((line.drop (messageHead line).length).drop 1)) } := by
  unfold readMessage at h
  dsimp only at h
  split at h
  · cases h
  · rename_i sighting hfind
    split at h
    · cases h
    · rename_i source hsource
      obtain ⟨target, htarget, rfl⟩ := map_ok h
      exact ⟨sighting, source, target, hfind, hsource, htarget, rfl⟩

/-- A line is read as one of its kind. -/
theorem Statement.ofLine_ok {line : String} (h : Statement.ofLine line = .ok s) :
    ∃ kind, LineKind.ofLine line = .ok kind ∧ Statement.ofKind kind line = .ok s := by
  unfold Statement.ofLine at h
  split at h
  · cases h
  · rename_i kind hkind
    exact ⟨kind, hkind, h⟩

end Readers

/-! ## Sound statements -/

theorem readId_ne {line cs : List Char} {id : String} (h : readId line cs = .ok id) : id ≠ "" := by
  obtain ⟨hid, hne, -, -⟩ := readId_ok h
  rintro rfl
  exact hne hid.symm

theorem splitCommas_ne_nil (cs : List Char) : splitCommas cs ≠ [] := by
  cases cs with
  | nil => simp [splitCommas]
  | cons c cs =>
    unfold splitCommas
    split
    · simp
    · split <;> simp

theorem readDeclaration_sound {line : List Char} {s : Statement} (h : readDeclaration line = .ok s) : s.Sound := by
  obtain ⟨kind, cs, label, id, -, hid, rfl⟩ := readDeclaration_ok h
  exact readId_ne hid

theorem readNote_sound {line : List Char} {s : Statement} (h : readNote line = .ok s) : s.Sound := by
  obtain ⟨word, targets, text, placement, ids, -, -, hids, rfl⟩ := readNote_ok h
  obtain ⟨hl, hread⟩ := readIds_ok hids
  refine ⟨?_, fun id hid => ?_⟩
  · have hnil : ids ≠ [] := by
      rintro rfl
      cases hp : placement == .over with
      | true =>
        simp only [hp, if_true, List.length_nil] at hl
        exact splitCommas_ne_nil targets (List.length_eq_zero_iff.1 hl.symm)
      | false => simp [hp] at hl
    cases placement with
    | left => simp [Note.fault?, hnil]; simpa using hl
    | right => simp [Note.fault?, hnil]; simpa using hl
    | _ => simp [Note.fault?, hnil]
  · obtain ⟨piece, -, hid⟩ := hread id hid
    exact readId_ne hid

theorem readLink_sound {line : List Char} {s : Statement} (h : readLink line = .ok s) : s.Sound := by
  obtain ⟨cs, id, links, hid, rfl, -⟩ := readLink_ok h
  exact readId_ne hid

/-- The marks of an end exclude each other. -/
theorem readSource_marks (cs : List Char) : ¬((readSource cs).2.1 = true ∧ (readSource cs).2.2 = true) := by
  unfold readSource
  dsimp only
  split
  · simp
  · split
    · simp
    · split <;> simp

theorem readTarget_marks (cs : List Char) : ¬((readTarget cs).2.1 = true ∧ (readTarget cs).2.2 = true) := by
  unfold readTarget
  dsimp only
  split
  · simp
  · split
    · simp
    · split
      · simp
      · split <;> simp

theorem readMessage_sound {line : List Char} {s : Statement} (h : readMessage line = .ok s) : s.Sound := by
  obtain ⟨sighting, source, target, -, hsource, htarget, rfl⟩ := readMessage_ok h
  obtain ⟨hs, hsa, hsd⟩ := readEndpoint_ok hsource
  obtain ⟨ht, hta, htd⟩ := readEndpoint_ok htarget
  refine ⟨?_, readId_ne hs, readId_ne ht⟩
  rw [Message.fault?_eq_none_iff]
  simp only [hsa, hsd, hta, htd]
  exact ⟨readSource_marks _, readTarget_marks _⟩

theorem readBlockStart_sound {line : List Char} {s : Statement} (h : readBlockStart line = .ok s) : s.Sound := by
  obtain ⟨kind, -, ⟨-, rfl⟩ | ⟨-, rfl⟩⟩ := readBlockStart_ok h <;> trivial

/-- What is read from a line is sound. -/
theorem Statement.sound_of_ofLine {line : String} {s : Statement} (h : Statement.ofLine line = .ok s) : s.Sound := by
  obtain ⟨kind, hkind, h⟩ := Statement.ofLine_ok h
  cases kind with
  | header | unknown => cases h
  | autonumber | boxStart | close => cases h; trivial
  | participant => exact readDeclaration_sound h
  | destroy => obtain ⟨id, hid, rfl⟩ := map_ok h; exact readId_ne hid
  | activation => obtain ⟨id, hid, rfl⟩ := map_ok h; exact readId_ne hid
  | noteLeft | noteRight | noteOver => exact readNote_sound h
  | link => exact readLink_sound h
  | blockStart => exact readBlockStart_sound h
  | message => exact readMessage_sound h
  | branch =>
    cases h
    exact LineKind.holds_of_ofWord hkind

end Lifeline
